import Codegen.Proofs.Lowering.Draft

/-!
What laying code out does to a draft, whatever the code is: it goes on from an open block to an
open block, and of the blocks that were there it touches only the one under the cursor and those
of the labels that it places.
-/

namespace Codegen

namespace Draft

/-- A block that is empty and open, and that the cursor is not on. -/
structure Waits (d : Draft) (b : BlockId) : Prop where
  ne_cursor : b ≠ d.cursor
  empty : ∃ name, d.block? b = some ⟨name, [], none⟩

/-- The cursor is on an open block, and labels have blocks of their own. -/
structure Valid (d : Draft) : Prop where
  isOpen : ∃ block, d.block? d.cursor = some block ∧ block.terminator = none
  bounded : ∀ {l b}, d.labelled? l = some b → b.index < d.size
  injective : ∀ {l l' b}, d.labelled? l = some b → d.labelled? l' = some b → l = l'

/-- A valid draft in which the blocks of some labels are still to be laid out. -/
structure Ready (d : Draft) (ls : List LabelId) : Prop extends Valid d where
  waits : ∀ {l b}, l ∈ ls → d.labelled? l = some b → d.Waits b

/-- One draft from another, by laying out code that places labels `ls`. -/
structure Extends (d d' : Draft) (ls : List LabelId) : Prop where
  valid : d'.Valid
  size_le : d.size ≤ d'.size
  kept : ∀ {b}, b.index < d.size → b ≠ d.cursor → (∀ l ∈ ls, d.labelled? l ≠ some b) →
    d'.block? b = d.block? b
  grown : ∀ {block}, d.block? d.cursor = some block →
    ∃ block', d'.block? d.cursor = some block' ∧ block.insts <+: block'.insts
  cursor_cases : d'.cursor = d.cursor ∨ d.size ≤ d'.cursor.index ∨
    ∃ l ∈ ls, d.labelled? l = some d'.cursor
  labelled : ∀ {l b}, d.labelled? l = some b → d'.labelled? l = some b
  labelled_cases : ∀ {l b}, d'.labelled? l = some b → d.labelled? l = some b ∨ d.size ≤ b.index
  /-- A label that is met and not placed has its block waiting. -/
  waits_new : ∀ {l b}, l ∉ ls → d.labelled? l = none → d'.labelled? l = some b → d'.Waits b

variable {d d₁ : Draft}

theorem Waits.lt {b : BlockId} (h : d.Waits b) : b.index < d.size := by
  obtain ⟨name, e⟩ := h.empty
  exact lt_of_block? e

theorem Valid.cursor_lt (v : d.Valid) : d.cursor.index < d.size := by
  obtain ⟨block, e, _⟩ := v.isOpen
  exact lt_of_block? e

theorem Valid.turn (v : d.Valid) {b : BlockId} (w : d.Waits b) (exit : Terminator) :
    (d.turn exit b).Valid where
  isOpen := by
    obtain ⟨name, e⟩ := w.empty
    refine ⟨⟨name, [], none⟩, ?_, rfl⟩
    rw [cursor_turn, block?_turn_of_ne w.ne_cursor, e]
  bounded e := by
    rw [size_turn]
    exact v.bounded e
  injective := v.injective

namespace Extends

variable {d d₁ d₂ : Draft} {ls ls' : List LabelId} {b : BlockId}

theorem refl (v : d.Valid) : d.Extends d [] where
  valid := v
  size_le := Nat.le_refl _
  kept _ _ _ := rfl
  grown e := ⟨_, e, List.prefix_refl _⟩
  cursor_cases := .inl rfl
  labelled e := e
  labelled_cases e := .inl e
  waits_new _ n e := by simp [n] at e

theorem mono (h : d.Extends d₁ ls) (sub : ∀ l ∈ ls, l ∈ ls') : d.Extends d₁ ls' where
  valid := h.valid
  size_le := h.size_le
  kept lt ne n := h.kept lt ne fun l m => n l (sub l m)
  grown := h.grown
  cursor_cases := h.cursor_cases.imp_right (Or.imp_right fun ⟨l, m, e⟩ => ⟨l, sub l m, e⟩)
  labelled := h.labelled
  labelled_cases := h.labelled_cases
  waits_new n := h.waits_new fun m => n (sub _ m)

/-- The cursor comes to no block that is kept. -/
theorem ne_cursor (h : d.Extends d₁ ls) (lt : b.index < d.size) (ne : b ≠ d.cursor)
    (n : ∀ l ∈ ls, d.labelled? l ≠ some b) : b ≠ d₁.cursor := by
  intro e
  rcases h.cursor_cases with c | c | ⟨l, m, c⟩
  · exact ne (e.trans c)
  · rw [e] at lt
    omega
  · exact n l m (by rw [c, e])

/-- A waiting block that the code does not place still waits. -/
theorem waits (h : d.Extends d₁ ls) (w : d.Waits b) (n : ∀ l ∈ ls, d.labelled? l ≠ some b) :
    d₁.Waits b where
  ne_cursor := h.ne_cursor w.lt w.ne_cursor n
  empty := by
    rw [h.kept w.lt w.ne_cursor n]
    exact w.empty

theorem ready (h : d.Extends d₁ ls) (r : d.Ready (ls ++ ls')) (nodup : (ls ++ ls').Nodup) :
    d₁.Ready ls' where
  toValid := h.valid
  waits {l b} m e := by
    have out : l ∉ ls := fun m' => (List.nodup_append.1 nodup).2.2 l m' l m rfl
    cases old : d.labelled? l with
    | none => exact h.waits_new out old e
    | some c =>
      have : c = b := by simpa [h.labelled old] using e
      subst this
      refine h.waits (r.waits (List.mem_append_right _ m) old) fun l' m' e' => ?_
      exact out (r.injective old e' ▸ m')

theorem trans (h : d.Extends d₁ ls) (h' : d₁.Extends d₂ ls') (r : d.Ready (ls ++ ls')) :
    d.Extends d₂ (ls ++ ls') where
  valid := h'.valid
  size_le := Nat.le_trans h.size_le h'.size_le
  kept {b} lt ne n := by
    have old : ∀ l ∈ ls, d.labelled? l ≠ some b := fun l m => n l (List.mem_append_left _ m)
    rw [← h.kept lt ne old]
    refine h'.kept (Nat.lt_of_lt_of_le lt h.size_le) (h.ne_cursor lt ne old) fun l m e => ?_
    rcases h.labelled_cases e with e' | e'
    · exact n l (List.mem_append_right _ m) e'
    · omega
  grown {block} e := by
    obtain ⟨block₁, e₁, p₁⟩ := h.grown e
    by_cases c : d.cursor = d₁.cursor
    · rw [c] at e₁
      obtain ⟨block₂, e₂, p₂⟩ := h'.grown e₁
      exact ⟨block₂, c ▸ e₂, p₁.trans p₂⟩
    · refine ⟨block₁, ?_, p₁⟩
      rw [h'.kept (lt_of_block? e₁) c fun l m e' => ?_, e₁]
      rcases h.labelled_cases e' with e' | e'
      · exact (r.waits (List.mem_append_right _ m) e').ne_cursor rfl
      · have := lt_of_block? e
        omega
  cursor_cases := by
    rcases h'.cursor_cases with c | c | ⟨l, m, c⟩
    · rw [c]
      exact h.cursor_cases.imp_right
        (Or.imp_right fun ⟨l, m, e⟩ => ⟨l, List.mem_append_left _ m, e⟩)
    · exact .inr (.inl (Nat.le_trans h.size_le c))
    · rcases h.labelled_cases c with c' | c'
      · exact .inr (.inr ⟨l, List.mem_append_right _ m, c'⟩)
      · exact .inr (.inl c')
  labelled e := h'.labelled (h.labelled e)
  labelled_cases e := by
    rcases h'.labelled_cases e with e' | e'
    · exact h.labelled_cases e'
    · exact .inr (Nat.le_trans h.size_le e')
  waits_new {l b} n old e := by
    have out : l ∉ ls' := fun m => n (List.mem_append_right _ m)
    cases mid : d₁.labelled? l with
    | none => exact h'.waits_new out mid e
    | some c =>
      have : c = b := by simpa [h'.labelled mid] using e
      subst this
      have w := h.waits_new (fun m => n (List.mem_append_left _ m)) old mid
      exact h'.waits w fun l' m' e' => out (h.valid.injective mid e' ▸ m')

/-- The cursor goes on in a waiting block that is new or belongs to a placed label. -/
theorem turn (h : d.Extends d₁ ls) (w : d₁.Waits b)
    (new : d.size ≤ b.index ∨ ∃ l ∈ ls, d.labelled? l = some b)
    (unlabelled : ∀ l, l ∉ ls → d₁.labelled? l ≠ some b) (exit : Terminator) :
    d.Extends (d₁.turn exit b) ls where
  valid := h.valid.turn w exit
  size_le := by simpa using h.size_le
  kept lt ne n := by
    rw [block?_turn_of_ne (h.ne_cursor lt ne n)]
    exact h.kept lt ne n
  grown {block} e := by
    obtain ⟨block₁, e₁, p₁⟩ := h.grown e
    by_cases c : d.cursor = d₁.cursor
    · rw [c] at e₁ ⊢
      exact ⟨_, block?_turn_cursor e₁ _ _, p₁⟩
    · exact ⟨block₁, by rw [block?_turn_of_ne c, e₁], p₁⟩
  cursor_cases := .inr new
  labelled := h.labelled
  labelled_cases := h.labelled_cases
  waits_new {l c} n old e := by
    have wc := h.waits_new n old e
    refine ⟨fun e' => ?_, ?_⟩
    · rw [cursor_turn] at e'
      exact unlabelled l n (e' ▸ e)
    · rw [block?_turn_of_ne wc.ne_cursor]
      exact wc.empty

end Extends

section

variable {d : Draft}

theorem Valid.count (v : d.Valid) (f : Counts → Counts) : (d.count f).Valid := ⟨v.1, v.2, v.3⟩

theorem Waits.count {b : BlockId} (w : d.Waits b) (f : Counts → Counts) : (d.count f).Waits b :=
  ⟨w.1, w.2⟩

theorem Extends.count {d₁ : Draft} {ls : List LabelId} (h : d.Extends d₁ ls) (f : Counts → Counts) :
    d.Extends (d₁.count f) ls :=
  ⟨h.valid.count f, h.2, h.3, h.4, h.5, h.6, h.7, fun n e e' => (h.waits_new n e e').count f⟩

theorem Valid.ne_fresh (v : d.Valid) {l : LabelId} : d.labelled? l ≠ some d.fresh := by
  intro e
  exact Nat.lt_irrefl _ (v.bounded e)

theorem Valid.fresh_ne_cursor (v : d.Valid) : d.fresh ≠ d.cursor := by
  intro e
  have := v.cursor_lt
  rw [← e] at this
  exact Nat.lt_irrefl _ this

theorem ne_fresh_of_lt {b : BlockId} (lt : b.index < d.size) : b ≠ d.fresh := by
  intro e
  rw [e] at lt
  exact Nat.lt_irrefl _ lt

theorem Valid.extends_newBlock (v : d.Valid) (name : String) : d.Extends (d.newBlock name) [] where
  valid := by
    obtain ⟨block, e, o⟩ := v.isOpen
    refine ⟨⟨block, ?_, o⟩, fun e => ?_, v.injective⟩
    · rw [cursor_newBlock, block?_newBlock_of_ne v.fresh_ne_cursor.symm, e]
    · rw [size_newBlock]
      exact Nat.lt_succ_of_lt (v.bounded e)
  size_le := by simp
  kept lt _ _ := block?_newBlock_of_ne (ne_fresh_of_lt lt) name
  grown e := ⟨_, by rw [block?_newBlock_of_ne v.fresh_ne_cursor.symm, e], List.prefix_refl _⟩
  cursor_cases := .inl rfl
  labelled e := e
  labelled_cases e := .inl e
  waits_new _ n e := by simp [n] at e

theorem Valid.extends_add (v : d.Valid) (insts : List InstId) : d.Extends (d.add insts) [] where
  valid := by
    obtain ⟨block, e, o⟩ := v.isOpen
    refine ⟨⟨_, block?_add_cursor e insts, o⟩, fun e => ?_, v.injective⟩
    rw [size_add]
    exact v.bounded e
  size_le := by simp
  kept _ ne _ := block?_add_of_ne ne insts
  grown e := ⟨_, block?_add_cursor e insts, List.prefix_append _ _⟩
  cursor_cases := .inl rfl
  labelled e := e
  labelled_cases e := .inl e
  waits_new _ n e := by simp [n] at e

theorem Valid.ready (v : d.Valid) : d.Ready [] := ⟨v, fun m => by simp at m⟩

theorem Ready.left {ls ls' : List LabelId} (r : d.Ready (ls ++ ls')) : d.Ready ls :=
  ⟨r.toValid, fun m e => r.waits (List.mem_append_left _ m) e⟩

end

/-! ## Blocks kept for later -/

/-- A waiting block that belongs to no label. -/
structure Reserved (d : Draft) (b : BlockId) : Prop extends Waits d b where
  unlabelled : ∀ l, d.labelled? l ≠ some b

section

variable {d d₁ : Draft} {ls : List LabelId} {b c : BlockId}

theorem Extends.reserved (h : d.Extends d₁ ls) (k : d.Reserved b) : d₁.Reserved b where
  toWaits := h.waits k.toWaits fun l _ => k.unlabelled l
  unlabelled l e := by
    rcases h.labelled_cases e with e' | e'
    · exact k.unlabelled l e'
    · have := k.lt
      omega

theorem Reserved.count (k : d.Reserved b) (f : Counts → Counts) : (d.count f).Reserved b :=
  ⟨k.toWaits.count f, k.unlabelled⟩

theorem Valid.reserved_fresh (v : d.Valid) (name : String) : (d.newBlock name).Reserved d.fresh :=
  ⟨⟨v.fresh_ne_cursor, name, block?_newBlock_fresh d name⟩, fun _ => v.ne_fresh⟩

theorem Reserved.turn (k : d.Reserved b) (ne : b ≠ c) (exit : Terminator) :
    (d.turn exit c).Reserved b where
  ne_cursor := ne
  empty := by
    rw [block?_turn_of_ne k.ne_cursor]
    exact k.empty
  unlabelled := k.unlabelled

theorem Ready.turn (r : d.Ready ls) (k : d.Reserved b) (exit : Terminator) :
    (d.turn exit b).Ready ls where
  toValid := r.toValid.turn k.toWaits exit
  waits {l c} m e := by
    have w := r.waits m e
    refine ⟨fun e' => k.unlabelled l ?_, ?_⟩
    · rw [cursor_turn] at e'
      exact e' ▸ e
    · rw [block?_turn_of_ne w.ne_cursor]
      exact w.empty

/-- The cursor goes on in a block that was kept for it. -/
theorem Extends.turn_reserved (h : d.Extends d₁ ls) (k : d₁.Reserved b) (le : d.size ≤ b.index)
    (exit : Terminator) : d.Extends (d₁.turn exit b) ls :=
  h.turn k.toWaits (.inl le) (fun l _ => k.unlabelled l) exit

theorem Extends.newBlock (h : d.Extends d₁ ls) (r : d.Ready ls) (name : String) :
    d.Extends (d₁.newBlock name) ls := by
  have := h.trans (h.valid.extends_newBlock name) (by simpa using r)
  rwa [List.append_nil] at this

end

/-- One draft from another, by new blocks kept for later. -/
structure Spare (d d' : Draft) (n : Nat) : Prop where
  start : d.Valid
  extend : d.Extends d' []
  size_eq : d'.size = d.size + n
  cursor_eq : d'.cursor = d.cursor
  block_eq : d'.block? d.cursor = d.block? d.cursor
  reserved : ∀ {i}, i < n → d'.Reserved ⟨d.size + i⟩

namespace Spare

variable {d d₁ : Draft} {n : Nat}

theorem refl (v : d.Valid) : d.Spare d 0 := ⟨v, .refl v, rfl, rfl, rfl, fun lt => by omega⟩

theorem count (s : d.Spare d₁ n) (f : Counts → Counts) : d.Spare (d₁.count f) n :=
  ⟨s.start, s.extend.count f, s.size_eq, s.cursor_eq, s.block_eq, fun lt => (s.reserved lt).count f⟩

theorem newBlock (s : d.Spare d₁ n) (name : String) : d.Spare (d₁.newBlock name) (n + 1) where
  start := s.start
  extend := s.extend.newBlock s.start.ready name
  size_eq := by rw [size_newBlock, s.size_eq, Nat.add_assoc]
  cursor_eq := s.cursor_eq
  block_eq := by
    rw [← s.cursor_eq, block?_newBlock_of_ne s.extend.valid.fresh_ne_cursor.symm, s.cursor_eq,
      s.block_eq]
  reserved {i} lt := by
    by_cases e : i = n
    · subst e
      rw [← s.size_eq]
      exact s.extend.valid.reserved_fresh name
    · exact (s.extend.valid.extends_newBlock name).reserved (s.reserved (by omega))

theorem newCases (s : d.Spare d₁ n) (cases : Nat) : d.Spare (d₁.newCases cases) (n + cases) := by
  induction cases generalizing d₁ n with
  | zero => exact s
  | succ k ih =>
    have := ih ((s.newBlock s!"case.{d₁.counts.cases}").count fun c =>
      { c with cases := c.cases + 1 })
    rw [Nat.add_right_comm] at this
    exact this

end Spare

/-! ## Leaving a block -/

/-- One draft from another: the cursor leaves for a new block, after which `n` more are kept. -/
structure Leaves (d d' : Draft) (exit : Terminator) (n : Nat) : Prop where
  extend : d.Extends d' []
  cursor_eq : d'.cursor = d.fresh
  closed : ∀ {block}, d.block? d.cursor = some block →
    d'.block? d.cursor = some { block with terminator := some exit }
  empty : ∃ name, d'.block? d.fresh = some ⟨name, [], none⟩
  reserved : ∀ {i}, 0 < i → i ≤ n → d'.Reserved ⟨d.size + i⟩

theorem Spare.leaves {n : Nat} (s : d.Spare d₁ (n + 1)) (exit : Terminator) :
    d.Leaves (d₁.turn exit d.fresh) exit n where
  extend := s.extend.turn_reserved (s.reserved (Nat.succ_pos n)) (Nat.le_refl _) exit
  cursor_eq := rfl
  closed e := by
    rw [← s.block_eq] at e
    rw [← s.cursor_eq] at e ⊢
    exact block?_turn_cursor e exit d.fresh
  empty := by
    have k : d₁.Reserved d.fresh := s.reserved (Nat.succ_pos n)
    rw [block?_turn_of_ne k.ne_cursor]
    exact k.empty
  reserved {i} pos le := by
    refine (s.reserved (by omega)).turn ?_ exit
    intro e
    have : d.size + i = d.size := congrArg BlockId.index e
    omega

section

variable {d : Draft} (v : d.Valid)

include v

theorem Valid.leaves_drop (exit : Terminator) : d.Leaves (d.drop exit) exit 0 :=
  (((Spare.refl v).newBlock _).count _).leaves exit

theorem Valid.leaves_pass (cond : Value) (selected : BlockId) :
    d.Leaves (d.pass cond selected) (.branch cond selected d.fresh) 0 :=
  (((Spare.refl v).newBlock _).count _).leaves _

theorem Valid.leaves_fork (cond : Value) :
    d.Leaves (d.fork cond) (.branch cond d.fresh ⟨d.size + 1⟩) 1 :=
  ((((Spare.refl v).newBlock _).newBlock _).count _).leaves _

theorem Valid.leaves_forkElse (cond : Value) :
    d.Leaves (d.forkElse cond) (.branch cond d.fresh ⟨d.size + 1⟩) 2 :=
  (((((Spare.refl v).newBlock _).newBlock _).newBlock _).count _).leaves _

theorem Valid.spare_newSwitch (cases : Nat) : d.Spare (d.newSwitch cases) (cases + 1) := by
  have := (((Spare.refl v).count fun c => { c with switches := d.counts.switches + 1 }).newCases
    cases).newBlock s!"switch.exit.{d.counts.switches}"
  rwa [Nat.zero_add] at this

end

theorem Extends.add {ls : List LabelId} (h : d.Extends d₁ ls) (r : d.Ready ls)
    (insts : List InstId) : d.Extends (d₁.add insts) ls := by
  have := h.trans (h.valid.extends_add insts) (by simpa using r)
  rwa [List.append_nil] at this

theorem Extends.pass {ls : List LabelId} (h : d.Extends d₁ ls) (r : d.Ready ls) (cond : Value)
    (selected : BlockId) : d.Extends (d₁.pass cond selected) ls := by
  have := h.trans (h.valid.leaves_pass cond selected).extend (by simpa using r)
  rwa [List.append_nil] at this

/-! ## Labels -/

section

variable {d : Draft} {l : LabelId}

theorem labelled?_meet (d : Draft) (l : LabelId) : (d.meet l).labelled? l = some (d.target l) := by
  unfold meet target
  split
  · rename_i e
    simp [e]
  · rename_i e
    simp [labelled?_mark, e]

theorem target_cases (d : Draft) (l : LabelId) :
    d.labelled? l = some (d.target l) ∨ d.labelled? l = none ∧ d.target l = d.fresh := by
  unfold target
  cases e : d.labelled? l <;> simp

theorem cursor_meet (d : Draft) (l : LabelId) : (d.meet l).cursor = d.cursor := by
  unfold meet
  split <;> simp

theorem Valid.block?_meet_cursor (v : d.Valid) (l : LabelId) :
    (d.meet l).block? d.cursor = d.block? d.cursor := by
  unfold meet
  split
  · rfl
  · exact block?_newBlock_of_ne v.fresh_ne_cursor.symm _

/-- A new block for a label that has none. -/
theorem Valid.extends_mark (v : d.Valid) (e : d.labelled? l = none) (name : String) :
    d.Extends ((d.newBlock name).mark l d.fresh) [] := by
  have h := v.extends_newBlock name
  refine ⟨⟨h.valid.isOpen, fun {k b} m => ?_, fun {k k' b} m m' => ?_⟩, h.size_le, h.kept, h.grown,
    h.cursor_cases, fun {k b} m => ?_, fun {k b} m => ?_, fun {k b} _ old m => ?_⟩
  · rw [labelled?_mark] at m
    split at m
    · cases m
      simp [fresh]
    · exact h.valid.bounded m
  · rw [labelled?_mark] at m m'
    split at m <;> split at m'
    · simp_all
    · cases m
      exact absurd m' v.ne_fresh
    · cases m'
      exact absurd m v.ne_fresh
    · exact v.injective m m'
  · rw [labelled?_mark, if_neg (fun c => by simp [c, e] at m)]
    exact m
  · rw [labelled?_mark] at m
    split at m
    · cases m
      exact .inr (Nat.le_refl _)
    · exact .inl m
  · rw [labelled?_mark] at m
    split at m
    · cases m
      exact ⟨v.fresh_ne_cursor, name, block?_newBlock_fresh d name⟩
    · simp [old] at m

theorem Valid.extends_meet (v : d.Valid) (l : LabelId) : d.Extends (d.meet l) [] := by
  unfold meet
  split
  · exact .refl v
  · rename_i e
    exact v.extends_mark e _

theorem Ready.waits_target (r : d.Ready [l]) : (d.meet l).Waits (d.target l) := by
  have h := r.toValid.extends_meet l
  rcases target_cases d l with e | ⟨e, _⟩
  · exact h.waits (r.waits (by simp) e) (by simp)
  · exact h.waits_new (by simp) e (labelled?_meet d l)

theorem Ready.extends_label (r : d.Ready [l]) :
    d.Extends ((d.meet l).turn (.jump (d.target l)) (d.target l)) [l] := by
  have h := r.toValid.extends_meet l
  refine (h.mono (by simp)).turn r.waits_target ?_ (fun l' n e => ?_) _
  · rcases target_cases d l with e | ⟨_, e⟩
    · exact .inr ⟨l, by simp, e⟩
    · exact .inl (by rw [e]; exact Nat.le_refl _)
  · exact n (by simp [h.valid.injective e (labelled?_meet d l)])

end

end Draft

/-! ## What laying code out does to a draft -/

open Draft

mutual

theorem Code.extends_lower : ∀ (code : Code) {d : Draft}, d.Ready code.labels →
    code.labels.Nodup → d.Extends (code.lower d) code.labels
  | .skip, _, r, _ => .refl r.toValid
  | .seq first second, d, r, nodup => by
    have h₁ := first.extends_lower r.left (List.nodup_append.1 nodup).1
    have h₂ := second.extends_lower (h₁.ready r nodup) (List.nodup_append.1 nodup).2.1
    exact h₁.trans h₂ r
  | .inst id, _, r, _ => r.toValid.extends_add [id]
  | .leave value, _, r, _ => (r.toValid.leaves_drop (.ret value)).extend
  | .label l, _, r, _ => r.extends_label
  | .goto l, d, r, _ => by
    have h := r.toValid.extends_meet l
    exact h.trans (h.valid.leaves_drop (.jump (d.target l))).extend r
  | .ifThen cond body, d, r, nodup => by
    have f := r.toValid.leaves_fork cond
    have h := body.extends_lower (f.extend.ready r nodup) nodup
    exact (f.extend.trans h r).turn_reserved (h.reserved (f.reserved (by omega) (by omega)))
      (Nat.le_add_right _ _) _
  | .ifElse cond body other, d, r, nodup => by
    have f := r.toValid.leaves_forkElse cond
    have r₁ := f.extend.ready r nodup
    have h₁ := body.extends_lower r₁.left (List.nodup_append.1 nodup).1
    have arm := h₁.reserved (f.reserved Nat.one_pos (by omega))
    have join := h₁.reserved (f.reserved Nat.two_pos (Nat.le_refl 2))
    have t := (f.extend.trans h₁ r.left).turn_reserved arm (Nat.le_add_right _ _)
      (.jump ⟨d.size + 2⟩)
    have h₂ := other.extends_lower (t.ready r nodup) (List.nodup_append.1 nodup).2.1
    exact (t.trans h₂ r).turn_reserved (h₂.reserved (join.turn (by simp) _))
      (Nat.le_add_right _ _) _
  | .switch _ tests default bodies, d, r, nodup => by
    have s := r.toValid.spare_newSwitch bodies.length
    have r₁ := s.extend.ready r nodup
    have h := tests.extends_lower (bodies.place d.size) r₁.left (List.nodup_append.1 nodup).1
    have first := h.reserved (s.reserved (Nat.succ_pos bodies.length))
    have t := (s.extend.trans h r.left).turn_reserved first (Nat.le_refl _)
      (.jump (bodies.place d.size (default.getD bodies.length)))
    refine bodies.extends_lower d.size t r nodup (Nat.le_refl _) fun i lt => ?_
    have k := h.reserved (s.reserved (Nat.succ_lt_succ lt))
    exact k.turn (by simp) _

theorem Tests.extends_lower : ∀ (tests : Tests) {d : Draft} (place : Nat → BlockId),
    d.Ready tests.labels → tests.labels.Nodup → d.Extends (tests.lower place d) tests.labels
  | .done, _, _, r, _ => .refl r.toValid
  | .test eval value compare body rest, d, place, r, nodup => by
    have h₁ := eval.extends_lower r.left (List.nodup_append.1 nodup).1
    have h₂ := h₁.add r.left [compare]
    have h₃ := h₂.pass r.left (.inst compare) (place body)
    have h₄ := rest.extends_lower place (h₃.ready r nodup) (List.nodup_append.1 nodup).2.1
    exact h₃.trans h₄ r

/-- Bodies go on in blocks kept for them, which are new to the draft `d` of the whole switch. -/
theorem Bodies.extends_lower : ∀ (bodies : Bodies) {d d₁ : Draft} {ls : List LabelId} (base : Nat),
    d.Extends d₁ ls → d.Ready (ls ++ bodies.labels) → (ls ++ bodies.labels).Nodup →
    d.size ≤ base → (∀ i, i < bodies.length → d₁.Reserved ⟨base + (i + 1)⟩) →
    d.Extends (bodies.lower base d₁) (ls ++ bodies.labels)
  | .nil, d, d₁, ls, base, h, _, _, _, _ => by
    rw [Bodies.labels, List.append_nil]
    exact h
  | .cons body rest, d, d₁, ls, base, h, r, nodup, le, kept => by
    have h₁ := body.extends_lower (h.ready r nodup).left
      (List.nodup_append.1 (List.nodup_append.1 nodup).2.1).1
    rw [Bodies.labels, ← List.append_assoc] at r nodup ⊢
    have next := h₁.reserved (kept 0 (Nat.succ_pos _))
    have t := (h.trans h₁ r.left).turn_reserved next (Nat.le_succ_of_le le) (.jump ⟨base + 1⟩)
    refine rest.extends_lower (base + 1) t r nodup (Nat.le_succ_of_le le) fun i lt => ?_
    have k := h₁.reserved (kept (i + 1) (Nat.succ_lt_succ lt))
    rw [Nat.add_right_comm]
    exact k.turn (by simp) _

end

end Codegen
