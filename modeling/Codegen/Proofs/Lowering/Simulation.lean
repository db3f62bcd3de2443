import Codegen.Proofs.Lowering.Frame
import Codegen.Proofs.Lowering.Meaning

/-!
A finished body does what the code that was laid out in it says. At each point of the code, what
is still to be done is what the body does from where the cursor stands.
-/

namespace Codegen

namespace Draft

/-! ## Drafts on the way to a finished one -/

/-- Blocks get longer until they are closed, and labels stay where they are. -/
structure Grows (d f : Draft) : Prop where
  block : ∀ {b block}, d.block? b = some block → ∃ block', f.block? b = some block' ∧
    block.insts <+: block'.insts ∧ (block.terminator.isSome → block' = block)
  labelled : ∀ {l b}, d.labelled? l = some b → f.labelled? l = some b

theorem Grows.refl (d : Draft) : d.Grows d :=
  ⟨fun e => ⟨_, e, List.prefix_refl _, fun _ => rfl⟩, id⟩

variable {d d₁ : Draft}

theorem Grows.trans {d₂ : Draft} (g : d.Grows d₁) (g' : d₁.Grows d₂) : d.Grows d₂ where
  block e := by
    obtain ⟨block₁, e₁, p₁, c₁⟩ := g.block e
    obtain ⟨block₂, e₂, p₂, c₂⟩ := g'.block e₁
    refine ⟨block₂, e₂, p₁.trans p₂, fun closed => ?_⟩
    have := c₁ closed
    subst this
    exact c₂ closed
  labelled e := g'.labelled (g.labelled e)

theorem Extends.grows {ls : List LabelId} (h : d.Extends d₁ ls) (r : d.Ready ls) : d.Grows d₁ where
  block {b block} e := by
    by_cases c : b = d.cursor
    · subst c
      obtain ⟨block', e', p⟩ := h.grown e
      obtain ⟨_, e₀, o⟩ := r.isOpen
      rw [e] at e₀
      cases e₀
      exact ⟨block', e', p, by simp [o]⟩
    by_cases m : ∃ l ∈ ls, d.labelled? l = some b
    · obtain ⟨l, m, el⟩ := m
      obtain ⟨name, w⟩ := (r.waits m el).empty
      rw [e] at w
      cases w
      have lt : b.index < d₁.builder.blocks.size := Nat.lt_of_lt_of_le (lt_of_block? e) h.size_le
      exact ⟨_, Array.getElem?_eq_getElem lt, List.nil_prefix, by simp⟩
    · have n : ∀ l ∈ ls, d.labelled? l ≠ some b := fun l ml el => m ⟨l, ml, el⟩
      exact ⟨block, by rw [h.kept (lt_of_block? e) c n, e], List.prefix_refl _, fun _ => rfl⟩
  labelled := h.labelled

theorem Valid.grows_turn (v : d.Valid) (exit : Terminator) (next : BlockId) :
    d.Grows (d.turn exit next) where
  block {b block} e := by
    by_cases c : b = d.cursor
    · subst c
      obtain ⟨_, e₀, o⟩ := v.isOpen
      rw [e] at e₀
      cases e₀
      exact ⟨_, block?_turn_cursor e exit next, List.prefix_refl _, by simp [o]⟩
    · exact ⟨block, by rw [block?_turn_of_ne c, e], List.prefix_refl _, fun _ => rfl⟩
  labelled e := e

/-- How many instructions are in the block under the cursor. -/
def here (d : Draft) : Nat := (d.block? d.cursor).elim 0 (·.insts.length)

theorem here_eq {block : OpenBlock} (e : d.block? d.cursor = some block) :
    d.here = block.insts.length := by
  simp [here, e]

end Draft

/-! ## What is to be done from a point on -/

section

variable {σ : Type} (I : Interp σ)

/-- What a body does in a block past a number of its instructions. -/
def Body.after (body : Body) (b : BlockId) (past : Nat) : Cont σ := fun n =>
  match body.blocks[b.index]? with
  | none => .stop .astray
  | some block => Trace.execAll I (block.insts.drop past)
    (block.terminator.run I fun t => Cont.hop (fun m => body.runBlock I m t) n)

theorem Body.after_zero (body : Body) (b : BlockId) :
    body.after I b 0 = fun n => body.runBlock I n b := by
  funext n
  cases n <;> simp only [after, runBlock, enter, List.drop_zero] <;> rfl

/-- What a body does from an exit on. -/
def Terminator.after (body : Body) (exit : Terminator) : Cont σ := fun n =>
  exit.run I fun t => Cont.hop (body.after I t 0) n

/-! ## Where the cursor stands -/

/-- What a finished body does from where the cursor of a draft stands. -/
def Draft.ahead (f : Draft) (void : Bool) (d : Draft) : Cont σ :=
  (f.builder.finish void).after I d.cursor d.here

section

variable {f d d₁ : Draft} {void : Bool}

theorem Body.after_closed {b : BlockId} {name : String} {insts : List InstId} {exit : Terminator}
    (e : f.block? b = some ⟨name, insts, some exit⟩) :
    (f.builder.finish void).after I b insts.length = exit.after I (f.builder.finish void) := by
  funext n
  simp only [after, Draft.blocks_finish e, Option.getD_some, List.drop_length, Terminator.after,
    after_zero]
  rfl

theorem Draft.ahead_of_empty {name : String} {b : BlockId} (c : d.cursor = b)
    (e : d.block? b = some ⟨name, [], none⟩) :
    f.ahead I void d = (f.builder.finish void).after I b 0 := by
  subst c
  rw [ahead, here_eq e]
  rfl

theorem Draft.ahead_closed {exit : Terminator} (v : d.Valid) (g : d₁.Grows f)
    (closed : ∀ {block}, d.block? d.cursor = some block →
      d₁.block? d.cursor = some { block with terminator := some exit }) :
    f.ahead I void d = exit.after I (f.builder.finish void) := by
  obtain ⟨block, e, _⟩ := v.isOpen
  obtain ⟨block', e', _, same⟩ := g.block (closed e)
  have := same rfl
  subst this
  rw [ahead, here_eq e]
  exact Body.after_closed I e'

theorem Draft.ahead_add {id : InstId} (v : d.Valid) (g : (d.add [id]).Grows f) :
    f.ahead I void d = Cont.exec I id (f.ahead I void (d.add [id])) := by
  obtain ⟨block, e, _⟩ := v.isOpen
  have e₁ := block?_add_cursor e [id]
  obtain ⟨block', e', ⟨rest, p⟩, _⟩ := g.block e₁
  funext n
  simp only [ahead, cursor_add, here_eq e, here_eq (d := d.add [id]) e₁, Body.after,
    blocks_finish e', Cont.exec, ← p]
  simp [Trace.execAll]

end

end

/-! ## Agreement up to a number of transfers -/

namespace Cont

variable {σ : Type}

/-- The same as long as there are less than `m` transfers. -/
def Agree (m : Nat) (k k' : Cont σ) : Prop := ∀ n, n < m → k n = k' n

namespace Agree

variable {I : Interp σ} {m : Nat} {k k' yes yes' no no' : Cont σ}

theorem refl (m : Nat) (k : Cont σ) : Agree m k k := fun _ _ => rfl

theorem of_succ (h : Agree (m + 1) k k') : Agree m k k' := fun n lt => h n (Nat.lt_succ_of_lt lt)

theorem hop (h : Agree m k k') : Agree (m + 1) (hop k) (hop k') := by
  intro n lt
  cases n with
  | zero => rfl
  | succ n => exact h n (Nat.lt_of_succ_lt_succ lt)

theorem exec (h : Agree m k k') (id : InstId) : Agree m (exec I id k) (exec I id k') := by
  intro n lt
  simp only [Cont.exec, h n lt]

theorem choose (h : Agree m yes yes') (h' : Agree m no no') (cond : Value) :
    Agree (m + 1) (choose I cond yes no) (choose I cond yes' no') := by
  intro n lt
  funext s
  simp only [Cont.choose, h.hop n lt, h'.hop n lt]

/-- A comparison tells what the choice after it asks for. -/
theorem test {compare : InstId} {x y : Value}
    (decides : ∀ s, I.truth (I.exec compare s) (.inst compare) = I.equal s x y)
    (h : Agree m yes yes') (h' : Agree m no no') :
    Agree (m + 1) (test I compare x y yes no)
      (Cont.exec I compare (Cont.choose I (.inst compare) yes' no')) := by
  intro n lt
  funext s
  simp only [Cont.test, Cont.exec, Trace.exec, Cont.choose, decides, ← h.hop n lt, ← h'.hop n lt]
  split <;> rfl

end Agree

end Cont

/-! ## Code and its blocks -/

section

variable {σ : Type} {I : Interp σ} {f d d₁ : Draft} {void : Bool} {env : LabelId → Cont σ}
  {m n : Nat} {cs cs' : List Placed} {exit : Terminator} {gs gs' : List LabelId} {l : LabelId}

open Cont Draft

/-- What the surroundings of code provide: jumps go to the blocks of labels, and comparisons tell
whether values are equal. -/
structure Supports (I : Interp σ) (f : Draft) (void : Bool) (env : LabelId → Cont σ) (m : Nat)
    (gotos : List LabelId) (placed : List Placed) : Prop where
  jumps : ∀ {l b}, l ∈ gotos → f.labelled? l = some b →
    Agree m (env l) ((f.builder.finish void).after I b 0)
  decides : I.Decides placed

theorem Supports.left (h : Supports I f void env m (gs ++ gs') (cs ++ cs')) :
    Supports I f void env m gs cs :=
  ⟨fun m => h.jumps (List.mem_append_left _ m), fun m => h.decides (List.mem_append_left _ m)⟩

theorem Supports.right (h : Supports I f void env m (gs ++ gs') (cs ++ cs')) :
    Supports I f void env m gs' cs' :=
  ⟨fun m => h.jumps (List.mem_append_right _ m), fun m => h.decides (List.mem_append_right _ m)⟩

theorem Supports.tail {c : Placed} (h : Supports I f void env m gs (c :: cs)) :
    Supports I f void env m gs cs :=
  ⟨h.jumps, fun m => h.decides (List.mem_cons_of_mem _ m)⟩

theorem Draft.Valid.ahead_meet (v : d.Valid) (l : LabelId) :
    f.ahead I void (d.meet l) = f.ahead I void d := by
  simp only [ahead, here, cursor_meet, v.block?_meet_cursor]

theorem Draft.Valid.ahead_turn (v : d.Valid) {next : BlockId} (g : (d.turn exit next).Grows f) :
    f.ahead I void d = exit.after I (f.builder.finish void) :=
  ahead_closed I v g fun e => block?_turn_cursor e exit next

/-- A rest after a jump, where the cursor left by that jump. -/
theorem Draft.Valid.agree_jump (v : d.Valid) {t next : BlockId} {k : Cont σ}
    (g : (d.turn (.jump t) next).Grows f)
    (h : Agree (m + 1) k ((f.builder.finish void).after I t 0)) :
    Agree (m + 1) (hop k) (f.ahead I void d) := by
  rw [v.ahead_turn g]
  exact h.of_succ.hop

theorem Draft.Waits.ahead_turn {b : BlockId} (w : d.Waits b) (exit : Terminator) :
    f.ahead I void (d.turn exit b) = (f.builder.finish void).after I b 0 := by
  obtain ⟨name, e⟩ := w.empty
  exact ahead_of_empty I rfl (by rw [block?_turn_of_ne w.ne_cursor, e])

theorem Draft.Waits.agree_turn {b : BlockId} (w : d.Waits b) {k : Cont σ}
    (h : Agree n k (f.ahead I void (d.turn exit b))) :
    Agree n k ((f.builder.finish void).after I b 0) := by
  rwa [w.ahead_turn] at h

theorem Draft.Spare.ahead (s : d.Spare d₁ n) : f.ahead I void d₁ = f.ahead I void d := by
  simp only [Draft.ahead, here, s.cursor_eq, s.block_eq]

theorem Draft.Leaves.ahead_next (h : d.Leaves d₁ exit n) :
    f.ahead I void d₁ = (f.builder.finish void).after I d.fresh 0 := by
  obtain ⟨name, e⟩ := h.empty
  exact ahead_of_empty I h.cursor_eq e

/-- After each of some labels, what is to be done is what the body does from the label's block. -/
def Resumes (I : Interp σ) (f : Draft) (void : Bool) (m : Nat) (ls : List LabelId)
    (resume : LabelId → Option (Cont σ)) : Prop :=
  ∀ l ∈ ls, ∃ κ b, resume l = some κ ∧ f.labelled? l = some b ∧
    Agree m κ ((f.builder.finish void).after I b 0)

theorem Resumes.nil {resume : LabelId → Option (Cont σ)} : Resumes I f void m [] resume :=
  fun _ h => by simp at h

theorem Resumes.append {ls ls' : List LabelId} {first second : LabelId → Option (Cont σ)}
    (h : Resumes I f void m ls first) (h' : Resumes I f void m ls' second)
    (out : ∀ l, l ∉ ls → first l = none) (nodup : (ls ++ ls').Nodup) :
    Resumes I f void m (ls ++ ls') fun l => first l <|> second l := by
  intro l mem
  rcases List.mem_append.1 mem with mem | mem
  · obtain ⟨κ, b, e, rest⟩ := h l mem
    exact ⟨κ, b, by simp [e], rest⟩
  · obtain ⟨κ, b, e, rest⟩ := h' l mem
    have n : l ∉ ls := fun mem' => (List.nodup_append.1 nodup).2.2 l mem' l mem rfl
    exact ⟨κ, b, by simp [out l n, e], rest⟩

mutual

/-- Code goes on after the labels that it places, and after no others. -/
theorem Code.resume_eq_none : ∀ (code : Code) {k : Cont σ},
    code.resume I env l k = none ↔ l ∉ code.labels
  | .skip, _ | .inst _, _ | .leave _, _ | .goto _, _ => by simp [Code.resume, Code.labels]
  | .label l', _ => by simp [Code.resume, Code.labels, eq_comm]
  | .seq first second, _ => by
    simp [Code.resume, Code.labels, first.resume_eq_none, second.resume_eq_none]
  | .ifThen _ body, _ => body.resume_eq_none
  | .ifElse _ body other, _ => by
    simp [Code.resume, Code.labels, body.resume_eq_none, other.resume_eq_none]
  | .switch _ tests _ bodies, _ => by
    simp [Code.resume, Code.labels, tests.resume_eq_none, bodies.resume_eq_none]

theorem Tests.resume_eq_none : ∀ (tests : Tests) {scrutinee : Value}
    {select : Nat → Cont σ} {k : Cont σ},
    tests.resume I env l scrutinee select k = none ↔ l ∉ tests.labels
  | .done, _, _, _ => by simp [Tests.resume, Tests.labels]
  | .test eval _ _ _ rest, _, _, _ => by
    simp [Tests.resume, Tests.labels, eval.resume_eq_none, rest.resume_eq_none]

theorem Bodies.resume_eq_none : ∀ (bodies : Bodies) {k : Cont σ},
    bodies.resume I env l k = none ↔ l ∉ bodies.labels
  | .nil, _ => by simp [Bodies.resume, Bodies.labels]
  | .cons body rest, _ => by
    simp [Bodies.resume, Bodies.labels, body.resume_eq_none, rest.resume_eq_none]

end

/-! ## Bodies of a switch -/

theorem Bodies.place_nil (base i : Nat) : Bodies.nil.place base i = ⟨base⟩ := by
  simp [Bodies.place, Bodies.length]

theorem Bodies.place_zero (bodies : Bodies) (base : Nat) : bodies.place base 0 = ⟨base⟩ := by
  simp [Bodies.place]

theorem Bodies.place_cons_succ (body : Code) (rest : Bodies) (base i : Nat) :
    (Bodies.cons body rest).place base (i + 1) = rest.place (base + 1) i := by
  simp only [Bodies.place, Bodies.length, BlockId.mk.injEq]
  omega

theorem Bodies.run_length : ∀ (bodies : Bodies) (k : Cont σ),
    bodies.run I env k bodies.length = k
  | .nil, _ => rfl
  | .cons _ rest, k => rest.run_length k

theorem Bodies.run_getD (bodies : Bodies) (default : Option Nat) (k : Cont σ) :
    bodies.run I env k (default.getD bodies.length) = default.elim k (bodies.run I env k) := by
  cases default with
  | none => exact bodies.run_length k
  | some i => rfl

/-- The blocks of later bodies are still kept once the cursor is on the second. -/
theorem Bodies.reserved_turn {d d₁ : Draft} {ls : List LabelId} {base n : Nat} (h : d.Extends d₁ ls)
    (kept : ∀ i, i < n + 1 → d.Reserved ⟨base + (i + 1)⟩) (exit : Terminator) :
    ∀ i, i < n → (d₁.turn exit ⟨base + 1⟩).Reserved ⟨base + 1 + (i + 1)⟩ := by
  intro i lt
  have k := h.reserved (kept (i + 1) (Nat.succ_lt_succ lt))
  rw [Nat.add_right_comm]
  exact k.turn (by simp) exit

theorem Bodies.grows_lower : ∀ (bodies : Bodies) {d : Draft} {base : Nat}, d.Ready bodies.labels →
    bodies.labels.Nodup → (∀ i, i < bodies.length → d.Reserved ⟨base + (i + 1)⟩) →
    d.Grows (bodies.lower base d)
  | .nil, d, _, _, _, _ => .refl d
  | .cons body rest, d, base, r, nodup, kept => by
    have ⟨nodup₁, nodup₂, _⟩ := List.nodup_append.1 nodup
    have h := body.extends_lower r.left nodup₁
    have next := h.reserved (kept 0 (Nat.succ_pos _))
    have r₂ := (h.ready r nodup).turn next (.jump ⟨base + 1⟩)
    have g := rest.grows_lower r₂ nodup₂ (Bodies.reserved_turn h kept _)
    exact (h.grows r.left).trans ((h.valid.grows_turn _ _).trans g)

mutual

theorem Code.agrees : ∀ (code : Code) {d : Draft} {k : Cont σ}, d.Ready code.labels →
    code.labels.Nodup → (code.lower d).Grows f →
    Supports I f void env m code.gotos code.placed →
    Agree (m + 1) k (f.ahead I void (code.lower d)) →
    Agree (m + 1) (code.run I env k) (f.ahead I void d) ∧
      Resumes I f void (m + 1) code.labels fun l => code.resume I env l k
  | .skip, _, _, _, _, _, _, rest => ⟨rest, .nil⟩
  | .seq first second, d, k, r, nodup, g, h, rest => by
    have ⟨nodup₁, nodup₂, _⟩ := List.nodup_append.1 nodup
    have h₁ := first.extends_lower r.left nodup₁
    have r₂ := h₁.ready r nodup
    have g₁ := ((second.extends_lower r₂ nodup₂).grows r₂).trans g
    have ⟨a₂, s₂⟩ := second.agrees r₂ nodup₂ g h.right rest
    have ⟨a₁, s₁⟩ := first.agrees r.left nodup₁ g₁ h.left a₂
    exact ⟨a₁, s₁.append s₂ (fun _ => first.resume_eq_none.2) nodup⟩
  | .inst id, d, k, r, _, g, _, rest => by
    rw [ahead_add I r.toValid g]
    exact ⟨rest.exec id, .nil⟩
  | .leave value, d, k, r, _, g, _, _ => by
    rw [ahead_closed I r.toValid g (r.toValid.leaves_drop _).closed]
    exact ⟨.refl _ _, .nil⟩
  | .label l, d, k, r, _, g, _, rest => by
    have v := r.toValid
    have after := r.waits_target.agree_turn rest
    rw [← v.ahead_meet l, (v.extends_meet l).valid.ahead_turn g]
    refine ⟨after.of_succ.hop, fun l' mem => ?_⟩
    cases List.mem_singleton.1 mem
    exact ⟨k, _, by simp [Code.resume], g.labelled (labelled?_meet d l), after⟩
  | .goto l, d, k, r, _, g, h, _ => by
    have v := r.toValid
    have v₁ := (v.extends_meet l).valid
    rw [← v.ahead_meet l, ahead_closed I v₁ g (v₁.leaves_drop _).closed]
    exact ⟨(h.jumps (by simp [Code.gotos]) (g.labelled (labelled?_meet d l))).hop, .nil⟩
  | .ifThen cond body, d, k, r, nodup, g, h, rest => by
    have fork := r.toValid.leaves_fork cond
    have r₁ := fork.extend.ready r nodup
    have h₁ := body.extends_lower r₁ nodup
    have g₁ := (h₁.valid.grows_turn _ _).trans g
    have after := (h₁.reserved (fork.reserved Nat.one_pos (Nat.le_refl 1))).agree_turn rest
    have ⟨a, s⟩ := body.agrees r₁ nodup g₁ h (h₁.valid.agree_jump g after)
    rw [fork.ahead_next] at a
    rw [ahead_closed I r.toValid ((h₁.grows r₁).trans g₁) fork.closed]
    exact ⟨a.of_succ.choose after.of_succ cond, s⟩
  | .ifElse cond body other, d, k, r, nodup, g, h, rest => by
    have ⟨nodup₁, nodup₂, _⟩ := List.nodup_append.1 nodup
    have fork := r.toValid.leaves_forkElse cond
    have r₁ := fork.extend.ready r nodup
    have h₁ := body.extends_lower r₁.left nodup₁
    have arm := h₁.reserved (fork.reserved Nat.one_pos (by omega))
    have r₂ := (h₁.ready r₁ nodup).turn arm (.jump ⟨d.size + 2⟩)
    have h₂ := other.extends_lower r₂ nodup₂
    have join := (h₁.reserved (fork.reserved Nat.two_pos (Nat.le_refl 2))).turn
      (c := ⟨d.size + 1⟩) (by simp) (.jump ⟨d.size + 2⟩)
    have g₂ := (h₂.valid.grows_turn _ _).trans g
    have g₁ := (h₂.grows r₂).trans g₂
    have after := (h₂.reserved join).agree_turn rest
    have g₀ := (h₁.valid.grows_turn _ _).trans g₁
    have ⟨a₂, s₂⟩ := other.agrees r₂ nodup₂ g₂ h.right (h₂.valid.agree_jump g after)
    have ⟨a₁, s₁⟩ := body.agrees r₁.left nodup₁ g₀ h.left (h₁.valid.agree_jump g₁ after)
    rw [fork.ahead_next] at a₁
    rw [ahead_closed I r.toValid ((h₁.grows r₁.left).trans g₀) fork.closed]
    exact ⟨a₁.of_succ.choose (arm.agree_turn a₂).of_succ cond,
      s₁.append s₂ (fun _ => body.resume_eq_none.2) nodup⟩
  | .switch scrutinee tests default bodies, d, k, r, nodup, g, h, rest => by
    have ⟨nodup₁, nodup₂, _⟩ := List.nodup_append.1 nodup
    have spare := r.toValid.spare_newSwitch bodies.length
    have r₁ := spare.extend.ready r nodup
    have h₁ := tests.extends_lower (bodies.place d.size) r₁.left nodup₁
    have first := h₁.reserved (spare.reserved (Nat.succ_pos bodies.length))
    have r₂ := (h₁.ready r₁ nodup).turn first
      (.jump (bodies.place d.size (default.getD bodies.length)))
    have kept := fun i lt => (h₁.reserved (spare.reserved (Nat.succ_lt_succ lt))).turn
      (b := ⟨d.size + (i + 1)⟩) (c := ⟨d.size⟩) (by simp)
      (.jump (bodies.place d.size (default.getD bodies.length)))
    have g₂ := (bodies.grows_lower r₂ nodup₂ kept).trans g
    have ⟨sel, s₂⟩ := bodies.agrees r₂ nodup₂ g h.right (first.ahead_turn _) kept rest
    have a₁ := h₁.valid.agree_jump g₂ (sel (default.getD bodies.length))
    rw [bodies.run_getD] at a₁
    have ⟨a, s₁⟩ := tests.agrees scrutinee r₁.left nodup₁
      ((h₁.valid.grows_turn _ _).trans g₂) h.left sel a₁
    rw [spare.ahead] at a
    exact ⟨a, s₁.append s₂ (fun _ => tests.resume_eq_none.2) nodup⟩

theorem Tests.agrees : ∀ (tests : Tests) (scrutinee : Value) {d : Draft} {k : Cont σ}
    {place : Nat → BlockId} {select : Nat → Cont σ}, d.Ready tests.labels → tests.labels.Nodup →
      (tests.lower place d).Grows f →
    Supports I f void env m tests.gotos (tests.placed scrutinee) →
    (∀ i, Agree (m + 1) (select i) ((f.builder.finish void).after I (place i) 0)) →
    Agree (m + 1) k (f.ahead I void (tests.lower place d)) →
    Agree (m + 1) (tests.run I env scrutinee select k) (f.ahead I void d) ∧
      Resumes I f void (m + 1) tests.labels fun l => tests.resume I env l scrutinee select k
  | .done, _, _, _, _, _, _, _, _, _, _, rest => ⟨rest, .nil⟩
  | .test eval value compare body others, scrutinee, d, k, place, select, r, nodup, g, h, sel,
      rest => by
    have ⟨nodup₁, nodup₂, _⟩ := List.nodup_append.1 nodup
    have h₁ := eval.extends_lower r.left nodup₁
    have h₂ := h₁.valid.extends_add [compare]
    have pass := h₂.valid.leaves_pass (.inst compare) (place body)
    have r₃ := ((h₁.add r.left [compare]).pass r.left (.inst compare) (place body)).ready r nodup
    have g₃ := ((others.extends_lower place r₃ nodup₂).grows r₃).trans g
    have g₂ := (pass.extend.grows h₂.valid.ready).trans g₃
    have ⟨a₃, s₃⟩ := others.agrees scrutinee r₃ nodup₂ g h.right.tail sel rest
    rw [pass.ahead_next] at a₃
    have a₁ : Agree (m + 1) (test I compare scrutinee value (select body)
        (others.run I env scrutinee select k)) (f.ahead I void (eval.lower d)) := by
      rw [ahead_add I h₁.valid g₂, ahead_closed I h₂.valid g₃ pass.closed]
      exact Agree.test (h.right.decides (List.mem_cons_self ..)) (sel body).of_succ a₃.of_succ
    have ⟨a, s₁⟩ := eval.agrees r.left nodup₁ ((h₂.grows h₁.valid.ready).trans g₂) h.left a₁
    exact ⟨a, s₁.append s₃ (fun _ => eval.resume_eq_none.2) nodup⟩

theorem Bodies.agrees : ∀ (bodies : Bodies) {d : Draft} {k : Cont σ} {base : Nat},
    d.Ready bodies.labels → bodies.labels.Nodup → (bodies.lower base d).Grows f →
    Supports I f void env m bodies.gotos bodies.placed →
    f.ahead I void d = (f.builder.finish void).after I ⟨base⟩ 0 →
    (∀ i, i < bodies.length → d.Reserved ⟨base + (i + 1)⟩) →
    Agree (m + 1) k (f.ahead I void (bodies.lower base d)) →
    (∀ i, Agree (m + 1) (bodies.run I env k i)
      ((f.builder.finish void).after I (bodies.place base i) 0)) ∧
    Resumes I f void (m + 1) bodies.labels fun l => bodies.resume I env l k
  | .nil, d, k, base, _, _, _, _, start, _, rest => by
    refine ⟨fun i => ?_, .nil⟩
    rw [Bodies.place_nil, ← start]
    exact rest
  | .cons body others, d, k, base, r, nodup, g, h, start, kept, rest => by
    have ⟨nodup₁, nodup₂, _⟩ := List.nodup_append.1 nodup
    have h₁ := body.extends_lower r.left nodup₁
    have next := h₁.reserved (kept 0 (Nat.succ_pos _))
    have r₂ := (h₁.ready r nodup).turn next (.jump ⟨base + 1⟩)
    have kept₂ := Bodies.reserved_turn h₁ kept (.jump ⟨base + 1⟩)
    have g₂ := (others.grows_lower r₂ nodup₂ kept₂).trans g
    have ⟨sel, s₂⟩ := others.agrees r₂ nodup₂ g h.right (next.ahead_turn _) kept₂ rest
    have a₁ := h₁.valid.agree_jump g₂ (others.place_zero (base + 1) ▸ sel 0)
    have ⟨a, s₁⟩ := body.agrees r.left nodup₁ ((h₁.valid.grows_turn _ _).trans g₂) h.left a₁
    refine ⟨fun i => ?_, s₁.append s₂ (fun _ => body.resume_eq_none.2) nodup⟩
    cases i with
    | zero =>
      rw [Bodies.place_zero, ← start]
      exact a
    | succ i =>
      rw [Bodies.place_cons_succ]
      exact sel i

end

/-! ## Whole functions -/

theorem Draft.ready_start (entry : List InstId) (ls : List LabelId) :
    (start.add entry).Ready ls := by
  have v : start.Valid := ⟨⟨_, rfl, rfl⟩, fun e => by simp [labelled?, start] at e,
    fun e => by simp [labelled?, start] at e⟩
  exact ⟨(v.extends_add entry).valid, fun _ e => by simp [labelled?, start, add] at e⟩

/-- Past the end of its code, a function does what it does past the last block. -/
theorem Draft.Valid.ahead_end (v : f.Valid) : f.ahead I void f = stop (.past void) := by
  obtain ⟨block, e, o⟩ := v.isOpen
  funext n
  simp only [ahead, here_eq e, Body.after, blocks_finish e, o, List.drop_length]
  cases void <;> rfl

theorem Body.after_append {b : BlockId} {block : OpenBlock} {insts rest : List InstId}
    (e : f.block? b = some block) (p : insts ++ rest = block.insts) (n : Nat) :
    (f.builder.finish void).after I b 0 n =
      Trace.execAll I insts ((f.builder.finish void).after I b insts.length n) := by
  simp [after, blocks_finish e, ← p, Trace.execAll]

variable {code : Code} {entry : List InstId}

/-- One round of the argument: what is to be done past the last label is the end. -/
theorem Code.agrees_start (nodup : code.labels.Nodup) (e : code.lower (start.add entry) = f)
    (h : Supports I f void env m code.gotos code.placed) :
    Agree (m + 1) (code.run I env (stop (.past void))) (f.ahead I void (start.add entry)) ∧
      Resumes I f void (m + 1) code.labels fun l => code.resume I env l (stop (.past void)) := by
  have r := ready_start entry code.labels
  have v := (code.extends_lower r nodup).valid
  refine code.agrees r nodup (e ▸ .refl f) h ?_
  rw [e] at v ⊢
  rw [v.ahead_end]
  exact .refl _ _

/-- With as many jumps as transfers, what is to be done after a label is what the body does from
its block. -/
theorem Code.supports_labelled (void : Bool) (nodup : code.labels.Nodup)
    (placed : ∀ l ∈ code.gotos, l ∈ code.labels)
    (decides : I.Decides code.placed)
    (e : code.lower (start.add entry) = f) (depth : Nat) :
    Supports I f void (code.labelled I (stop (.past void)) depth) depth code.gotos
      code.placed := by
  induction depth with
  | zero => exact ⟨fun _ _ n lt => absurd lt (Nat.not_lt_zero n), decides⟩
  | succ depth ih =>
    refine ⟨fun {l b} mem found => ?_, decides⟩
    obtain ⟨κ, b', e', found', a⟩ := (code.agrees_start nodup e ih).2 l (placed l mem)
    rw [found] at found'
    cases found'
    rw [Code.labelled, show code.resume I _ l _ = some κ from e']
    exact a

/-- A finished body executes the entry instructions first. -/
theorem Code.run_eq_ahead (entry : List InstId) (nodup : code.labels.Nodup) (void : Bool)
    (e : code.lower (start.add entry) = f) (n : Nat) :
    (f.builder.finish void).run I n = Trace.execAll I entry
      (f.ahead I void (start.add entry) n) := by
  have h := code.extends_lower (ready_start entry code.labels) nodup
  have first : (start.add entry).block? ⟨0⟩ = some ⟨"entry", entry, none⟩ :=
    block?_add_cursor (d := start) rfl entry
  rw [e] at h
  obtain ⟨block, e₀, rest, p⟩ : ∃ block, f.block? ⟨0⟩ = some block ∧ entry <+: block.insts :=
    h.grown first
  calc (f.builder.finish void).run I n
    _ = (f.builder.finish void).after I ⟨0⟩ 0 n := by rw [Body.after_zero]; rfl
    _ = Trace.execAll I entry (f.ahead I void (start.add entry) n) := by
      rw [Body.after_append e₀ p, ahead, here_eq (d := start.add entry) first]
      rfl

/-- A finished body does what its code says, after the entry instructions. -/
theorem Code.run_finish (entry : List InstId) (nodup : code.labels.Nodup)
    (placed : ∀ l ∈ code.gotos, l ∈ code.labels) (decides : I.Decides code.placed) (void : Bool) :
    ((code.lower (start.add entry)).builder.finish void).run I = code.runFunction I entry void := by
  generalize e : code.lower (start.add entry) = f
  funext n
  have support := code.supports_labelled void nodup placed decides e n
  rw [code.run_eq_ahead entry nodup void e,
    ← (code.agrees_start nodup e support).1 n (Nat.lt_succ_self n)]
  rfl

end

end Codegen
