import Codegen.Proofs.Body.Dominance
import Codegen.Proofs.Body.Neighbours
import Codegen.Proofs.Lowering.Frame

/-!
Scopes of structured code: which instructions have been executed wherever code goes on. Code that
uses nothing else is laid out so that every operand is found on every way to its block.
-/

namespace Codegen

/-- A value that is the result of no instruction, or of one of some. -/
def Value.Among (v : Value) (ids : List InstId) : Prop := ∀ j, v = .inst j → j ∈ ids

theorem Value.Among.mono {v : Value} {xs ys : List InstId} (h : v.Among xs) (sub : xs ⊆ ys) :
    v.Among ys := fun j e => sub (h j e)

section

variable (uses : InstId → InstId → Prop) (entry : List InstId)

/-- What is left of a scope past code with some labels. A label can be come to from anywhere in a
function, so that nothing but the entry is known to be executed there. -/
def kept (labels : List LabelId) (scope : List InstId) : List InstId :=
  if labels = [] then scope else entry

/-- What has been executed where code goes on that starts with a scope. -/
def Code.scope : Code → List InstId → List InstId
  | .skip, scope | .leave _, scope | .goto _, scope => scope
  | .seq first second, scope => second.scope (first.scope scope)
  | .inst id, scope => id :: scope
  | .label _, _ => entry
  | .ifThen _ body, scope => kept entry body.labels scope
  | .ifElse _ body other, scope => kept entry (body.labels ++ other.labels) scope
  | .switch _ tests _ bodies, scope => kept entry (tests.labels ++ bodies.labels) scope

mutual

/-- Uses only what has been executed. -/
def Code.Scoped : Code → List InstId → Prop
  | .skip, _ | .label _, _ | .goto _, _ => True
  | .seq first second, scope => first.Scoped scope ∧ second.Scoped (first.scope entry scope)
  | .inst id, scope => ∀ j, uses id j → j ∈ scope
  | .leave value, scope => ∀ v ∈ value, v.Among scope
  | .ifThen cond body, scope => cond.Among scope ∧ body.Scoped scope
  | .ifElse cond body other, scope =>
    cond.Among scope ∧ body.Scoped scope ∧ other.Scoped scope
  | .switch scrutinee tests _ bodies, scope =>
    tests.Scoped scrutinee scope ∧ bodies.Scoped (kept entry (tests.labels ++ bodies.labels) scope)

def Tests.Scoped (scrutinee : Value) : Tests → List InstId → Prop
  | .done, _ => True
  | .test eval value _ _ rest, scope =>
    eval.Scoped scope ∧ scrutinee.Among (eval.scope entry scope) ∧
      value.Among (eval.scope entry scope) ∧ rest.Scoped scrutinee (eval.scope entry scope)

def Bodies.Scoped : Bodies → List InstId → Prop
  | .nil, _ => True
  | .cons body rest, scope => body.Scoped scope ∧ rest.Scoped scope

end

end

section

variable {entry scope : List InstId}

theorem kept_subset (labels : List LabelId) (sub : entry ⊆ scope) :
    kept entry labels scope ⊆ scope := by
  unfold kept
  split
  · exact List.Subset.refl _
  · exact sub

theorem subset_kept (labels : List LabelId) (sub : entry ⊆ scope) :
    entry ⊆ kept entry labels scope := by
  unfold kept
  split
  · exact sub
  · exact List.Subset.refl _

/-- What is left past two pieces of code is left past the second, if it follows the first. -/
theorem kept_append_subset {scope' : List InstId} {first : List LabelId} (second : List LabelId)
    (sub : kept entry first scope ⊆ scope') (base : entry ⊆ scope') :
    kept entry (first ++ second) scope ⊆ kept entry second scope' := by
  by_cases none : first ++ second = []
  · obtain ⟨rfl, rfl⟩ := List.append_eq_nil_iff.1 none
    exact sub
  · rw [kept, if_neg none]
    exact subset_kept second base

theorem kept_append_subset_left (first second : List LabelId) (base : entry ⊆ scope) :
    kept entry (first ++ second) scope ⊆ kept entry first scope := by
  by_cases none : first ++ second = []
  · obtain ⟨rfl, rfl⟩ := List.append_eq_nil_iff.1 none
    exact List.Subset.refl _
  · rw [kept, if_neg none]
    exact subset_kept first base

theorem kept_append_subset_self (first second : List LabelId) :
    kept entry (first ++ second) scope ⊆ kept entry second
      (kept entry (first ++ second) scope) := by
  by_cases none : first ++ second = []
  · obtain ⟨rfl, rfl⟩ := List.append_eq_nil_iff.1 none
    exact List.Subset.refl _
  · have same : kept entry (first ++ second) scope = entry := if_neg none
    rw [same]
    exact subset_kept second (List.Subset.refl _)

/-- Past code that places no label a scope is kept, past any other the entry is. -/
theorem Code.kept_subset_scope : ∀ (code : Code) {scope : List InstId}, entry ⊆ scope →
    kept entry code.labels scope ⊆ code.scope entry scope
  | .skip, _, _ | .leave _, _, _ | .goto _, _, _ => List.Subset.refl _
  | .label _, _, _ | .ifThen .., _, _ | .ifElse .., _, _ | .switch .., _, _ => List.Subset.refl _
  | .inst id, _, _ => fun _ mem => List.mem_cons_of_mem _ mem
  | .seq first second, scope, base => by
    have sub := first.kept_subset_scope base
    have base' : entry ⊆ first.scope entry scope := fun _ m => sub (subset_kept first.labels base m)
    exact List.Subset.trans (kept_append_subset second.labels sub base')
      (second.kept_subset_scope base')

theorem Code.entry_subset_scope (code : Code) (sub : entry ⊆ scope) :
    entry ⊆ code.scope entry scope := fun _ m =>
  code.kept_subset_scope sub (subset_kept code.labels sub m)

end

/-! ## Drafts -/

/-- An exit uses what has been executed before it, and leads to blocks that there are and that ask
for no more. -/
structure Terminator.Fits (exit : Terminator) (size : Nat) (past : BlockId → List InstId)
    (scope : List InstId) : Prop where
  operands : ∀ v ∈ exit.operands, v.Among scope
  targets : ∀ t ∈ exit.targets, t.index < size ∧ past t ⊆ scope

theorem Terminator.Fits.mono {exit : Terminator} {size size' : Nat} {past : BlockId → List InstId}
    {scope scope' : List InstId} (h : exit.Fits size past scope) (le : size ≤ size')
    (sub : scope ⊆ scope') : exit.Fits size' past scope' where
  operands v m := (h.operands v m).mono sub
  targets t m := ⟨Nat.lt_of_lt_of_le (h.targets t m).1 le, fun _ mem => sub ((h.targets t m).2 mem)⟩

/-- A block uses what has been executed on every way to it, or earlier in the block. -/
structure OpenBlock.Backed (uses : InstId → InstId → Prop) (entry : List InstId) (size : Nat)
    (past : BlockId → List InstId) (before : List InstId) (block : OpenBlock) : Prop where
  entry : entry ⊆ before ++ block.insts
  insts : ∀ {p id j}, block.insts[p]? = some id → uses id j → j ∈ before ++ block.insts.take p
  exits : ∀ {exit}, block.terminator = some exit → exit.Fits size past (before ++ block.insts)

namespace OpenBlock.Backed

variable {uses : InstId → InstId → Prop} {entry before : List InstId} {size : Nat}
  {past : BlockId → List InstId} {block : OpenBlock}

theorem add (h : block.Backed uses entry size past before) {id : InstId}
    (used : ∀ j, uses id j → j ∈ before ++ block.insts) :
    OpenBlock.Backed uses entry size past before { block with insts := block.insts ++ [id] } where
  entry := by
    rw [← List.append_assoc]
    exact List.subset_append_of_subset_left _ h.entry
  insts {p i j} found use := by
    rcases Nat.lt_trichotomy p block.insts.length with lt | rfl | gt
    · rw [List.getElem?_append_left lt] at found
      rw [List.take_append_of_le_length (Nat.le_of_lt lt)]
      exact h.insts found use
    · have : id = i := by simpa using found
      simpa using used j (this ▸ use)
    · rw [List.getElem?_append_right (Nat.le_of_lt gt)] at found
      have : p - block.insts.length ≠ 0 := by omega
      simp [this] at found
  exits e := (h.exits e).mono (Nat.le_refl _) (by
    rw [← List.append_assoc]
    exact List.subset_append_left _ _)

theorem turn (h : block.Backed uses entry size past before) {exit : Terminator}
    (fits : exit.Fits size past (before ++ block.insts)) :
    OpenBlock.Backed uses entry size past before { block with terminator := some exit } where
  entry := h.entry
  insts := h.insts
  exits e := by
    cases e
    exact fits

theorem grow (h : block.Backed uses entry size past before) {size' : Nat} (le : size ≤ size') :
    block.Backed uses entry size' past before :=
  ⟨h.entry, h.insts, fun e => (h.exits e).mono le (List.Subset.refl _)⟩

end OpenBlock.Backed

namespace Draft

/-- What has been executed at the cursor, if `past b` has been on every way to `b`. -/
def sofar (d : Draft) (past : BlockId → List InstId) : List InstId :=
  past d.cursor ++ (d.block? d.cursor).elim [] (·.insts)

/-- The instructions in `past b` have been executed on every way to `b`, and all operands are found
there or earlier in their block. -/
structure Backed (uses : InstId → InstId → Prop) (entry : List InstId) (d : Draft)
    (past : BlockId → List InstId) : Prop where
  cursor : d.cursor.index < d.size
  labels : ∀ {l b}, d.labelled? l = some b → b.index < d.size ∧ past b ⊆ entry
  blocks : ∀ {b block}, d.block? b = some block → block.Backed uses entry d.size past (past b)

namespace Backed

variable {uses : InstId → InstId → Prop} {entry : List InstId} {d : Draft}
  {past past' : BlockId → List InstId}

theorem current (h : d.Backed uses entry past) :
    ∃ block, d.block? d.cursor = some block ∧ d.sofar past = past d.cursor ++ block.insts := by
  obtain ⟨block, e⟩ : ∃ block, d.block? d.cursor = some block :=
    ⟨_, Array.getElem?_eq_getElem h.cursor⟩
  exact ⟨block, e, by simp [sofar, e]⟩

theorem entry_subset (h : d.Backed uses entry past) : entry ⊆ d.sofar past := by
  obtain ⟨block, e, seen⟩ := h.current
  exact seen ▸ (h.blocks e).entry

/-- What is said of blocks to come does not matter. -/
theorem congr (h : d.Backed uses entry past) (same : ∀ b, b.index < d.size → past' b = past b) :
    d.Backed uses entry past' where
  cursor := h.cursor
  labels e := by
    have ⟨lt, sub⟩ := h.labels e
    exact ⟨lt, same _ lt ▸ sub⟩
  blocks e := by
    have block := h.blocks e
    rw [same _ (lt_of_block? e)]
    refine ⟨block.entry, block.insts, fun t => ⟨(block.exits t).operands, fun t' m => ?_⟩⟩
    have ⟨lt, sub⟩ := (block.exits t).targets t' m
    exact ⟨lt, same _ lt ▸ sub⟩

theorem count (h : d.Backed uses entry past) (f : Counts → Counts) :
    (d.count f).Backed uses entry past := ⟨h.1, h.2, h.3⟩

theorem newBlock (h : d.Backed uses entry past) (sub : entry ⊆ past d.fresh) (name : String) :
    (d.newBlock name).Backed uses entry past := by
  have le : d.size ≤ (d.newBlock name).size := by simp
  refine ⟨Nat.lt_of_lt_of_le h.cursor le, fun e => ?_, fun {b block} e => ?_⟩
  · have ⟨lt, sub⟩ := h.labels e
    exact ⟨Nat.lt_of_lt_of_le lt le, sub⟩
  · by_cases new : b = d.fresh
    · rw [new, block?_newBlock_fresh] at e
      cases e
      exact ⟨by simpa [new] using sub, by simp, by simp⟩
    · rw [block?_newBlock_of_ne new] at e
      exact (h.blocks e).grow le

theorem mark (h : d.Backed uses entry past) {b : BlockId} (lt : b.index < d.size)
    (sub : past b ⊆ entry) (l : LabelId) : (d.mark l b).Backed uses entry past := by
  refine ⟨h.cursor, fun {l' b'} e => ?_, h.blocks⟩
  rw [labelled?_mark] at e
  split at e
  · cases e
    exact ⟨lt, sub⟩
  · exact h.labels e

theorem add (h : d.Backed uses entry past) {id : InstId}
    (used : ∀ j, uses id j → j ∈ d.sofar past) : (d.add [id]).Backed uses entry past := by
  obtain ⟨block, e₀, seen⟩ := h.current
  refine ⟨by simpa using h.cursor, fun e => by simpa using h.labels e, fun {b block'} e => ?_⟩
  rw [size_add]
  by_cases new : b = d.cursor
  · rw [new, block?_add_cursor e₀] at e
    cases e
    exact new ▸ (h.blocks e₀).add (seen ▸ used)
  · rw [block?_add_of_ne new] at e
    exact h.blocks e

theorem turn (h : d.Backed uses entry past) {exit : Terminator} {next : BlockId}
    (fits : exit.Fits d.size past (d.sofar past)) (lt : next.index < d.size) :
    (d.turn exit next).Backed uses entry past := by
  obtain ⟨block, e₀, seen⟩ := h.current
  refine ⟨by simpa using lt, fun e => by simpa using h.labels e, fun {b block'} e => ?_⟩
  rw [size_turn]
  by_cases new : b = d.cursor
  · rw [new, block?_turn_cursor e₀] at e
    cases e
    exact new ▸ (h.blocks e₀).turn (seen ▸ fits)
  · rw [block?_turn_of_ne new] at e
    exact h.blocks e

/-- The scope at the cursor does not change where a block is made elsewhere. -/
theorem sofar_newBlock (h : d.Backed uses entry past) (name : String) :
    (d.newBlock name).sofar past = d.sofar past := by
  have ne : d.cursor ≠ d.fresh := fun e => by
    have := h.cursor
    rw [e] at this
    exact Nat.lt_irrefl _ this
  simp only [sofar, cursor_newBlock, block?_newBlock_of_ne ne]

theorem cons_subset_sofar_add (h : d.Backed uses entry past) (id : InstId) :
    id :: d.sofar past ⊆ (d.add [id]).sofar past := by
  obtain ⟨block, e, seen⟩ := h.current
  have : (d.add [id]).sofar past = d.sofar past ++ [id] := by
    simp [sofar, block?_add_cursor e, e]
  intro j mem
  rw [this]
  simpa [or_comm] using mem

end Backed

/-- What was said of blocks, and something for blocks to come. -/
def beyond (d : Draft) (past next : BlockId → List InstId) (b : BlockId) : List InstId :=
  if b.index < d.size then past b else next b

theorem beyond_of_le {d : Draft} {b : BlockId} (le : d.size ≤ b.index)
    (past next : BlockId → List InstId) : d.beyond past next b = next b := if_neg (Nat.not_lt.2 le)

/-- Lowering has gone on from one draft to another, where a scope has been executed. -/
def Onward (uses : InstId → InstId → Prop) (entry : List InstId) (d : Draft)
    (past : BlockId → List InstId) (d' : Draft) (scope : List InstId) : Prop :=
  ∃ past', (∀ b, b.index < d.size → past' b = past b) ∧ d.size ≤ d'.size ∧
    d'.Backed uses entry past' ∧ scope ⊆ d'.sofar past'

@[simp] theorem sofar_count (d : Draft) (f : Counts → Counts) (past : BlockId → List InstId) :
    (d.count f).sofar past = d.sofar past := rfl

@[simp] theorem sofar_mark (d : Draft) (l : LabelId) (b : BlockId) (past : BlockId → List InstId) :
    (d.mark l b).sofar past = d.sofar past := rfl

theorem subset_sofar_turn (d : Draft) (exit : Terminator) (next : BlockId)
    (past : BlockId → List InstId) : past next ⊆ (d.turn exit next).sofar past :=
  List.subset_append_left _ _

namespace Backed

variable {uses : InstId → InstId → Prop} {entry scope join : List InstId} {d : Draft}
  {past : BlockId → List InstId} {cond : Value}

theorem beyond (h : d.Backed uses entry past) (next : BlockId → List InstId) :
    d.Backed uses entry (d.beyond past next) := h.congr fun _ lt => if_pos lt

theorem sofar_beyond (h : d.Backed uses entry past) (next : BlockId → List InstId) :
    d.sofar (d.beyond past next) = d.sofar past := by
  simp [sofar, Draft.beyond, h.cursor]

theorem fits_beyond {exit : Terminator} (fits : exit.Fits d.size past scope)
    (next : BlockId → List InstId) : exit.Fits d.size (d.beyond past next) scope where
  operands := fits.operands
  targets t m := by
    have ⟨lt, sub⟩ := fits.targets t m
    exact ⟨lt, by rwa [Draft.beyond, if_pos lt]⟩

/-- Nothing leads to the block after a return or a jump, so that any scope will do there. -/
theorem drop (h : d.Backed uses entry past) (sub : entry ⊆ scope) {exit : Terminator}
    (fits : exit.Fits d.size past (d.sofar past)) :
    Onward uses entry d past (d.drop exit) scope := by
  have h₀ := h.beyond fun _ => scope
  have fresh : d.beyond past (fun _ => scope) d.fresh = scope := beyond_of_le (Nat.le_refl _) _ _
  have h₁ := h₀.newBlock (by rwa [fresh]) s!"orphan.{d.counts.orphans}"
  have h₂ := h₁.count fun c => { c with orphans := c.orphans + 1 }
  have seen := (h₀.sofar_newBlock s!"orphan.{d.counts.orphans}").trans (h.sofar_beyond _)
  have fits₂ := (fits_beyond fits fun _ => scope).mono (Nat.le_succ d.size) (List.Subset.refl _)
  refine ⟨d.beyond past fun _ => scope, fun _ lt => if_pos lt, by simp [Draft.drop],
    h₂.turn ?_ ?_, ?_⟩
  · rw [sofar_count, seen]
    simpa using fits₂
  · simp [Draft.fresh]
  · exact fun _ mem => subset_sofar_turn _ _ _ _ (by rwa [fresh])

/-- A label's block asks for the entry only. -/
theorem meet (h : d.Backed uses entry past) (l : LabelId) :
    Onward uses entry d past (d.meet l) (d.sofar past) := by
  unfold Draft.meet
  split
  · exact ⟨past, fun _ _ => rfl, Nat.le_refl _, h, List.Subset.refl _⟩
  · have h₀ := h.beyond fun _ => entry
    have fresh : d.beyond past (fun _ => entry) d.fresh = entry := beyond_of_le (Nat.le_refl _) _ _
    have h₁ := h₀.newBlock (by rw [fresh]; exact List.Subset.refl _) s!"label.{l.index}"
    have seen := (h₀.sofar_newBlock s!"label.{l.index}").trans (h.sofar_beyond _)
    refine ⟨d.beyond past fun _ => entry, fun _ lt => if_pos lt, by simp, h₁.mark ?_ ?_ l, ?_⟩
    · simp [Draft.fresh]
    · rw [fresh]
      exact List.Subset.refl _
    · rw [sofar_mark, seen]
      exact List.Subset.refl _

theorem fits_jump (h : d.Backed uses entry past) {l : LabelId} {b : BlockId}
    (e : d.labelled? l = some b) : (Terminator.jump b).Fits d.size past (d.sofar past) where
  operands := by simp [Terminator.operands]
  targets t m := by
    cases List.mem_singleton.1 m
    have ⟨lt, sub⟩ := h.labels e
    exact ⟨lt, fun _ mem => h.entry_subset (sub mem)⟩

theorem jump (h : d.Backed uses entry past) {t next : BlockId} (lt : t.index < d.size)
    (asks : past t ⊆ d.sofar past) (lt' : next.index < d.size) :
    (d.turn (.jump t) next).Backed uses entry past := by
  refine h.turn ⟨by simp [Terminator.operands], fun t' m => ?_⟩ lt'
  cases List.mem_singleton.1 m
  exact ⟨lt, asks⟩

theorem branch (h : d.Backed uses entry past) (yes no next : BlockId)
    (among : cond.Among (d.sofar past)) (lt : yes.index < d.size) (asks : past yes ⊆ d.sofar past)
    (lt' : no.index < d.size) (asks' : past no ⊆ d.sofar past) (lt'' : next.index < d.size) :
    (d.turn (.branch cond yes no) next).Backed uses entry past := by
  refine h.turn ⟨by simpa [Terminator.operands] using among, fun t m => ?_⟩ lt''
  have : t = yes ∨ t = no := by simpa [Terminator.named] using m
  rcases this with rfl | rfl
  · exact ⟨lt, asks⟩
  · exact ⟨lt', asks'⟩

/-- Two new blocks, the second of which asks for less. -/
theorem fork (h : d.Backed uses entry past) (sub : scope ⊆ d.sofar past) (base : entry ⊆ scope)
    (among : cond.Among scope) (base' : entry ⊆ join) (less : join ⊆ scope) :
    ∃ past₁, (∀ b, b.index < d.size → past₁ b = past b) ∧
      (d.fork cond).Backed uses entry past₁ ∧ scope ⊆ (d.fork cond).sofar past₁ ∧
      past₁ ⟨d.size + 1⟩ = join := by
  let next : BlockId → List InstId := fun b => if b.index = d.size then scope else join
  have at₀ : d.beyond past next d.fresh = scope := by
    rw [beyond_of_le (Nat.le_refl d.fresh.index)]
    exact if_pos rfl
  have at₁ : d.beyond past next ⟨d.size + 1⟩ = join := by
    rw [beyond_of_le (Nat.le_succ _)]
    exact if_neg (Nat.succ_ne_self _)
  have h₀ := h.beyond next
  have h₁ := h₀.newBlock (by rwa [at₀]) s!"then.{d.counts.ifs}"
  have h₂ := h₁.newBlock (by rwa [fresh_newBlock, at₁]) s!"fallthrough.{d.counts.ifs}"
  have h₃ := h₂.count fun c => { c with ifs := d.counts.ifs + 1 }
  have seen := (h₁.sofar_newBlock s!"fallthrough.{d.counts.ifs}").trans
    ((h₀.sofar_newBlock s!"then.{d.counts.ifs}").trans (h.sofar_beyond next))
  rw [← seen] at sub
  have room : d.fresh.index < (((d.newBlock s!"then.{d.counts.ifs}").newBlock
      s!"fallthrough.{d.counts.ifs}").count fun c => { c with ifs := d.counts.ifs + 1 }).size := by
    rw [size_count, size_newBlock, size_newBlock, index_fresh]
    omega
  have h₄ := h₃.branch d.fresh ⟨d.size + 1⟩ d.fresh (among.mono sub) room (by rwa [at₀]) (by simp)
    (by rw [at₁]; exact fun _ m => sub (less m)) room
  exact ⟨d.beyond past next, fun _ lt => if_pos lt, h₄,
    fun _ m => subset_sofar_turn _ _ _ _ (by rwa [at₀]), at₁⟩

/-- Three new blocks, the third of which asks for less. -/
theorem forkElse (h : d.Backed uses entry past) (sub : scope ⊆ d.sofar past) (base : entry ⊆ scope)
    (among : cond.Among scope) (base' : entry ⊆ join) :
    ∃ past₁, (∀ b, b.index < d.size → past₁ b = past b) ∧
      (d.forkElse cond).Backed uses entry past₁ ∧ scope ⊆ (d.forkElse cond).sofar past₁ ∧
      past₁ ⟨d.size + 1⟩ = scope ∧ past₁ ⟨d.size + 2⟩ = join := by
  let next : BlockId → List InstId := fun b => if b.index = d.size + 2 then join else scope
  have at₀ : d.beyond past next d.fresh = scope := by
    rw [beyond_of_le (Nat.le_refl d.fresh.index)]
    exact if_neg (by simp)
  have at₁ : d.beyond past next ⟨d.size + 1⟩ = scope := by
    rw [beyond_of_le (Nat.le_add_right _ _)]
    exact if_neg (by simp)
  have at₂ : d.beyond past next ⟨d.size + 2⟩ = join := by
    rw [beyond_of_le (Nat.le_add_right _ _)]
    exact if_pos rfl
  have h₀ := h.beyond next
  have h₁ := h₀.newBlock (by rwa [at₀]) s!"then.{d.counts.ifs}"
  have h₂ := h₁.newBlock (by rwa [fresh_newBlock, at₁]) s!"else.{d.counts.ifs}"
  have h₃ := h₂.newBlock (by rwa [fresh_newBlock, size_newBlock, at₂])
    s!"fallthrough.{d.counts.ifs}"
  have h₄ := h₃.count fun c => { c with ifs := d.counts.ifs + 1 }
  have seen := (h₂.sofar_newBlock s!"fallthrough.{d.counts.ifs}").trans
    ((h₁.sofar_newBlock s!"else.{d.counts.ifs}").trans
      ((h₀.sofar_newBlock s!"then.{d.counts.ifs}").trans (h.sofar_beyond next)))
  rw [← seen] at sub
  have lt : d.size < d.size + 1 + 1 + 1 := by omega
  have h₅ := h₄.branch d.fresh ⟨d.size + 1⟩ d.fresh (among.mono sub) (by simpa using lt)
    (by rwa [at₀]) (by simp) (by rwa [at₁]) (by simpa using lt)
  exact ⟨d.beyond past next, fun _ lt => if_pos lt, h₅,
    fun _ m => subset_sofar_turn _ _ _ _ (by rwa [at₀]), at₁, at₂⟩

theorem newCases (h : d.Backed uses entry past) (base : ∀ b, d.size ≤ b.index → entry ⊆ past b)
    (n : Nat) : (d.newCases n).Backed uses entry past ∧
      (d.newCases n).sofar past = d.sofar past := by
  induction n generalizing d with
  | zero => exact ⟨h, rfl⟩
  | succ n ih =>
    have h₁ := (h.newBlock (base d.fresh (Nat.le_refl _)) s!"case.{d.counts.cases}").count fun c =>
      { c with cases := c.cases + 1 }
    have ⟨h₂, seen⟩ := ih h₁ fun b le => base b (by simp at le; omega)
    exact ⟨h₂, seen.trans (h.sofar_newBlock _)⟩

/-- New blocks for the bodies of a switch and one to leave them, all asking for the same. -/
theorem newSwitch (h : d.Backed uses entry past) {asks : List InstId} (base : entry ⊆ asks)
    (n : Nat) :
    ∃ past₁, (∀ b, b.index < d.size → past₁ b = past b) ∧
      (d.newSwitch n).Backed uses entry past₁ ∧ (d.newSwitch n).sofar past₁ = d.sofar past ∧
      ∀ b, d.size ≤ b.index → past₁ b = asks := by
  have at_ (b : BlockId) (le : d.size ≤ b.index) : d.beyond past (fun _ => asks) b = asks :=
    beyond_of_le le _ _
  have h₀ := (h.beyond fun _ => asks).count fun c => { c with switches := d.counts.switches + 1 }
  have ⟨h₁, seen₁⟩ := h₀.newCases (fun b le => by rwa [at_ b le]) n
  have h₂ := h₁.newBlock (by rw [fresh_newCases, at_ _ (by simp)]; exact base)
    s!"switch.exit.{d.counts.switches}"
  have seen₂ := h₁.sofar_newBlock s!"switch.exit.{d.counts.switches}"
  exact ⟨d.beyond past fun _ => asks, fun _ lt => if_pos lt, h₂,
    seen₂.trans (seen₁.trans (h.sofar_beyond _)), at_⟩

/-- A comparison selects a block, or lowering goes on. -/
theorem pass (h : d.Backed uses entry past) (sub : scope ⊆ d.sofar past) (base : entry ⊆ scope)
    (among : cond.Among (d.sofar past)) (selected : BlockId) (lt : selected.index < d.size)
    (asks : past selected ⊆ scope) : Onward uses entry d past (d.pass cond selected) scope := by
  have at₀ : d.beyond past (fun _ => scope) d.fresh = scope := beyond_of_le (Nat.le_refl _) _ _
  have h₀ := h.beyond fun _ => scope
  have h₁ := h₀.newBlock (by rwa [at₀]) s!"switch.test.{d.counts.tests}"
  have seen := (h₀.sofar_newBlock s!"switch.test.{d.counts.tests}").trans (h.sofar_beyond _)
  rw [← seen] at sub among
  have h₂ := h₁.count fun c => { c with tests := d.counts.tests + 1 }
  have asks₂ : d.beyond past (fun _ => scope) selected ⊆ scope := by rwa [Draft.beyond, if_pos lt]
  have h₃ := h₂.branch selected d.fresh d.fresh among (by simpa using Nat.lt_succ_of_lt lt)
    (fun _ m => sub (asks₂ m)) (by simp) (by rwa [at₀]) (by simp)
  exact ⟨d.beyond past fun _ => scope, fun _ lt => if_pos lt, by simp [Draft.pass], h₃,
    fun _ m => subset_sofar_turn _ _ _ _ (by rwa [at₀])⟩

end Backed

end Draft

/-! ## Lowering -/

section

open Draft

variable {uses : InstId → InstId → Prop} {entry scope : List InstId} {d d₁ d₂ : Draft}
  {past : BlockId → List InstId}

/-- Each comparison uses what it compares. -/
def Explains (uses : InstId → InstId → Prop) (placed : List Placed) : Prop :=
  ∀ id x y, .compare id x y ∈ placed → ∀ j, uses id j → x = .inst j ∨ y = .inst j

theorem Explains.left {ps qs : List Placed} (h : Explains uses (ps ++ qs)) : Explains uses ps :=
  fun id x y m => h id x y (List.mem_append_left _ m)

theorem Explains.right {ps qs : List Placed} (h : Explains uses (ps ++ qs)) : Explains uses qs :=
  fun id x y m => h id x y (List.mem_append_right _ m)

theorem Draft.Onward.after {past₁ : BlockId → List InstId} (h : Onward uses entry d₁ past₁ d₂ scope)
    (same : ∀ b, b.index < d.size → past₁ b = past b) (le : d.size ≤ d₁.size) :
    Onward uses entry d past d₂ scope := by
  obtain ⟨past₂, same₂, le₂, h₂, sub₂⟩ := h
  exact ⟨past₂, fun b lt => (same₂ b (Nat.lt_of_lt_of_le lt le)).trans (same b lt),
    Nat.le_trans le le₂, h₂, sub₂⟩

theorem Draft.Onward.trans {scope' : List InstId} (h : Onward uses entry d past d₁ scope)
    (next : ∀ past₁, (∀ b, b.index < d.size → past₁ b = past b) → d.size ≤ d₁.size →
      d₁.Backed uses entry past₁ → scope ⊆ d₁.sofar past₁ → Onward uses entry d₁ past₁ d₂ scope') :
    Onward uses entry d past d₂ scope' := by
  obtain ⟨past₁, same, le, h₁, sub⟩ := h
  exact (next past₁ same le h₁ sub).after same le

/-- Lowering goes on in a block that was there before, and leads to one that asks for no more than
has been executed. -/
theorem Draft.Onward.jump (h : Onward uses entry d past d₁ scope) (t next : BlockId)
    (lt : t.index < d.size) (asks : past t ⊆ scope) (lt' : next.index < d.size) :
    Onward uses entry d past (d₁.turn (.jump t) next) (past next) := by
  obtain ⟨past₁, same, le, h₁, sub⟩ := h
  have asks₁ : past₁ t ⊆ d₁.sofar past₁ := by
    rw [same t lt]
    exact List.Subset.trans asks sub
  refine ⟨past₁, same, by simpa using le,
    h₁.jump (Nat.lt_of_lt_of_le lt le) asks₁ (Nat.lt_of_lt_of_le lt' le), ?_⟩
  rw [← same next lt']
  exact subset_sofar_turn _ _ _ _

mutual

theorem Code.onward : ∀ (code : Code) {d : Draft} {past : BlockId → List InstId}
    {scope : List InstId}, d.Backed uses entry past → scope ⊆ d.sofar past → entry ⊆ scope →
    code.Scoped uses entry scope → Explains uses code.placed →
    Onward uses entry d past (code.lower d) (code.scope entry scope)
  | .skip, _, past, _, h, sub, _, _, _ => ⟨past, fun _ _ => rfl, Nat.le_refl _, h, sub⟩
  | .seq first second, _, _, _, h, sub, base, ⟨s₁, s₂⟩, ex =>
    (first.onward h sub base s₁ ex.left).trans fun _ _ _ h₁ sub₁ =>
      second.onward h₁ sub₁ (first.entry_subset_scope base) s₂ ex.right
  | .inst id, _, past, scope, h, sub, _, used, _ => by
    refine ⟨past, fun _ _ => rfl, by simp [Code.lower], h.add fun j u => sub (used j u),
      fun j mem => h.cons_subset_sofar_add id ?_⟩
    rcases List.mem_cons.1 mem with rfl | mem
    · exact List.mem_cons_self
    · exact List.mem_cons_of_mem _ (sub mem)
  | .leave value, _, _, _, h, sub, base, among, _ =>
    h.drop base ⟨fun v m => (among v (by simpa [Terminator.operands] using m)).mono sub,
      by simp [Terminator.named]⟩
  | .label l, d, _, _, h, _, _, _, _ =>
    (h.meet l).trans fun past₁ _ _ h₁ _ => by
      have e := labelled?_meet d l
      have h₂ := h₁.turn (h₁.fits_jump e) (h₁.labels e).1
      exact ⟨past₁, fun _ _ => rfl, by simp [Code.lower], h₂, h₂.entry_subset⟩
  | .goto l, d, _, _, h, _, base, _, _ =>
    (h.meet l).trans fun _ _ _ h₁ _ => h₁.drop base (h₁.fits_jump (labelled?_meet d l))
  | .ifThen cond body, d, past, scope, h, sub, base, ⟨among, s⟩, ex => by
    obtain ⟨past₁, same, h₁, sub₁, join⟩ := h.fork sub base among (subset_kept body.labels base)
      (kept_subset body.labels base)
    have size : (d.fork cond).size = d.size + 2 := by simp [Draft.fork]
    have arm := (body.onward h₁ sub₁ base s ex).jump ⟨d.size + 1⟩ ⟨d.size + 1⟩ (by simp [size])
      (join ▸ body.kept_subset_scope base) (by simp [size])
    rw [join] at arm
    exact arm.after same (by omega)
  | .ifElse cond body other, d, past, scope, h, sub, base, ⟨among, s₁, s₂⟩, ex => by
    obtain ⟨past₁, same, h₁, sub₁, second, join⟩ := h.forkElse sub base among
      (subset_kept (body.labels ++ other.labels) base)
    have size : (d.forkElse cond).size = d.size + 3 := by simp [Draft.forkElse]
    have arm := (body.onward h₁ sub₁ base s₁ ex.left).jump ⟨d.size + 2⟩ ⟨d.size + 1⟩
      (by simp [size])
      (join ▸ List.Subset.trans (kept_append_subset_left _ _ base) (body.kept_subset_scope base))
      (by simp [size])
    rw [second] at arm
    refine (arm.trans fun past₂ same₂ le h₂ sub₂ => ?_).after same (by omega)
    have join₂ := (same₂ ⟨d.size + 2⟩ (by simp [size])).trans join
    have lt : d.size + 2 < ((body.lower (d.forkElse cond)).turn (.jump ⟨d.size + 2⟩)
      ⟨d.size + 1⟩).size := by omega
    have arm₂ := (other.onward h₂ sub₂ base s₂ ex.right).jump ⟨d.size + 2⟩ ⟨d.size + 2⟩ lt
      (join₂ ▸ List.Subset.trans (kept_append_subset _ (kept_subset _ base) base)
        (other.kept_subset_scope base)) lt
    rwa [join₂] at arm₂
  | .switch scrutinee tests default bodies, d, past, scope, h, sub, base, ⟨s₁, s₂⟩, ex => by
    have base' := subset_kept (tests.labels ++ bodies.labels) base
    obtain ⟨past₁, same, h₁, seen, at_⟩ := h.newSwitch base' bodies.length
    have size : (d.newSwitch bodies.length).size = d.size + bodies.length + 1 := by
      simp [Draft.newSwitch]
    have lt (i : Nat) : (bodies.place d.size i).index < (d.newSwitch bodies.length).size := by
      simp only [Bodies.place, size]
      omega
    have asks (i : Nat) := at_ (bodies.place d.size i) (Nat.le_add_right _ _)
    have tested := (tests.onward scrutinee (bodies.place d.size) h₁ (seen ▸ sub) base s₁ ex.left
      (kept_append_subset_left _ _ base) fun i => ⟨lt i, asks i⟩).jump _ ⟨d.size⟩
      (lt (default.getD bodies.length)) (by rw [asks]; exact List.Subset.refl _)
      (by simp only [size]; omega)
    rw [at_ ⟨d.size⟩ (Nat.le_refl _)] at tested
    refine (tested.trans fun past₂ same₂ le h₂ sub₂ => ?_).after same (by omega)
    refine bodies.onward d.size h₂ sub₂ base' s₂ ex.right (kept_append_subset_self _ _)
      fun i le' => ?_
    exact ⟨by omega, (same₂ _ (by simp; omega)).trans (at_ _ (Nat.le_add_right _ _))⟩

theorem Tests.onward : ∀ (tests : Tests) (scrutinee : Value) (place : Nat → BlockId)
    {asks : List InstId} {d : Draft} {past : BlockId → List InstId} {scope : List InstId},
    d.Backed uses entry past → scope ⊆ d.sofar past → entry ⊆ scope →
    tests.Scoped uses entry scrutinee scope → Explains uses (tests.placed scrutinee) →
    asks ⊆ kept entry tests.labels scope →
    (∀ i, (place i).index < d.size ∧ past (place i) = asks) →
    Onward uses entry d past (tests.lower place d) asks
  | .done, _, _, _, _, past, _, h, sub, _, _, _, less, _ =>
    ⟨past, fun _ _ => rfl, Nat.le_refl _, h, List.Subset.trans less sub⟩
  | .test eval value compare body rest, scrutinee, place, asks, d, past, scope, h, sub, base,
      ⟨s, x, y, s'⟩, ex, less, at_ => by
    have base' := eval.entry_subset_scope base
    have less' : asks ⊆ eval.scope entry scope := List.Subset.trans less
      (List.Subset.trans (kept_append_subset_left _ _ base) (eval.kept_subset_scope base))
    refine (eval.onward h sub base s ex.left).trans fun past₁ same₁ le₁ h₁ sub₁ => ?_
    have used (j : InstId) (u : uses compare j) : j ∈ (eval.lower d).sofar past₁ := by
      rcases ex compare scrutinee value (List.mem_append_right _ List.mem_cons_self) j u with e | e
      · exact sub₁ (x j e)
      · exact sub₁ (y j e)
    have h₂ := h₁.add used
    have sub₂ := h₁.cons_subset_sofar_add compare
    have among : (Value.inst compare).Among (((eval.lower d).add [compare]).sofar past₁) :=
      fun j e => by cases e; exact sub₂ List.mem_cons_self
    have passed := h₂.pass (fun _ m => sub₂ (List.mem_cons_of_mem _ (sub₁ m))) base' among
      (place body) (by rw [size_add]; exact Nat.lt_of_lt_of_le (at_ body).1 le₁)
      (by rw [same₁ _ (at_ body).1, (at_ body).2]; exact less')
    refine (passed.trans fun past₃ same₃ le₃ h₃ sub₃ => ?_).after (fun _ _ => rfl) (by simp)
    rw [size_add] at same₃ le₃
    refine rest.onward scrutinee place h₃ sub₃ base' s' (fun id x y m => ex.right id x y
      (List.mem_cons_of_mem _ m)) (List.Subset.trans less
        (kept_append_subset _ (eval.kept_subset_scope base) base')) fun i => ?_
    have lt := Nat.lt_of_lt_of_le (at_ i).1 le₁
    exact ⟨Nat.lt_of_lt_of_le lt le₃, (same₃ _ lt).trans ((same₁ _ (at_ i).1).trans (at_ i).2)⟩

theorem Bodies.onward : ∀ (bodies : Bodies) (base : Nat) {asks : List InstId} {d : Draft}
    {past : BlockId → List InstId}, d.Backed uses entry past → asks ⊆ d.sofar past →
    entry ⊆ asks → bodies.Scoped uses entry asks → Explains uses bodies.placed →
    asks ⊆ kept entry bodies.labels asks →
    (∀ i, i ≤ bodies.length → base + i < d.size ∧ past ⟨base + i⟩ = asks) →
    Onward uses entry d past (bodies.lower base d) asks
  | .nil, _, _, _, past, h, sub, _, _, _, _, _ => ⟨past, fun _ _ => rfl, Nat.le_refl _, h, sub⟩
  | .cons body rest, base, asks, d, past, h, sub, least, ⟨s, s'⟩, ex, less, at_ => by
    have ⟨lt, next⟩ := at_ 1 (by simp [Bodies.length])
    have enough : past ⟨base + 1⟩ ⊆ body.scope entry asks := by
      rw [next]
      exact List.Subset.trans less
        (List.Subset.trans (kept_append_subset_left _ _ least) (body.kept_subset_scope least))
    have first := (body.onward h sub least s ex.left).jump ⟨base + 1⟩ ⟨base + 1⟩ lt enough lt
    rw [next] at first
    refine first.trans fun past₁ same le h₁ sub₁ => ?_
    refine rest.onward (base + 1) h₁ sub₁ least s' ex.right
      (List.Subset.trans less (kept_append_subset _ (kept_subset _ least) least)) fun i le' => ?_
    have ⟨lt, here⟩ := at_ (i + 1) (by simp [Bodies.length]; omega)
    have shift : base + 1 + i = base + (i + 1) := by omega
    rw [shift]
    exact ⟨Nat.lt_of_lt_of_le lt le, (same _ lt).trans here⟩

end

theorem Draft.Backed.finish {d : Draft} {past : BlockId → List InstId}
    (h : d.Backed uses entry past)
    (first : past ⟨0⟩ = []) (void : Bool) : (d.builder.finish void).Backed uses past := by
  have exits {b : BlockId} {block : BasicBlock}
      (e : (d.builder.finish void).blocks[b.index]? = some block) :
      block.terminator.Fits d.size past (past b ++ block.insts) := by
    obtain ⟨openBlock, e, insts, exit⟩ := exists_block_of_finish e
    rw [insts, exit]
    cases t : openBlock.terminator with
    | some exit => exact (h.blocks e).exits t
    | none => cases void <;> exact ⟨by simp [Terminator.operands], by simp [Terminator.named]⟩
  refine ⟨first, fun {b block} e {p id j} found use => ?_, fun {b block} e {j} mem => ?_,
    fun {b block} e t mem => ?_⟩
  · obtain ⟨openBlock, e, insts, _⟩ := exists_block_of_finish e
    rw [insts] at found ⊢
    exact (h.blocks e).insts found use
  · exact (exits e).operands _ mem j rfl
  · exact ((exits e).targets t mem).2

theorem Draft.backed_start
    (own : ∀ {p id j}, entry[p]? = some id → uses id j → j ∈ entry.take p) :
    (start.add entry).Backed uses entry fun _ => [] := by
  have at₀ : start.block? start.cursor = some ⟨"entry", [], none⟩ := rfl
  refine ⟨by simp [start, Draft.cursor, Draft.size, Builder.initial, Draft.add],
    fun e => by simp [start, labelled?, Draft.add] at e, fun {b block} e => ?_⟩
  by_cases cursor : b = start.cursor
  · rw [cursor, block?_add_cursor at₀] at e
    cases e
    exact ⟨by simp, own, by simp⟩
  · rw [block?_add_of_ne cursor] at e
    have lt := lt_of_block? e
    exact absurd (congrArg BlockId.mk (Nat.lt_one_iff.1 lt)) cursor

/-- Code that uses only what has been executed becomes a body whose operands are found on every way
to them. The entry instructions are in its first block. -/
theorem Code.backed_finish {code : Code}
    (own : ∀ {p id j}, entry[p]? = some id → uses id j → j ∈ entry.take p)
    (inScope : code.Scoped uses entry entry) (ex : Explains uses code.placed) (void : Bool) :
    ∃ past block, ((code.lower (start.add entry)).builder.finish void).Backed uses past ∧
      ((code.lower (start.add entry)).builder.finish void).blocks[0]? = some block ∧
      entry ⊆ block.insts := by
  have h := Draft.backed_start own
  obtain ⟨past, same, le, h', _⟩ := code.onward h h.entry_subset (List.Subset.refl _) inScope ex
  have one : 0 < (start.add entry).size := by simp [start, Draft.size, Builder.initial, Draft.add]
  have first : past ⟨0⟩ = [] := same ⟨0⟩ one
  obtain ⟨openBlock, e⟩ : ∃ block, (code.lower (start.add entry)).block? ⟨0⟩ = some block :=
    ⟨_, Array.getElem?_eq_getElem (Nat.lt_of_lt_of_le one le)⟩
  have sub := (h'.blocks e).entry
  rw [first, List.nil_append] at sub
  exact ⟨past, _, h'.finish first void, blocks_finish e void, sub⟩

end

end Codegen
