import Codegen.Body.Basic
import Codegen.Inst.Store
import Mathlib.Data.List.Nodup

/-!
Where the operands of a body come from. What has been executed on every way to a block is told by a
closure of the exits, and if every instruction stands in one place, that place dominates the block.
-/

namespace Codegen

/-- The operands of an instruction. -/
def InstKind.operands : InstKind → List Value
  | .alloca .. => []
  | .load ptr => [ptr]
  | .store ptr value => [ptr, value]
  | .binary _ lhs rhs | .compare _ lhs rhs => [lhs, rhs]
  | .unary _ operand | .cast operand => [operand]
  | .fieldAddr base _ | .extractField base _ => [base]
  | .extractElem base index | .elemAddr base index => [base, index]
  | .aggregate elems => elems
  | .call callee args => callee :: args
  | .ret value => value.toList

/-- The operands of an exit. -/
def Terminator.operands : Terminator → List Value
  | .branch cond _ _ => [cond]
  | .ret value => value.toList
  | .jump _ | .unreachable => []

/-- An instruction uses the result of another. -/
def InstStore.Uses (s : InstStore) (id j : InstId) : Prop :=
  ∃ inst, s.find? id = some inst ∧ .inst j ∈ inst.kind.operands

namespace Body

/-- A way from the entry to a block, with the blocks on it before that one, the latest first. -/
inductive Path (body : Body) : List BlockId → BlockId → Prop
  | entry : Path body [] body.entry
  | step {before b block target} : Path body before b → body.blocks[b.index]? = some block →
    target ∈ block.terminator.targets → Path body (b :: before) target

/-- Every way to a block comes through another one first. -/
def Dominates (body : Body) (d b : BlockId) : Prop := ∀ before, body.Path before b → d ∈ before

/-- All instructions, block by block. -/
def insts (body : Body) : List InstId := body.blocks.toList.flatMap (·.insts)

/-- The result of an instruction is there at a point of a block, where the block has executed some
instructions so far: the instruction stands in one place, which is among these or in a block that
dominates this one. -/
def Defined (body : Body) (b : BlockId) (sofar : List InstId) (j : InstId) : Prop :=
  body.insts.count j = 1 ∧ (j ∈ sofar ∨
    ∃ d block, body.blocks[d.index]? = some block ∧ j ∈ block.insts ∧ body.Dominates d b)

/-- The instructions in `past b` have been executed on every way to `b`, and all operands are
found there or earlier in their block. -/
structure Backed (uses : InstId → InstId → Prop) (body : Body) (past : BlockId → List InstId) :
    Prop where
  entry : past body.entry = []
  insts : ∀ {b block}, body.blocks[b.index]? = some block → ∀ {p id j},
    block.insts[p]? = some id → uses id j → j ∈ past b ++ block.insts.take p
  operands : ∀ {b block}, body.blocks[b.index]? = some block → ∀ {j},
    .inst j ∈ block.terminator.operands → j ∈ past b ++ block.insts
  targets : ∀ {b block}, body.blocks[b.index]? = some block → ∀ t ∈ block.terminator.targets,
    past t ⊆ past b ++ block.insts

variable {uses : InstId → InstId → Prop} {body : Body} {past : BlockId → List InstId} {b : BlockId}
  {block : BasicBlock} {j : InstId}

theorem Backed.exists_before (h : body.Backed uses past) {before : List BlockId}
    (path : body.Path before b) (mem : j ∈ past b) :
    ∃ d ∈ before, ∃ block, body.blocks[d.index]? = some block ∧ j ∈ block.insts := by
  induction path with
  | entry => simp [h.entry] at mem
  | @step before b block target path found exit ih =>
    rcases List.mem_append.1 (h.targets found target exit mem) with mem | mem
    · obtain ⟨d, md, rest⟩ := ih mem
      exact ⟨d, List.mem_cons_of_mem _ md, rest⟩
    · exact ⟨b, List.mem_cons_self, block, found, mem⟩

/-- An instruction that stands in one place stands in one block. -/
theorem block_unique (nodup : body.insts.Nodup) {c : BlockId} {block' : BasicBlock}
    (hb : body.blocks[b.index]? = some block) (hc : body.blocks[c.index]? = some block')
    (mem : j ∈ block.insts) (mem' : j ∈ block'.insts) : b = c := by
  have apart := List.pairwise_iff_getElem.1 (List.nodup_flatMap.1 nodup).2
  rw [← Array.getElem?_toList, List.getElem?_eq_some_iff] at hb hc
  obtain ⟨ltb, rfl⟩ := hb
  obtain ⟨ltc, rfl⟩ := hc
  obtain ⟨b⟩ := b
  obtain ⟨c⟩ := c
  rcases Nat.lt_trichotomy b c with lt | rfl | lt
  · exact absurd mem' fun m => apart b c ltb ltc lt mem m
  · rfl
  · exact absurd mem fun m => apart c b ltc ltb lt mem' m

theorem mem_insts (found : body.blocks[b.index]? = some block) (mem : j ∈ block.insts) :
    j ∈ body.insts :=
  List.mem_flatMap.2 ⟨block, List.mem_of_getElem? (Array.getElem?_toList ▸ found), mem⟩

/-- What is backed is defined, on a way from the entry. -/
theorem Backed.defined (h : body.Backed uses past) (nodup : body.insts.Nodup)
    {before : List BlockId} {sofar : List InstId} (path : body.Path before b)
    (found : body.blocks[b.index]? = some block) (sub : sofar ⊆ block.insts)
    (mem : j ∈ past b ++ sofar) : body.Defined b sofar j := by
  rcases List.mem_append.1 mem with mem | mem
  · obtain ⟨d, _, block', found', mem'⟩ := h.exists_before path mem
    refine ⟨List.count_eq_one_of_mem nodup (mem_insts found' mem'),
      .inr ⟨d, block', found', mem', fun other path' => ?_⟩⟩
    obtain ⟨d', md, block'', found'', mem''⟩ := h.exists_before path' mem
    rwa [block_unique nodup found' found'' mem' mem'']
  · exact ⟨List.count_eq_one_of_mem nodup (mem_insts found (sub mem)), .inl mem⟩

end Body

end Codegen
