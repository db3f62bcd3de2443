import Codegen.Proofs.Compilation.Nodes
import Codegen.Proofs.Evaluation.Expression
import Codegen.Proofs.Tree.Forest

/-!
The instructions below a node in the order in which they are emitted, and what instructions have to
do to compute values: nothing but slots has to be there before, and nothing that was there is lost.
-/

namespace Codegen

/-! ## Emission -/

namespace Arena

/-- The instructions below a node: those of the children in order, then the node's own. Sentinels
have none. -/
inductive Emits (a : Arena) : NodeId → List InstId → Prop
  | node {x : NodeId} {node : Node} (code : NodeId → List InstId) : a.find? x = some node →
    (∀ k ∈ a.kidsOf x, a.Emits k (code k)) → a.Emits x ((a.kidsOf x).flatMap code ++ node.insts)

namespace Emits

variable {a a' : Arena} {x : NodeId} {code : List InstId}

theorem unique (h : a.Emits x code) {code' : List InstId} (h' : a.Emits x code') :
    code = code' := by
  induction h generalizing code' with
  | node part find _ ih =>
    cases h' with
    | node part' find' kids' =>
      cases find.symm.trans find'
      rw [List.flatMap_congr fun k kid => ih k kid (kids' k kid)]

theorem frame (h : a.Emits x code) (same : ∀ n, a.Below x n → a'.find? n = a.find? n) :
    a'.Emits x code := by
  induction h with
  | @node x node part find _ ih =>
    have kids : a'.kidsOf x = a.kidsOf x := kidsOf_congr (same x .refl)
    rw [← kids]
    refine .node part ((same x .refl).trans find) fun k kid => ?_
    rw [kids] at kid
    exact ih k kid fun n below => same n (below.head kid)

theorem exists_below (h : a.Emits x code) {i : InstId} (mem : i ∈ code) :
    ∃ n, a.Below x n ∧ i ∈ a.instsOf n := by
  induction h with
  | @node x node part find _ ih =>
    rcases List.mem_append.1 mem with mem | mem
    · obtain ⟨k, kid, mem⟩ := List.mem_flatMap.1 mem
      obtain ⟨n, below, mem⟩ := ih k kid mem
      exact ⟨n, below.head kid, mem⟩
    · exact ⟨x, .refl, by rwa [instsOf_eq_of_find? find]⟩

/-- A node whose instructions can be listed is not below its children. -/
theorem not_below (h : a.Emits x code) {k : NodeId} (kid : k ∈ a.kidsOf x) : ¬a.Below k x := by
  induction h generalizing k with
  | @node x node part find _ ih =>
    intro below
    rcases Relation.ReflTransGen.cases_head below with rfl | ⟨k', kid', below'⟩
    · exact ih k kid kid .refl
    · exact ih k kid kid' (below'.tail kid)

/-- A node gets more instructions of its own. -/
theorem append (h : a.Emits x code) {node node' : Node} {new : List InstId}
    (find : a.find? x = some node) (find' : a'.find? x = some node') (kids : node'.kids = node.kids)
    (insts : node'.insts = node.insts ++ new) (others : ∀ n, n ≠ x → a'.find? n = a.find? n) :
    a'.Emits x (code ++ new) := by
  have out {k : NodeId} (kid : k ∈ a.kidsOf x) : ¬a.Below k x := h.not_below kid
  cases h with
  | node part found each =>
    cases find.symm.trans found
    have kids : a'.kidsOf x = a.kidsOf x := by
      rw [kidsOf_eq_of_find? find, kidsOf_eq_of_find? find', kids]
    rw [List.append_assoc, ← insts, ← kids]
    refine .node part find' fun k kid => ?_
    rw [kids] at kid
    refine (each k kid).frame fun n below => others n ?_
    rintro rfl
    exact out kid below

end Emits

end Arena

/-! ## Code -/

theorem Meaning.all_append (fs gs : List Meaning) (K : Machine) (σ : K.Regs) (m : K.Mem) :
    Meaning.all (fs ++ gs) K σ m =
      ((all fs K σ m).1 ++ (all gs K σ (all fs K σ m).2).1, (all gs K σ (all fs K σ m).2).2) := by
  induction fs generalizing m with
  | nil => rfl
  | cons f fs ih =>
    change ((f K σ m).1 :: (all (fs ++ gs) K σ (f K σ m).2).1, (all (fs ++ gs) K σ (f K σ m).2).2) =
      _
    rw [ih]
    rfl

/-- What an instruction does to operands computed before. -/
def Meaning.Applies (f : Meaning) (inst : Inst) (vs : List Value) (fs : List Meaning) : Prop :=
  ∀ (K : Machine) (σ ρ : K.Regs) (m : K.Mem), vs.map (K.value ρ) = (all fs K σ m).1 →
    f K σ m = K.act (inst.kind.operation (K.value ρ)) inst.ty (all fs K σ m).2

namespace Meaning.Applies

variable {kind : InstKind} {ty : TypeId} {v w : Value} {f g h : Meaning}

/-- An instruction with one operand. -/
theorem one (op : (V : Type) → V → Operation V)
    (same : ∀ (V : Type) (value : Value → V), kind.operation value = op V (value v))
    (meaning : ∀ K σ, f K σ = (g K σ >>= fun x => K.act (op _ x) ty)) :
    f.Applies ⟨kind, ty⟩ [v] [g] := by
  intro K σ ρ m values
  have value : K.value ρ v = (g K σ m).1 := List.head_eq_of_cons_eq values
  rw [meaning, same, value]
  rfl

/-- An instruction with two operands. -/
theorem two (op : (V : Type) → V → V → Operation V)
    (same : ∀ (V : Type) (value : Value → V), kind.operation value = op V (value v) (value w))
    (meaning : ∀ K σ, f K σ = (g K σ >>= fun x => h K σ >>= fun y => K.act (op _ x y) ty)) :
    f.Applies ⟨kind, ty⟩ [v, w] [g, h] := by
  intro K σ ρ m values
  have first : K.value ρ v = (g K σ m).1 := List.head_eq_of_cons_eq values
  have second : K.value ρ w = (h K σ (g K σ m).2).1 :=
    List.head_eq_of_cons_eq (List.tail_eq_of_cons_eq values)
  rw [meaning, same, first, second]
  rfl

/-- An instruction that puts members together. -/
theorem members {vs : List Value} {es : List Expr} :
    (Expr.literal ty es).eval.Applies ⟨.aggregate vs, ty⟩ vs (es.map Expr.read) := by
  intro K σ ρ m values
  rw [Expr.eval, Expr.evalAll_eq, InstKind.operation, values]
  rfl

/-- An instruction that calls what its first operand points to. -/
theorem called {vs : List Value} {callee : Expr} {args : List Expr} :
    (Expr.call ty callee args).eval.Applies ⟨.call v vs, ty⟩ (v :: vs)
      (callee.read :: args.map Expr.read) := by
  intro K σ ρ m values
  have first : K.value ρ v = (callee.read K σ m).1 := List.head_eq_of_cons_eq values
  have rest := List.tail_eq_of_cons_eq values
  rw [Expr.eval, Expr.evalAll_eq, InstKind.operation, first, rest]
  rfl

end Meaning.Applies

/-- Registers in which the slots have their addresses. -/
def Machine.Regs.Agree {K : Machine} (ρ σ : K.Regs) (s : InstStore) : Prop :=
  ∀ j, s.Allocates j → ρ j = σ j

/-- Instructions that leave values behind, whatever was left behind before. -/
structure Runs (s : InstStore) (code : List InstId) (vs : List Value) (fs : List Meaning) :
    Prop where
  plain : ∀ i ∈ code, ∃ inst, s.find? i = some inst ∧ inst.kind.isRet = false ∧
    inst.kind.isAlloca = false
  known : ∀ i, .inst i ∈ vs → i ∈ code ∨ s.Allocates i
  run : ∀ (K : Machine) (σ ρ : K.Regs) (m : K.Mem), ρ.Agree σ s → ∃ ρ',
    K.exec s code (ρ, m) = some (ρ', (Meaning.all fs K σ m).2) ∧
      vs.map (K.value ρ') = (Meaning.all fs K σ m).1

namespace Runs

variable {s s' : InstStore} {code code' : List InstId} {vs vs' : List Value} {fs fs' : List Meaning}

theorem nil : Runs s [] [] [] := ⟨nofun, nofun, fun _ _ ρ _ _ => ⟨ρ, rfl, rfl⟩⟩

/-- A value that is there from the start. -/
theorem leaf {v : Value} {f : Meaning} (known : ∀ i, v = .inst i → s.Allocates i)
    (same : ∀ K σ m, f K σ m = (K.value σ v, m)) : Runs s [] [v] [f] := by
  refine ⟨nofun, fun i mem => .inr (known i (List.mem_singleton.1 mem).symm),
    fun K σ ρ m agree => ?_⟩
  have value : K.value ρ v = K.value σ v := by
    cases v with
    | inst i => exact agree i (known i rfl)
    | const | global | param | func => rfl
  have all : Meaning.all [f] K σ m = ([(f K σ m).1], (f K σ m).2) := rfl
  rw [all, same]
  exact ⟨ρ, rfl, by rw [List.map_singleton, value]⟩

theorem not_allocates (h : Runs s code vs fs) {j : InstId} (alloca : s.Allocates j) : j ∉ code := by
  intro mem
  obtain ⟨inst, found, -, plain⟩ := h.plain j mem
  obtain ⟨ty, name, t, found'⟩ := alloca
  cases found.symm.trans found'
  cases plain

theorem agree (h : Runs s code vs fs) {K : Machine} {σ ρ ρ' : K.Regs} {m m' : K.Mem}
    (agree : ρ.Agree σ s) (run : K.exec s code (ρ, m) = some (ρ', m')) : ρ'.Agree σ s := by
  intro j alloca
  have same : ρ' j = ρ j := Machine.exec_of_not_mem run (h.not_allocates alloca)
  exact same.trans (agree j alloca)

/-- Instructions after others, which are no part of the same node. -/
theorem append (h : Runs s code vs fs) (h' : Runs s code' vs' fs') (apart : ∀ i ∈ code, i ∉ code') :
    Runs s (code ++ code') (vs ++ vs') (fs ++ fs') := by
  refine ⟨fun i mem => ?_, fun i mem => ?_, fun K σ ρ m agree => ?_⟩
  · exact (List.mem_append.1 mem).elim (h.plain i) (h'.plain i)
  · rcases List.mem_append.1 mem with mem | mem
    · exact (h.known i mem).imp_left fun mem => List.mem_append_left _ mem
    · exact (h'.known i mem).imp_left fun mem => List.mem_append_right _ mem
  · obtain ⟨ρ₁, run, values⟩ := h.run K σ ρ m agree
    obtain ⟨ρ₂, run', values'⟩ := h'.run K σ ρ₁ (Meaning.all fs K σ m).2 (h.agree agree run)
    refine ⟨ρ₂, ?_, ?_⟩
    · rw [Machine.exec_append, run, Option.bind_some, run', Meaning.all_append]
    · have kept : vs.map (K.value ρ₂) = vs.map (K.value ρ₁) := by
        refine List.map_congr_left fun v mem => ?_
        cases v with
        | inst i =>
          have out : i ∉ code' := (h.known i mem).elim (apart i) h'.not_allocates
          exact Machine.exec_of_not_mem run' out
        | const | global | param | func => rfl
      rw [List.map_append, kept, values, values', Meaning.all_append]

/-- Instructions do what they did wherever they are still there. -/
theorem frame (h : Runs s code vs fs)
    (same : ∀ i ∈ code, ∀ inst, s.find? i = some inst → inst.kind.isRet = false →
      s'.find? i = some inst)
    (allocas : ∀ {j}, s.Allocates j → s'.Allocates j) : Runs s' code vs fs := by
  have same' : ∀ i ∈ code, s'.find? i = s.find? i := fun i mem => by
    obtain ⟨inst, found, noRet, -⟩ := h.plain i mem
    rw [found, same i mem inst found noRet]
  refine ⟨fun i mem => ?_, fun i mem => (h.known i mem).imp_right allocas, fun K σ ρ m agree => ?_⟩
  · rw [same' i mem]
    exact h.plain i mem
  · rw [Machine.exec_congr same']
    exact h.run K σ ρ m fun j alloca => agree j (allocas alloca)

/-- One more instruction, with what was computed before. -/
theorem exec_snoc (h : Runs s code vs fs) {i : InstId} {inst : Inst} (found : s.find? i = some inst)
    {f : Meaning} (applies : f.Applies inst vs fs) {K : Machine} {σ ρ : K.Regs} (m : K.Mem)
    (agree : ρ.Agree σ s) :
    ∃ ρ', K.exec s (code ++ [i]) (ρ, m) = some (ρ', (f K σ m).2) ∧ ρ' i = (f K σ m).1 := by
  obtain ⟨ρ₁, run, values⟩ := h.run K σ ρ m agree
  rw [applies K σ ρ₁ m values, Machine.exec_append, run, Option.bind_some, Machine.exec_cons found]
  exact ⟨_, rfl, if_pos rfl⟩

theorem snoc (h : Runs s code vs fs) {i : InstId} {inst : Inst} (found : s.find? i = some inst)
    (noRet : inst.kind.isRet = false) (slot : inst.kind.isAlloca = false) {f : Meaning}
    (applies : f.Applies inst vs fs) : Runs s (code ++ [i]) [.inst i] [f] := by
  refine ⟨fun j mem => ?_, fun j mem => ?_, fun K σ ρ m agree => ?_⟩
  · rcases List.mem_append.1 mem with mem | mem
    · exact h.plain j mem
    · cases List.mem_singleton.1 mem
      exact ⟨inst, found, noRet, slot⟩
  · cases List.mem_singleton.1 mem
    exact .inl (by simp)
  · obtain ⟨ρ', run, value⟩ := h.exec_snoc found applies m agree
    refine ⟨ρ', run, ?_⟩
    rw [List.map_singleton, Machine.value, value]
    rfl

end Runs

end Codegen
