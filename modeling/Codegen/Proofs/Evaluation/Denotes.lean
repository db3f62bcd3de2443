import Codegen.Proofs.Compilation.Tidy
import Codegen.Proofs.Evaluation.Emission

/-!
Nodes that stand for expressions. The instructions below a finished node compute what the expression
means; a literal under construction has members that stand for its members. What happens elsewhere
changes neither.
-/

namespace Codegen.Compilation

variable {c c' c'' : Compilation} {x : NodeId} {v : Value} {f : Meaning} {e : Expr}

/-! ## Changes elsewhere -/

/-- What is below a node is as it was, but for returns in it; no slot is lost. -/
structure Spares (c c' : Compilation) (x : NodeId) : Prop where
  nodes : ∀ {n}, c.arena.Below x n → c'.arena.find? n = c.arena.find? n
  insts : ∀ {n i inst}, c.arena.Below x n → i ∈ c.arena.instsOf n → c.insts.find? i = some inst →
    inst.kind.isRet = false → c'.insts.find? i = some inst
  allocas : ∀ {j}, c.insts.Allocates j → c'.insts.Allocates j

theorem Leaves.spares {hand : List NodeId} (h : c.Leaves c' hand) (mem : x ∈ hand)
    (plain : ¬x.isSentinel) (tree : c.arena.IsExprTree x) : c.Spares c' x where
  nodes below := (h.trees x mem plain tree _ below).1
  insts below attached found noRet := (h.trees x mem plain tree _ below).2 _ attached _ found noRet
  allocas := h.allocas

theorem Revises.spares {P : NodeId → Prop} (h : c.Revises c' P) (o : c.Orderly)
    (out : ∀ {n}, c.arena.Below x n → ¬P n) : c.Spares c' x where
  nodes below := h.frame (out below)
  insts _ attached found _ := (h.store (o.insts attached)).trans found
  allocas := h.allocas

namespace Spares

theorem kid (h : c.Spares c' x) {k : NodeId} (kid : k ∈ c.arena.kidsOf x) : c.Spares c' k where
  nodes below := h.nodes (below.head kid)
  insts below := h.insts (below.head kid)
  allocas := h.allocas

theorem refl (c : Compilation) (x : NodeId) : c.Spares c x :=
  ⟨fun _ => rfl, fun _ _ found _ => found, fun alloca => alloca⟩

theorem below_iff (h : c.Spares c' x) {n : NodeId} : c'.arena.Below x n ↔ c.arena.Below x n := by
  refine ⟨fun below => ?_, Arena.below_of_frame fun _ => h.nodes⟩
  induction below with
  | refl => exact .refl
  | tail _ kid ih =>
    refine ih.tail ?_
    rwa [← Arena.kidsOf_congr (h.nodes ih)]

theorem trans (h : c.Spares c' x) (h' : c'.Spares c'' x) : c.Spares c'' x where
  nodes below := (h'.nodes (h.below_iff.2 below)).trans (h.nodes below)
  insts below attached found noRet := by
    refine h'.insts (h.below_iff.2 below) ?_ (h.insts below attached found noRet) noRet
    rwa [Arena.instsOf, h.nodes below]
  allocas alloca := h'.allocas (h.allocas alloca)

theorem isExprTree (h : c.Spares c' x) (tree : c.arena.IsExprTree x) : c'.arena.IsExprTree x := by
  intro n node below find
  have below := h.below_iff.1 below
  exact tree n node below ((h.nodes below).symm.trans find)

theorem apart {y : NodeId} (h : c.Spares c' x) (h' : c.Spares c' y) (apart : c.arena.Apart x y) :
    c'.arena.Apart x y :=
  fun n below below' => apart n (h.below_iff.1 below) (h'.below_iff.1 below')

end Spares

/-! ## Nodes that compute -/

/-- The instructions below an expression leave a value behind. -/
structure Computes (c : Compilation) (x : NodeId) (v : Value) (f : Meaning) : Prop where
  plain : ¬x.isSentinel
  tree : c.arena.IsExprTree x
  code : ∃ code, c.arena.Emits x code ∧ Runs c.insts code [v] [f]

theorem Spares.computes (h : c.Spares c' x) (computes : c.Computes x v f) : c'.Computes x v f := by
  obtain ⟨code, emits, runs⟩ := computes.code
  refine ⟨computes.plain, h.isExprTree computes.tree, code, emits.frame fun _ => h.nodes, ?_⟩
  refine runs.frame (fun i mem inst found noRet => ?_) h.allocas
  obtain ⟨n, below, attached⟩ := emits.exists_below mem
  exact h.insts below attached found noRet

/-- Nodes that compute values one after the other. -/
inductive Ready (c : Compilation) : List NodeId → List Value → List Meaning → Prop
  | nil : Ready c [] [] []
  | cons {k : NodeId} {v : Value} {f : Meaning} {ks : List NodeId} {vs : List Value}
    {fs : List Meaning} : c.Computes k v f → Ready c ks vs fs →
    Ready c (k :: ks) (v :: vs) (f :: fs)

namespace Ready

variable {ks : List NodeId} {vs : List Value} {fs : List Meaning}

theorem frame (h : c.Ready ks vs fs) (spares : ∀ k ∈ ks, c.Spares c' k) : c'.Ready ks vs fs := by
  induction h with
  | nil => exact .nil
  | cons computes _ ih =>
    exact .cons ((spares _ (by simp)).computes computes) (ih fun k mem => spares k (by simp [mem]))

theorem plain (h : c.Ready ks vs fs) : ∀ k ∈ ks, ¬k.isSentinel := by
  induction h with
  | nil => simp
  | cons computes _ ih => exact List.forall_mem_cons.2 ⟨computes.plain, ih⟩

theorem tree (h : c.Ready ks vs fs) : ∀ k ∈ ks, c.arena.IsExprTree k := by
  induction h with
  | nil => simp
  | cons computes _ ih => exact List.forall_mem_cons.2 ⟨computes.tree, ih⟩

/-- The instructions of trees that have nothing in common can be executed one after the other. -/
theorem runs (h : c.Ready ks vs fs) (sound : c.Sound) (apart : ks.Pairwise c.arena.Apart) :
    ∃ code : NodeId → List InstId, (∀ k ∈ ks, c.arena.Emits k (code k)) ∧
      Runs c.insts (ks.flatMap code) vs fs := by
  induction h with
  | nil => exact ⟨fun _ => [], nofun, .nil⟩
  | @cons k v f ks vs fs computes _ ih =>
    obtain ⟨away, apart⟩ := List.pairwise_cons.1 apart
    obtain ⟨rest, emits, runs⟩ := ih apart
    obtain ⟨code, emits', runs'⟩ := computes.code
    have out : k ∉ ks := fun mem => computes.plain (away k mem k .refl .refl)
    have same : ks.flatMap (fun n => if n = k then code else rest n) = ks.flatMap rest := by
      refine List.flatMap_congr fun n mem => if_neg ?_
      rintro rfl
      exact out mem
    refine ⟨fun n => if n = k then code else rest n, fun n mem => ?_, ?_⟩
    · by_cases e : n = k
      · subst e
        simpa using emits'
      · simpa [e] using emits n ((List.mem_cons.1 mem).resolve_left e)
    · rw [List.flatMap_cons, if_pos rfl, same]
      refine runs'.append runs fun i mem mem' => ?_
      obtain ⟨k', kid, mem'⟩ := List.mem_flatMap.1 mem'
      obtain ⟨n, below, attached⟩ := emits'.exists_below mem
      obtain ⟨n', below', attached'⟩ := (emits k' kid).exists_below mem'
      cases sound.owned.unique attached attached'
      exact Arena.not_isSentinel_of_below computes.plain below (away k' kid n below below')

end Ready

section

variable {kids : List NodeId} {vs : List Value} {fs : List Meaning} {node : Node}
  (h : c.Ready kids vs fs) (find : c.arena.find? x = some node) (same : node.kids = kids)

include h find same

/-- A node over children that compute, up to its own instructions. -/
theorem Ready.exists_code (sound : c.Sound) (apart : kids.Pairwise c.arena.Apart) :
    ∃ code, c.arena.Emits x (code ++ node.insts) ∧ Runs c.insts code vs fs := by
  obtain ⟨code, emits, runs⟩ := h.runs sound apart
  have kids : c.arena.kidsOf x = kids := by
    rw [Arena.kidsOf_eq_of_find? find, same]
    exact List.filter_eq_self.2 fun k mem => by simpa using h.plain k mem
  refine ⟨_, .node code find (kids ▸ emits), ?_⟩
  rwa [kids]

theorem Ready.isExprTree (expr : node.isExpr) : c.arena.IsExprTree x := by
  intro n node' below find'
  rcases Relation.ReflTransGen.cases_head below with rfl | ⟨k, kid, below⟩
  · cases find.symm.trans find'
    exact expr
  · exact h.tree k (same ▸ ((Arena.mem_kidsOf find).1 kid).1) n node' below find'

/-- A node that computes a value of its own from those of its children. -/
theorem Ready.computes (sound : c.Sound) (apart : kids.Pairwise c.arena.Apart)
    (plain : ¬x.isSentinel) (expr : node.isExpr) {i : InstId} (insts : node.insts = [i])
    {inst : Inst}
    (found : c.insts.find? i = some inst) (noRet : inst.kind.isRet = false)
    (slot : inst.kind.isAlloca = false) (applies : f.Applies inst vs fs) :
    c.Computes x (.inst i) f := by
  obtain ⟨code, emits, runs⟩ := h.exists_code find same sound apart
  rw [insts] at emits
  exact ⟨plain, h.isExprTree find same expr, _, emits, runs.snoc found noRet slot applies⟩

end

/-- A node that hands on the value of its only child. -/
theorem Computes.up {k : NodeId} {node : Node} (h : c.Computes k v f) (sound : c.Sound)
    (plain : ¬x.isSentinel) (find : c.arena.find? x = some node) (kids : node.kids = [k])
    (expr : node.isExpr) (insts : node.insts = []) : c.Computes x v f := by
  have ready : c.Ready [k] [v] [f] := .cons h .nil
  obtain ⟨code, emits, runs⟩ := ready.exists_code find kids sound (List.pairwise_singleton _ _)
  rw [insts, List.append_nil] at emits
  exact ⟨plain, ready.isExprTree find kids expr, code, emits, runs⟩

/-! ## Nodes that stand for expressions -/

/-- A node stands for an expression. Members that are errors are not told from others: the value of
a literal that has one cannot be used. -/
inductive Denotes (c : Compilation) : NodeId → Expr → Prop
  | done {x : NodeId} {e : Expr} {node : Node} {v : Value} : c.arena.find? x = some node →
    node.isBuilding = false → node.value = some v → node.flags.address = e.isPlace →
    node.ty = e.ty →
    c.Computes x v e.eval → Denotes c x e
  | literal {x : NodeId} {ty : TypeId} {es : List Expr} {node : Node} : ¬x.isSentinel →
    c.arena.IsExprTree x → c.arena.find? x = some node → node.isBuilding → node.insts = [] →
    node.flags.address = false → node.ty = ty → node.kids.length = es.length →
    (∀ {i : Nat} {k e}, node.kids[i]? = some k → es[i]? = some e → ¬k.isSentinel → Denotes c k e) →
    Denotes c x (.literal ty es)

namespace Denotes

theorem plain (h : c.Denotes x e) : ¬x.isSentinel := by
  cases h with
  | done _ _ _ _ _ computes => exact computes.plain
  | literal plain => exact plain

theorem tree (h : c.Denotes x e) : c.arena.IsExprTree x := by
  cases h with
  | done _ _ _ _ _ computes => exact computes.tree
  | literal _ tree => exact tree

theorem exists_node (h : c.Denotes x e) : ∃ node, c.arena.find? x = some node ∧ node.ty = e.ty ∧
    node.flags.address = e.isPlace := by
  cases h with
  | done find _ _ address ty => exact ⟨_, find, ty, address⟩
  | literal _ _ find _ _ address ty => exact ⟨_, find, ty, address⟩

theorem frame (h : c.Denotes x e) (spares : c.Spares c' x) : c'.Denotes x e := by
  induction h with
  | done find built value address ty computes =>
    exact .done ((spares.nodes .refl).trans find) built value address ty (spares.computes computes)
  | literal plain tree find building insts address ty count _ ih =>
    refine .literal plain (spares.isExprTree tree) ((spares.nodes .refl).trans find) building insts
      address ty count fun at' at'' plain => ih at' at'' plain (spares.kid ?_)
    exact (Arena.mem_kidsOf find).2 ⟨List.mem_of_getElem? at', plain⟩

end Denotes

end Codegen.Compilation
