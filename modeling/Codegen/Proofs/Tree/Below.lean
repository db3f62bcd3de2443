import Codegen.Proofs.Tree.Survey
import Mathlib.Logic.Relation
import Mathlib.Data.List.Nodup
import Mathlib.Data.List.Pairwise

/-!
What is below a node. Below a root without sharing, the children of a node have nothing in common
but sentinels, and no node is below itself.
-/

namespace Codegen.Arena

open Relation

/-- Reached through children, sentinels left out. -/
def Below (a : Arena) : NodeId → NodeId → Prop := ReflTransGen fun p k => k ∈ a.kidsOf p

/-- Nothing but sentinels is below both. -/
def Apart (a : Arena) (x y : NodeId) : Prop := ∀ n, a.Below x n → a.Below y n → n.isSentinel

/-- Sentinels stand alone. -/
def SentinelsBare (a : Arena) : Prop :=
  ∀ id node, id.isSentinel → a.find? id = some node → node.kids = [] ∧ node.insts = []

variable {a : Arena} {k root : NodeId}

theorem sentinelsBare_of_find {expr stmt : Node} (findExpr : a.find? .errorExpr = some expr)
    (findStmt : a.find? .errorStmt = some stmt) (bareExpr : expr.kids = [] ∧ expr.insts = [])
    (bareStmt : stmt.kids = [] ∧ stmt.insts = []) : a.SentinelsBare := by
  intro id node s find
  simp only [NodeId.isSentinel, Bool.or_eq_true, beq_iff_eq] at s
  rcases s with rfl | rfl
  · cases findExpr.symm.trans find
    exact bareExpr
  · cases findStmt.symm.trans find
    exact bareStmt

/-- What is below a node is a tree. -/
structure IsTree (a : Arena) (id : NodeId) : Prop where
  apart : ∀ {n node}, a.Below id n → a.find? n = some node → node.kids.Pairwise a.Apart
  not_below : ∀ {n node k}, a.Below id n → a.find? n = some node → k ∈ node.kids → ¬a.Below k n

/-- A root without sharing, and all that is below it, the latest first. -/
structure Spread (a : Arena) (root : NodeId) (nodes : List NodeId) : Prop where
  live : ∀ id ∈ nodes, a.isLive id
  order : a.Descends root nodes
  nodup : (root :: nodes.flatMap a.kidsOf).Nodup
  perm : nodes.Perm (root :: nodes.flatMap a.kidsOf)
  insts_nodup : (nodes.flatMap a.instsOf).Nodup

theorem exists_spread_of_sharing (h : a.sharing root = .ok []) : ∃ nodes, a.Spread root nodes := by
  obtain ⟨done, s, acc, empty, e⟩ := exists_accounts_of_sharing h
  have none : s.found = [] := by simpa using e.symm
  have seen : s.seen.Perm done := by simpa [empty] using acc.seen
  have nodes : s.seen.Perm (root :: done.flatMap a.kidsOf) := by
    simpa [Survey.sharedNodes, none] using acc.nodes
  have insts : s.owned.Perm (done.flatMap a.instsOf) := by
    simpa [Survey.sharedInsts, none] using acc.insts
  exact ⟨done, acc.live, acc.order, nodes.nodup_iff.1 acc.nodup, seen.symm.trans nodes,
    insts.nodup_iff.1 acc.owned_nodup⟩

theorem Descends.below {nodes : List NodeId} (order : a.Descends root nodes) :
    ∀ n ∈ nodes, a.Below root n := by
  induction nodes with
  | nil => simp
  | cons id earlier ih =>
    intro n mem
    rcases List.mem_cons.1 mem with rfl | mem
    · rcases order.1 with rfl | ⟨p, before, kid⟩
      · exact .refl
      · exact (ih order.2 p before).tail kid
    · exact ih order.2 n mem

namespace Spread

variable {a : Arena} {root k n p : NodeId} {nodes : List NodeId}

theorem root_mem (h : a.Spread root nodes) : root ∈ nodes := h.perm.mem_iff.2 (by simp)

theorem kid_mem (h : a.Spread root nodes) (mem : p ∈ nodes) (kid : k ∈ a.kidsOf p) : k ∈ nodes :=
  h.perm.mem_iff.2 (List.mem_cons_of_mem _ (List.mem_flatMap.2 ⟨p, mem, kid⟩))

theorem mem_of_below (h : a.Spread root nodes) (mem : p ∈ nodes) (b : a.Below p n) : n ∈ nodes := by
  induction b with
  | refl => exact mem
  | tail _ kid ih => exact h.kid_mem ih kid

theorem mem_iff (h : a.Spread root nodes) : n ∈ nodes ↔ a.Below root n :=
  ⟨h.order.below n, h.mem_of_below h.root_mem⟩

theorem nodup_nodes (h : a.Spread root nodes) : nodes.Nodup := h.perm.nodup_iff.2 h.nodup

theorem nodup_kidsOf (h : a.Spread root nodes) (mem : p ∈ nodes) : (a.kidsOf p).Nodup :=
  (List.nodup_flatMap.1 (List.nodup_cons.1 h.nodup).2).1 p mem

/-- A node has one parent. -/
theorem parent_unique (h : a.Spread root nodes) {q : NodeId} (hp : p ∈ nodes) (hq : q ∈ nodes)
    (kp : k ∈ a.kidsOf p) (kq : k ∈ a.kidsOf q) : p = q := by
  by_contra ne
  have apart := (List.nodup_flatMap.1 (List.nodup_cons.1 h.nodup).2).2
  have symm : Std.Symm (Function.onFun List.Disjoint a.kidsOf) :=
    ⟨fun _ _ d => List.disjoint_symm d⟩
  exact apart.forall hp hq ne kp kq

end Spread

/-- Each node but the root has a parent that came before it. -/
theorem Descends.exists_parent {nodes : List NodeId} (h : a.Descends root nodes)
    (nodup : nodes.Nodup) (mem : k ∈ nodes) :
    k = root ∨ ∃ q ∈ nodes, k ∈ a.kidsOf q ∧ nodes.idxOf k < nodes.idxOf q := by
  induction nodes with
  | nil => simp at mem
  | cons id earlier ih =>
    have ⟨out, nodup'⟩ := List.nodup_cons.1 nodup
    have shift : ∀ x ∈ earlier, (id :: earlier).idxOf x = earlier.idxOf x + 1 := fun x hx =>
      List.idxOf_cons_ne _ fun e => out (e ▸ hx)
    rcases List.mem_cons.1 mem with rfl | mem
    · refine h.1.imp_right fun ⟨q, hq, kid⟩ => ⟨q, List.mem_cons_of_mem _ hq, kid, ?_⟩
      rw [List.idxOf_cons_self, shift q hq]
      exact Nat.succ_pos _
    · refine (ih h.2 nodup' mem).imp_right fun ⟨q, hq, kid, lt⟩ =>
        ⟨q, List.mem_cons_of_mem _ hq, kid, ?_⟩
      rw [shift k mem, shift q hq]
      exact Nat.succ_lt_succ lt

namespace Spread

variable {a : Arena} {root k n p : NodeId} {nodes : List NodeId} (h : a.Spread root nodes)

include h

/-- Children come later than their parents. -/
theorem idxOf_lt (mem : p ∈ nodes) (kid : k ∈ a.kidsOf p) : nodes.idxOf k < nodes.idxOf p := by
  rcases h.order.exists_parent h.nodup_nodes (h.kid_mem mem kid) with rfl | ⟨q, hq, kid', lt⟩
  · exact absurd (List.mem_flatMap.2 ⟨p, mem, kid⟩) (List.nodup_cons.1 h.nodup).1
  · rwa [h.parent_unique mem hq kid kid']

theorem idxOf_le (mem : p ∈ nodes) (b : a.Below p n) : nodes.idxOf n ≤ nodes.idxOf p := by
  induction b with
  | refl => exact Nat.le_refl _
  | tail b kid ih => exact Nat.le_trans (Nat.le_of_lt (h.idxOf_lt (h.mem_of_below mem b) kid)) ih

theorem not_below_kid (mem : p ∈ nodes) (kid : k ∈ a.kidsOf p) : ¬a.Below k p := by
  intro b
  have := h.idxOf_lt mem kid
  have := h.idxOf_le (h.kid_mem mem kid) b
  omega

/-- A node below one child is not below another: the way up from it is the same for both. -/
theorem not_below_both {x y : NodeId} (mem : p ∈ nodes) (hx : x ∈ a.kidsOf p) (hy : y ∈ a.kidsOf p)
    (ne : x ≠ y) (bx : a.Below x n) : ¬a.Below y n := by
  have memy := h.kid_mem mem hy
  induction bx with
  | refl =>
    intro b
    rcases ReflTransGen.cases_tail b with e | ⟨q, b', kid⟩
    · exact ne e
    · have := h.parent_unique mem (h.mem_of_below memy b') hx kid
      subst this
      exact h.not_below_kid mem hy b'
  | @tail q n bx kid ih =>
    intro b
    have memq := h.mem_of_below (h.kid_mem mem hx) bx
    rcases ReflTransGen.cases_tail b with e | ⟨q', b', kid'⟩
    · subst e
      have := h.parent_unique mem memq hy kid
      subst this
      exact h.not_below_kid mem hx bx
    · have := h.parent_unique memq (h.mem_of_below memy b') kid kid'
      subst this
      exact ih b'

end Spread

/-! ## Trees -/

theorem mem_kidsOf {id : NodeId} {node : Node} (find : a.find? id = some node) :
    k ∈ a.kidsOf id ↔ k ∈ node.kids ∧ ¬k.isSentinel := by
  simp [kidsOf, find]

section

variable {a : Arena} (bare : a.SentinelsBare)

include bare

theorem SentinelsBare.eq_of_below {x n : NodeId} (s : x.isSentinel) (b : a.Below x n) : n = x := by
  rcases ReflTransGen.cases_head b with e | ⟨k, kid, _⟩
  · exact e.symm
  · cases find : a.find? x with
    | none => simp [kidsOf, find] at kid
    | some node => simp [kidsOf, find, (bare x node s find).1] at kid

theorem isTree_of_sharing {root : NodeId} (h : a.sharing root = .ok []) : a.IsTree root := by
  obtain ⟨nodes, spread⟩ := exists_spread_of_sharing h
  refine ⟨fun {n node} b find => ?_, fun {n node k} b find mem below => ?_⟩
  · have memn := spread.mem_of_below spread.root_mem b
    have nodup : (a.kidsOf n).Nodup := spread.nodup_kidsOf memn
    simp only [kidsOf, find, Option.elim_some, List.Nodup, List.pairwise_filter] at nodup
    refine nodup.imp_of_mem fun {x y} hx hy ne m bx below => ?_
    by_cases sx : x.isSentinel
    · rwa [bare.eq_of_below sx bx]
    by_cases sy : y.isSentinel
    · rwa [bare.eq_of_below sy below]
    · exact absurd below (spread.not_below_both memn ((mem_kidsOf find).2 ⟨hx, sx⟩)
        ((mem_kidsOf find).2 ⟨hy, sy⟩) (ne (by simpa using sx) (by simpa using sy)) bx)
  · have memn := spread.mem_of_below spread.root_mem b
    by_cases s : k.isSentinel
    · have e := bare.eq_of_below s below
      subst e
      simp [(bare n node s find).1] at mem
    · exact spread.not_below_kid memn ((mem_kidsOf find).2 ⟨mem, s⟩) below

theorem IsTree.kid {id k : NodeId} {node : Node} (t : a.IsTree id) (find : a.find? id = some node)
    (mem : k ∈ node.kids) : a.IsTree k := by
  by_cases s : k.isSentinel
  · refine ⟨fun {n node'} b find' => ?_, fun {n node' k'} b find' mem' => ?_⟩ <;>
    · have e := bare.eq_of_below s b
      subst e
      simp_all [(bare n node' s find').1]
  · have step : a.Below id k := .single ((mem_kidsOf find).2 ⟨mem, s⟩)
    exact ⟨fun b => t.apart (step.trans b), fun b => t.not_below (step.trans b)⟩

end

end Codegen.Arena
