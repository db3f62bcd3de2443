import Codegen.Proofs.Tree.Destruction
import Codegen.Proofs.Tree.Ownership
import Codegen.Proofs.Tree.Sharing

/-!
Forests: arenas in which no node is a child twice. Roots have nothing in common, and the
single-parent check finds nothing to report below them.
-/

namespace Codegen.Arena

open Relation

/-- No node but a sentinel stands in two child slots, and the children of live nodes live. -/
structure Forest (a : Arena) : Prop where
  nodup : ∀ p, (a.kidsOf p).Nodup
  unique : ∀ {p q k}, k ∈ a.kidsOf p → k ∈ a.kidsOf q → p = q
  live : ∀ {p k}, k ∈ a.kidsOf p → a.isLive k

/-- A node that stands in no child slot. -/
def IsRoot (a : Arena) (x : NodeId) : Prop := ∀ p, x ∉ a.kidsOf p

variable {a a' : Arena} {n x : NodeId} {node : Node}

theorem isRoot_of_isSentinel (s : x.isSentinel) : a.IsRoot x :=
  fun _ kid => not_isSentinel_of_mem_kidsOf kid s

/-- Nothing below a node is a sentinel, if the node is none. -/
theorem not_isSentinel_of_below (plain : ¬x.isSentinel) (below : a.Below x n) : ¬n.isSentinel := by
  rcases ReflTransGen.cases_tail below with rfl | ⟨p, -, kid⟩
  · exact plain
  · exact not_isSentinel_of_mem_kidsOf kid

theorem lt_of_isLive (h : a.isLive n) : n.index < a.size := by
  obtain ⟨node, find⟩ := Option.isSome_iff_exists.1 h
  exact lt_of_find? find

theorem kidsOf_eq_of_find? (find : a.find? n = some node) :
    a.kidsOf n = node.kids.filter (!·.isSentinel) := by
  simp [kidsOf, find]

theorem kidsOf_congr (same : a'.find? n = a.find? n) : a'.kidsOf n = a.kidsOf n := by
  rw [kidsOf, same, kidsOf]

theorem below_congr (kids : ∀ n, a'.kidsOf n = a.kidsOf n) : a'.Below = a.Below := by
  unfold Below
  rw [funext kids]

/-- What stays in place below a node stays below it. -/
theorem below_of_frame (frame : ∀ n, a.Below x n → a'.find? n = a.find? n) (below : a.Below x n) :
    a'.Below x n := by
  induction below with
  | refl => exact .refl
  | tail above kid ih =>
    refine ih.tail ?_
    rwa [kidsOf_congr (frame _ above)]

theorem kidsOf_add_self (node : Node) :
    (a.add node).2.kidsOf ⟨a.size⟩ = node.kids.filter (!·.isSentinel) :=
  kidsOf_eq_of_find? (find?_add a node)

theorem kidsOf_add_of_ne (h : n ≠ ⟨a.size⟩) : (a.add node).2.kidsOf n = a.kidsOf n :=
  kidsOf_congr (find?_add_of_ne h)

/-- One more child, at the end of a node's children. -/
theorem kid_of_append {id k p : NodeId} (find : a.find? id = some node)
    (kid : x ∈ (a.set id { node with kids := node.kids ++ [k] }).kidsOf p) :
    p = id ∧ x = k ∨ x ∈ a.kidsOf p := by
  by_cases e : p = id
  · subst e
    obtain ⟨mem, plain⟩ := (mem_kidsOf (find?_set (isLive_of_find? find))).1 kid
    rcases List.mem_append.1 mem with mem | mem
    · exact .inr ((mem_kidsOf find).2 ⟨mem, plain⟩)
    · exact .inl ⟨rfl, List.mem_singleton.1 mem⟩
  · rw [kidsOf_congr (find?_set_of_ne e)] at kid
    exact .inr kid

theorem isLive_add (h : a.isLive n) : (a.add node).2.isLive n := by
  have ne : n ≠ (a.add node).1 := by
    rintro rfl
    exact Nat.lt_irrefl _ (lt_of_isLive h)
  rwa [isLive, find?_add_of_ne ne]

namespace Forest

/-- Two roots have nothing in common: the way up from a node ends at one. -/
theorem eq_of_below (h : a.Forest) {x y n : NodeId} (rx : a.IsRoot x) (ry : a.IsRoot y)
    (bx : a.Below x n) (below : a.Below y n) : x = y := by
  induction bx with
  | refl =>
    rcases ReflTransGen.cases_tail below with e | ⟨q, -, kid⟩
    · exact e
    · exact absurd kid (rx q)
  | tail _ kid ih =>
    rcases ReflTransGen.cases_tail below with rfl | ⟨q, above, kid'⟩
    · exact absurd kid (ry _)
    · exact ih (h.unique kid kid' ▸ above)

theorem isLive_of_below (h : a.Forest) {x n : NodeId} (live : a.isLive x) (below : a.Below x n) :
    a.isLive n := by
  rcases ReflTransGen.cases_tail below with rfl | ⟨p, -, kid⟩
  · exact live
  · exact h.live kid

/-- The single-parent check passes below a root, if no instruction is attached twice. -/
theorem sharing_eq (h : a.Forest) (owned : a.Owned) {root : NodeId} (live : a.isLive root)
    (isRoot : a.IsRoot root) : a.sharing root = .ok [] := by
  obtain ⟨nodes, found, run, accounted⟩ := exists_accounted fun n => h.isLive_of_below live
  have none : found = [] := by
    refine accounted.eq_nil_iff.2 ⟨?_, ?_, ?_⟩
    · refine List.nodup_flatMap.2 ⟨fun p _ => h.nodup p, accounted.nodup.imp fun ne k kp kq => ?_⟩
      exact ne (h.unique kp kq)
    · intro mem
      obtain ⟨p, -, kid⟩ := List.mem_flatMap.1 mem
      exact isRoot p kid
    · refine List.nodup_flatMap.2 ⟨fun p _ => owned.nodup p,
        accounted.nodup.imp fun ne i ip iq => ?_⟩
      exact ne (owned.unique ip iq)
  rw [run, none]

/-! ## Changes of a forest -/

theorem of_kidsOf (h : a.Forest) (kids : ∀ n, a'.kidsOf n = a.kidsOf n)
    (live : ∀ n, a.isLive n → a'.isLive n) : a'.Forest where
  nodup p := kids p ▸ h.nodup p
  unique kp kq := h.unique (kids _ ▸ kp) (kids _ ▸ kq)
  live kid := live _ (h.live (kids _ ▸ kid))

/-- A new node takes roots for its children. -/
theorem add {node : Node} (h : a.Forest) (nodup : (node.kids.filter (!·.isSentinel)).Nodup)
    (roots : ∀ k ∈ node.kids, a.IsRoot k) (live : ∀ k ∈ node.kids, a.isLive k) :
    (a.add node).2.Forest := by
  have cases {p k : NodeId} (kid : k ∈ (a.add node).2.kidsOf p) :
      p = ⟨a.size⟩ ∧ k ∈ node.kids ∨ k ∈ a.kidsOf p := by
    by_cases e : p = ⟨a.size⟩
    · rw [e, kidsOf_add_self] at kid
      exact .inl ⟨e, List.mem_of_mem_filter kid⟩
    · rw [kidsOf_add_of_ne e] at kid
      exact .inr kid
  refine ⟨fun p => ?_, fun {p q k} kp kq => ?_, fun {p k} kid => ?_⟩
  · by_cases e : p = ⟨a.size⟩
    · rw [e, kidsOf_add_self]
      exact nodup
    · rw [kidsOf_add_of_ne e]
      exact h.nodup p
  · rcases cases kp with ⟨ep, mp⟩ | kp <;> rcases cases kq with ⟨eq, mq⟩ | kq
    · rw [ep, eq]
    · exact absurd kq (roots k mp q)
    · exact absurd kp (roots k mq p)
    · exact h.unique kp kq
  · rcases cases kid with ⟨-, mem⟩ | kid
    · exact isLive_add (live k mem)
    · exact isLive_add (h.live kid)

/-- A root becomes the last child of a node. -/
theorem append {id k : NodeId} {node : Node} (h : a.Forest) (find : a.find? id = some node)
    (root : a.IsRoot k) (live : a.isLive k) :
    (a.set id { node with kids := node.kids ++ [k] }).Forest := by
  have alive := isLive_of_find? find
  have lives {n : NodeId} (live : a.isLive n) :
      (a.set id { node with kids := node.kids ++ [k] }).isLive n := by
    by_cases e : n = id
    · subst e
      exact isLive_of_find? (find?_set alive)
    · rwa [isLive, find?_set_of_ne e]
  refine ⟨fun p => ?_, fun {p q x} kp kq => ?_, fun {p x} kid => ?_⟩
  · by_cases e : p = id
    · subst e
      rw [kidsOf_eq_of_find? (find?_set alive), List.filter_append, ← kidsOf_eq_of_find? find]
      refine List.nodup_append.2 ⟨h.nodup p, (List.nodup_singleton k).filter _,
        fun x mx y my e => ?_⟩
      cases List.mem_singleton.1 (List.mem_of_mem_filter my)
      exact root p (e ▸ mx)
    · rw [kidsOf_congr (find?_set_of_ne e)]
      exact h.nodup p
  · rcases kid_of_append find kp with ⟨ep, rfl⟩ | kp <;>
      rcases kid_of_append find kq with ⟨eq, e⟩ | kq
    · rw [ep, eq]
    · exact absurd kq (root q)
    · exact absurd kp (e ▸ root p)
    · exact h.unique kp kq
  · rcases kid_of_append find kid with ⟨-, rfl⟩ | kid
    · exact lives live
    · exact lives (h.live kid)

/-- A root dies with all that is below it, and nothing else does. -/
theorem prune {root : NodeId} (h : a.Forest) (isRoot : a.IsRoot root)
    (frame : ∀ n, ¬a.Below root n → a'.find? n = a.find? n)
    (dead : ∀ n, a.Below root n → a'.find? n = none) : a'.Forest := by
  have old {p : NodeId} (some : a'.find? p ≠ none) :
      ¬a.Below root p ∧ a'.kidsOf p = a.kidsOf p := by
    have out : ¬a.Below root p := fun below => some (dead p below)
    exact ⟨out, kidsOf_congr (frame p out)⟩
  have kept {p k : NodeId} (kid : k ∈ a'.kidsOf p) : ¬a.Below root p ∧ k ∈ a.kidsOf p := by
    have some : a'.find? p ≠ none := by
      intro none
      simp [kidsOf, none] at kid
    exact ⟨(old some).1, (old some).2 ▸ kid⟩
  refine ⟨fun p => ?_, fun kp kq => h.unique (kept kp).2 (kept kq).2, fun {p k} kid => ?_⟩
  · cases find : a'.find? p with
    | none => simp [kidsOf, find]
    | some node =>
      rw [(old (by simp [find])).2]
      exact h.nodup p
  · obtain ⟨out, kid⟩ := kept kid
    have away : ¬a.Below root k := by
      intro below
      rcases ReflTransGen.cases_tail below with rfl | ⟨q, above, kid'⟩
      · exact isRoot p kid
      · exact out (h.unique kid kid' ▸ above)
    rw [isLive, frame k away]
    exact h.live kid

end Forest

theorem forest_initial : initial.Forest := by
  have none : ∀ n, initial.kidsOf n = [] := by
    intro n
    match n with
    | ⟨0⟩ | ⟨1⟩ | ⟨n + 2⟩ => rfl
  constructor
  · intro p
    simp [none]
  · intro p q k kid
    simp [none] at kid
  · intro p k kid
    simp [none] at kid

end Codegen.Arena
