import Codegen.Proofs.Tree.Survey

/-!
Instructions that are attached once. Changes of an arena keep it so, if they attach new instructions
only.
-/

namespace Codegen.Arena

/-- No instruction is attached twice, to one node or to two. -/
structure Owned (a : Arena) : Prop where
  nodup : ∀ n, (a.instsOf n).Nodup
  unique : ∀ {m n i}, i ∈ a.instsOf m → i ∈ a.instsOf n → m = n

variable {a a' : Arena} {id : NodeId} {node : Node}

theorem instsOf_eq_of_find? (find : a.find? id = some node) : a.instsOf id = node.insts := by
  simp [instsOf, find]

theorem owned_initial : initial.Owned := by
  have none : ∀ n, initial.instsOf n = [] := by
    intro n
    match n with
    | ⟨0⟩ => rfl
    | ⟨1⟩ => rfl
    | ⟨n + 2⟩ => rfl
  constructor
  · intro n
    simp [none]
  · intro m n i mem
    simp [none] at mem

section

variable {i j : InstId}

theorem instsOf_append (find : a.find? id = some node) :
    (a.set id { node with insts := node.insts ++ [i] }).instsOf id = a.instsOf id ++ [i] := by
  have live := isLive_of_find? find
  simp [instsOf, find?_set live, find]

theorem instsOf_append_of_ne {n : NodeId} (ne : n ≠ id) :
    (a.set id { node with insts := node.insts ++ [i] }).instsOf n = a.instsOf n := by
  simp [instsOf, find?_set_of_ne ne]

theorem mem_instsOf_append (find : a.find? id = some node) {n : NodeId}
    (mem : j ∈ (a.set id { node with insts := node.insts ++ [i] }).instsOf n) :
    j ∈ a.instsOf n ∨ n = id ∧ j = i := by
  by_cases e : n = id
  · subst e
    rw [instsOf_append find] at mem
    simpa using mem
  · rw [instsOf_append_of_ne e] at mem
    exact .inl mem

end

namespace Owned

/-- Nodes may lose their instructions. -/
theorem of_le (h : a.Owned) (le : ∀ n, a'.instsOf n = a.instsOf n ∨ a'.instsOf n = []) :
    a'.Owned := by
  have sub : ∀ n, a'.instsOf n ⊆ a.instsOf n := by
    intro n
    rcases le n with e | e <;> simp [e]
  constructor
  · intro n
    rcases le n with e | e
    · rw [e]
      exact h.nodup n
    · simp [e]
  · intro m n i mem mem'
    exact h.unique (sub m mem) (sub n mem')

theorem prune (h : a.Owned) (nodes : ∀ n, a'.find? n = a.find? n ∨ a'.find? n = none) :
    a'.Owned := by
  apply h.of_le
  intro n
  rcases nodes n with e | e <;> simp [instsOf, e]

theorem add (h : a.Owned) (bare : node.insts = []) : (a.add node).2.Owned := by
  apply h.of_le
  intro n
  by_cases e : n = (a.add node).1
  · simp [instsOf, e, find?_add, bare]
  · simp [instsOf, find?_add_of_ne e]

theorem set {node' : Node} (h : a.Owned) (find : a.find? id = some node)
    (same : node'.insts = node.insts) : (a.set id node').Owned := by
  have live := isLive_of_find? find
  apply h.of_le
  intro n
  by_cases e : n = id
  · subst e
    simp [instsOf, find?_set live, find, same]
  · simp [instsOf, find?_set_of_ne e]

/-- An instruction that no node has is attached. -/
theorem append {i : InstId} (h : a.Owned) (find : a.find? id = some node)
    (free : ∀ n, i ∉ a.instsOf n) : (a.set id { node with insts := node.insts ++ [i] }).Owned := by
  constructor
  · intro n
    by_cases e : n = id
    · subst e
      rw [instsOf_append find]
      refine List.nodup_append.2 ⟨h.nodup n, by simp, fun j mem k mem' e => ?_⟩
      cases List.mem_singleton.1 mem'
      exact free n (e ▸ mem)
    · rw [instsOf_append_of_ne e]
      exact h.nodup n
  · intro m n j memM memN
    rcases mem_instsOf_append find memM with hm | ⟨rfl, rfl⟩
    · rcases mem_instsOf_append find memN with hn | ⟨rfl, rfl⟩
      · exact h.unique hm hn
      · exact absurd hm (free m)
    · rcases mem_instsOf_append find memN with hn | ⟨rfl, _⟩
      · exact absurd hn (free n)
      · rfl

end Owned

end Codegen.Arena
