import Codegen.Proofs.Lowering.Steps
import Codegen.Proofs.Tree.Below

/-!
What lowering changes on its way through a tree. Nodes are emptied, returns are freed and
comparisons are added; nothing else changes, and nothing outside of what was walked.
-/

namespace Codegen

/-- A store after some steps of lowering: returns may be freed and comparisons added. -/
structure InstStore.Later (s s' : InstStore) : Prop where
  size_le : s.slots.size ≤ s'.slots.size
  kept : ∀ {id inst}, s.find? id = some inst →
    s'.find? id = some inst ∨ s'.find? id = none ∧ ∃ v, inst.kind = .ret v
  old : ∀ {id inst}, s'.find? id = some inst → s.find? id = some inst ∨
    s.slots.size ≤ id.index ∧ ∃ x y, inst = ⟨.compare .eqEq x y, .bool⟩

namespace InstStore

variable {s s₁ s₂ : InstStore}

theorem Later.refl (s : InstStore) : s.Later s := ⟨Nat.le_refl _, .inl, .inl⟩

theorem Later.trans (h : s.Later s₁) (h' : s₁.Later s₂) : s.Later s₂ where
  size_le := Nat.le_trans h.size_le h'.size_le
  kept {id inst} e := by
    rcases h.kept e with e₁ | ⟨none, ret⟩
    · exact h'.kept e₁
    · refine .inr ⟨?_, ret⟩
      cases e₂ : s₂.find? id with
      | none => rfl
      | some inst₂ =>
        rcases h'.old e₂ with e₁ | ⟨le, _⟩
        · simp [none] at e₁
        · have := lt_of_find? e
          have := h.size_le
          omega
  old {id inst} e := by
    rcases h'.old e with e₁ | ⟨le, made⟩
    · exact h.old e₁
    · exact .inr ⟨Nat.le_trans h.size_le le, made⟩

theorem later_create (s : InstStore) (x y : Value) :
    s.Later (s.create (.compare .eqEq x y) .bool).2 where
  size_le := by simp [create]
  kept {id inst} e := by
    have ne : id ≠ (s.create (.compare .eqEq x y) .bool).1 := fun h => by
      have := lt_of_find? e
      simp [h, create] at this
    exact .inl (by rw [find?_create_of_ne ne, e])
  old {id inst} e := by
    by_cases h : id = (s.create (.compare .eqEq x y) .bool).1
    · rw [h, find?_create] at e
      cases e
      exact .inr ⟨by simp [h, create], x, y, rfl⟩
    · rw [find?_create_of_ne h] at e
      exact .inl e

theorem later_free {id : InstId} {inst : Inst} {v : Option Value} (found : s.find? id = some inst)
    (ret : inst.kind = .ret v) : s.Later (s.free id) where
  size_le := by simp
  kept {i inst'} e := by
    by_cases h : i = id
    · subst h
      rw [found] at e
      cases e
      exact .inr ⟨find?_free s i, v, ret⟩
    · exact .inl (by rw [find?_free_of_ne h, e])
  old {i inst'} e := by
    by_cases h : i = id
    · subst h
      simp at e
    · rw [find?_free_of_ne h] at e
      exact .inl e

/-- What an instruction said at first is what it says as long as it is there. -/
theorem Later.read_eq (h : s.Later s₁) {id : InstId} {inst : Inst}
    (found : s₁.find? id = some inst) : s.read id = s₁.read id := by
  cases e : s.find? id with
  | some inst₀ =>
    have same : s₁.find? id = some inst₀ := by
      rcases h.kept e with e₁ | ⟨none, _⟩
      · exact e₁
      · simp [none] at found
    simp only [read, e, same]
  | none =>
    rcases h.old found with e₁ | ⟨_, x, y, rfl⟩
    · simp [e] at e₁
    · simp only [read, e, found]

end InstStore

/-- A node without its instructions. -/
def Node.bare (n : Node) : Node := { n with insts := [] }

namespace Arena

/-- The same nodes, but for their instructions. -/
def Alike (a a' : Arena) : Prop := ∀ id, (a'.find? id).map Node.bare = (a.find? id).map Node.bare

variable {a a' : Arena} {id : NodeId}

theorem Alike.find (h : a.Alike a') {node : Node} (found : a'.find? id = some node) :
    ∃ node₀, a.find? id = some node₀ ∧
      node₀.kind = node.kind ∧ node₀.kids = node.kids ∧ node₀.value = node.value := by
  have e := h id
  rw [found, Option.map_some] at e
  obtain ⟨node₀, find, same⟩ := Option.map_eq_some_iff.1 e.symm
  have kind : node₀.bare.kind = node.bare.kind := by rw [same]
  have kids : node₀.bare.kids = node.bare.kids := by rw [same]
  have value : node₀.bare.value = node.bare.value := by rw [same]
  exact ⟨node₀, find, kind, kids, value⟩

theorem Alike.value? (h : a.Alike a') {value : Value} (has : a'.value? id = some value) :
    a.value? id = some value := by
  obtain ⟨node, found, has⟩ := Option.bind_eq_some_iff.1 has
  obtain ⟨node₀, find, _, _, same⟩ := h.find found
  simp [Arena.value?, find, same, has]

end Arena

/-- A state on the way through a tree that was read in arena `a` and store `s₀`. -/
structure Faithful (a : Arena) (s₀ : InstStore) (s : Lowering) : Prop where
  sentinels : ∀ {id}, id.isSentinel → s.arena.find? id = a.find? id
  alike : a.Alike s.arena
  store : s₀.Later s.insts

/-- Nothing below a node was emptied yet. -/
def Untouched (a : Arena) (s : Lowering) (id : NodeId) : Prop :=
  ∀ n, a.Below id n → s.arena.find? n = a.find? n

/-- What is known of an instruction that was laid out between two stores. -/
def Placed.Made (before after : InstStore) : Placed → Prop
  | .own id => ∃ inst, after.find? id = some inst ∧ ∀ v, inst.kind ≠ .ret v
  | .compare id x y =>
    before.slots.size ≤ id.index ∧ after.find? id = some ⟨.compare .eqEq x y, .bool⟩

namespace Placed

variable {s s₁ s₂ : InstStore} {p : Placed}

theorem Made.later (made : p.Made s s₁) (h : s₁.Later s₂) : p.Made s s₂ := by
  cases p with
  | own id =>
    obtain ⟨inst, found, no⟩ := made
    rcases h.kept found with e | ⟨_, v, ret⟩
    · exact ⟨inst, e, no⟩
    · exact absurd ret (no v)
  | compare id x y =>
    rcases h.kept made.2 with e | ⟨_, v, ret⟩
    · exact ⟨made.1, e⟩
    · cases ret

theorem Made.earlier (made : p.Made s₁ s₂) (h : s.slots.size ≤ s₁.slots.size) : p.Made s s₂ := by
  cases p with
  | own id => exact made
  | compare id x y => exact ⟨Nat.le_trans h made.1, made.2⟩

end Placed

/-- What steps below nodes `xs` do, where they lay out instructions `ps`. -/
structure Effect (a : Arena) (xs : List NodeId) (ps : List Placed)
    (s s' : Lowering) : Prop where
  func_eq : s'.func = s.func
  frame : ∀ {n}, (∀ x ∈ xs, ¬a.Below x n) → s'.arena.find? n = s.arena.find? n
  alike : s.arena.Alike s'.arena
  sentinels : ∀ {n}, n.isSentinel → s'.arena.find? n = s.arena.find? n
  store : s.insts.Later s'.insts
  made : ∀ p ∈ ps, p.Made s.insts s'.insts

namespace Effect

variable {a : Arena} {s₀ : InstStore} {s s₁ s₂ : Lowering} {xs ys : List NodeId}
  {ps qs : List Placed}

theorem refl (s : Lowering) : Effect a [] [] s s :=
  ⟨rfl, fun _ => rfl, fun _ => rfl, fun _ => rfl, .refl _, fun _ h => by simp at h⟩

/-- Changes of the draft do not count. -/
theorem redraft (h : Effect a xs ps s s₁) (d : Draft) : Effect a xs ps s (s₁.redraft d) :=
  ⟨h.1, h.2, h.3, h.4, h.5, h.6⟩

theorem weaken (h : Effect a xs ps s s₁) (sub : xs ⊆ ys) : Effect a ys ps s s₁ :=
  ⟨h.func_eq, fun out => h.frame fun x m => out x (sub m), h.alike, h.sentinels, h.store, h.made⟩

theorem trans (h : Effect a xs ps s s₁) (h' : Effect a ys qs s₁ s₂) :
    Effect a (xs ++ ys) (ps ++ qs) s s₂ where
  func_eq := h'.func_eq.trans h.func_eq
  frame n := (h'.frame fun y m => n y (List.mem_append_right _ m)).trans
    (h.frame fun x m => n x (List.mem_append_left _ m))
  alike n := (h'.alike n).trans (h.alike n)
  sentinels m := (h'.sentinels m).trans (h.sentinels m)
  store := h.store.trans h'.store
  made p m := by
    rcases List.mem_append.1 m with m | m
    · exact (h.made p m).later h'.store
    · exact (h'.made p m).earlier h.store.size_le

/-- Steps below children are steps below their parents. -/
theorem mono (h : Effect a xs ps s s₁) (bare : a.SentinelsBare)
    (up : ∀ x ∈ xs, x.isSentinel ∨ ∃ y ∈ ys, a.Below y x) : Effect a ys ps s s₁ where
  func_eq := h.func_eq
  frame {n} out := by
    by_cases sentinel : n.isSentinel
    · exact h.sentinels sentinel
    refine h.frame fun x m below => ?_
    rcases up x m with sx | ⟨y, my, above⟩
    · exact sentinel (bare.eq_of_below sx below ▸ sx)
    · exact out y my (above.trans below)
  alike := h.alike
  sentinels := h.sentinels
  store := h.store
  made := h.made

theorem faithful (h : Effect a xs ps s s₁) (f : Faithful a s₀ s) : Faithful a s₀ s₁ where
  sentinels m := (h.sentinels m).trans (f.sentinels m)
  alike n := (h.alike n).trans (f.alike n)
  store := f.store.trans h.store

theorem untouched (h : Effect a xs ps s s₁) (f : Faithful a s₀ s) {y : NodeId}
    (apart : ∀ x ∈ xs, a.Apart x y) (u : Untouched a s y) : Untouched a s₁ y := by
  intro n below
  by_cases m : ∃ x ∈ xs, a.Below x n
  · obtain ⟨x, mx, bx⟩ := m
    have sentinel := apart x mx n bx below
    rw [h.sentinels sentinel, f.sentinels sentinel]
  · rw [h.frame fun x mx bx => m ⟨x, mx, bx⟩]
    exact u n below

end Effect

end Codegen
