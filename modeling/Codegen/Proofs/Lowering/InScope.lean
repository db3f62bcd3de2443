import Codegen.Proofs.Lowering.Scope
import Codegen.Proofs.Lowering.Walk
import Codegen.Proofs.Tree.Supply

/-!
Trees whose expressions use only what their children leave behind are read as code that uses only
what has been executed.
-/

namespace Codegen

/-! ## Reading, backwards -/

namespace Reading

variable {α β : Type} {n n' : Nat}

theorem bind_some {x : Reading α} {f : α → Reading β} {r : β × Nat} (h : (x >>= f) n = some r) :
    ∃ v m, x n = some (v, m) ∧ f v m = some r := by
  obtain ⟨⟨v, m⟩, e, h⟩ := Option.bind_eq_some_iff.1 h
  exact ⟨v, m, e, h⟩

theorem lift_bind_some {o : Option α} {f : α → Reading β} {r : β × Nat}
    (h : ((liftM o : Reading α) >>= f) n = some r) : ∃ v, o = some v ∧ f v n = some r := by
  cases o with
  | none => cases h
  | some v => exact ⟨v, rfl, h⟩

theorem pure_some {v w : α} (h : (pure v : Reading α) n = some (w, n')) : w = v ∧ n' = n := by
  cases h
  exact ⟨rfl, rfl⟩

end Reading

namespace Arena

/-- Nothing below a node places a label. -/
def Quiet (a : Arena) (id : NodeId) : Prop :=
  ∀ m node, a.Below id m → a.find? m = some node → ∀ f l, node.kind ≠ .labelStmt f l

/-- A tree that can be read as code in scope: what instructions use is in the entry, or comes from
earlier instructions of their node or from a child. -/
structure InScope (a : Arena) (s : InstStore) (uses : InstId → InstId → Prop) (entry : List InstId)
    (root : NodeId) : Prop where
  bare : a.SentinelsBare
  void : ∀ {n node}, n.isSentinel → a.find? n = some node →
    node.value = none ∧ (node.kind = .error ∨ node.kind = .errorStmt)
  bounded : ∀ {n node i}, a.Below root n → a.find? n = some node → i ∈ node.insts →
    i.index < s.slots.size
  shaped : ∀ {n node i k child}, a.Below root n → a.find? n = some node → node.kids[i]? = some k →
    a.find? k = some child → child.isStmt = node.kind.wantsStmt i
  operands : ∀ {n node p i j}, a.Below root n → a.find? n = some node → node.insts[p]? = some i →
    s.Uses i j → j ∈ entry ∨ j ∈ node.insts.take p ∧ s.Yields j ∨ ∃ k ∈ node.kids, a.Supplies s k j
  values : ∀ {n node j}, a.Below root n → a.find? n = some node → node.value = some (.inst j) →
    j ∈ entry ∨ a.Supplies s n j
  quiet : ∀ {n node}, a.Below root n → a.find? n = some node → node.isExpr → a.Quiet n
  newer : ∀ {i j}, i.index < s.slots.size → uses i j → s.Uses i j

section

variable {a : Arena} {s : InstStore} {uses : InstId → InstId → Prop} {entry scope : List InstId}
  {root : NodeId} {xs ys : List NodeId}

/-! ## Nodes of the tree -/

variable (root) in
/-- A node of the tree below a root, or a sentinel. -/
def Inside (a : Arena) (id : NodeId) : Prop := a.Below root id ∨ id.isSentinel

namespace InScope

variable {id k : NodeId} {node : Node}

theorem inside_kid (h : a.InScope s uses entry root) (inside : Inside root a id)
    (find : a.find? id = some node) (mem : k ∈ node.kids) : Inside root a k := by
  by_cases sentinel : k.isSentinel
  · exact .inr sentinel
  · rcases inside with below | above
    · exact .inl (below.tail ((mem_kidsOf find).2 ⟨mem, sentinel⟩))
    · simp [(h.bare id node above find).1] at mem

theorem quiet_of_sentinel (h : a.InScope s uses entry root) (sentinel : id.isSentinel) :
    a.Quiet id := by
  intro m node below find
  have e := h.bare.eq_of_below sentinel below
  rcases (h.void sentinel (e ▸ find)).2 with kind | kind <;> simp [kind]

theorem quiet_of_expr (h : a.InScope s uses entry root) (inside : Inside root a id)
    (find : a.find? id = some node) (expr : node.isExpr) : a.Quiet id := by
  rcases inside with below | sentinel
  · exact h.quiet below find expr
  · exact h.quiet_of_sentinel sentinel

theorem quiet_kid (h : a.InScope s uses entry root) (quiet : a.Quiet id)
    (find : a.find? id = some node) (mem : k ∈ node.kids) : a.Quiet k := by
  by_cases sentinel : k.isSentinel
  · exact h.quiet_of_sentinel sentinel
  · intro m node' below find'
    exact quiet m node' (.head ((mem_kidsOf find).2 ⟨mem, sentinel⟩) below) find'

end InScope

/-! ## What code leaves behind -/

variable (s entry) in
/-- A scope with the entry and all that some nodes supply. -/
structure Covers (a : Arena) (xs : List NodeId) (scope : List InstId) : Prop where
  entry : entry ⊆ scope
  supplied : ∀ {x j}, x ∈ xs → a.Supplies s x j → j ∈ scope

theorem Covers.none (sub : entry ⊆ scope) : Covers s entry a [] scope :=
  ⟨sub, fun mem => by simp at mem⟩

/-- Code without labels forgets nothing. -/
theorem Covers.past (c : Covers s entry a xs scope) {code : Code} (none : code.labels = []) :
    Covers s entry a xs (code.scope entry scope) := by
  have sub := code.kept_subset_scope c.entry
  rw [none, kept, if_pos rfl] at sub
  exact ⟨fun _ m => sub (c.entry m), fun mem supplied => sub (c.supplied mem supplied)⟩

theorem Covers.append (c : Covers s entry a xs scope) (d : Covers s entry a ys scope) :
    Covers s entry a (xs ++ ys) scope where
  entry := c.entry
  supplied mem supplied := by
    rcases List.mem_append.1 mem with mem | mem
    · exact c.supplied mem supplied
    · exact d.supplied mem supplied

/-- Code that was read below some nodes, where what other nodes supply is there. -/
structure Told (a : Arena) (s : InstStore) (uses : InstId → InstId → Prop) (entry : List InstId)
    (given xs : List NodeId) (code : Code) : Prop where
  inScope : ∀ {scope}, Covers s entry a given scope → code.Scoped uses entry scope
  labels : (∀ x ∈ xs, a.Quiet x) → code.labels = []

variable (s entry) in
/-- Code after which everything is there that some nodes supply. -/
def Leaves (a : Arena) (xs : List NodeId) (code : Code) : Prop :=
  code.labels = [] → ∀ {scope}, entry ⊆ scope → Covers s entry a xs (code.scope entry scope)

namespace Told

variable {given xs ys : List NodeId} {code first second : Code}

theorem weaken (t : Told a s uses entry given xs code) (sub : xs ⊆ ys) :
    Told a s uses entry given ys code :=
  ⟨t.inScope, fun quiet => t.labels fun x mem => quiet x (sub mem)⟩

theorem seq (t : Told a s uses entry given xs first) (leaves : Leaves s entry a xs first)
    (quiet : first.labels = []) (t' : Told a s uses entry xs ys second) :
    Told a s uses entry given (xs ++ ys) (.seq first second) where
  inScope c := ⟨t.inScope c, t'.inScope (leaves quiet c.entry)⟩
  labels still := by
    rw [Code.labels, quiet, t'.labels fun y mem => still y (List.mem_append_right _ mem)]
    rfl

/-- One node after the other. -/
theorem all {read : NodeId → Reading Code} {xs : List NodeId} {codes : List Code} {n n' : Nat}
    (each : ∀ x ∈ xs, ∀ {n n' code}, read x n = some (code, n') → Told a s uses entry [] [x] code)
    (run : xs.mapM read n = some (codes, n')) :
    Told a s uses entry [] xs (.all codes) ∧
      ((∀ x ∈ xs, ∀ {n n' code}, read x n = some (code, n') → Leaves s entry a [x] code) →
        Leaves s entry a xs (.all codes)) := by
  induction xs generalizing n codes with
  | nil =>
    obtain ⟨rfl, rfl⟩ := Reading.pure_some run
    exact ⟨⟨fun _ => trivial, fun _ => rfl⟩, fun _ _ _ sub => .none sub⟩
  | cons x rest ih =>
    rw [List.mapM_cons] at run
    obtain ⟨code, m, one, run⟩ := Reading.bind_some run
    obtain ⟨more, m', later, run⟩ := Reading.bind_some run
    obtain ⟨rfl, rfl⟩ := Reading.pure_some run
    have t := each x (by simp) one
    obtain ⟨t', leaves'⟩ := ih (fun y my => each y (by simp [my])) later
    refine ⟨⟨fun c => ⟨t.inScope c, t'.inScope (.none (code.entry_subset_scope c.entry))⟩,
      fun quiet => ?_⟩, fun leaves quiet scope sub => ?_⟩
    · rw [Code.all, Code.labels, t.labels (by simpa using quiet x (by simp)),
        t'.labels fun y my => quiet y (by simp [my])]
      rfl
    · obtain ⟨quiet₁, quiet₂⟩ := List.append_eq_nil_iff.1 quiet
      have c := leaves x (by simp) one quiet₁ sub
      exact (c.past quiet₂).append (leaves' (fun y my => leaves y (by simp [my])) quiet₂ c.entry)

end Told

namespace InScope

variable {id : NodeId}

theorem among_of_covers (h : a.InScope s uses entry root) {v : Value} {scope : List InstId}
    (inside : Inside root a id) (has : a.value? id = some v) (c : Covers s entry a [id] scope) :
    v.Among scope := by
  rintro j rfl
  obtain ⟨node, find, value⟩ := Option.bind_eq_some_iff.1 has
  rcases inside with below | sentinel
  · rcases h.values below find value with mem | supplied
    · exact c.entry mem
    · exact c.supplied (by simp) supplied
  · simp [(h.void sentinel find).1] at value

/-- What a statement says is what is said below its children. -/
theorem told_of_kids (h : a.InScope s uses entry root) {node : Node} (find : a.find? id = some node)
    {code : Code} (t : Told a s uses entry [] node.kids code) : Told a s uses entry [] [id] code :=
  ⟨t.inScope, fun quiet => t.labels fun k mem => h.quiet_kid (quiet id (by simp)) find mem⟩

end InScope

end

end Arena

end Codegen
