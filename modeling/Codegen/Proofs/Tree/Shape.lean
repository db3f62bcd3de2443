import Codegen.Proofs.Tree.Destruction
import Codegen.Tree.Make

/-!
The shape of nodes. However an arena came about, a statement owns no instructions, a node has lost
its children or has as many as its kind asks for, and each of them is of the category that its
place asks for.
-/

namespace Codegen

/-- Whether a kind has places for a number of children. -/
def NodeKind.takes (kind : NodeKind) (count : Nat) : Bool :=
  match kind with
  | .switchStmt layout => count == layout.childCount
  | kind => kind.arity.accepts count

theorem NodeKind.takes_eq {kind : NodeKind} {n : Nat} (h : kind.arity = .fixed n) (count : Nat) :
    kind.takes count = (n == count) := by
  unfold takes
  split
  · cases h
  · rw [h]
    rfl

/-- A node over children of an arena that has the shape of its kind. -/
structure Node.Shaped (a : Arena) (node : Node) : Prop where
  insts : node.isStmt → node.insts = []
  count : node.kids = [] ∨ node.kind.takes node.kids.length
  kids : ∀ {i k}, node.kids[i]? = some k → k.index < a.size ∧
    ∀ {child}, a.find? k = some child → child.isStmt = node.kind.wantsStmt i

variable {a : Arena} {node : Node}

theorem Node.Shaped.length_kids {n : Nat} (h : node.Shaped a) (arity : node.kind.arity = .fixed n) :
    node.kids = [] ∨ node.kids.length = n := by
  refine h.count.imp_right fun takes => ?_
  rw [NodeKind.takes_eq arity] at takes
  exact (beq_iff_eq.1 takes).symm

theorem Node.Shaped.kids_eq_nil (h : node.Shaped a) (arity : node.kind.arity = .fixed 0) :
    node.kids = [] :=
  (h.length_kids arity).elim id List.eq_nil_of_length_eq_zero

theorem Node.Shaped.kids_eq_singleton {k : NodeId} (h : node.Shaped a)
    (arity : node.kind.arity = .fixed 1) (child : node.kids[0]? = some k) : [k] = node.kids := by
  rcases h.length_kids arity with none | one
  · simp [none] at child
  · obtain ⟨k', e⟩ := List.length_eq_one_iff.1 one
    rw [e] at child ⊢
    cases child
    rfl

namespace Arena

variable {a a' : Arena} {id new stmt : NodeId} {node node' : Node}

/-- Every node has its shape, and the sentinels are what they stand for. -/
structure WellFormed (a : Arena) : Prop where
  nodes : ∀ {id node}, a.find? id = some node → node.Shaped a
  errorExpr : ∃ node, a.find? .errorExpr = some node ∧ node.kind = .error
  errorStmt : ∃ node, a.find? .errorStmt = some node ∧ node.kind = .errorStmt

/-- An arena later on: of what was there, nothing changes between expression and statement. -/
structure Ages (a a' : Arena) : Prop where
  size_le : a.size ≤ a'.size
  isStmt_eq : ∀ {id node'}, id.index < a.size → a'.find? id = some node' →
    ∃ node, a.find? id = some node ∧ node'.isStmt = node.isStmt

theorem Ages.shaped (ages : Ages a a') (h : node.Shaped a) : node.Shaped a' where
  insts := h.insts
  count := h.count
  kids {i k} e := by
    have ⟨lt, stmt⟩ := h.kids e
    refine ⟨Nat.lt_of_lt_of_le lt ages.size_le, fun {child'} find' => ?_⟩
    obtain ⟨child, find, same⟩ := ages.isStmt_eq lt find'
    rw [same, stmt find]

/-- There are the two sentinels from the start. -/
theorem sentinel_of_find?_initial (find : initial.find? id = some node) :
    id = .errorExpr ∨ id = .errorStmt := by
  have lt := lt_of_find? find
  rcases id with ⟨_ | _ | i⟩
  · exact .inl rfl
  · exact .inr rfl
  · have : i + 2 < 2 := lt
    omega

theorem wellFormed_initial : initial.WellFormed where
  nodes {id node} find := by
    rcases sentinel_of_find?_initial find with rfl | rfl
    · cases find
      exact ⟨fun _ => rfl, .inl rfl, fun {i k} e => by simp [Node.fresh] at e⟩
    · cases find
      exact ⟨fun _ => rfl, .inl rfl, fun {i k} e => by simp [Node.fresh] at e⟩
  errorExpr := ⟨_, rfl, rfl⟩
  errorStmt := ⟨_, rfl, rfl⟩

/-- A child that was replaced by another of its category. -/
structure Replaced (a : Arena) (id : NodeId) (index : Nat) (new old : NodeId) (node : Node)
    (a' : Arena) : Prop where
  find : a.find? id = some node
  at_index : node.kids[index]? = some old
  alike : ∃ child child', a.find? old = some child ∧ a.find? new = some child' ∧
    child'.isStmt = child.isStmt
  result : a' = a.set id { node with kids := node.kids.set index new }

/-- A replacement is refused and changes nothing, or it is made. -/
theorem replaceChild_cases {index : Nat} {r : Except EditError NodeId}
    (run : a.replaceChild id index new = .ok (r, a')) :
    (∃ e, r = .error e ∧ a' = a) ∨ ∃ old node, r = .ok old ∧
      a.Replaced id index new old node a' := by
  obtain ⟨node, got, run⟩ := bind_eq_ok.1 run
  split at run
  · cases run
    exact .inl ⟨_, rfl, rfl⟩
  split at run
  · cases run
    exact .inl ⟨_, rfl, rfl⟩
  split at run
  · cases run
    exact .inl ⟨_, rfl, rfl⟩
  rename_i old at_index
  obtain ⟨child, gotOld, run⟩ := bind_eq_ok.1 run
  obtain ⟨child', gotNew, run⟩ := bind_eq_ok.1 run
  split at run
  · cases run
    exact .inl ⟨_, rfl, rfl⟩
  rename_i same
  split at run
  · cases run
    exact .inl ⟨_, rfl, rfl⟩
  cases run
  exact .inr ⟨old, node, rfl, get_eq_ok.1 got, at_index,
    ⟨child, child', get_eq_ok.1 gotOld, get_eq_ok.1 gotNew, (Classical.not_not.1 same).symm⟩, rfl⟩

theorem Replaced.shaped {index : Nat} {old : NodeId} (made : a.Replaced id index new old node a')
    (h : node.Shaped a) : { node with kids := node.kids.set index new }.Shaped a := by
  obtain ⟨child, child', kid, kid', same⟩ := made.alike
  refine ⟨h.insts, ?_, fun {i k} there => ?_⟩
  · have empty : node.kids ≠ [] := by
      rintro none
      simpa [none] using made.at_index
    exact .inr (by simpa using h.count.resolve_left empty)
  · rw [List.getElem?_set] at there
    split at there
    · rename_i here
      subst here
      split at there
      · cases there
        refine ⟨lt_of_find? kid', fun {other} find' => ?_⟩
        cases kid'.symm.trans find'
        rw [same, (h.kids made.at_index).2 kid]
      · cases there
    · exact h.kids there

theorem set_set (a : Arena) (id : NodeId) (node node' : Node) :
    (a.set id node).set id node' = a.set id node' := by
  simp only [set, mk.injEq]
  apply Array.ext_getElem?
  intro i
  rw [Array.getElem?_modify, Array.getElem?_modify, Array.getElem?_modify]
  split
  · rw [Option.map_map]
    rfl
  · rfl

/-- A new node that is changed is another new node. -/
theorem add_set (a : Arena) (node node' : Node) :
    (a.add node).2.set ⟨a.size⟩ node' = (a.add node').2 := by
  simp only [set, add, size, mk.injEq]
  apply Array.ext_getElem?
  intro i
  rw [Array.getElem?_modify, Array.getElem?_push, Array.getElem?_push]
  split
  · rename_i e
    simp [e]
  · rename_i ne
    rw [if_neg fun e => ne e.symm, if_neg fun e => ne e.symm]

/-- An instruction goes to the end of an expression's own. -/
theorem appendInst_ok {inst : InstId} (run : a.appendInst id inst = .ok a') :
    ∃ node, a.find? id = some node ∧ node.isExpr ∧
      a' = a.set id { node with insts := node.insts ++ [inst] } := by
  obtain ⟨node, got, run⟩ := bind_eq_ok.1 run
  split at run
  case isFalse => cases run
  rename_i expr
  cases run
  exact ⟨node, get_eq_ok.1 got, expr, rfl⟩

theorem update_ok {f : Node → Node} (run : a.update id f = .ok a') :
    ∃ node, a.find? id = some node ∧ a' = a.set id (f node) := by
  obtain ⟨node, got, run⟩ := bind_eq_ok.1 run
  cases run
  exact ⟨node, get_eq_ok.1 got, rfl⟩

/-- A statement goes to the end of a block. -/
theorem appendChild_ok (run : a.appendChild id stmt = .ok a') :
    ∃ node child, a.find? id = some node ∧ node.kind = .blockStmt ∧ a.find? stmt = some child ∧
      child.isStmt ∧ a' = a.set id { node with kids := node.kids ++ [stmt] } := by
  obtain ⟨child, got, run⟩ := bind_eq_ok.1 run
  split at run
  case isFalse => cases run
  rename_i isStmt
  obtain ⟨node, got', run⟩ := bind_eq_ok.1 run
  split at run
  case isFalse => cases run
  rename_i block
  cases run
  exact ⟨node, child, get_eq_ok.1 got', block, get_eq_ok.1 got, isStmt, rfl⟩

theorem shaped_append {child : Node} (h : node.Shaped a) (block : node.kind = .blockStmt)
    (kid : a.find? stmt = some child) (isStmt : child.isStmt) :
    { node with kids := node.kids ++ [stmt] }.Shaped a := by
  refine ⟨h.insts, .inr ?_, fun {i k} there => ?_⟩
  · simp [NodeKind.takes, block, NodeKind.arity, Arity.accepts]
  · rw [List.getElem?_append] at there
    split at there
    · exact h.kids there
    · obtain rfl : k = stmt := by simpa using List.mem_of_getElem? there
      refine ⟨lt_of_find? kid, fun {child'} find' => ?_⟩
      cases kid.symm.trans find'
      simpa [block, NodeKind.wantsStmt] using isStmt

/-- A composite under construction is finished. -/
theorem finishComposite_ok {v : Value} (run : a.finishComposite id v = .ok a') :
    ∃ node, a.find? id = some node ∧ node.kind = .composite .building ∧
      a' = a.set id { node with kind := .composite .finalized, value := some v } := by
  obtain ⟨node, got, run⟩ := bind_eq_ok.1 run
  split at run
  · rename_i building
    cases run
    exact ⟨node, get_eq_ok.1 got, building, rfl⟩
  · cases run
  · cases run

theorem shaped_finish {v : Value} (h : node.Shaped a)
    (building : node.kind = .composite .building) :
    { node with kind := .composite .finalized, value := some v }.Shaped a where
  insts stmt := by cases stmt
  count := .inr rfl
  kids at' := by simpa [building, NodeKind.wantsStmt] using h.kids at'

namespace WellFormed

theorem sentinel_lt (h : a.WellFormed) (s : id.isSentinel) : id.index < a.size := by
  obtain ⟨_, expr, _⟩ := h.errorExpr
  obtain ⟨_, stmt, _⟩ := h.errorStmt
  simp only [NodeId.isSentinel, Bool.or_eq_true, beq_iff_eq] at s
  rcases s with rfl | rfl
  · exact lt_of_find? expr
  · exact lt_of_find? stmt

theorem ages_add (a : Arena) (node : Node) : Ages a (a.add node).2 where
  size_le := by simp
  isStmt_eq {id node'} lt find := by
    rw [find?_add_of_ne fun e => by simp [e, add] at lt] at find
    exact ⟨node', find, rfl⟩

theorem add (h : a.WellFormed) (shaped : node.Shaped a) : (a.add node).2.WellFormed := by
  have ages := ages_add a node
  have old : ∀ {id}, id.isSentinel → (a.add node).2.find? id = a.find? id := fun s =>
    find?_add_of_ne fun e => by
      have := h.sentinel_lt s
      simp [e, Arena.add] at this
  refine ⟨fun {id node'} find => ?_, ?_, ?_⟩
  · by_cases e : id = (a.add node).1
    · subst e
      cases (find?_add a node).symm.trans find
      exact ages.shaped shaped
    · rw [find?_add_of_ne e] at find
      exact ages.shaped (h.nodes find)
  · rw [old rfl]
    exact h.errorExpr
  · rw [old rfl]
    exact h.errorStmt

/-- A node is put in the place of one of its own category. -/
theorem set (h : a.WellFormed) (find : a.find? id = some node) (shaped : node'.Shaped a)
    (same : node'.isStmt = node.isStmt)
    (sentinel : node.kind = .error ∨ node.kind = .errorStmt → node'.kind = node.kind) :
    (a.set id node').WellFormed := by
  have live := isLive_of_find? find
  have ages : Ages a (a.set id node') := by
    refine ⟨by simp, fun {n m} lt found => ?_⟩
    by_cases e : n = id
    · subst e
      cases (find?_set live).symm.trans found
      exact ⟨node, find, same⟩
    · rw [find?_set_of_ne e] at found
      exact ⟨m, found, rfl⟩
  have kept : ∀ {n kind}, kind = .error ∨ kind = .errorStmt →
      (∃ m, a.find? n = some m ∧ m.kind = kind) →
      ∃ m, (a.set id node').find? n = some m ∧ m.kind = kind := by
    rintro n kind special ⟨m, found, rfl⟩
    by_cases e : n = id
    · subst e
      cases find.symm.trans found
      exact ⟨node', find?_set live, sentinel special⟩
    · exact ⟨m, by rw [find?_set_of_ne e, found], rfl⟩
  refine ⟨fun {n m} found => ?_, kept (.inl rfl) h.errorExpr, kept (.inr rfl) h.errorStmt⟩
  by_cases e : n = id
  · subst e
    cases (find?_set live).symm.trans found
    exact ages.shaped shaped
  · rw [find?_set_of_ne e] at found
    exact ages.shaped (h.nodes found)

/-- The same with the kind and the children unchanged. -/
theorem touch (h : a.WellFormed) (find : a.find? id = some node) (kind : node'.kind = node.kind)
    (kids : node'.kids = node.kids) (insts : node.isStmt → node'.insts = []) :
    (a.set id node').WellFormed := by
  have shaped := h.nodes find
  have same : node'.isStmt = node.isStmt := by rw [Node.isStmt, Node.isStmt, kind]
  refine h.set find ⟨fun stmt => insts (same ▸ stmt), ?_, ?_⟩ same fun _ => kind
  · rw [kids, kind]
    exact shaped.count
  · rw [kids, kind]
    exact shaped.kids

/-- Nodes may die, sentinels apart. -/
theorem prune (h : a.WellFormed) (size : a'.size = a.size)
    (nodes : ∀ n, a'.find? n = a.find? n ∨ a'.find? n = none ∧ ¬n.isSentinel) : a'.WellFormed := by
  have old : ∀ {id node}, a'.find? id = some node → a.find? id = some node := by
    intro id node find
    rcases nodes id with e | ⟨none, _⟩
    · rwa [← e]
    · simp [none] at find
  have sentinel : ∀ {id}, id.isSentinel → a'.find? id = a.find? id := by
    intro id s
    rcases nodes id with e | ⟨_, other⟩
    · exact e
    · exact absurd s other
  constructor
  · intro id node find
    have shaped := h.nodes (old find)
    refine ⟨shaped.insts, shaped.count, fun {i k} at' => ?_⟩
    obtain ⟨lt, stmt⟩ := shaped.kids at'
    exact ⟨size ▸ lt, fun {child} find' => stmt (old find')⟩
  · rw [sentinel (by decide)]
    exact h.errorExpr
  · rw [sentinel (by decide)]
    exact h.errorStmt

theorem kill (h : a.WellFormed) (other : ¬id.isSentinel) : (a.kill id).WellFormed := by
  apply h.prune (size_kill a id)
  intro n
  by_cases e : n = id
  · subst e
    exact .inr ⟨find?_kill a n, other⟩
  · exact .inl (find?_kill_of_ne e)

theorem destroyWithin {mode : DestroyMode} {fuel : Nat} {s s' : InstStore} (h : a.WellFormed)
    (e : Arena.destroyWithin mode fuel id (a, s) = .ok (a', s')) : a'.WellFormed := by
  refine destroyWithin_keeps (P := fun a _ => a.WellFormed) (fun {a _ id node} find h => ?_)
    (fun other h => h.kill other) e h
  unfold stripped
  split
  · exact h
  · exact h.touch find rfl rfl fun _ => rfl

theorem appendChild {stmt : NodeId} (h : a.WellFormed) (e : a.appendChild id stmt = .ok a') :
    a'.WellFormed := by
  obtain ⟨node, child, find, block, kid, isStmt, rfl⟩ := appendChild_ok e
  exact h.set find (shaped_append (h.nodes find) block kid isStmt) rfl fun _ => rfl

theorem replaceChild {index : Nat} {new : NodeId} {r : Except EditError NodeId} (h : a.WellFormed)
    (e : a.replaceChild id index new = .ok (r, a')) : a'.WellFormed := by
  obtain ⟨-, -, rfl⟩ | ⟨old, node, -, made⟩ := replaceChild_cases e
  · exact h
  · rw [made.result]
    exact h.set made.find (made.shaped (h.nodes made.find)) rfl fun _ => rfl

theorem finishComposite {v : Value} (h : a.WellFormed) (e : a.finishComposite id v = .ok a') :
    a'.WellFormed := by
  obtain ⟨node, find, building, rfl⟩ := finishComposite_ok e
  refine h.set find (shaped_finish (h.nodes find) building) ?_ fun special => ?_
  · simp [Node.isStmt, NodeKind.isStmt, building]
  · simp [building] at special

end WellFormed

/-! ## Below sentinels -/

/-- Reached through children, sentinels included. -/
def Reaches (a : Arena) : NodeId → NodeId → Prop :=
  Relation.ReflTransGen fun p k => ∃ node, a.find? p = some node ∧ k ∈ node.kids

theorem WellFormed.exists_sentinel (h : a.WellFormed) (s : id.isSentinel) :
    ∃ node, a.find? id = some node := by
  simp only [NodeId.isSentinel, Bool.or_eq_true, beq_iff_eq] at s
  rcases s with rfl | rfl
  · exact h.errorExpr.imp fun _ e => e.1
  · exact h.errorStmt.imp fun _ e => e.1

theorem WellFormed.kids_of_sentinel (h : a.WellFormed) (s : id.isSentinel)
    (find : a.find? id = some node) : node.kids = [] := by
  simp only [NodeId.isSentinel, Bool.or_eq_true, beq_iff_eq] at s
  rcases s with rfl | rfl
  · obtain ⟨node', find', kind⟩ := h.errorExpr
    cases find.symm.trans find'
    exact (h.nodes find).kids_eq_nil (by rw [kind]; rfl)
  · obtain ⟨node', find', kind⟩ := h.errorStmt
    cases find.symm.trans find'
    exact (h.nodes find).kids_eq_nil (by rw [kind]; rfl)

/-- Nothing is below a sentinel, so that leaving them out loses nothing else. -/
theorem WellFormed.below_of_reaches (h : a.WellFormed) {root n : NodeId} (r : a.Reaches root n) :
    n.isSentinel ∨ a.Below root n := by
  induction r with
  | refl => exact .inr .refl
  | tail _ edge ih =>
    obtain ⟨node, find, mem⟩ := edge
    rename_i k _
    by_cases s : k.isSentinel
    · exact .inl s
    · rcases ih with above | below
      · simp [h.kids_of_sentinel above find] at mem
      · exact .inr (below.tail ((mem_kidsOf find).2 ⟨mem, s⟩))

/-! ## Changes -/

theorem checkKids_ok {kind : NodeKind} {kids : List NodeId} {first : Nat}
    (e : a.checkKids kind first kids = .ok ()) {i : Nat} {k : NodeId} (at' : kids[i]? = some k) :
    ∃ child, a.find? k = some child ∧ child.isStmt = kind.wantsStmt (first + i) := by
  induction kids generalizing first i with
  | nil => simp at at'
  | cons kid rest ih =>
    obtain ⟨child, got, e⟩ := bind_eq_ok.1 e
    split at e
    rotate_left
    · cases e
    rename_i same
    cases i with
    | zero =>
      cases at'
      exact ⟨child, get_eq_ok.1 got, same⟩
    | succ i =>
      have := ih e at'
      rwa [Nat.add_assoc, Nat.add_comm 1] at this

/-- What passes the check has as many children as its kind has places for. -/
theorem takes_of_checkArity {kind : NodeKind} {kids : List NodeId}
    (arity : checkArity kind kids = .ok ())
    (layout : ∀ l, kind = .switchStmt l → kids.length = l.childCount) : kind.takes kids.length := by
  unfold NodeKind.takes
  split
  · simpa using layout _ rfl
  · unfold checkArity at arity
    split at arity
    · rename_i n fixed
      split at arity
      · rename_i count
        simp [fixed, Arity.accepts, count]
      · cases arity
    · rename_i variadic
      simp [variadic, Arity.accepts]

/-- The checks of a construction see to the shape of what is constructed. -/
theorem shaped_of_checks {kind : NodeKind} {kids : List NodeId} {ty : TypeId} {span : Span}
    (arity : checkArity kind kids = .ok ()) (checked : a.checkKids kind 0 kids = .ok ())
    (layout : ∀ l, kind = .switchStmt l → kids.length = l.childCount) :
    (Node.fresh kind kids ty span).Shaped a := by
  refine ⟨fun _ => rfl, .inr (takes_of_checkArity arity layout), fun {i k} at' => ?_⟩
  obtain ⟨child, find, same⟩ := checkKids_ok checked at'
  rw [Nat.zero_add] at same
  refine ⟨lt_of_find? find, fun {child'} find' => ?_⟩
  cases find.symm.trans find'
  exact same

/-- One change of an arena. -/
inductive Edit : Arena → Arena → Prop
  | make {a a' kind kids ty span id} : (∀ l, kind ≠ .switchStmt l) →
    make a kind kids ty span = .ok (id, a') → Edit a a'
  | makeLeaf {a kind ty value flags span} : Edit a (makeLeaf a kind ty value flags span).2
  | makeSwitch {a a' layout kids span id} : makeSwitch a layout kids span = .ok (id, a') → Edit a a'
  | appendInst {a a' id inst} : appendInst a id inst = .ok a' → Edit a a'
  | takeInsts {a a' id insts} : takeInsts a id = .ok (insts, a') → Edit a a'
  | setValue {a a' id value} : setValue a id value = .ok a' → Edit a a'
  | setFlags {a a' id flags} : setFlags a id flags = .ok a' → Edit a a'
  | appendChild {a a' block stmt} : appendChild a block stmt = .ok a' → Edit a a'
  | replaceChild {a a' id index new r} : replaceChild a id index new = .ok (r, a') → Edit a a'
  | updateCompositeChild {a a' id index new r} :
    updateCompositeChild a id index new = .ok (r, a') → Edit a a'
  | finishComposite {a a' id value} : finishComposite a id value = .ok a' → Edit a a'
  | removeChildren {a a' id kids} : removeChildren a id = .ok (kids, a') → Edit a a'
  | copy {a a' id id'} : copy a id = .ok (id', a') → Edit a a'
  | destroy {a a' s s' root mode} : destroy a s root mode = .ok (a', s') → Edit a a'

/-- Every change keeps the shape of all nodes. -/
theorem Edit.wellFormed (edit : Edit a a') (h : a.WellFormed) : a'.WellFormed := by
  cases edit with
  | make noSwitch e =>
    obtain ⟨_, arity, e⟩ := bind_eq_ok.1 e
    obtain ⟨_, checked, e⟩ := bind_eq_ok.1 e
    cases e
    exact h.add (shaped_of_checks arity checked fun l e => absurd e (noSwitch l))
  | makeLeaf =>
    refine h.add ⟨fun _ => rfl, .inl rfl, fun {i k} at' => ?_⟩
    simp [Node.fresh] at at'
  | makeSwitch e =>
    unfold Arena.makeSwitch at e
    split at e
    rotate_left
    · cases e
    rename_i count
    obtain ⟨_, arity, e⟩ := bind_eq_ok.1 e
    obtain ⟨_, checked, e⟩ := bind_eq_ok.1 e
    cases e
    exact h.add (shaped_of_checks arity checked fun l e => by cases e; exact count)
  | appendInst e =>
    obtain ⟨node, got, e⟩ := bind_eq_ok.1 e
    split at e
    · rename_i expr
      cases e
      refine h.touch (get_eq_ok.1 got) rfl rfl fun stmt => ?_
      simp [Node.isExpr_eq, stmt] at expr
    · cases e
  | takeInsts e =>
    obtain ⟨node, got, e⟩ := bind_eq_ok.1 e
    cases e
    exact h.touch (get_eq_ok.1 got) rfl rfl fun _ => rfl
  | setValue e =>
    obtain ⟨node, got, e⟩ := bind_eq_ok.1 e
    cases e
    exact h.touch (get_eq_ok.1 got) rfl rfl (h.nodes (get_eq_ok.1 got)).insts
  | setFlags e =>
    obtain ⟨node, got, e⟩ := bind_eq_ok.1 e
    cases e
    exact h.touch (get_eq_ok.1 got) rfl rfl (h.nodes (get_eq_ok.1 got)).insts
  | appendChild e => exact h.appendChild e
  | replaceChild e => exact h.replaceChild e
  | updateCompositeChild e =>
    obtain ⟨node, _, e⟩ := bind_eq_ok.1 e
    split at e
    · cases e
      exact h
    · exact h.replaceChild e
  | finishComposite e => exact h.finishComposite e
  | removeChildren e =>
    obtain ⟨node, got, e⟩ := bind_eq_ok.1 e
    cases e
    have shaped := h.nodes (get_eq_ok.1 got)
    exact h.set (get_eq_ok.1 got) ⟨shaped.insts, .inl rfl, fun {i k} at' => by simp at at'⟩ rfl
      fun _ => rfl
  | copy e =>
    obtain ⟨node, got, e⟩ := bind_eq_ok.1 e
    cases e
    exact h.add (h.nodes (get_eq_ok.1 got))
  | destroy e => exact h.destroyWithin e

/-- Arenas that come about. -/
inductive Built : Arena → Prop
  | initial : Built initial
  | edit {before after} : Built before → Edit before after → Built after

theorem Built.wellFormed (built : Built a) : a.WellFormed := by
  induction built with
  | initial => exact wellFormed_initial
  | edit _ edit ih => exact edit.wellFormed ih

end Arena

end Codegen
