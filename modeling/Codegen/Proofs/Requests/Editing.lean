import Codegen.Proofs.Requests.Sessions

/-!
Editing what has been computed. Instructions that a request attaches come with a value, and a node
with a value keeps its operands, so that what is computed already is never changed under the hands
of the instructions. Stores and returns have instructions but no value.
-/

namespace Codegen

namespace Arena

/-- Neither edit of a child goes through, and both leave the tree as it is. -/
def Refuses (a : Arena) (id : NodeId) (index : Nat) (new : NodeId) : Prop :=
  (∃ e, a.replaceChild id index new = .ok (.error e, a)) ∧
    ∃ e, a.updateCompositeChild id index new = .ok (.error e, a)

variable {a : Arena} {id new : NodeId} {index : Nat} {node : Node}

/-- The children of a composite are edited as those of any node. -/
theorem refuses_of_replaceChild (find : a.find? id = some node)
    (refused : ∃ e, a.replaceChild id index new = .ok (.error e, a)) : a.Refuses id index new := by
  refine ⟨refused, ?_⟩
  unfold updateCompositeChild
  rw [get_eq_ok.2 find]
  cases state : node.kind.compositeState? with
  | none => exact ⟨_, by simp only [bind, Except.bind, state]; rfl⟩
  | some _ =>
    obtain ⟨e, refused⟩ := refused
    exact ⟨e, by simpa only [bind, Except.bind, state] using refused⟩

theorem refuses_of_value (find : a.find? id = some node) (value : node.value.isSome) :
    a.Refuses id index new := by
  refine refuses_of_replaceChild find ?_
  unfold replaceChild
  rw [get_eq_ok.2 find]
  change ∃ e, (if node.kind.compositeState? = some .finalized then _ else _) = _
  split
  · exact ⟨_, rfl⟩
  · exact ⟨_, rfl⟩

theorem refuses_of_no_kids (find : a.find? id = some node) (kids : node.kids = []) :
    a.Refuses id index new := by
  refine refuses_of_replaceChild find ?_
  unfold replaceChild
  rw [get_eq_ok.2 find]
  change ∃ e, (if node.kind.compositeState? = some .finalized then _ else _) = _
  split
  · exact ⟨_, rfl⟩
  split
  · exact ⟨_, rfl⟩
  · exact ⟨.noSuchChild id index, by simp only [kids, List.getElem?_nil]; rfl⟩

/-- Where nothing is fixed yet, a child is replaced by any other of its category and type. -/
theorem replaceChild_eq_ok {old : NodeId} {child child' : Node} (find : a.find? id = some node)
    (open' : node.value = none) (state : node.kind.compositeState? ≠ some .finalized)
    (kid : node.kids[index]? = some old) (this : a.find? old = some child)
    (that : a.find? new = some child') (category : child.isStmt = child'.isStmt)
    (type : child.ty = child'.ty) : a.replaceChild id index new =
      .ok (.ok old, a.set id { node with kids := node.kids.set index new }) := by
  unfold replaceChild
  rw [get_eq_ok.2 find]
  change (if node.kind.compositeState? = some .finalized then _ else _) = _
  rw [if_neg state, if_neg (by simp [open']), kid]
  change (a.get old >>= _) = _
  rw [get_eq_ok.2 this]
  change (a.get new >>= _) = _
  rw [get_eq_ok.2 that]
  change (if _ then _ else _) = _
  rw [if_neg (not_not.2 category), if_neg fun differ => differ.2 type]
  rfl

/-- A dead child cannot be replaced either, but that is no refusal. -/
theorem not_refuses_self {k : NodeId} (find : a.find? id = some node) (open' : node.value = none)
    (state : node.kind.compositeState? ≠ some .finalized) (kid : node.kids[index]? = some k) :
    ¬a.Refuses id index k := by
  rintro ⟨⟨e, refused⟩, -⟩
  cases this : a.find? k with
  | some child =>
    rw [replaceChild_eq_ok find open' state kid this this rfl rfl] at refused
    cases refused
  | none =>
    unfold replaceChild at refused
    rw [get_eq_ok.2 find] at refused
    change (if node.kind.compositeState? = some .finalized then _ else _) = _ at refused
    rw [if_neg state, if_neg (by simp [open']), kid] at refused
    obtain ⟨child, got, -⟩ := bind_eq_ok.1 refused
    cases this.symm.trans (get_eq_ok.1 got)

end Arena

namespace Move

/-- The nodes that a request makes. -/
def Makes : Move → NodeId → Prop
  | request before _ _ after, id => before.arena.size ≤ id.index ∧ id.index < after.arena.size
  | rework .., _ => False

/-- The nodes that are handed an instruction other than by a request. -/
def AttachesTo : Move → NodeId → Prop
  | request .., _ => False
  | rework _ w _, id => w.AttachesTo id

instance (m : Move) (id : NodeId) : Decidable (m.Makes id) :=
  match m with
  | request .. => inferInstanceAs (Decidable (_ ∧ _))
  | rework .. => .isFalse not_false

instance (m : Move) (id : NodeId) : Decidable (m.AttachesTo id) :=
  match m with
  | request .. => .isFalse not_false
  | rework _ w _ => inferInstanceAs (Decidable (w.AttachesTo id))

end Move

namespace Session

variable {c : Compilation} {moves : List Move} {id : NodeId} {node : Node}

/-- What a request made is there, or was. -/
theorem lt_size (session : Session c moves) {m : Move} (mem : m ∈ moves) (made : m.Makes id) :
    id.index < c.arena.size := by
  induction session with
  | start => cases mem
  | request _ run ih =>
    rcases List.mem_cons.1 mem with rfl | mem
    · exact made.2
    · exact Nat.lt_of_lt_of_le (ih mem) (Request.turns run).nodes.size_le
  | rework _ run ih =>
    rcases List.mem_cons.1 mem with rfl | mem
    · cases made
    · exact Nat.lt_of_lt_of_le (ih mem) (Rework.ripens run).size_le

/-- Nodes that requests made are ready, as long as nobody else hands them instructions. -/
theorem ready (session : Session c moves) (made : ∃ m ∈ moves, m.Makes id)
    (untouched : ∀ m ∈ moves, ¬m.AttachesTo id) (find : c.arena.find? id = some node) :
    node.Ready := by
  induction session generalizing node with
  | start => simp at made
  | request session run ih =>
    have turns := Request.turns run
    obtain ⟨m, mem, made⟩ := made
    rcases List.mem_cons.1 mem with rfl | mem
    · exact turns.nodes.new made.1 find not_false
    · obtain ⟨node₀, find₀, -, ready⟩ := turns.nodes.old (session.lt_size mem made) find
      exact ready not_false (ih ⟨m, mem, made⟩ (fun m mem => untouched m (.tail _ mem)) find₀)
  | rework session run ih =>
    obtain ⟨m, mem, made⟩ := made
    rcases List.mem_cons.1 mem with rfl | mem
    · cases made
    · have lt := session.lt_size mem made
      obtain ⟨node₀, find₀, -, ready⟩ := (Rework.ripens run).old lt find
      refine ready ?_ (ih ⟨m, mem, made⟩ (fun m mem => untouched m (.tail _ mem)) find₀)
      rintro (attached | new)
      · exact untouched _ (.head _) attached
      · exact Nat.not_lt.2 new lt

/-- Edits of a node that a request made and computed are all refused, unless the node is a store or
a return that still has operands. -/
theorem refuses_edits_iff (session : Session c moves) (made : ∃ m ∈ moves, m.Makes id)
    (untouched : ∀ m ∈ moves, ¬m.AttachesTo id) (find : c.arena.find? id = some node)
    (computed : node.insts ≠ [] ∨ node.value.isSome) :
    (∀ index new, c.arena.Refuses id index new) ↔ ¬(node.kind.isEffect ∧ node.kids ≠ []) := by
  have ready := session.ready made untouched find
  constructor
  · rintro refused ⟨effect, kids⟩
    obtain ⟨k, rest, e⟩ := List.exists_cons_of_ne_nil kids
    refine Arena.not_refuses_self find (ready.effect effect) ?_ (by rw [e]; rfl) (refused 0 k)
    cases kind : node.kind <;> simp_all [NodeKind.isEffect, NodeKind.compositeState?]
  · intro other index new
    by_cases effect : node.kind.isEffect
    · exact Arena.refuses_of_no_kids find (by_contra fun kids => other ⟨effect, kids⟩)
    · exact Arena.refuses_of_value find (computed.elim (ready.computed effect) fun value => value)

/-- A truth value and its negation, which is node 3. -/
def negation : Compilation × List Move :=
  record .standard [.booleanConstant true, .unary .not (⟨2⟩ : NodeId) .synthetic]

/-- A negation has its instruction and keeps its operand. -/
theorem refuses_edits_negation :
    (∃ node, negation.1.arena.find? ⟨3⟩ = some node ∧ node.insts ≠ []) ∧
    ∀ index new, negation.1.arena.Refuses ⟨3⟩ index new := by
  have find : negation.1.arena.find? ⟨3⟩ = some ⟨.unaryOp .not, [⟨2⟩], .synthetic, .bool,
      some (.inst ⟨0⟩), [⟨0⟩], ⟨false, false⟩⟩ := by decide +kernel
  have insts : [(⟨0⟩ : InstId)] ≠ [] := by decide
  have session : Session negation.1 negation.2 := session_record ..
  exact ⟨⟨_, find, insts⟩, (session.refuses_edits_iff (by decide +kernel) (by decide +kernel) find
    (.inl insts)).2 fun effect => by cases effect.1⟩

/-- An integer variable to which a constant is assigned: node 3 by the store that node 4 is. There
is another constant, node 6. -/
def assignment : Compilation × List Move :=
  record .standard [.functionType none [] [] .void,
    .declareFunction ⟨14⟩ "f" "" ⟨0⟩ false .synthetic,
    .localVariable ⟨1⟩ "x" ⟨5⟩ false .synthetic, .varExpr ⟨1⟩ .synthetic, .integerConstant ⟨5⟩ 1,
    .assign ⟨1⟩ (⟨2⟩ : NodeId) ⟨3⟩ .synthetic, .integerConstant ⟨5⟩ 2]

/-- What is assigned can be replaced although the store has been emitted: it still writes the old
value, which is no operand any more. -/
theorem not_refuses_edits_assignment : Session assignment.1 assignment.2 ∧
    (∃ m ∈ assignment.2, m.Makes ⟨4⟩) ∧ (∀ m ∈ assignment.2, ¬m.AttachesTo ⟨4⟩) ∧
    assignment.1.arena.find? ⟨4⟩ =
      some ⟨.assign, [⟨2⟩, ⟨3⟩], .synthetic, .void, none, [⟨1⟩], ⟨false, false⟩⟩ ∧
    (assignment.1.insts.find? ⟨1⟩).map (·.kind) = some (.store (.inst ⟨0⟩) (.const (.int ⟨5⟩ 1))) ∧
    assignment.1.arena.replaceChild ⟨4⟩ 1 ⟨6⟩ = .ok (.ok ⟨3⟩, assignment.1.arena.set ⟨4⟩
      ⟨.assign, [⟨2⟩, ⟨6⟩], .synthetic, .void, none, [⟨1⟩], ⟨false, false⟩⟩) := by
  have store : assignment.1.arena.find? ⟨4⟩ =
      some ⟨.assign, [⟨2⟩, ⟨3⟩], .synthetic, .void, none, [⟨1⟩],
        ⟨false, false⟩⟩ := by decide +kernel
  have one : assignment.1.arena.find? ⟨3⟩ =
      some ⟨.const, [], .synthetic, ⟨5⟩, some (.const (.int ⟨5⟩ 1)), [],
        ⟨false, true⟩⟩ := by decide +kernel
  have two : assignment.1.arena.find? ⟨6⟩ =
      some ⟨.const, [], .synthetic, ⟨5⟩, some (.const (.int ⟨5⟩ 2)), [],
        ⟨false, true⟩⟩ := by decide +kernel
  have replaced : assignment.1.arena.replaceChild ⟨4⟩ 1 ⟨6⟩ = .ok (.ok ⟨3⟩, _) :=
    Arena.replaceChild_eq_ok store rfl (by decide) rfl one two rfl rfl
  exact ⟨session_record .., by decide +kernel, by decide +kernel, store, by decide +kernel,
    replaced⟩

end Session

end Codegen
