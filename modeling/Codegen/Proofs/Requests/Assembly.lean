import Codegen.Proofs.Requests.Effects

/-!
Trees that are put together by hand, out of constructors, copies, edits and destruction. As long as
no node is stripped of its children, every node has all the children that its kind asks for, those
of them that live are of the category that their place asks for, and a composite has a value exactly
if it is finished.
-/

namespace Codegen

/-- The kinds of expressions that are constructed over any children, with a type of their own. -/
def NodeKind.isTyped : NodeKind → Bool
  | .conversion | .deref | .address | .unaryOp _ | .structField _ | .binaryOp _ | .compound
  | .arrayIndex | .composite .building => true
  | _ => false

/-- The kinds that are constructed over any children and have no result. -/
def NodeKind.isVoid : NodeKind → Bool
  | .ret | .assign | .labelStmt .. | .gotoStmt .. | .exprStmt | .ifStmt | .blockStmt => true
  | _ => false

/-- An arena, and copies of its nodes that were taken and may still be put in. -/
structure Assembly where
  arena : Arena
  copies : List Node

namespace Assembly

def initial : Assembly := ⟨.initial, []⟩

/-- What can be done to an arena, other than to detach all children of a node. -/
inductive Command where
  | const (ty : TypeId) (c : Constant) (span : Span)
  | var (var : VarId) (ty : TypeId) (storage : Value) (span : Span)
  | funcAddress (func : FuncId) (ty : TypeId) (span : Span)
  | typed (kind : NodeKind) (isTyped : kind.isTyped) (kids : List NodeId) (ty : TypeId)
    (span : Span)
  | void (kind : NodeKind) (isVoid : kind.isVoid) (kids : List NodeId) (span : Span)
  | empty (span : Span)
  | call (ty : TypeId) (kids : List NodeId) (span : Span)
  | switch (layout : SwitchLayout) (kids : List NodeId) (span : Span)
  | appendInst (id : NodeId) (inst : InstId)
  | takeInsts (id : NodeId)
  | appendChild (block stmt : NodeId)
  | replaceChild (id : NodeId) (index : Nat) (new : NodeId)
  | updateCompositeChild (id : NodeId) (index : Nat) (new : NodeId)
  | finishComposite (id : NodeId) (value : Value)
  | destroy (insts : InstStore) (root : NodeId) (mode : DestroyMode)

/-- The arena after a command. -/
def Command.run (a : Arena) : Command → Except Fault Arena
  | .const ty c span => .ok (a.makeConst ty c span).2
  | .var v ty storage span => .ok (a.makeVar v ty storage span).2
  | .funcAddress func ty span => .ok (a.makeFuncAddress func ty span).2
  | .typed kind _ kids ty span => do return (← a.make kind kids ty span).2
  | .void kind _ kids span => do return (← a.makeVoid kind kids span).2
  | .empty span => .ok (a.makeEmpty span).2
  | .call ty kids span => do return (← a.makeCall ty kids span).2
  | .switch layout kids span => do return (← a.makeSwitch layout kids span).2
  | .appendInst id inst => a.appendInst id inst
  | .takeInsts id => do return (← a.takeInsts id).2
  | .appendChild block stmt => a.appendChild block stmt
  | .replaceChild id index new => do return (← a.replaceChild id index new).2
  | .updateCompositeChild id index new => do return (← a.updateCompositeChild id index new).2
  | .finishComposite id value => a.finishComposite id value
  | .destroy insts root mode => do return (← a.destroy insts root mode).1

/-- A command, or work with a copy. -/
inductive Action where
  | command (command : Command)
  /-- Takes a copy of a live node. -/
  | clone (id : NodeId)
  /-- Puts a copy in. Its node may have changed since, or be dead. -/
  | archive (index : Nat)

def run (s : Assembly) : Action → Except Fault Assembly
  | .command command => do return { s with arena := ← command.run s.arena }
  | .clone id => do return { s with copies := (← s.arena.get id) :: s.copies }
  | .archive index =>
    .ok ((s.copies[index]?).elim s fun node => { s with arena := (s.arena.add node).2 })

/-- Actions one after the other, unless one of them stops with a fault. -/
def runAll (s : Assembly) (actions : List Action) : Except Fault Assembly := actions.foldlM run s

end Assembly

/-! ## Complete nodes -/

/-- A node with all its children, and a composite whose value goes with its state. -/
structure Node.Complete (a : Arena) (node : Node) : Prop extends node.Shaped a where
  full : node.kind.takes node.kids.length
  callee : node.kind = .call → node.kids ≠ []
  value : ∀ {state}, node.kind = .composite state → (node.value.isSome ↔ state = .finalized)

/-- The kinds that a node of a kind can come to have: a composite that is under construction can be
finished. -/
def NodeKind.Becomes (kind kind' : NodeKind) : Prop :=
  kind' = kind ∨ kind = .composite .building ∧ kind' = .composite .finalized

theorem NodeKind.Becomes.refl (kind : NodeKind) : kind.Becomes kind := .inl rfl

theorem NodeKind.Becomes.trans {k₁ k₂ k₃ : NodeKind} (h : k₁.Becomes k₂) (h' : k₂.Becomes k₃) :
    k₁.Becomes k₃ := by
  obtain rfl | ⟨building, finished⟩ := h
  · exact h'
  · exact .inr ⟨building, h'.elim (fun e => e.trans finished) And.right⟩

theorem NodeKind.Becomes.isStmt_eq {kind kind' : NodeKind} (h : kind.Becomes kind') :
    kind'.isStmt = kind.isStmt := by
  obtain rfl | ⟨rfl, rfl⟩ := h
  · rfl
  · rfl

namespace Arena

variable {a a' a'' : Arena} {id : NodeId} {node node' : Node}

/-- An arena later on: what still lives is of the kind that it was, or finished. -/
structure Kept (a a' : Arena) : Prop where
  size_le : a.size ≤ a'.size
  kind : ∀ {id node'}, id.index < a.size → a'.find? id = some node' →
    ∃ node, a.find? id = some node ∧ node.kind.Becomes node'.kind

namespace Kept

theorem refl (a : Arena) : Kept a a := ⟨Nat.le_refl _, fun _ found => ⟨_, found, .refl _⟩⟩

theorem trans (h : Kept a a') (h' : Kept a' a'') : Kept a a'' where
  size_le := Nat.le_trans h.size_le h'.size_le
  kind lt found := by
    obtain ⟨node₁, found₁, later⟩ := h'.kind (Nat.lt_of_lt_of_le lt h.size_le) found
    obtain ⟨node, find, sooner⟩ := h.kind lt found₁
    exact ⟨node, find, sooner.trans later⟩

theorem ages (h : Kept a a') : Ages a a' where
  size_le := h.size_le
  isStmt_eq lt found := by
    obtain ⟨node, find, becomes⟩ := h.kind lt found
    exact ⟨node, find, becomes.isStmt_eq⟩

theorem complete (h : Kept a a') (complete : node.Complete a) : node.Complete a' :=
  ⟨h.ages.shaped complete.toShaped, complete.full, complete.callee, complete.value⟩

end Kept

end Arena

/-! ## What a command can do -/

namespace Assembly

open Arena

variable {s s' : Assembly} {action : Action} {actions : List Action} {a a' : Arena}

/-- What a command can do to an arena: a complete node comes in, a node is replaced by one that its
kind can become, or nodes die and lose instructions. -/
inductive Change (a : Arena) : Arena → Prop
  | same : Change a a
  | add {node : Node} : node.Complete a → Change a (a.add node).2
  | set {id : NodeId} {node node' : Node} : a.find? id = some node → node'.Complete a →
    node.kind.Becomes node'.kind → Change a (a.set id node')
  | shed {a' : Arena} {insts insts' : InstStore} : a.Sheds insts a' insts' → Change a a'

namespace Change

variable {a a' : Arena}

theorem kept (h : Change a a') : a.Kept a' := by
  cases h with
  | same => exact .refl a
  | @add node complete =>
    refine ⟨by simp, fun {id node'} lt found => ⟨node', ?_, .refl _⟩⟩
    rwa [find?_add_of_ne fun e => by simp [e, Arena.add] at lt] at found
  | @set x old new find _ becomes =>
    refine ⟨by simp, fun {id node'} _ found => ?_⟩
    by_cases e : id = x
    · subst e
      cases (find?_set (isLive_of_find? find)).symm.trans found
      exact ⟨old, find, becomes⟩
    · exact ⟨node', (find?_set_of_ne e).symm.trans found, .refl _⟩
  | shed sheds =>
    refine ⟨Nat.le_of_eq sheds.size.symm, fun _ found => ?_⟩
    obtain ⟨node, find, rfl | rfl⟩ := sheds.nodes found
    · exact ⟨_, find, .refl _⟩
    · exact ⟨node, find, .refl _⟩

/-- Every node that lives after a change was there before, or is complete. -/
theorem complete (h : Change a a') (before : ∀ {id node}, a.find? id = some node → node.Complete a)
    {id : NodeId} {node : Node} (found : a'.find? id = some node) : node.Complete a' := by
  refine h.kept.complete ?_
  cases h with
  | same => exact before found
  | @add new complete =>
    by_cases e : id = (a.add new).1
    · subst e
      cases (find?_add a new).symm.trans found
      exact complete
    · exact before ((find?_add_of_ne e).symm.trans found)
  | @set x old new find complete =>
    by_cases e : id = x
    · subst e
      cases (find?_set (isLive_of_find? find)).symm.trans found
      exact complete
    · exact before ((find?_set_of_ne e).symm.trans found)
  | shed sheds =>
    obtain ⟨old, find, rfl | rfl⟩ := sheds.nodes found
    · exact before find
    · have complete := before find
      exact ⟨⟨fun _ => rfl, complete.count, complete.kids⟩, complete.full, complete.callee,
        complete.value⟩

end Change

/-- All nodes are complete, and so are the copies. -/
structure Sound (s : Assembly) : Prop where
  nodes : ∀ {id node}, s.arena.find? id = some node → node.Complete s.arena
  copies : ∀ node ∈ s.copies, node.Complete s.arena

theorem sound_initial : initial.Sound where
  nodes found := by
    have shaped := wellFormed_initial.nodes found
    obtain rfl | rfl := sentinel_of_find?_initial found <;> cases found <;>
      exact ⟨shaped, rfl, nofun, nofun⟩
  copies _ mem := absurd mem List.not_mem_nil

section

variable {a a' : Arena} {id new : NodeId} {kind : NodeKind} {kids : List NodeId} {ty : TypeId}
  {span : Span}

/-- A node that its constructor has checked is complete. -/
theorem change_make (run : a.make kind kids ty span = .ok (new, a'))
    (layout : ∀ l, kind = .switchStmt l → kids.length = l.childCount)
    (callee : kind = .call → kids ≠ []) (state : kind ≠ .composite .finalized) : Change a a' := by
  obtain ⟨_, arity, run⟩ := bind_eq_ok.1 run
  obtain ⟨_, checked, run⟩ := bind_eq_ok.1 run
  cases run
  refine .add ⟨shaped_of_checks arity checked layout, takes_of_checkArity arity layout, callee,
    fun {s} e => ⟨nofun, fun finished => absurd (finished ▸ e) state⟩⟩

theorem change_makeLeaf {value : Value} {flags : NodeFlags} (arity : kind.arity = .fixed 0)
    (plain : kind.compositeState? = none) :
    Change a (a.makeLeaf kind ty value flags span).2 := by
  refine .add ⟨⟨fun _ => rfl, .inl rfl, nofun⟩, ?_, fun e => ?_, fun {s} e => ?_⟩
  · exact (NodeKind.takes_eq arity 0).trans rfl
  · change kind = _ at e
    rw [e] at arity
    cases arity
  · change kind = _ at e
    rw [e] at plain
    cases plain

/-- Whatever is done to a node apart from its children and its state leaves it complete. -/
theorem change_touch {node node' : Node} (complete : node.Complete a)
    (find : a.find? id = some node)
    (kind : node'.kind = node.kind) (kids : node'.kids = node.kids)
    (value : node'.value = node.value)
    (insts : node.isStmt → node'.insts = []) : Change a (a.set id node') := by
  refine .set find ⟨⟨fun stmt => insts ?_, ?_, ?_⟩, ?_, ?_, ?_⟩ (.inl kind)
  · rwa [Node.isStmt, ← kind]
  · rw [kind, kids]
    exact complete.count
  · rw [kind, kids]
    exact complete.kids
  · rw [kind, kids]
    exact complete.full
  · rw [kind, kids]
    exact complete.callee
  · rw [kind, value]
    exact complete.value

theorem change_replaceChild {index : Nat} {r : Except EditError NodeId}
    (complete : ∀ {n node}, a.find? n = some node → node.Complete a)
    (run : a.replaceChild id index new = .ok (r, a')) : Change a a' := by
  obtain ⟨-, -, rfl⟩ | ⟨old, node, -, made⟩ := replaceChild_cases run
  · exact .same
  have before := complete made.find
  rw [made.result]
  refine .set made.find ⟨made.shaped before.toShaped, ?_, fun e => ?_, before.value⟩ (.refl _)
  · simpa using before.full
  · simpa [← List.length_pos_iff_ne_nil] using before.callee e

end

/-- What a command can do where all nodes are complete. -/
theorem Command.change {command : Command}
    (complete : ∀ {n node}, a.find? n = some node → node.Complete a)
    (run : command.run a = .ok a') :
    Change a a' := by
  cases command with
  | const | var | funcAddress =>
    cases run
    exact change_makeLeaf rfl rfl
  | typed kind isTyped kids ty span =>
    obtain ⟨⟨new, _⟩, made, run⟩ := bind_eq_ok.1 run
    cases run
    refine change_make made (fun l e => ?_) (fun e => ?_) fun e => ?_ <;> subst e <;> cases isTyped
  | void kind isVoid kids span =>
    obtain ⟨⟨new, _⟩, made, run⟩ := bind_eq_ok.1 run
    cases run
    refine change_make made (fun l e => ?_) (fun e => ?_) fun e => ?_ <;> subst e <;> cases isVoid
  | empty =>
    cases run
    exact .add ⟨⟨fun _ => rfl, .inl rfl, nofun⟩, rfl, nofun, nofun⟩
  | call ty kids span =>
    obtain ⟨⟨new, _⟩, made, run⟩ := bind_eq_ok.1 run
    cases run
    unfold makeCall at made
    split at made
    · cases made
    · rename_i some
      exact change_make made nofun (fun _ none => some (by simp [none])) nofun
  | switch layout kids span =>
    obtain ⟨⟨new, _⟩, made, run⟩ := bind_eq_ok.1 run
    cases run
    unfold makeSwitch at made
    split at made
    · rename_i count
      exact change_make made (fun l e => by cases e; exact count) nofun nofun
    · cases made
  | appendInst id inst =>
    obtain ⟨node, got, run⟩ := bind_eq_ok.1 run
    split at run
    case isFalse => cases run
    rename_i expr
    cases run
    have find := get_eq_ok.1 got
    refine change_touch (complete find) find rfl rfl rfl fun stmt => ?_
    simp [Node.isExpr_eq, stmt] at expr
  | takeInsts id =>
    obtain ⟨⟨insts, _⟩, took, run⟩ := bind_eq_ok.1 run
    cases run
    obtain ⟨node, got, took⟩ := bind_eq_ok.1 took
    cases took
    have find := get_eq_ok.1 got
    exact change_touch (complete find) find rfl rfl rfl fun _ => rfl
  | appendChild =>
    obtain ⟨node, child, find, block, kid, isStmt, rfl⟩ := appendChild_ok run
    refine .set find ⟨shaped_append (complete find).toShaped block kid isStmt, ?_, fun _ => ?_,
      (complete find).value⟩ (.refl _)
    · simp [NodeKind.takes, block, NodeKind.arity, Arity.accepts]
    · simp
  | replaceChild =>
    obtain ⟨⟨r, _⟩, done, run⟩ := bind_eq_ok.1 run
    cases run
    exact change_replaceChild complete done
  | updateCompositeChild =>
    obtain ⟨⟨r, _⟩, done, run⟩ := bind_eq_ok.1 run
    cases run
    obtain ⟨node, -, done⟩ := bind_eq_ok.1 done
    split at done
    · cases done
      exact .same
    · exact change_replaceChild complete done
  | finishComposite =>
    obtain ⟨node, find, building, rfl⟩ := finishComposite_ok run
    refine .set find ⟨shaped_finish (complete find).toShaped building,
      rfl, by simp, fun {state} e => ?_⟩ (.inr ⟨building, rfl⟩)
    cases e
    simp
  | destroy insts root mode =>
    obtain ⟨⟨_, insts'⟩, done, run⟩ := bind_eq_ok.1 run
    cases run
    exact .shed (sheds_destroyWithin _ done)

/-! ## Runs -/

theorem Sound.run (sound : s.Sound) (run : s.run action = .ok s') :
    s.arena.Kept s'.arena ∧ s'.Sound := by
  have changed {a' : Arena} (change : Change s.arena a') :
      s.arena.Kept a' ∧ Sound { s with arena := a' } :=
    ⟨change.kept, fun found => change.complete sound.nodes found, fun node mem =>
      change.kept.complete (sound.copies node mem)⟩
  cases action with
  | command command =>
    obtain ⟨arena, done, run⟩ := bind_eq_ok.1 run
    cases run
    exact changed (Command.change sound.nodes done)
  | clone id =>
    obtain ⟨node, got, run⟩ := bind_eq_ok.1 run
    cases run
    exact ⟨.refl _, sound.nodes, List.forall_mem_cons.2 ⟨sound.nodes (get_eq_ok.1 got),
      sound.copies⟩⟩
  | archive index =>
    cases run
    cases copy : s.copies[index]? with
    | none => exact ⟨.refl _, sound⟩
    | some node => exact changed (.add (sound.copies node (List.mem_of_getElem? copy)))

theorem Sound.runAll (sound : s.Sound) (run : s.runAll actions = .ok s') :
    s.arena.Kept s'.arena ∧ s'.Sound := by
  induction actions generalizing s with
  | nil =>
    cases run
    exact ⟨.refl _, sound⟩
  | cons action rest ih =>
    obtain ⟨s₁, first, run⟩ := bind_eq_ok.1 run
    obtain ⟨kept, sound⟩ := sound.run first
    obtain ⟨kept', sound⟩ := ih sound run
    exact ⟨kept.trans kept', sound⟩

/-! ## Edits -/

/-- What an edit answers: a refusal leaves the arena as it is; otherwise the old child is given
back, and its place is all that changes. -/
def Swaps (a : Arena) (id : NodeId) (index : Nat) (new : NodeId) (a' : Arena) :
    Except EditError NodeId → Prop
  | .error _ => a' = a
  | .ok old => a'.size = a.size ∧ (∀ n, n ≠ id → a'.find? n = a.find? n) ∧
    ∃ node, a.find? id = some node ∧ node.kids[index]? = some old ∧
      a'.find? id = some { node with kids := node.kids.set index new }

theorem swaps_of_replaceChild {id new : NodeId} {index : Nat} {r : Except EditError NodeId}
    (run : a.replaceChild id index new = .ok (r, a')) : Swaps a id index new a' r := by
  obtain ⟨e, rfl, rfl⟩ | ⟨old, node, rfl, made⟩ := replaceChild_cases run
  · rfl
  · rw [made.result]
    exact ⟨size_set .., fun n ne => find?_set_of_ne ne, node, made.find, made.at_index,
      find?_set (isLive_of_find? made.find)⟩

theorem swaps_of_updateCompositeChild {id new : NodeId} {index : Nat} {r : Except EditError NodeId}
    (run : a.updateCompositeChild id index new = .ok (r, a')) : Swaps a id index new a' r := by
  obtain ⟨node, -, run⟩ := bind_eq_ok.1 run
  split at run
  · cases run
    rfl
  · exact swaps_of_replaceChild run

/-- However an arena is put together, every live node is complete: it has as many children as its
kind takes, those that live are of the category of their place, and if it is a composite it has a
value exactly if it is finished. Later on a node is of the kind that it was, or is a composite that
was finished since. An edit of a child changes nothing, or just that child, which is given back. -/
theorem complete_of_runAll (run : initial.runAll actions = .ok s) :
    (∀ {id node}, s.arena.find? id = some node → node.Complete s.arena) ∧
    (∀ {more s'}, s.runAll more = .ok s' → ∀ {id node node'}, s.arena.find? id = some node →
      s'.arena.find? id = some node' → node.kind.Becomes node'.kind) ∧
    ∀ {id index new r a'}, s.arena.replaceChild id index new = .ok (r, a') ∨
      s.arena.updateCompositeChild id index new = .ok (r, a') →
        Swaps s.arena id index new a' r := by
  have sound := (sound_initial.runAll run).2
  refine ⟨sound.nodes, ?_, fun edit => ?_⟩
  · intro more s' later id node node' find find'
    obtain ⟨node₀, find₀, becomes⟩ := (sound.runAll later).1.kind (lt_of_find? find) find'
    cases find.symm.trans find₀
    exact becomes
  · exact edit.elim swaps_of_replaceChild swaps_of_updateCompositeChild

/-- A pair of constants is copied and finished, and its first member destroyed. Then the copy, which
is still under construction, is put in as node 5. -/
def salvage : List Action :=
  [.command (.const .bool (.bool true) .synthetic),
    .command (.const .bool (.bool false) .synthetic),
    .command (.typed (.composite .building) rfl [⟨2⟩, ⟨3⟩] ⟨14⟩ .synthetic), .clone ⟨4⟩,
    .command (.finishComposite ⟨4⟩ (.const .void)), .command (.destroy .initial ⟨2⟩ .all),
      .archive 0]

/-- Both pairs are complete, with a dead first member. The second member of the copy can be
replaced, that of the finished pair cannot. -/
theorem complete_of_runAll_salvage : ∃ s, initial.runAll salvage = .ok s ∧
    s.arena.find? ⟨2⟩ = none ∧
    (∃ node, s.arena.find? ⟨4⟩ = some node ∧ node.kind = .composite .finalized ∧
      node.kids = [⟨2⟩, ⟨3⟩] ∧ node.Complete s.arena) ∧
    (∃ node, s.arena.find? ⟨5⟩ = some node ∧ node.kind = .composite .building ∧
      node.kids = [⟨2⟩, ⟨3⟩] ∧ node.Complete s.arena) ∧
    (∃ e a', s.arena.replaceChild ⟨4⟩ 1 ⟨3⟩ = .ok (.error e, a') ∧
      Swaps s.arena ⟨4⟩ 1 ⟨3⟩ a' (.error e)) ∧
    ∃ a', s.arena.replaceChild ⟨5⟩ 1 ⟨3⟩ = .ok (.ok ⟨3⟩, a') ∧
      Swaps s.arena ⟨5⟩ 1 ⟨3⟩ a' (.ok ⟨3⟩) := by
  obtain ⟨s, run, dead, ⟨node, find, finished, kids⟩, ⟨node', find', building, kids'⟩,
    ⟨e, a₁, refused⟩,
      a₂, replaced⟩ : ∃ s, initial.runAll salvage = .ok s ∧ s.arena.find? ⟨2⟩ = none ∧
      (∃ node, s.arena.find? ⟨4⟩ = some node ∧ node.kind = .composite .finalized ∧
        node.kids = [⟨2⟩, ⟨3⟩]) ∧
      (∃ node, s.arena.find? ⟨5⟩ = some node ∧ node.kind = .composite .building ∧
        node.kids = [⟨2⟩, ⟨3⟩]) ∧
      (∃ e a', s.arena.replaceChild ⟨4⟩ 1 ⟨3⟩ = .ok (.error e, a')) ∧
      ∃ a', s.arena.replaceChild ⟨5⟩ 1 ⟨3⟩ = .ok (.ok ⟨3⟩, a') :=
    ⟨_, rfl, rfl, ⟨_, rfl, rfl, rfl⟩, ⟨_, rfl, rfl, rfl⟩, ⟨_, _, rfl⟩, _, rfl⟩
  obtain ⟨complete, -, swaps⟩ := complete_of_runAll run
  exact ⟨s, run, dead, ⟨node, find, finished, kids, complete find⟩,
    ⟨node', find', building, kids', complete find'⟩, ⟨e, a₁, refused, swaps (.inl refused)⟩,
    a₂, replaced, swaps (.inl replaced)⟩

end Assembly

end Codegen
