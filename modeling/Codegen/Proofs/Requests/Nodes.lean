import Codegen.Proofs.Requests.Effects

/-!
Nodes in the making. A node and the instructions that compute it come in together, so that no node
is ever seen between the two; using a value loads it at most, or finishes a composite.
-/

namespace Codegen

open Relation

/-! ## One node -/

variable {node node' : Node}

theorem Node.Ripens.isStmt (h : node.Ripens node') : node'.isStmt = node.isStmt := by
  rcases h.kind with e | ⟨e, e'⟩
  · rw [Node.isStmt, Node.isStmt, e]
  · rw [Node.isStmt, Node.isStmt, e, e']
    rfl

/-- The shape of a node depends on its kind and its children. -/
theorem Node.Shaped.retouch {a : Arena} (h : node.Shaped a) (kind : node'.kind = node.kind)
    (kids : node'.kids = node.kids) (insts : node.isStmt → node'.insts = node.insts) :
    node'.Shaped a := by
  have stmt : node'.isStmt = node.isStmt := by rw [Node.isStmt, Node.isStmt, kind]
  refine ⟨fun isStmt => ?_, ?_, ?_⟩
  · rw [insts (stmt ▸ isStmt), h.insts (stmt ▸ isStmt)]
  · rw [kids, kind]
    exact h.count
  · rw [kids, kind]
    exact h.kids

theorem Node.Ripens.shaped {a : Arena} (h : node.Ripens node') (kids : node'.kids = node.kids)
    (insts : node.isStmt → node'.insts = node.insts) (shaped : node.Shaped a) : node'.Shaped a := by
  rcases h.kind with e | ⟨e, e'⟩
  · exact shaped.retouch e kids insts
  · refine ⟨fun stmt => ?_, .inr (by rw [e']; rfl), fun {i k} at' => ?_⟩
    · simp [Node.isStmt, NodeKind.isStmt, e'] at stmt
    · rw [kids] at at'
      simpa [NodeKind.wantsStmt, e, e'] using shaped.kids at'

namespace Compilation

/-- Nothing has changed but one node, which has kept its children, and there may be new
instructions. -/
structure Retouches (c c' : Compilation) (x : NodeId) (node node' : Node) : Prop where
  find : c.arena.find? x = some node
  kids : node'.kids = node.kids
  insts : node.isStmt → node'.insts = node.insts
  state : ∃ store : InstStore, c.insts.slots.size ≤ store.slots.size ∧
    c' = { c with arena := c.arena.set x node', insts := store }

variable {X : NodeId → Prop} {c c' c₁ c₂ : Compilation} {x : NodeId} {node node₁ node₂ node' : Node}

namespace Retouches

theorem find' (h : c.Retouches c' x node node') : c'.arena.find? x = some node' := by
  obtain ⟨store, _, rfl⟩ := h.state
  exact Arena.find?_set (Arena.isLive_of_find? h.find)

theorem trans (h : c.Retouches c₁ x node node₁) (h' : c₁.Retouches c₂ x node₁ node₂)
    (stmt : node₁.isStmt = node.isStmt) : c.Retouches c₂ x node node₂ := by
  obtain ⟨store, le, rfl⟩ := h.state
  obtain ⟨store', le', rfl⟩ := h'.state
  refine ⟨h.find, h'.kids.trans h.kids, fun isStmt => ?_, store', Nat.le_trans le le', ?_⟩
  · rw [h'.insts (stmt ▸ isStmt), h.insts isStmt]
  · rw [Arena.set_set]

/-- A node that was there ripens. -/
theorem advances (h : c.Retouches c' x node node') (ripens : node.Ripens node')
    (ready : ¬X x → node.Ready → node'.Ready) : c.Advances X c' := by
  obtain ⟨store, le, rfl⟩ := h.state
  refine .tree (.set h.find ripens ready fun wf => ?_) le
  refine wf.set h.find (ripens.shaped h.kids h.insts (wf.nodes h.find)) ripens.isStmt
    fun special => ?_
  rcases ripens.kind with e | ⟨e, _⟩
  · exact e
  · simp [e] at special

/-- A node that has just come in is ready. -/
theorem advances_new (h : c₁.Retouches c₂ ⟨c.arena.size⟩ node node')
    (made : c₁ = { c with arena := (c.arena.add node).2 }) (kind : node'.kind = node.kind)
    (shaped : node.Shaped c.arena) (ready : node'.Ready) : c.Advances X c₂ := by
  subst made
  obtain ⟨store, le, rfl⟩ := h.state
  rw [Arena.add_set]
  exact .tree (.add (fun _ => ready) (·.add (shaped.retouch kind h.kids h.insts))) le

end Retouches

end Compilation

namespace Build

open Compilation

variable {X : NodeId → Prop} {c c' : Compilation} {x id : NodeId} {node : Node} {kids : List NodeId}
  {kind : NodeKind} {span : Span} {ty : TypeId} {u : Unit}

theorem retouches_attach {kind : InstKind} {i : InstId} (find : c.arena.find? x = some node)
    (run : attach x kind ty c = .ok (i, c')) :
    c.Retouches c' x node { node with insts := node.insts ++ [i] } := by
  obtain ⟨_, found, expr, rfl, rfl⟩ := attach_ok run
  cases find.symm.trans found
  refine ⟨find, rfl, fun stmt => ?_, _, by simp [InstStore.create], rfl⟩
  simp [Node.isExpr_eq, stmt] at expr

theorem retouches_setValue {v : Value} (find : c.arena.find? x = some node)
    (run : changeArena (·.setValue x v) c = .ok (u, c')) :
    c.Retouches c' x node { node with value := some v } :=
  ⟨find, rfl, fun _ => rfl, _, Nat.le_refl _, update_ok run find⟩

theorem retouches_setFlags {flags : NodeFlags} (find : c.arena.find? x = some node)
    (run : changeArena (·.setFlags x flags) c = .ok (u, c')) :
    c.Retouches c' x node { node with flags := flags } :=
  ⟨find, rfl, fun _ => rfl, _, Nat.le_refl _, update_ok run find⟩

theorem retouches_finishComposite {v : Value} (find : c.arena.find? x = some node)
    (run : changeArena (·.finishComposite x v) c = .ok (u, c')) : node.kind = .composite .building ∧
      c.Retouches c' x node { node with kind := .composite .finalized, value := some v } := by
  obtain ⟨arena, step, rfl⟩ := changeArena_ok run
  obtain ⟨_, found, kind, rfl⟩ := Arena.finishComposite_ok step
  cases find.symm.trans found
  exact ⟨kind, find, rfl, fun _ => rfl, _, Nat.le_refl _, rfl⟩

theorem retouches_attachValue {kind : InstKind} (find : c.arena.find? x = some node)
    (run : attachValue x kind ty c = .ok (u, c')) :
    ∃ i, c.Retouches c' x node
      { node with insts := node.insts ++ [i], value := some (.inst i) } := by
  obtain ⟨i, c₁, attached, run⟩ := Run.bind_ok.1 run
  have first := retouches_attach find attached
  exact ⟨i, first.trans (retouches_setValue first.find' run) rfl⟩

/-! ## Values -/

/-- Using a value loads it at most, into a node that has a value already. -/
theorem advancing_settle (id : NodeId) : Obeys (advancing X) (settle id) := by
  intro c v c' _ run
  obtain ⟨node, w, find, has, ⟨-, expr, -, state⟩ | ⟨-, -, rfl⟩⟩ := settle_cases run
  · have retouches : c.Retouches c' id node (node.loaded ⟨c.insts.slots.size⟩) := by
      refine ⟨find, rfl, fun stmt => ?_, _, by simp [InstStore.create], state⟩
      simp [Node.isExpr_eq, stmt] at expr
    refine retouches.advances ⟨rfl, .inl rfl, fun none => by simp [has] at none⟩ fun _ ready =>
      ⟨fun effect => ?_, fun _ _ => rfl⟩
    simp [ready.effect effect] at has
  · exact .refl X _

/-- An aggregate finishes a composite. -/
theorem advances_aggregate {elems : List Value} {i : InstId} {c₁ : Compilation}
    (attached : attach id (.aggregate elems) ty c = .ok (i, c₁))
    (finished : changeArena (·.finishComposite id (.inst i)) c₁ = .ok (u, c')) :
    c.Advances X c' := by
  obtain ⟨node, find, -, -, -⟩ := finishWith_ok attached finished
  have first := retouches_attach find attached
  obtain ⟨kind, second⟩ := retouches_finishComposite first.find' finished
  refine (first.trans second rfl).advances
    ⟨rfl, .inr ⟨kind, rfl⟩, fun _ other => absurd kind other⟩ fun _ _ => ?_
  exact Node.ready_of_value (by simp [NodeKind.isEffect]) rfl

theorem advancing_rvalueWithin (fuel : Nat) (id : NodeId) :
    Obeys (advancing X) (rvalueWithin fuel id) := by
  induction fuel generalizing id with
  | zero => exact .throw _
  | succ fuel ih =>
    refine .bind (.ask _) fun node => .ite (.bind (.mapM ih) fun elems => ?_) (advancing_settle id)
    intro c v c' start run
    obtain ⟨i, c₁, attached, run⟩ := Run.bind_ok.1 run
    obtain ⟨_, c₂, finished, run⟩ := Run.bind_ok.1 run
    exact (advances_aggregate attached finished).trans (advancing_settle id c₂ v c' start run)

@[grind ←] theorem advancing_rvalue (id : NodeId) : Obeys (advancing X) (rvalue id) :=
  .bind .get fun _ => advancing_rvalueWithin _ id

/-! ## New nodes -/

/-- What a construction with checks comes to. -/
theorem onArena_make_ok (layout : ∀ l, kind = .switchStmt l → kids.length = l.childCount)
    (run : onArena (·.make kind kids ty span) c = .ok (id, c')) :
    id = ⟨c.arena.size⟩ ∧ c' = { c with arena := (c.arena.add (.fresh kind kids ty span)).2 } ∧
      (Node.fresh kind kids ty span).Shaped c.arena := by
  obtain ⟨arena, made, rfl⟩ := onArena_ok run
  obtain ⟨_, arity, made⟩ := bind_eq_ok.1 made
  obtain ⟨_, checked, made⟩ := bind_eq_ok.1 made
  cases made
  exact ⟨rfl, rfl, Arena.shaped_of_checks arity checked layout⟩

theorem advancing_make (layout : ∀ l, kind = .switchStmt l → kids.length = l.childCount) :
    Obeys (advancing X) (onArena (·.make kind kids ty span)) := by
  intro c id c' _ run
  obtain ⟨rfl, rfl, shaped⟩ := onArena_make_ok layout run
  exact .tree (.add (fun _ => Node.ready_fresh ..) (·.add shaped)) (Nat.le_refl _)

@[grind ←] theorem advancing_makeNode (layout : ¬kind.isSwitch) :
    Obeys (advancing X) (makeNode kind kids ty span) :=
  advancing_make fun l e => by simp [e, NodeKind.isSwitch] at layout

@[grind ←] theorem advancing_makeStmt (layout : ¬kind.isSwitch) :
    Obeys (advancing X) (makeStmt kind kids span) :=
  advancing_makeNode layout

theorem advancing_makeLeaf {value : Value} {flags : NodeFlags} (other : ¬kind.isEffect) :
    Obeys (advancing X) (addNode (·.makeLeaf kind ty value flags span)) := by
  intro c id c' _ run
  cases run
  exact .tree (.add (fun _ => Node.ready_of_value other rfl) Arena.Edit.makeLeaf.wellFormed)
    (Nat.le_refl _)

@[grind ←] theorem advancing_makeConst (ty : TypeId) (value : Constant) (span : Span) :
    Obeys (advancing X) (makeConst ty value span) :=
  advancing_makeLeaf (by simp [NodeKind.isEffect])

@[grind ←] theorem advancing_makeEmpty (span : Span) : Obeys (advancing X) (makeEmpty span) := by
  intro c id c' _ run
  cases run
  have made : c.arena.make .emptyStmt [] .void span = .ok (c.arena.makeEmpty span) := rfl
  exact .tree (.add (fun _ => Node.ready_fresh ..) (Arena.Edit.make (by simp) made).wellFormed)
    (Nat.le_refl _)

/-- A new node is given its value. -/
theorem advancing_valued {α : Type} {finish : NodeId → Build α} (other : ¬kind.isEffect)
    (layout : ¬kind.isSwitch)
    (h : ∀ {c x node a c'}, c.arena.find? x = some node → finish x c = .ok (a, c') →
      ∃ node', c.Retouches c' x node node' ∧ node'.kind = node.kind ∧ node'.value.isSome) :
    Obeys (advancing X) (onArena (·.make kind kids ty span) >>= finish) := by
  intro c a c' _ run
  obtain ⟨id, c₁, made, run⟩ := Run.bind_ok.1 run
  obtain ⟨rfl, rfl, shaped⟩ :=
    onArena_make_ok (fun l e => by simp [e, NodeKind.isSwitch] at layout) made
  obtain ⟨node', retouches, kind', value⟩ := h (Arena.find?_add _ _) run
  obtain ⟨v, value⟩ := Option.isSome_iff_exists.1 value
  have plain : ¬node'.kind.isEffect := by
    rw [kind']
    exact other
  exact retouches.advances_new rfl kind' shaped (Node.ready_of_value plain value)

end Build

end Codegen
