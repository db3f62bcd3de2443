import Codegen.Proofs.Requests.Expressions

/-!
The constructors of statements and the steps on types, variables and functions do only what a step
can do, new parameters and new lists of them apart.
-/

namespace Codegen

/-- Where a node is ready in the end, it does not matter what it was on the way. -/
theorem Arena.Ripens.discharge {X : NodeId → Prop} {a a' : Arena} {x : NodeId}
    (h : Ripens (fun id => X id ∨ id = x) a a')
    (ready : ∀ {node}, a'.find? x = some node → node.Ready) :
    Ripens X a a' where
  size_le := h.size_le
  old {id node'} lt find := by
    obtain ⟨node, find₀, ripens, keeps⟩ := h.old lt find
    refine ⟨node, find₀, ripens, fun out => ?_⟩
    by_cases e : id = x
    · subst e
      exact fun _ => ready find
    · exact keeps fun mem => mem.elim out e
  new {id node'} le find out := by
    by_cases e : id = x
    · subst e
      exact ready find
    · exact h.new le find fun mem => mem.elim out e
  shaped := h.shaped

namespace Build

open Compilation

variable {X : NodeId → Prop} {c c' : Compilation}

attribute [local grind unfold] getNode getFunction getVariable isErrorType typeName

/-! ## Statements -/

@[grind ←] theorem advancing_exprStmt (func : FuncId) (expr : NodeId) :
    Obeys (advancing X) (exprStmt func expr) := by
  unfold exprStmt
  grind

/-- A new node that is there for the effect of its instruction. -/
theorem advancing_effect {α : Type} {kind : NodeKind} {kids : List NodeId} {inst : InstKind}
    {span : Span}
    {k : NodeId → Build α} (effect : kind.isEffect) (hk : ∀ id, Obeys (advancing X) (k id)) :
    Obeys (advancing X) (do
      let id ← makeStmt kind kids span
      let _ ← attach id inst .void
      k id) := by
  intro c a c' _ run
  obtain ⟨id, c₁, made, run⟩ := Run.bind_ok.1 run
  obtain ⟨rfl, rfl, shaped⟩ :=
    onArena_make_ok (fun l e => by simp [e, NodeKind.isEffect] at effect) made
  obtain ⟨i, c₂, attached, run⟩ := Run.bind_ok.1 run
  have retouches := retouches_attach (Arena.find?_add _ _) attached
  refine (retouches.advances_new rfl rfl shaped ⟨fun _ => rfl,
    fun other => absurd effect other⟩).trans ?_
  exact hk _ c₂ a c' trivial run

@[grind ←] theorem advancing_assign (func : FuncId) (lhs rhs : NodeId) (span : Span) :
    Obeys (advancing X) (assign func lhs rhs span) :=
  .ite (.pure _) <| .guard (obeys_isErrorExpr lhs) <| .guard (obeys_isErrorExpr rhs) <|
    .bind (obeys_lvalue lhs) fun _ => .bind (advancing_rvalue rhs) fun _ =>
    advancing_effect rfl fun _ => advancing_makeStmt Bool.false_ne_true

theorem advancing_appendInst {id : NodeId} (mem : X id) (i : InstId) :
    Obeys (advancing X) (changeArena (·.appendInst id i)) :=
  advancing_changeArena fun _ _ => Arena.ripens_appendInst mem

theorem advancing_storeMembers {init : NodeId} (mem : X init) (storage : Value) (isArray : Bool)
    (index : Nat) (kids : List NodeId) :
    Obeys (advancing X) (storeMembers init storage isArray index kids) := by
  induction kids generalizing index with
  | nil => exact .pure ()
  | cons kid rest ih =>
    exact .bind (advancing_rvalue kid) fun _ => .bind (obeys_typeOf kid) fun _ =>
      .bind (advancing_onTypes fun _ _ _ => TypeTable.asks_pointerType) fun _ =>
      .bind (advancing_createInst _ _) fun _ => .bind (advancing_createInst _ _) fun _ =>
      .bind (advancing_appendInst mem _) fun _ => .bind (advancing_appendInst mem _) fun _ => ih _

/-- The members of a composite are stored one by one, which finishes it. -/
theorem advancing_storeComposite (init : NodeId) (storage : Value) (isArray : Bool)
    (kids : List NodeId) :
    Obeys (advancing X) (storeMembers init storage isArray 0 kids >>= fun _ =>
      changeArena (·.finishComposite init (.const .void))) := by
  intro c u c' _ run
  obtain ⟨_, c₁, stored, finished⟩ := Run.bind_ok.1 run
  have first := advancing_storeMembers (X := fun id => X id ∨ id = init) (.inr rfl) storage
    isArray 0 kids c () c₁ trivial stored
  obtain ⟨node, find⟩ : ∃ node, c₁.arena.find? init = some node := by
    obtain ⟨arena, step, rfl⟩ := changeArena_ok finished
    obtain ⟨node, find, -, -⟩ := Arena.finishComposite_ok step
    exact ⟨node, find⟩
  obtain ⟨building, retouches⟩ := retouches_finishComposite find finished
  have ready : ∀ {node}, c'.arena.find? init = some node → node.Ready := by
    intro node found
    cases retouches.find'.symm.trans found
    exact Node.ready_of_value Bool.false_ne_true rfl
  have both := first.trans (retouches.advances ⟨rfl, .inr ⟨building, rfl⟩,
    fun _ other => absurd building other⟩ fun out => absurd (.inr rfl) out)
  exact ⟨⟨both.types, both.nodes.discharge ready, both.blocks⟩, both.storage⟩

@[grind ←] theorem advancing_initStmt (func : FuncId) (var : VarId) (init : NodeId) :
    Obeys (advancing X) (initStmt func var init) := by
  refine .ite (.pure _) <| .guard (obeys_isErrorVar var) <| .guard (obeys_isErrorExpr init) <|
    .bind (.ask _) fun v => .bind (.ask _) fun node => .ite (by grind) ?_
  refine .bind (advancing_variableAddress var) fun storage => .bind (.ask _) fun elem =>
    .bind (.ask _) fun node => ?_
  have last : Obeys (advancing X) (makeStmt .exprStmt [init] v.span) :=
    advancing_makeStmt Bool.false_ne_true
  simpa only [bind_assoc] using
    (advancing_storeComposite (X := X) init storage elem.isSome node.kids).bind fun _ => last

@[grind ←] theorem advancing_returnStmt (func : FuncId) (vals : List NodeId) (span : Span) :
    Obeys (advancing X) (returnStmt func vals span) := by
  refine .ite (.pure _) <| .guard (.anyM obeys_isErrorExpr) <| .bind (.ask _) fun f =>
    .bind (.ask _) fun result => ?_
  split
  · exact .throw _
  · refine .bind ?_ fun _ => advancing_effect rfl fun _ => advancing_makeStmt Bool.false_ne_true
    unfold returned
    split <;> grind

@[grind ←] theorem advancing_ifStmt (func : FuncId) (cond thenStmt : NodeId)
    (elseStmt : Option NodeId)
    (span : Span) : Obeys (advancing X) (ifStmt func cond thenStmt elseStmt span) := by
  unfold ifStmt
  grind

theorem advancing_makeSwitch (layout : SwitchLayout) (kids : List NodeId) (span : Span) :
    Obeys (advancing X) (onArena (·.makeSwitch layout kids span)) := by
  intro c id c' _ run
  obtain ⟨arena, made, rfl⟩ := onArena_ok run
  unfold Arena.makeSwitch at made
  split at made
  case isFalse => cases made
  rename_i count
  refine advancing_make (fun l e => ?_) c id _ trivial (by
    rw [onArena, Run.get_bind]
    exact Run.bind_of_ok (Run.lift_of_ok made) _)
  cases e
  exact count

@[grind ←] theorem advancing_switchStmt (func : FuncId) (value : NodeId)
    (cases : List (List NodeId)) (stmts : List NodeId) (span : Span) :
    Obeys (advancing X) (switchStmt func value cases stmts span) :=
  .ite (.throw _) <| .ite (.pure _) <| .guard (obeys_isErrorExpr _) <|
    .guard (.anyM obeys_isErrorExpr) <| .ite (.pure _) <| .bind (advancing_rvalue value) fun _ =>
    .bind (.lift _) fun _ => .bind (.forM fun v => .bind (advancing_rvalue v) fun _ =>
      .pure _) fun _ =>
    advancing_makeSwitch _ _ _

@[grind ←] theorem advancing_block (func : FuncId) (enclosing : Option NodeId) (vars : List VarId)
    (span : Span) : Obeys (advancing X) (block func enclosing vars span) := by
  intro c id c' _ run
  obtain ⟨-, -, rfl⟩ | ⟨f, arena, found, -, made, rfl⟩ := block_ok run
  · exact Obeys.pure id _ _ _ trivial rfl
  have first := advancing_makeStmt (X := X) (by simp [NodeKind.isSwitch]) c id _ trivial made
  obtain ⟨rfl, -, -⟩ := onArena_make_ok (by simp) made
  refine ⟨⟨.refl, first.nodes, blocks_of_modify found fun has => ?_⟩,
    first.storage.tail (.aside (sameStorage_setFunction found rfl))⟩
  -- the block itself is the new node
  rw [Function.hasBlock, Function.addBlock, List.any_append, Bool.or_eq_true] at has
  refine has.imp_right fun new => ?_
  simp only [List.any_cons, List.any_nil, Bool.or_false, beq_iff_eq] at new
  exact Nat.le_of_eq (congrArg NodeId.index new)

theorem advancing_appendChild (block stmt : NodeId) :
    Obeys (advancing X) (changeArena (·.appendChild block stmt)) :=
  advancing_changeArena fun _ _ => Arena.ripens_appendChild

@[grind ←] theorem advancing_addToBlock (block : NodeId) (stmts : List NodeId) :
    Obeys (advancing X) (addToBlock block stmts) :=
  .ite (.pure _) <| .forM fun stmt => advancing_appendChild block stmt

@[grind ←] theorem advancing_label (func : FuncId) (span : Span) :
    Obeys (advancing X) (label func span) := by
  intro c a c' _ run
  obtain ⟨f, found, run⟩ := getFunction_bind_ok run
  cases run
  exact .setFunction found rfl .inl

@[grind ←] theorem advancing_labelStmt (l : Label) : Obeys (advancing X) (labelStmt l) := by
  refine .ite (.pure _) <| .bind (advancing_makeStmt Bool.false_ne_true) fun id => ?_
  intro c a c' _ run
  obtain ⟨f, found, run⟩ := getFunction_bind_ok run
  obtain ⟨f', defined, run⟩ := Run.lift_bind_ok run
  cases run
  unfold Function.defineLabel at defined
  split at defined
  · cases defined
  split at defined
  · cases defined
  · cases defined
  · cases defined
    exact .setFunction found rfl .inl

theorem hasBlock_addToBlock {block b : NodeId} {var : VarId} {blocks : List (NodeId × List VarId)} :
    (Function.addToBlock block var blocks).any (·.1 == b) = blocks.any (·.1 == b) := by
  induction blocks with
  | nil => rfl
  | cons entry rest ih =>
    unfold Function.addToBlock
    split
    · rfl
    · rw [List.any_cons, List.any_cons, ih]

theorem advancing_addBlockVar {α : Type} (func : FuncId) (block : NodeId) (var : VarId)
    {k : Build α} (hk : Obeys (advancing X) k) :
    Obeys (advancing X) (do
      let f ← getFunction func
      setFunction func (← f.addBlockVar block var)
      k) := by
  intro c a c' _ run
  obtain ⟨f, found, run⟩ := getFunction_bind_ok run
  obtain ⟨f', added, run⟩ := Run.lift_bind_ok run
  refine .trans ?_ (hk _ a c' trivial run)
  unfold Function.addBlockVar at added
  split at added
  · cases added
    exact .setFunction found rfl fun has =>
      .inl (by rwa [Function.hasBlock, hasBlock_addToBlock] at has)
  · cases added

@[grind ←] theorem advancing_temporary (func : FuncId) (block : Option NodeId) (ty : TypeId)
    (init : Option NodeId) (addressTaken : Bool) (span : Span) :
    Obeys (advancing X) (temporary func block ty init addressTaken span) := by
  refine .ite (.pure _) <| .guard (.ask _) <| .guard (.anyM obeys_isErrorExpr) <|
    .bind (advancing_newLocal func (.inr rfl) _ _ _ _) fun var => ?_
  cases block with
  | none => cases init <;> grind
  | some block => cases init <;> exact advancing_addBlockVar _ _ _ (by grind)

@[grind ←] theorem advancing_conditional (func : FuncId) (ty : TypeId) (cond thenExpr : NodeId)
    (elseExpr : Option NodeId) (span : Span) :
    Obeys (advancing X) (conditional func ty cond thenExpr elseExpr span) := by
  refine .ite (.pure _) <| .guard (.ask _) <| .guard (obeys_isErrorExpr cond) <|
    .guard (obeys_isErrorExpr thenExpr) <| .guard (.anyM obeys_isErrorExpr) <| .ite ?_ ?_
  · refine .bind (advancing_exprStmt _ _) fun thenStmt => ?_
    cases elseExpr <;> grind
  cases elseExpr with
  | none => grind
  | some _ =>
    refine .bind (advancing_intern _) fun _ =>
      .bind (advancing_newLocal func (.inr rfl) _ _ _ _) fun _ =>
      .bind (advancing_varExpr _ _) fun _ => .bind (advancing_assign _ _ _ _) fun _ => ?_
    grind

/-! ## Variables and functions -/

@[grind ←] theorem advancing_destroy (root : NodeId) (mode : DestroyMode) :
    Obeys (advancing X) (destroy root mode) := by
  intro c u c' _ run
  rw [destroy, Run.get_bind] at run
  obtain ⟨⟨arena, insts⟩, destroyed, run⟩ := Run.lift_bind_ok run
  cases run
  have sheds := Arena.sheds_destroyWithin _ destroyed
  exact .tree (sheds.ripens (Arena.Edit.destroy destroyed).wellFormed)
    (Nat.le_of_eq sheds.slots.symm)

@[grind ←] theorem advancing_setGlobalInit (var : VarId) (init : NodeId) :
    Obeys (advancing X) (setGlobalInit var init) := by
  refine .guard (obeys_isErrorVar var) <| .guard (obeys_isErrorExpr init) <|
    .bind (.ask _) fun v => ?_
  split
  · refine .bind (.ask _) fun _ => .bind (.ask _) fun _ => .ite (.throw _) <|
      .bind (fun c u c' _ run => ?_) fun _ => advancing_destroy _ _
    cases run
    exact .aside .refl (.refl X _) (Nat.le_refl _) rfl rfl (by simp)
  · exact .throw _

@[grind ←] theorem advancing_declareFunction (fntype : TypeId) (name asmName : String)
    (flags : FunctionFlags) (splitStack : Bool) (span : Span) :
    Obeys (advancing X) (declareFunction fntype name asmName flags splitStack span) := by
  refine .guard (.ask _) <| .bind (.ask _) fun result => .ite (obeys_throwWithType _ _) <|
    .bind .get fun _ => .bind (advancing_intern _) fun _ => .bind (advancing_intern _) fun _ => ?_
  intro c a c' _ run
  cases run
  refine ⟨⟨.refl, .refl X _, fun {f b} mem has => .inl ?_⟩, .single (.declare rfl)⟩
  rcases Array.mem_push.1 mem with mem | rfl
  · exact ⟨f, mem, has⟩
  · simp [Function.hasBlock, Function.declare] at has

/-- A body takes the instructions out of its tree, whose nodes are destroyed. -/
@[grind ←] theorem advancing_setBody (func : FuncId) (root : NodeId) :
    Obeys (advancing X) (setBody func root) := by
  intro c done c' _ run
  obtain ⟨_, rfl⟩ | ⟨_, f, f', entry, insts, void, body, a, insts', h⟩ := setBody_ok run
  · exact .refl X _
  have size := size_of_lowerBody h.lowered
  obtain ⟨s, code, es, lowered, rfl, rfl⟩ := exists_lowered h.lowered
  obtain ⟨-, rfl, grown, -⟩ := Function.materializeEntry_ok h.materialized
  have emptied : Arena.Sheds c.arena c.insts s.arena c.insts := by
    refine ⟨size, rfl, fun {n m} found => ?_, fun _ => .inl rfl⟩
    rcases lowered.touches.nodes n with e | ⟨e, _⟩
    · exact ⟨m, e.symm.trans found, .inl rfl⟩
    · obtain ⟨node, find, rfl⟩ := Option.map_eq_some_iff.1 (e.symm.trans found)
      exact ⟨node, find, .inr rfl⟩
  have bare (wf : c.arena.WellFormed) : s.arena.WellFormed := wf.bare size fun n =>
    (lowered.touches.nodes n).imp_right And.left
  have sheds := Arena.sheds_destroyWithin _ h.destroyed
  have nodes : c.arena.Ripens X c'.arena := (emptied.ripens bare).trans
    (sheds.ripens (Arena.Edit.destroy h.destroyed).wellFormed)
  have store : c.insts.slots.size ≤ c'.insts.slots.size := by
    have later := h.later.size_le
    omega
  rw [h.rest]
  refine (Advances.tree nodes store).trans ?_
  exact .setFunction h.found rfl .inl

end Build

end Codegen
