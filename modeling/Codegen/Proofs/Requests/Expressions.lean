import Codegen.Proofs.Requests.Nodes

/-!
The constructors of expressions, and the storage of the variables they name, do only what a step can
do.
-/

namespace Codegen

namespace Build

open Compilation

variable {X : NodeId → Prop} {c c' : Compilation} {kids : List NodeId} {span : Span} {ty : TypeId}

attribute [local grind unfold] getNode getFunction getVariable isErrorType typeName

attribute [local grind =] NodeKind.isEffect

/-- A new node whose value is computed by an instruction. -/
@[grind ←] theorem advancing_makeComputed {kind : NodeKind} {inst : InstKind}
    (other : ¬kind.isEffect) (layout : ¬kind.isSwitch) :
    Obeys (advancing X) (makeComputed kind kids inst ty span) := by
  refine advancing_valued other layout fun {c x node a c'} find run => ?_
  obtain ⟨_, c₁, attached, run⟩ := Run.bind_ok.1 run
  obtain ⟨-, rfl⟩ := Run.pure_ok run
  obtain ⟨i, retouches⟩ := retouches_attachValue find attached
  exact ⟨_, retouches, rfl, rfl⟩

@[grind ←] theorem advancing_makeAddressed {kind : NodeKind} {inst : InstKind}
    (other : ¬kind.isEffect) (layout : ¬kind.isSwitch) :
    Obeys (advancing X) (makeAddressed kind kids inst ty span) := by
  refine .bind (advancing_onTypes fun _ _ _ => TypeTable.asks_pointerType) fun ptrType => ?_
  refine advancing_valued other layout fun {c x node a c'} find run => ?_
  obtain ⟨_, c₁, attached, run⟩ := Run.bind_ok.1 run
  obtain ⟨_, c₂, flagged, run⟩ := Run.bind_ok.1 run
  obtain ⟨-, rfl⟩ := Run.pure_ok run
  obtain ⟨i, retouches⟩ := retouches_attachValue find attached
  exact ⟨_, retouches.trans (retouches_setFlags retouches.find' flagged) rfl, rfl, rfl⟩

/-- A new node that takes its value from another. -/
theorem advancing_referring (kind : NodeKind) (other : ¬kind.isEffect) (layout : ¬kind.isSwitch)
    (value : Value) (flags : NodeFlags) :
    Obeys (advancing X) (do
      let id ← makeNode kind kids ty span
      changeArena (·.setValue id value)
      changeArena (·.setFlags id flags)
      return id) := by
  refine advancing_valued other layout fun {c x node a c'} find run => ?_
  obtain ⟨_, c₁, valued, run⟩ := Run.bind_ok.1 run
  obtain ⟨_, c₂, flagged, run⟩ := Run.bind_ok.1 run
  obtain ⟨-, rfl⟩ := Run.pure_ok run
  have retouches := retouches_setValue find valued
  exact ⟨_, retouches.trans (retouches_setFlags retouches.find' flagged) rfl, rfl, rfl⟩

/-! ## Storage of variables -/

@[grind ←] theorem advancing_newGlobal (name asmName : String) (ty : TypeId) (flags : GlobalFlags)
    (span : Span) : Obeys (advancing X) (newGlobal name asmName ty flags span) := by
  refine .bind (advancing_intern name) fun name => .bind (advancing_intern asmName)
    fun asmName => ?_
  intro c a c' _ run
  cases run
  exact ⟨.of_functions .refl (.refl X _) rfl, .single .newGlobal⟩

@[grind ←] theorem advancing_newLocal {kind : VarKind} (func : FuncId)
    (own : kind = .local ∨ kind = .temporary) (name : Name) (ty : TypeId) (addressTaken : Bool)
    (span : Span) : Obeys (advancing X) (newLocal func kind name ty addressTaken span) := by
  refine .bind (advancing_onTypes fun _ _ _ => TypeTable.asks_pointerType) fun ptrType => ?_
  intro c a c' _ run
  obtain ⟨slot, c₁, create, run⟩ := Run.bind_ok.1 run
  cases create
  obtain ⟨f, found, run⟩ := getFunction_bind_ok run
  cases run
  exact ⟨⟨.refl, .refl X _, blocks_of_modify found .inl⟩, .single (.newLocal found own)⟩

theorem blocks_spillSlotFor {f f' : Function} {index : Nat} {ptrType : TypeId} {name : Name}
    {insts insts' : InstStore} {slot : InstId}
    (e : f.spillSlotFor index ty ptrType name insts = (slot, f', insts')) :
    f'.blocks = f.blocks := by
  unfold Function.spillSlotFor at e
  split at e
  · cases e
    rfl
  · cases e
    rfl

@[grind ←] theorem advancing_variableAddress (var : VarId) :
    Obeys (advancing X) (variableAddress var) := by
  intro c a c' _ run
  cases addresses_of_variableAddress run with
  | stays => exact .refl X _
  | @spills _ _ _ _ _ _ _ types _ _ found kind waits owner typed at' spilled =>
    have asked := TypeTable.run_of_asks (TypeTable.asks_pointerType typed)
    have first : c.Advances X { c with types } :=
      .aside asked.changes (.refl X _) (Nat.le_refl _) rfl rfl rfl
    have moved : Allots { c with types } _ := .spill found kind waits owner at' spilled
    refine first.trans ⟨⟨.refl, .refl X _, blocks_of_modify at' fun has => .inl ?_⟩, .single moved⟩
    rwa [Function.hasBlock, ← blocks_spillSlotFor spilled]

/-! ## Expressions -/

@[grind ←] theorem advancing_varExpr (var : VarId) (span : Span) :
    Obeys (advancing X) (varExpr var span) :=
  .bind (.ask _) fun _ => .ite (.pure _) <| .bind (advancing_variableAddress var) fun _ =>
    advancing_makeLeaf Bool.false_ne_true

@[grind ←] theorem advancing_indirect (ty : TypeId) (ptr : NodeId) (span : Span) :
    Obeys (advancing X) (indirect ty ptr span) :=
  .guard (.ask _) <| .guard (obeys_isErrorExpr ptr) <| .bind (advancing_rvalue ptr) fun addr =>
    advancing_referring .deref Bool.false_ne_true Bool.false_ne_true addr _

@[grind ←] theorem advancing_addressOf (expr : NodeId) (span : Span) :
    Obeys (advancing X) (addressOf expr span) := by
  refine .guard (obeys_isErrorExpr expr) <| .bind (obeys_lvalue expr) fun addr =>
    .bind (obeys_typeOf expr) fun ty =>
    .bind (advancing_onTypes fun _ _ _ => TypeTable.asks_pointerType) fun ptrType => ?_
  refine advancing_valued Bool.false_ne_true Bool.false_ne_true fun {c x node a c'} find run => ?_
  obtain ⟨_, c₁, valued, run⟩ := Run.bind_ok.1 run
  obtain ⟨-, rfl⟩ := Run.pure_ok run
  exact ⟨_, retouches_setValue find valued, rfl, rfl⟩

@[grind ←] theorem advancing_functionCode (func : FuncId) (span : Span) :
    Obeys (advancing X) (functionCode func span) :=
  .ite (.pure _) <| .bind (.ask _) fun _ =>
    .bind (advancing_onTypes fun _ _ _ => TypeTable.asks_pointerType) fun _ =>
    advancing_makeLeaf Bool.false_ne_true

@[grind ←] theorem advancing_zero (ty : TypeId) : Obeys (advancing X) (zero ty) := by
  unfold zero
  grind

@[grind ←] theorem advancing_floatConstant (ty : TypeId) (bits : UInt64) :
    Obeys (advancing X) (floatConstant ty bits) := by
  unfold floatConstant
  grind

@[grind ←] theorem advancing_binary (op : Operator) (lhs rhs : NodeId) (span : Span) :
    Obeys (advancing X) (binary op lhs rhs span) := by
  refine .guard (obeys_isErrorExpr _) <| .guard (obeys_isErrorExpr _) <| .ite (.throw _) <|
    .bind (obeys_typeOf _) fun _ => .bind (obeys_typeOf _) fun _ => ?_
  split <;> grind

@[grind ←] theorem advancing_fieldAccess (expr : NodeId) (index : Nat) (fieldType : TypeId)
    (span : Span) : Obeys (advancing X) (fieldAccess expr index fieldType span) := by
  unfold fieldAccess
  grind

@[grind ←] theorem advancing_structField (expr : NodeId) (index : Nat) (span : Span) :
    Obeys (advancing X) (structField expr index span) := by
  refine .guard (obeys_isErrorExpr _) <|
    .bind (obeys_typeOf _) fun ty => .bind (.ask _) fun fields => ?_
  cases fields <;> grind

@[grind ←] theorem advancing_arrayIndex (array index : NodeId) (span : Span) :
    Obeys (advancing X) (arrayIndex array index span) := by
  refine .guard (obeys_isErrorExpr _) <| .guard (obeys_isErrorExpr _) <|
    .bind (obeys_typeOf _) fun ty => .bind (.ask _) fun elem => ?_
  cases elem <;> grind

@[grind ←] theorem advancing_complexExpr (real imag : NodeId) (span : Span) :
    Obeys (advancing X) (complexExpr real imag span) := by
  refine .guard (obeys_isErrorExpr _) <| .guard (obeys_isErrorExpr _) <|
    .bind (obeys_typeOf _) fun part => .bind (.ask _) fun form => ?_
  split <;> grind

@[grind ←] theorem advancing_arrayLiteral (ty : TypeId) (indexes : List Nat) (vals : List NodeId)
    (span : Span) : Obeys (advancing X) (arrayLiteral ty indexes vals span) := by
  refine .guard (.ask _) <| .guard (.anyM obeys_isErrorExpr) <| .ite (.throw _) <|
    .bind (.ask _) fun form => ?_
  split <;> grind

@[grind ←] theorem advancing_compoundExpr (stmt expr : NodeId) (span : Span) :
    Obeys (advancing X) (compoundExpr stmt expr span) := by
  refine .ite (.pure _) <| .guard (obeys_isErrorExpr expr) <| .bind (.ask _) fun inner => ?_
  split
  · exact .bind (.pure _) fun value => advancing_referring .compound Bool.false_ne_true
      Bool.false_ne_true value _
  · exact .bind (advancing_rvalue expr) fun value =>
      advancing_referring .compound Bool.false_ne_true Bool.false_ne_true value _

@[grind ←] theorem advancing_call (callee : NodeId) (args : List NodeId) (span : Span) :
    Obeys (advancing X) (call callee args span) := by
  refine .guard (obeys_isErrorExpr callee) <| .guard (.anyM obeys_isErrorExpr) <|
    .bind (obeys_typeOf callee) fun ty => .bind (.ask _) fun pointee =>
    .bind (.ask _) fun result => ?_
  split
  · exact obeys_throwWithType _ _
  refine .bind (advancing_rvalue callee) fun _ => .bind (.mapM advancing_rvalue) fun _ => ?_
  change Obeys (advancing X) (onArena (·.make .call (callee :: args) _ span) >>= _)
  refine advancing_valued Bool.false_ne_true Bool.false_ne_true fun {c x node a c'} find run => ?_
  obtain ⟨_, c₁, attached, run⟩ := Run.bind_ok.1 run
  obtain ⟨-, rfl⟩ := Run.pure_ok run
  obtain ⟨i, retouches⟩ := retouches_attachValue find attached
  exact ⟨_, retouches, rfl, rfl⟩

end Build

end Codegen
