import Codegen.Proofs.Compilation.Offers
import Codegen.Proofs.Requests.Values

/-!
Requests as actions: every request is a number of actions. Returns are made for return statements
only, each with the value of its statement.
-/

namespace Codegen

open Relation

namespace Build

variable {T : Prop} {R : Option Value → Prop} {P : List TypeId} {c c' : Compilation} {id : NodeId}

attribute [local grind =] InstKind.isPlain NodeKind.compositeState?

attribute [local grind unfold] getNode getFunction getVariable isErrorType typeName makeNode
  makeConst makeStmt makeEmpty

/-! ## Expressions -/

/-- A step goes on with an expression that is a node and no error. -/
theorem unlessErrorExpr_ok {β : Type} {expr : NodeId} {a : β} {k : Build β} {r : β × Compilation}
    (run : (isErrorExpr expr >>= fun b => if b = true then pure a else k) c = .ok r) :
    r = (a, c) ∨ ∃ node, c.arena.find? expr = some node ∧ c.types.isError node.ty = .ok false ∧
      k c = .ok r := by
  unfold isErrorExpr at run
  split at run
  · cases run
    exact .inl rfl
  · rw [bind_assoc] at run
    obtain ⟨node, found, run⟩ := getNode_bind_ok run
    obtain ⟨b, sound, run⟩ := ask_bind_ok run
    cases b with
    | true =>
      cases run
      exact .inl rfl
    | false => exact .inr ⟨node, found, sound, run⟩

@[grind ←] theorem obeys_varExpr (var : VarId) (span : Span) :
    Obeys (acting T R P) (varExpr var span) := by
  intro c id c' start run
  obtain ⟨v, found, run⟩ := getVariable_bind_ok run
  split at run
  · obtain ⟨rfl, rfl⟩ := Run.pure_ok run
    exact .refl
  · obtain ⟨storage, c₁, addressed, run⟩ := Run.bind_ok.1 run
    have first := proceeds_variableAddress (R := R) (fun t => (start t).1) addressed
    obtain ⟨v₀, v', found₀, found', stored, ty⟩ := storage_of_variableAddress addressed
    cases found.symm.trans found₀
    cases run
    refine first.tail (.node (fun _ => .ofVar found' ?_ ty.symm rfl) fun _ building => ?_)
    · exact congrArg some stored.symm
    · cases building

/-- A pointer that points at objects of a type is followed. -/
theorem indirect_ok {ty : TypeId} {ptr : NodeId} {span : Span} (regular : T → c.Regular)
    (points : T → ∀ node, c.arena.find? ptr = some node →
      c.types.pointee? node.ty = .ok (some ty))
    (run : indirect ty ptr span c = .ok (id, c')) : c.Proceeds T R c' := by
  obtain ⟨bad, -, run⟩ := ask_bind_ok run
  cases bad with
  | true =>
    obtain ⟨rfl, rfl⟩ := Run.pure_ok run
    exact .refl
  | false =>
  obtain e | ⟨node, found, -, run⟩ := unlessErrorExpr_ok run
  · cases e
    exact .refl
  obtain ⟨addr, c₁, used, run⟩ := Run.bind_ok.1 run
  obtain ⟨first, node₁, found₁, value, loaded⟩ := rvalue_ok (R := R) regular used
  rw [(valuedNode_ok run).2]
  refine first.tail (.node (fun t => .deref found₁ value.symm loaded rfl ?_) fun _ building => ?_)
  · obtain ⟨_, found', same⟩ := first.ty_eq (Arena.lt_of_find? found) found₁
    rw [same]
    exact (regular t).asked.reachable.pointee?_eq (TypeTable.run_of_asks first.types_le)
      (points t _ found')
  · cases building

@[grind ←] theorem obeys_addressOf (expr : NodeId) (span : Span) :
    Obeys (acting T R P) (addressOf expr span) := by
  intro c id c' start run
  obtain e | ⟨node, found, sound, run⟩ := unlessErrorExpr_ok run
  · cases e
    exact .refl
  obtain ⟨addr, c₁, used, run⟩ := Run.bind_ok.1 run
  obtain ⟨same, _, found₁, value, address⟩ := lvalue_ok used
  rw [same] at run
  cases found.symm.trans found₁
  obtain ⟨_, found₁, run⟩ := typeOf_bind_ok run
  cases found.symm.trans found₁
  obtain ⟨ptrType, c₂, asked, run⟩ := Run.bind_ok.1 run
  obtain ⟨types, pointer, rfl⟩ := onTypes_ok asked
  obtain ⟨id, c₃, made, run⟩ := Run.bind_ok.1 run
  obtain ⟨rfl, rfl⟩ := makeNode_ok made
  obtain ⟨_, c₄, valued, run⟩ := Run.bind_ok.1 run
  obtain ⟨-, rfl⟩ := Run.pure_ok run
  have e := update_ok valued (Arena.find?_add ..)
  simp only [Arena.add_set] at e
  subst e
  have first : c.Proceeds T R { c with types } := .asking (TypeTable.orders_pointerType pointer)
  refine first.tail (.node (fun t => .address found value.symm address rfl ?_) fun _ _ => rfl)
  exact (start t).1.asked.reachable.pointee?_pointerType pointer sound

/-- A node like another, with its value. -/
@[grind ←] theorem obeys_compoundExpr (stmt expr : NodeId) (span : Span) :
    Obeys (acting T R P) (compoundExpr stmt expr span) := by
  intro c id c' start run
  unfold compoundExpr at run
  split at run
  · cases run
    exact .refl
  obtain e | ⟨node, found, -, run⟩ := unlessErrorExpr_ok run
  · cases e
    exact .refl
  obtain ⟨_, found₁, run⟩ := getNode_bind_ok run
  cases found.symm.trans found₁
  cases has : node.value with
  | some value =>
    simp only [has, pure_bind] at run
    rw [(valuedNode_ok run).2]
    exact .single (.node (fun _ => .same found has.symm rfl rfl) fun _ building => by
      cases building)
  | none =>
    simp only [has] at run
    obtain ⟨value, c₁, used, run⟩ := Run.bind_ok.1 run
    obtain ⟨first, node₁, found₁, valued, loaded⟩ :=
      rvalue_ok (R := R) (fun t => (start t).1) used
    rw [(valuedNode_ok run).2]
    refine first.tail (.node (fun t => .same found₁ valued.symm ?_ ?_) fun _ building => by
      cases building)
    · obtain ⟨_, found', same⟩ := first.ty_eq (Arena.lt_of_find? found) found₁
      cases found.symm.trans found'
      exact same.symm
    · have building := isBuilding_of_rvalue found has used
      have plain := (start t).1.building found building
      rw [loaded, ← plain]

/-! ## The rest of the expressions -/

@[grind ←] theorem obeys_namedType (name : String) (part : TypeId) :
    Obeys (acting T R P) (namedType name part) := by
  intro c ty c' _ run
  change onTypes (·.namedType (c.names.intern name).1 part) { c with names := _ } = _ at run
  obtain ⟨types, done, rfl⟩ := onTypes_ok run
  have ran : (TypeTable.Call.namedType (c.names.intern name).1 part).run c.types = .ok types := by
    rw [TypeTable.Call.run, done]
    rfl
  refine .tail (.single (.names c.names.lookup_of_intern))
    (.types ⟨_, by simp, ran⟩ fun named => ?_)
  refine named.call (by simp) (fun form _ only n part e => ?_) ran
  cases only n part e
  exact ⟨name, c.names.lookup_intern name⟩

@[grind ←] theorem obeys_zero (ty : TypeId) : Obeys (acting T R P) (zero ty) := by
  unfold zero
  grind

@[grind ←] theorem obeys_floatConstant (ty : TypeId) (bits : UInt64) :
    Obeys (acting T R P) (floatConstant ty bits) := by
  unfold floatConstant
  grind

@[grind ←] theorem obeys_binary (op : Operator) (lhs rhs : NodeId) (span : Span) :
    Obeys (acting T R P) (binary op lhs rhs span) := by
  refine .guard (obeys_isErrorExpr _) <| .guard (obeys_isErrorExpr _) <| .ite (.throw _) <|
    .bind (obeys_typeOf _) fun _ => .bind (obeys_typeOf _) fun _ => ?_
  split <;> grind

@[grind ←] theorem obeys_fieldAccess (expr : NodeId) (index : Nat) {fieldType : TypeId}
    (span : Span) (mem : fieldType ∈ P) :
    Obeys (acting T R P) (fieldAccess expr index fieldType span) := by
  unfold fieldAccess
  grind

@[grind ←] theorem obeys_structField (expr : NodeId) (index : Nat) (span : Span) :
    Obeys (acting T R P) (structField expr index span) := by
  refine .guard (obeys_isErrorExpr _) <| .bind (obeys_typeOf _) fun ty => ?_
  refine .soundly (fun fields => fields.getD []) (fun c fields regular found part mem free => ?_)
    fun fields => ?_
  · cases fields with
    | none => cases mem
    | some fields => exact free.isError_field regular.asked.reachable found mem
  · cases fields with
    | none => grind
    | some fields =>
      dsimp only
      split
      · grind
      · rename_i fieldType at'
        exact obeys_fieldAccess _ _ _ (List.mem_append_left _ (List.mem_of_getElem? at'))

@[grind ←] theorem obeys_complexPart (expr : NodeId) (index : Nat) (span : Span) :
    Obeys (acting T R P) (complexPart expr index span) := by
  intro c id c' start run
  obtain e | ⟨node, found, sound, run⟩ := unlessErrorExpr_ok run
  · cases e
    exact .refl
  obtain ⟨_, found₁, run⟩ := typeOf_bind_ok run
  cases found.symm.trans found₁
  obtain ⟨part, known, run⟩ := ask_bind_ok run
  have ne : node.ty ≠ .error := fun e => by
    rw [e] at sound
    cases sound
  refine obeys_fieldAccess (P := [part]) expr index span (List.mem_cons_self ..) c id c'
    (fun t => ⟨(start t).1, fun ty mem free => ?_⟩) run
  cases List.mem_singleton.1 mem
  exact free.isError_complexPart (start t).1.asked.reachable known ne

@[grind ←] theorem obeys_complexExpr (real imag : NodeId) (span : Span) :
    Obeys (acting T R P) (complexExpr real imag span) := by
  refine .guard (obeys_isErrorExpr _) <| .guard (obeys_isErrorExpr _) <|
    .bind (obeys_typeOf _) fun part => .bind (.ask _) fun form => ?_
  split <;> grind

@[grind ←] theorem obeys_arrayIndex (array index : NodeId) (span : Span) :
    Obeys (acting T R P) (arrayIndex array index span) := by
  refine .guard (obeys_isErrorExpr _) <| .guard (obeys_isErrorExpr _) <|
    .bind (obeys_typeOf _) fun ty => ?_
  refine .soundly Option.toList (fun c elem regular found part mem free => ?_) fun elem => ?_
  · cases Option.mem_toList.1 mem
    exact free.isError_element regular.asked.reachable found
  · cases elem with
    | none => grind
    | some elem =>
      have mem : elem ∈ (some elem).toList ++ P := by simp
      grind

@[grind ←] theorem obeys_arrayLiteral (ty : TypeId) (indexes : List Nat) (vals : List NodeId)
    (span : Span) : Obeys (acting T R P) (arrayLiteral ty indexes vals span) := by
  refine .guard (.ask _) <| .guard (.anyM obeys_isErrorExpr) <| .ite (.throw _) <|
    .bind (.ask _) fun form => ?_
  split <;> grind

@[grind ←] theorem obeys_call (callee : NodeId) (args : List NodeId) (span : Span) :
    Obeys (acting T R P) (call callee args span) := by
  refine .guard (obeys_isErrorExpr _) <| .guard (.anyM obeys_isErrorExpr) <|
    .bind (obeys_typeOf _) fun ty => .bind (.ask _) fun pointee => .bind (.ask _) fun result => ?_
  cases result with
  | none => grind
  | some result =>
    refine .bind (obeys_rvalue _) fun _ => .bind (.mapM obeys_rvalue) fun _ => ?_
    intro c id c' start run
    obtain ⟨id, c₁, made, run⟩ := Run.bind_ok.1 run
    obtain ⟨arena, built, rfl⟩ := onArena_ok made
    obtain ⟨_, -, built⟩ := bind_eq_ok.1 (built : c.arena.make .call _ _ _ = _)
    obtain ⟨_, -, built⟩ := bind_eq_ok.1 built
    cases built
    obtain ⟨_, c₂, attached, run⟩ := Run.bind_ok.1 run
    obtain ⟨-, rfl⟩ := Run.pure_ok run
    exact proceeds_computed attached rfl rfl

/-! ## Statements -/

@[grind ←] theorem obeys_exprStmt (func : FuncId) (expr : NodeId) :
    Obeys (acting T R P) (exprStmt func expr) := by
  unfold exprStmt
  grind

@[grind ←] theorem obeys_assign (func : FuncId) (lhs rhs : NodeId) (span : Span) :
    Obeys (acting T R P) (assign func lhs rhs span) := by
  unfold assign
  grind

@[grind ←] theorem obeys_variableAddress (var : VarId) :
    Obeys (acting T R P) (variableAddress var) :=
  fun _ _ _ start run => proceeds_variableAddress (fun t => (start t).1) run

@[grind ←] theorem obeys_storeMembers (init : NodeId) (storage : Value) (isArray : Bool)
    (index : Nat) (kids : List NodeId) :
    Obeys (acting T R P) (storeMembers init storage isArray index kids) := by
  induction kids generalizing index with
  | nil => exact .pure ()
  | cons kid rest ih =>
    refine .bind (obeys_rvalue _) fun _ => .bind (obeys_typeOf _) fun _ =>
      .bind (.onTypes fun _ _ _ => TypeTable.orders_pointerType) fun _ =>
      .bind (.createPlain _ (by split <;> rfl)) fun _ => ?_
    grind

@[grind ←] theorem obeys_initStmt (func : FuncId) (var : VarId) (init : NodeId) :
    Obeys (acting T R P) (initStmt func var init) := by
  refine .ite (.pure _) <| .guard (obeys_isErrorVar _) <| .guard (obeys_isErrorExpr _) <|
    .bind (.ask _) fun v => .bind (.ask _) fun node => .ite ?_ ?_
  · grind
  · refine .bind (obeys_variableAddress _) fun _ => .bind (.ask _) fun _ => .bind (.ask _) fun _ =>
      .bind (obeys_storeMembers _ _ _ _ _) fun _ => .bind (obeys_finishComposite _ _) fun _ => ?_
    grind

@[grind ←] theorem obeys_ifStmt (func : FuncId) (cond thenStmt : NodeId) (elseStmt : Option NodeId)
    (span : Span) : Obeys (acting T R P) (ifStmt func cond thenStmt elseStmt span) := by
  unfold ifStmt
  grind

@[grind ←] theorem obeys_switchStmt (func : FuncId) (value : NodeId) (cases : List (List NodeId))
    (stmts : List NodeId) (span : Span) :
    Obeys (acting T R P) (switchStmt func value cases stmts span) := by
  refine .ite (.throw _) <| .ite (.pure _) <| .guard (obeys_isErrorExpr _) <|
    .guard (.anyM obeys_isErrorExpr) <| .ite (.pure _) ?_
  grind

/-- Something is changed in a function, but not the slots of its parameters. -/
theorem obeys_changeFunction {α : Type} {func : FuncId} {g : Function → Except Fault Function}
    {k : Build α} (slots : ∀ {f f'}, g f = .ok f' → f.SameSlots f')
    (hk : Obeys (acting T R P) k) :
    Obeys (acting T R P) (do
      let f ← getFunction func
      setFunction func (← g f)
      k) := by
  intro c a c' start run
  obtain ⟨f, found, run⟩ := getFunction_bind_ok run
  obtain ⟨f', changed, run⟩ := Run.lift_bind_ok run
  obtain ⟨_, c₁, set, run⟩ := Run.bind_ok.1 run
  have first := proceeds_setFunction (T := T) (R := R) set found (slots changed).spills
  exact first.trans (hk _ _ _ ((acting T R P).keeps start first) run)

@[grind ←] theorem obeys_temporary (func : FuncId) (block : Option NodeId) (ty : TypeId)
    (init : Option NodeId) (taken : Bool) (span : Span) :
    Obeys (acting T R P) (temporary func block ty init taken span) := by
  refine .ite (.pure _) <| .unlessError <| .guard (.anyM obeys_isErrorExpr) <|
    .bind (obeys_newLocal _ _ _ _ nofun (List.mem_cons_self ..)) fun var => ?_
  cases block with
  | none => cases init <;> grind
  | some block =>
    cases init <;> exact obeys_changeFunction sameSlots_of_addBlockVar (by grind)

@[grind ←] theorem obeys_conditional (func : FuncId) (ty : TypeId) (cond thenExpr : NodeId)
    (elseExpr : Option NodeId) (span : Span) :
    Obeys (acting T R P) (conditional func ty cond thenExpr elseExpr span) := by
  refine .ite (.pure _) <| .unlessError <| .guard (obeys_isErrorExpr _) <|
    .guard (obeys_isErrorExpr _) <| .guard (.anyM obeys_isErrorExpr) <| .ite ?_ ?_
  · refine .bind (obeys_exprStmt _ _) fun _ => ?_
    cases elseExpr <;> grind
  cases elseExpr with
  | none => grind
  | some _ =>
    refine .bind (.intern _) fun _ =>
      .bind (obeys_newLocal _ _ _ _ nofun (List.mem_cons_self ..)) fun _ =>
      .bind (obeys_varExpr _ _) fun _ => .bind (obeys_assign _ _ _ _) fun _ => ?_
    grind

@[grind ←] theorem obeys_block (func : FuncId) (enclosing : Option NodeId) (vars : List VarId)
    (span : Span) : Obeys (acting T R P) (block func enclosing vars span) := by
  intro c id c' start run
  obtain ⟨-, -, rfl⟩ | ⟨f, arena, found, -, made, rfl⟩ := block_ok run
  · exact .refl
  have first : Compilation.Proceeds T R c { c with arena } :=
    Obeys.onArena (fun _ _ _ => Arena.plainly_makeVoid) c id _ start made
  exact first.trans (proceeds_setFunction (c := { c with arena }) rfl found rfl)

@[grind ←] theorem obeys_label (func : FuncId) (span : Span) :
    Obeys (acting T R P) (label func span) := by
  intro c l c' _ run
  obtain ⟨f, found, run⟩ := getFunction_bind_ok run
  obtain ⟨_, c₁, set, run⟩ := Run.bind_ok.1 run
  obtain ⟨-, rfl⟩ := Run.pure_ok run
  exact proceeds_setFunction set found rfl

@[grind ←] theorem obeys_labelStmt (label : Label) : Obeys (acting T R P) (labelStmt label) :=
  .ite (.pure _) <| .bind (.onArena fun _ _ _ => Arena.plainly_makeVoid) fun _ =>
    obeys_changeFunction sameSlots_of_defineLabel (.pure _)

/-! ## Variables and functions -/

@[grind ←] theorem obeys_localVariable (func : FuncId) (name : String) (ty : TypeId) (taken : Bool)
    (span : Span) : Obeys (acting T R P) (localVariable func name ty taken span) :=
  .ite (.pure _) <| .unlessError <| .bind (.intern _) fun _ =>
    obeys_newLocal _ _ _ _ nofun (List.mem_cons_self ..)

@[grind ←] theorem obeys_parameterVariable (func : FuncId) (name : String) (ty : TypeId)
    (taken : Bool) (span : Span) :
    Obeys (acting T R P) (parameterVariable func name ty taken span) := by
  refine .ite (.pure _) <| .unlessError <| .bind (.intern _) fun _ => ?_
  intro c var c' start run
  rw [Run.get_bind] at run
  obtain ⟨f, found, run⟩ := getFunction_bind_ok run
  obtain ⟨_, c₁, set, run⟩ := Run.bind_ok.1 run
  have first := proceeds_setFunction (T := T) (R := R) set found rfl
  cases set
  cases run
  exact first.tail (.newVar nofun fun t p _ => (start t).2 ty (List.mem_cons_self ..))

@[grind ←] theorem obeys_setParameters (func : FuncId) (params : List VarId) :
    Obeys (acting T R P) (setParameters func params) := by
  refine .ite (.pure _) <| .guard (.anyM obeys_isErrorVar) fun c b c' _ run => ?_
  obtain ⟨f, found, run⟩ := getFunction_bind_ok run
  obtain ⟨_, c₁, set, run⟩ := Run.bind_ok.1 run
  obtain ⟨-, rfl⟩ := Run.pure_ok run
  exact proceeds_setFunction set found rfl

@[grind ←] theorem obeys_declareFunction (fntype : TypeId) (name asmName : String)
    (flags : FunctionFlags) (splitStack : Bool) (span : Span) :
    Obeys (acting T R P) (declareFunction fntype name asmName flags splitStack span) := by
  refine .guard (.ask _) <| .bind (.ask _) fun _ => .ite (obeys_throwWithType _ _) <|
    .bind .get fun _ => .bind (.intern _) fun _ => .bind (.intern _) fun _ =>
    .bind (fun c u c' _ run => ?_) fun _ => .pure _
  cases run
  refine .single (.aside fun k p => ?_)
  rw [Compilation.spill?, Array.getElem?_push]
  split
  · rename_i e
    rw [Compilation.spill?, e, Array.getElem?_eq_none (Nat.le_refl _)]
    rfl
  · rfl

@[grind ←] theorem obeys_setBody (func : FuncId) (root : NodeId) :
    Obeys (acting T R P) (setBody func root) := by
  intro c done c' _ run
  obtain ⟨-, rfl⟩ | ⟨-, f, f', entry, insts, void, body, a, insts', h⟩ := setBody_ok run
  · exact .refl
  · exact .single (.body h)

/-! ## Returns -/

/-- A value is returned exactly if the statement has one. -/
theorem returned_ok {result : TypeId} {vals : List NodeId} {span : Span} {child : NodeId}
    {value : Option Value} (run : returned result vals span c = .ok ((child, value), c')) :
    value.isSome ↔ vals ≠ [] := by
  unfold returned at run
  split at run
  · obtain ⟨_, c₁, -, run⟩ := Run.bind_ok.1 run
    cases run
    simp
  · obtain ⟨_, c₁, -, run⟩ := Run.bind_ok.1 run
    cases run
    simp
  · rename_i none _
    obtain ⟨_, c₁, -, run⟩ := Run.bind_ok.1 run
    obtain ⟨_, c₂, -, run⟩ := Run.bind_ok.1 run
    cases run
    simpa using none

theorem obeys_returned (result : TypeId) (vals : List NodeId) (span : Span) :
    Obeys (acting T R P) (returned result vals span) := by
  unfold returned
  split <;> grind

theorem obeys_returnStmt (func : FuncId) (vals : List NodeId) (span : Span) :
    Obeys (acting T (fun v => v.isSome ↔ vals ≠ []) P) (returnStmt func vals span) := by
  refine .ite (.pure _) <| .guard (.anyM obeys_isErrorExpr) <| .bind (.ask _) fun f =>
    .bind (.ask _) fun result => ?_
  split
  · exact .throw _
  · intro c id c' start run
    obtain ⟨⟨child, value⟩, c₁, given, run⟩ := Run.bind_ok.1 run
    have first := obeys_returned _ _ _ c _ c₁ start given
    refine first.trans ?_
    refine Obeys.bind (L := acting T _ P) (.onArena fun _ _ _ => Arena.plainly_makeVoid)
      (fun id => ?_) c₁ _ c' ((acting T _ P).keeps start first) run
    refine .bind (.bind (.createReturn _ (returned_ok given)) fun _ => ?_) fun _ =>
      .onArena fun _ _ _ => Arena.plainly_makeVoid
    exact .bind (.changeArena fun _ _ => Arena.retouched_appendInst) fun _ => .pure _

end Build

/-! ## Consumption -/

/-- Steps that consume expressions: nodes and instructions go, and globals are initialized. -/
def consuming : Law where
  start _ := True
  holds c c' := ∃ arena insts globals, c' = { c with arena, insts, globals } ∧
    c.arena.Sheds c.insts arena insts
  refl {c} _ := ⟨c.arena, c.insts, c.globals, rfl, .refl ..⟩
  trans := by
    rintro c _ _ ⟨a, s, g, rfl, first⟩ ⟨a', s', g', rfl, second⟩
    exact ⟨a', s', g', rfl, first.trans second⟩
  keeps _ _ := trivial

namespace Build

theorem consumes_destroy (root : NodeId) (mode : DestroyMode) :
    Obeys consuming (destroy root mode) := by
  intro c u c' _ run
  rw [destroy, Run.get_bind] at run
  obtain ⟨⟨arena, insts⟩, destroyed, run⟩ := Run.lift_bind_ok run
  cases run
  exact ⟨arena, insts, c.globals, rfl, Arena.sheds_destroyWithin _ destroyed⟩

theorem consumes_setGlobalInit (var : VarId) (init : NodeId) :
    Obeys consuming (setGlobalInit var init) := by
  refine .guard (obeys_isErrorVar _) <| .guard (obeys_isErrorExpr _) <| .bind (.ask _) fun v => ?_
  split
  · refine .bind (.ask _) fun _ => .bind (.ask _) fun _ => .ite (.throw _) <|
      .bind (fun c u c' _ run => ?_) fun _ => consumes_destroy _ _
    cases run
    exact ⟨_, _, _, rfl, .refl ..⟩
  · exact .throw _

end Build

/-! ## Requests -/

namespace Request

variable {A : Category → Type}

/-- Whether a request can be the reason for a return of a value, or of none. -/
def MayReturn : Request A → Option Value → Prop
  | returnStmt _ vals _, v => v.isSome ↔ vals ≠ []
  | _, _ => False

/-- The pointer that a request follows, and the type of what is there. -/
def followed? : Request A → Option (A .type × A .expr)
  | indirect ty ptr _ => some (ty, ptr)
  | _ => none

/-- Whether a request consumes an expression. -/
def consumes : Request A → Bool
  | destroy .. | setGlobalInit .. | definitions .. => true
  | _ => false

/-- A pointer is followed to objects of the type that it points at. -/
def Straight (c : Compilation) (r : Request Category.Handle) : Prop :=
  ∀ x ∈ r.followed?, ∀ node ∈ c.arena.find? x.2, c.types.pointee? node.ty = .ok (some x.1)

instance (c : Compilation) (r : Request Category.Handle) : Decidable (r.Straight c) :=
  inferInstanceAs (Decidable (∀ x ∈ r.followed?, _))

end Request

namespace Build

variable {T : Prop} {c c' : Compilation} {reply : Reply}

attribute [local grind =] InstKind.isPlain NodeKind.compositeState?

attribute [local grind unfold] getNode getFunction getVariable isErrorType typeName makeNode
  makeConst makeStmt makeEmpty nilPointer integerConstant complexConstant booleanConstant
  stringConstant functionCode convert unary pointerOffset structLiteral realPart imagPart
  compoundStmt stmtList addToBlock gotoStmt arrayType resolveArray globalVariable immutableStruct
  sharing outline placeholderType

theorem consumes_request {r : Request Category.Handle} (consumes : r.consumes) :
    Obeys consuming r.run := by
  cases r
  case destroy => exact .map _ (consumes_destroy _ _)
  case setGlobalInit => exact .map _ (consumes_setGlobalInit _ _)
  case definitions => exact .map _ (obeys_definitions (consumes_destroy · .all) _ _ _ _)
  all_goals cases consumes

/-- Every request is a number of actions. -/
theorem proceeds_request {r : Request Category.Handle} (regular : T → c.Regular)
    (straight : T → r.Straight c) (spares : T → ¬r.consumes)
    (run : r.run c = .ok (reply, c')) : c.Proceeds T r.MayReturn c' := by
  by_cases consumes : r.consumes
  · obtain ⟨arena, insts, globals, rfl, sheds⟩ := consumes_request consumes c _ c' trivial run
    exact .tail (.single (.shed sheds fun t => absurd consumes (spares t))) (.aside fun _ _ => rfl)
  have start : (acting T r.MayReturn []).start c := fun t => ⟨regular t, nofun⟩
  cases r
  case indirect =>
    obtain ⟨id, done, -⟩ := Run.map_ok run
    exact indirect_ok regular (fun t => straight t _ rfl) done
  case destroy | setGlobalInit | definitions => exact absurd rfl consumes
  case returnStmt => exact Obeys.map _ (obeys_returnStmt _ _ _) c _ c' start run
  case disableIntegrityChecks =>
    obtain ⟨_, done, -⟩ := Run.map_ok run
    cases done
    exact .single (.aside fun _ _ => rfl)
  all_goals
    refine (?_ : Obeys (acting T _ []) _) c _ c' start run
    clear regular straight spares consumes run start
    unfold Request.run
    grind

end Build

end Codegen
