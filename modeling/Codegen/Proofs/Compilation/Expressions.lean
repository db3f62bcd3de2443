import Codegen.Compilation.Statements
import Codegen.Proofs.Compilation.Slots

/-!
Every expression constructor keeps compilations sound: the operands of the instructions that it
attaches are the values of the children that it takes.
-/

namespace Codegen.Build

variable {P : Fact} {kids : List NodeId} {c : Compilation} {kind : NodeKind}

attribute [local grind unfold] getNode getFunction getVariable isErrorType typeName

theorem makeNode_ok {ty : TypeId} {span : Span} {id : NodeId} {c' : Compilation}
    (run : makeNode kind kids ty span c = .ok (id, c')) : id = ⟨c.arena.size⟩ ∧
      c' = { c with arena := (c.arena.add (.fresh kind kids ty span)).2 } := by
  obtain ⟨arena, made, rfl⟩ := onArena_ok run
  obtain ⟨_, -, made⟩ := bind_eq_ok.1 made
  obtain ⟨_, -, made⟩ := bind_eq_ok.1 made
  cases made
  exact ⟨rfl, rfl⟩

/-- Operands that children leave behind can be used by the parent. -/
theorem sourced_operands {id : NodeId} {kind : InstKind} (hosts : (Fact.hosts id kids).holds c)
    (h : ∀ v ∈ kind.operands, c.Sourced kids v) :
    ¬id.isSentinel ∧ ∀ v ∈ kind.operands, c.Sourced [id] v :=
  ⟨hosts.2.1, fun v mem => (h v mem).up hosts⟩

theorem keeps_makeComputed {inst : InstKind} (ty : TypeId) (span : Span) (expr : kind.isExpr = true)
    (slot : inst.isAlloca = false) (noRet : inst.isRet = false)
    (pre : ∀ c, P.holds c → ∀ v ∈ inst.operands, c.Sourced kids v) :
    Keeps P (makeComputed kind kids inst ty span) fun _ => .none := by
  refine .bind (keeps_make ty span fun l e => by simp [e, NodeKind.isExpr, NodeKind.isStmt] at expr)
    fun id =>
    .bind (keeps_attachValue ty slot noRet fun c h => ?_) fun _ => .pure fun _ _ => trivial
  exact sourced_operands (h.2.1 expr) (pre c h.1)

theorem keeps_makeAddressed {inst : InstKind} (ty : TypeId) (span : Span)
    (expr : kind.isExpr = true) (done : kind ≠ .composite .building)
    (slot : inst.isAlloca = false) (noRet : inst.isRet = false)
    (pre : ∀ c, P.holds c → ∀ v ∈ inst.operands, c.Sourced kids v) :
    Keeps P (makeAddressed kind kids inst ty span) fun _ => .none := by
  refine .pass (steady_onTypes _) fun ptrType =>
    .bind (keeps_make ty span fun l e => by simp [e, NodeKind.isExpr, NodeKind.isStmt] at expr)
      fun id =>
    .bind (keeps_attachValue ptrType slot noRet fun c h => ?_) fun _ =>
      .bind (keeps_setFlags fun _ c h => h.1.2.2 done) fun _ => .pure fun _ _ => trivial
  exact sourced_operands (h.2.1 expr) (pre c h.1)

@[grind ←] theorem steady_zero (ty : TypeId) : Steady (zero ty) := by
  unfold zero
  grind

@[grind ←] theorem steady_floatConstant (ty : TypeId) (bits : UInt64) :
    Steady (floatConstant ty bits) := by
  unfold floatConstant
  grind

@[grind ←] theorem steady_varExpr (var : VarId) (span : Span) : Steady (varExpr var span) :=
  .bind (.ask _) fun _ => .ite (.pure _) <| Keeps.steady <| .bind (keeps_variableAddress var)
    fun _ => keeps_makeVar _ _ _ fun _ h => h.2

@[grind ←] theorem steady_indirect (ty : TypeId) (ptr : NodeId) (span : Span) :
    Steady (indirect ty ptr span) := by
  refine .guard (.ask _) <| .guard (obeys_isErrorExpr _) <| Keeps.steady <| .bind keeps_rvalue
    fun addr => .bind (keeps_make ty span nofun) fun id =>
    .bind (keeps_setValue fun c h => ?_) fun _ =>
      .bind (keeps_setFlags fun _ c h => h.1.2.2 nofun) fun _ => .pure fun _ _ => trivial
  exact ⟨(h.2.1 rfl).2.1, h.1.2.up (h.2.1 rfl)⟩

@[grind ←] theorem steady_addressOf (expr : NodeId) (span : Span) :
    Steady (addressOf expr span) := by
  refine .guard (obeys_isErrorExpr _) <| Keeps.steady <| .bind keeps_lvalue fun addr =>
    .pass (obeys_typeOf _) fun _ => .pass (steady_onTypes _) fun ptrType =>
      .bind (keeps_make ptrType span nofun) fun id => .bind (keeps_setValue fun c h => ?_) fun _ =>
        .pure fun _ _ => trivial
  exact ⟨(h.2.1 rfl).2.1, h.1.2.up (h.2.1 rfl)⟩

@[grind ←] theorem steady_functionCode (func : FuncId) (span : Span) :
    Steady (functionCode func span) :=
  .ite (.pure _) <| .bind (.ask _) fun _ => .bind (steady_onTypes _) fun _ =>
    steady_makeFuncAddress _ _ _

/-- One operand, the value of a child. -/
theorem sourced_one {x : NodeId} {v : Value} (h : c.Sourced [x] v) :
    ∀ u ∈ [v], c.Sourced [x] u := by
  simpa using h

/-- Two operands, the values of two children. -/
theorem sourced_pair {x y : NodeId} {v w : Value} (hv : c.Sourced [x] v) (hw : c.Sourced [y] w) :
    ∀ u ∈ [v, w], c.Sourced [x, y] u := by
  simp only [List.mem_cons, List.not_mem_nil, or_false, forall_eq_or_imp, forall_eq]
  exact ⟨hv.mono (by simp), hw.mono (by simp)⟩

@[grind ←] theorem steady_convert (ty : TypeId) (expr : NodeId) (span : Span) :
    Steady (convert ty expr span) := by
  refine .guard (.ask _) <| .guard (obeys_isErrorExpr _) <| .bind (obeys_typeOf _) fun _ =>
    .guard (.ask _) <| Keeps.steady <| .bind keeps_rvalue fun value =>
      keeps_makeComputed ty span rfl rfl rfl fun c h => ?_
  exact sourced_one h.2

@[grind ←] theorem steady_unary (op : Operator) (expr : NodeId) (span : Span) :
    Steady (unary op expr span) := by
  refine .guard (obeys_isErrorExpr _) <| .ite (.throw _) <| Keeps.steady <| .bind keeps_rvalue
    fun operand => .pass (obeys_typeOf _) fun ty =>
      keeps_makeComputed ty span rfl rfl rfl fun c h => ?_
  exact sourced_one h.2

@[grind ←] theorem steady_binary (op : Operator) (lhs rhs : NodeId) (span : Span) :
    Steady (binary op lhs rhs span) := by
  refine .guard (obeys_isErrorExpr _) <| .guard (obeys_isErrorExpr _) <| .ite (.throw _) <|
    .bind (obeys_typeOf _) fun lhsType => .bind (obeys_typeOf _) fun rhsType => ?_
  refine .ite (.bind (.pure true) fun agree => ?_) <| .bind (.ask _) fun agree => ?_
  all_goals
    refine .ite (.bind (.ask _) fun _ => .bind (.ask _) fun _ => .throw _) <| Keeps.steady <|
      .bind keeps_rvalue fun l => .bind keeps_rvalue fun r => .ite (fun _ => ?_) fun _ => ?_
    · exact keeps_makeComputed .bool span rfl rfl rfl fun c h => sourced_pair h.1.2 h.2
    · exact keeps_makeComputed lhsType span rfl rfl rfl fun c h => sourced_pair h.1.2 h.2

@[grind ←] theorem steady_fieldAccess (expr : NodeId) (index : Nat) (fieldType : TypeId)
    (span : Span) : Steady (fieldAccess expr index fieldType span) := by
  refine .bind (.ask _) fun node => Keeps.steady <| .ite
    (fun _ => .bind keeps_lvalue fun base => keeps_makeAddressed fieldType span rfl nofun rfl rfl
      fun c h => ?_)
    fun _ => .bind keeps_rvalue fun whole => keeps_makeComputed fieldType span rfl rfl rfl
      fun c h => ?_
  · exact sourced_one h.2
  · exact sourced_one h.2

@[grind ←] theorem steady_arrayIndex (array index : NodeId) (span : Span) :
    Steady (arrayIndex array index span) := by
  refine .guard (obeys_isErrorExpr _) <| .guard (obeys_isErrorExpr _) <|
    .bind (obeys_typeOf _) fun ty => .bind (.ask _) fun elem => ?_
  split
  · exact obeys_throwWithType ty _
  · rename_i elem
    refine Keeps.steady <| .bind keeps_rvalue fun i => .pass (.ask _) fun node => .ite
      (fun _ => .bind keeps_lvalue fun base => keeps_makeAddressed elem span rfl nofun rfl rfl
        fun c h => sourced_pair h.2 h.1.2)
      fun _ => .bind keeps_rvalue fun whole => keeps_makeComputed elem span rfl rfl rfl
        fun c h => sourced_pair h.2 h.1.2

@[grind ←] theorem steady_pointerOffset (base index : NodeId) (span : Span) :
    Steady (pointerOffset base index span) :=
  .guard (obeys_isErrorExpr _) <| .guard (obeys_isErrorExpr _) <| Keeps.steady <|
    .pass (obeys_typeOf _) fun ty => .bind keeps_rvalue fun _ => .bind keeps_rvalue fun _ =>
      keeps_makeComputed ty span rfl rfl rfl fun _ h => sourced_pair h.1.2 h.2

@[grind ←] theorem steady_arrayLiteral (ty : TypeId) (indexes : List Nat) (vals : List NodeId)
    (span : Span) : Steady (arrayLiteral ty indexes vals span) := by
  refine .guard (.ask _) <| .guard (.anyM obeys_isErrorExpr) <| .ite (.throw _) <|
    .bind (.ask _) fun form => ?_
  split <;> grind

@[grind ←] theorem steady_compoundExpr (stmt expr : NodeId) (span : Span) :
    Steady (compoundExpr stmt expr span) := by
  refine .ite (.pure _) <| .guard (obeys_isErrorExpr _) <| Keeps.steady <|
    .bind keeps_getNode fun inner => ?_
  dsimp only
  split
  · rename_i value e
    refine .bind (Q := fun v => .sourced [expr] v) (.pure fun c h => h.2.2.1 value e) fun value =>
      .bind (keeps_make inner.ty span nofun) fun id => .bind (keeps_setValue fun c h => ?_) fun _ =>
        .bind (keeps_setFlags fun _ c h => h.1.2.2 nofun) fun _ => .pure fun _ _ => trivial
    exact ⟨(h.2.1 rfl).2.1, (h.1.2.mono (by simp)).up (h.2.1 rfl)⟩
  · refine .bind keeps_rvalue fun value => .bind (keeps_make inner.ty span nofun) fun id =>
      .bind (keeps_setValue fun c h => ?_) fun _ =>
        .bind (keeps_setFlags fun _ c h => h.1.2.2 nofun) fun _ => .pure fun _ _ => trivial
    exact ⟨(h.2.1 rfl).2.1, (h.1.2.mono (by simp)).up (h.2.1 rfl)⟩

theorem keeps_onArena_error {α : Type} {Q : α → Fact} (fault : Fault) :
    Keeps P (onArena fun _ => .error fault) Q := fun _ _ _ _ _ run => by cases run

theorem keeps_onArena_ite {α : Type} {Q : α → Fact} {p : Prop} [Decidable p]
    {step step' : Arena → Except Fault (α × Arena)} (h : p → Keeps P (onArena step) Q)
    (h' : ¬p → Keeps P (onArena step') Q) :
    Keeps P (onArena fun a => if p then step a else step' a) Q := by
  split
  · exact h ‹_›
  · exact h' ‹_›

theorem keeps_makeCall (result : TypeId) (span : Span) :
    Keeps P (onArena (·.makeCall result kids span)) fun id => .hosts id kids :=
  keeps_onArena_ite (fun _ => keeps_onArena_error _) fun _ =>
    (keeps_make result span (by simp)).imp fun _ _ h => h.1 rfl

@[grind ←] theorem steady_call (callee : NodeId) (args : List NodeId) (span : Span) :
    Steady (call callee args span) := by
  refine .guard (obeys_isErrorExpr _) <| .guard (.anyM obeys_isErrorExpr) <|
    .bind (obeys_typeOf _) fun calleeType => .bind (.ask _) fun pointee => .bind (.ask _)
      fun result => ?_
  split
  · exact obeys_throwWithType calleeType _
  · rename_i result
    refine Keeps.steady <| .bind keeps_rvalue fun calleeValue =>
      .bind (keeps_mapM fun x _ P => keeps_rvalue)
      fun argValues => .bind (keeps_makeCall result span) fun id =>
        .bind (keeps_attachValue result rfl rfl fun c h => ?_) fun _ => .pure fun _ _ => trivial
    refine sourced_operands h.2 fun v mem => ?_
    rcases List.mem_cons.1 mem with rfl | mem
    · exact Compilation.Sourced.mono h.1.1.2 (by simp)
    · exact Compilation.Sourced.mono (h.1.2 v mem) (by simp)

end Codegen.Build
