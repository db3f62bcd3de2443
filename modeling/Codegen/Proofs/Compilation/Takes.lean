import Codegen.Proofs.Compilation.Offers
import Codegen.Proofs.Compilation.Reachable

/-!
What statements take: their operands, or nothing where an operand is an error.
-/

namespace Codegen

/-- An answer that comes with a node. -/
theorem Offers.pair {used : List NodeId} {op : Build NodeId} (h : Offers used op) {β : Type}
    (b : β) : Spends (fun r => if r.2.isSentinel then [] else used) (op >>= fun id => pure (b, id))
      (fun r => [r.2]) fun _ => True := by
  intro c r c' two run
  obtain ⟨id, c₁, first, run⟩ := Run.bind_ok.1 run
  obtain ⟨rfl, rfl⟩ := Run.pure_ok run
  exact h c id _ two first

/-- A function is changed first, where its slots are left alone. -/
theorem Spends.edit {α : Type} {U G : α → List NodeId} {Q : α → Prop} {func : FuncId}
    {change : Function → Except Fault Function} {k : Build α}
    (same : ∀ {f f'}, change f = .ok f' → f.SameSlots f') (hk : Spends U k G Q) :
    Spends U (do
      let f ← Build.getFunction func
      let f' ← change f
      Build.setFunction func f'
      k) G Q := by
  have h := Spends.pass (Build.idle_editFunction func same) fun _ => hk
  simpa only [bind_assoc] using h

namespace Build

attribute [local grind unfold] getNode getFunction getVariable isErrorType typeName

/-! ## Statements -/

@[grind ←] theorem offers_exprStmt (func : FuncId) (expr : NodeId) :
    Offers [expr] (exprStmt func expr) := by
  unfold exprStmt
  grind

variable {kids : List NodeId}

/-- A statement with an instruction of its own, as a statement by itself. -/
theorem makes_effect (kind : NodeKind) (inst : InstKind) (span : Span) :
    Makes kids (do
      let id ← makeStmt kind kids span
      let _ ← attach id inst .void
      makeStmt .exprStmt [id] span) :=
  .andThen (makes_makeStmt kind span) fun _ plain =>
    .touch (by simp) (within_attach plain inst .void) fun _ => makes_makeStmt _ _

@[grind ←] theorem offers_assign (func : FuncId) (lhs rhs : NodeId) (span : Span) :
    Offers [lhs, rhs] (assign func lhs rhs span) :=
  .early rfl <| .guard (obeys_isErrorExpr _) rfl <| .guard (obeys_isErrorExpr _) rfl <|
    .pass (obeys_lvalue _) fun _ => Makes.offers <| .touch (by simp) (within_rvalue rhs) fun _ =>
      makes_effect _ _ _

theorem spends_returned (result : TypeId) (vals : List NodeId) (span : Span) :
    Spends (fun _ => vals) (returned result vals span) (fun r => [r.1]) fun _ => True := by
  unfold returned
  split
  · exact .andThen (makes_makeConst _ _ _) fun _ _ => .pure rfl trivial
  · exact .touch (by simp) (within_rvalue _) fun _ => .pure rfl trivial
  · exact .andThen (makes_makeNode _ _ _) fun tuple _ =>
      .touch (by simp) (within_rvalue tuple) fun _ => .pure rfl trivial

@[grind ←] theorem offers_returnStmt (func : FuncId) (vals : List NodeId) (span : Span) :
    Offers vals (returnStmt func vals span) := by
  refine .early rfl <| .guard (.anyM obeys_isErrorExpr) rfl <| .pass (.ask _) fun f =>
    .pass (.ask _) fun result => ?_
  split
  · exact .throw
  · exact Makes.offers <| .andThen (spends_returned _ _ _) fun _ _ => makes_effect _ _ _

@[grind ←] theorem offers_ifStmt (func : FuncId) (cond thenStmt : NodeId) (elseStmt : Option NodeId)
    (span : Span) :
    Offers (cond :: thenStmt :: elseStmt.toList) (ifStmt func cond thenStmt elseStmt span) := by
  refine .early rfl <| .guard (obeys_isErrorExpr _) rfl <| .early rfl <| Makes.offers <|
    .touch (by simp) (within_rvalue cond) fun _ => ?_
  cases elseStmt with
  | some stmt =>
    simp only [pure_bind]
    exact makes_makeStmt _ _
  | none =>
    refine .bind (V := fun _ => [cond, thenStmt]) (makes_makeEmpty span) fun empty _ => ?_
    exact (makes_makeStmt _ _).perm fun _ => List.perm_append_comm

theorem makes_makeSwitch (layout : SwitchLayout) (span : Span) :
    Makes kids (onArena (·.makeSwitch layout kids span)) := by
  intro c id c' two run
  by_cases count : kids.length = layout.childCount
  · simp only [Arena.makeSwitch, count, if_true] at run
    exact makes_make (.switchStmt layout) kids .void span c id c' two run
  · simp only [Arena.makeSwitch, count, if_false] at run
    cases run

@[grind ←] theorem offers_switchStmt (func : FuncId) (value : NodeId) (cases : List (List NodeId))
    (stmts : List NodeId) (span : Span) :
    Offers (value :: cases.flatten ++ stmts) (switchStmt func value cases stmts span) :=
  .ite .throw <| Offers.early rfl <| .guard (obeys_isErrorExpr _) rfl <|
    .guard (.anyM obeys_isErrorExpr) rfl <| .early rfl <| Makes.offers <|
      .touch (by simp) (within_rvalue value) fun _ => .pass (.lift _) fun _ =>
        .touchEach (by simp) within_rvalue (makes_makeSwitch _ _)

@[grind ←] theorem offers_labelStmt (label : Label) : Offers [] (labelStmt label) :=
  .early rfl <| Makes.offers <| .andThen (makes_makeStmt _ _) fun _ plain =>
    .edit sameSlots_of_defineLabel (.pure rfl plain)

/-- The function is told of its new block. -/
@[grind ←] theorem offers_block (func : FuncId) (enclosing : Option NodeId) (vars : List VarId)
    (span : Span) : Offers [] (block func enclosing vars span) := by
  by_cases known : func = .error
  · rw [block, if_pos known]
    exact .sentinel rfl
  refine Makes.offers fun c id c' two run => ?_
  obtain ⟨unknown, -⟩ | ⟨f, arena, found, -, make, rfl⟩ := block_ok run
  · exact absurd unknown known
  obtain ⟨two, plain, h⟩ := makes_makeStmt .blockStmt span c id _ two make
  refine ⟨two, plain, fun rest tidy => ?_⟩
  obtain ⟨tidy', leaves⟩ := h rest tidy
  have edit := Compilation.extends_setFunction (c := { c with arena }) found
    (f.addBlock id vars) rfl
  exact ⟨edit.tidy tidy', leaves.trans (edit.leaves tidy'.toOrderly)⟩

/-! ## First values -/

theorem sized_storeMembers (init : NodeId) (storage : Value) (isArray : Bool) (index : Nat)
    (kids : List NodeId) : Sized (storeMembers init storage isArray index kids) := by
  induction kids generalizing index with
  | nil => exact .of_idle (.pure ())
  | cons kid rest ih =>
    exact .bind (within_rvalue kid).sized fun _ => .bind (obeys_typeOf kid) fun _ =>
      .bind (Sized.of_idle (idle_onTypes _)) fun _ =>
        .bind (Sized.of_idle (idle_createInst _ _)) fun addr =>
        .bind (Sized.of_idle (idle_createInst _ _)) fun store =>
          .bind (sized_appendInst addr) fun _ =>
          .bind (sized_appendInst store) fun _ => ih _

/-- One member is used, and stored through the address of its place. -/
theorem storeMembers_cons {init kid : NodeId} {storage : Value} {isArray : Bool} {index : Nat}
    {rest : List NodeId} {c c' : Compilation} {u : Unit}
    (run : storeMembers init storage isArray index (kid :: rest) c = .ok (u, c')) :
    ∃ v c₁ c₂ ty i j node, rvalue kid c = .ok (v, c₁) ∧ c₁.Extends c₂ ∧
      c₁.insts.slots.size ≤ i.index ∧ c₁.insts.slots.size ≤ j.index ∧
      c₂.insts.find? i = some ⟨if isArray then .elemAddr storage (.const (.int .i64 index))
        else .fieldAddr storage index, ty⟩ ∧
      c₂.insts.find? j = some ⟨.store (.inst i) v, .void⟩ ∧ c₁.arena.find? init = some node ∧
      storeMembers init storage isArray (index + 1) rest
        { c₂ with arena := c₂.arena.set init { node with insts := node.insts ++ [i, j] } } =
          .ok (u, c') := by
  rw [storeMembers] at run
  obtain ⟨v, c₁, used, run⟩ := Run.bind_ok.1 run
  obtain ⟨_, -, run⟩ := typeOf_bind_ok run
  obtain ⟨ty, c₂, typed, run⟩ := Run.bind_ok.1 run
  obtain ⟨i, c₃, first, run⟩ := Run.bind_ok.1 run
  obtain ⟨j, c₄, second, run⟩ := Run.bind_ok.1 run
  obtain ⟨_, c₅, third, run⟩ := Run.bind_ok.1 run
  obtain ⟨_, c₆, fourth, run⟩ := Run.bind_ok.1 run
  have h₃ := (idle_onTypes _ c₁ ty c₂ trivial typed).trans
    (idle_createInst _ _ c₂ i c₃ trivial first)
  have h₄ := idle_createInst _ _ c₃ j c₄ trivial second
  obtain ⟨types, -, rfl⟩ := onTypes_ok typed
  cases first
  cases second
  obtain ⟨_, step, rfl⟩ := changeArena_ok third
  obtain ⟨node, find, -, rfl⟩ := Arena.appendInst_ok step
  obtain ⟨_, step, rfl⟩ := changeArena_ok fourth
  obtain ⟨_, found, -, rfl⟩ := Arena.appendInst_ok step
  cases (Arena.find?_set (Arena.isLive_of_find? find)).symm.trans found
  rw [Arena.set_set, List.append_assoc] at run
  exact ⟨v, c₁, _, ty, _, _, node, used, h₃.trans h₄, Nat.le_refl _, h₃.insts_le,
    (h₄.store (by simp)).trans (InstStore.find?_create ..), InstStore.find?_create .., find, run⟩

/-- Members are stored by instructions of the composite, which takes them from its children. -/
theorem revises_storeMembers {init : NodeId} {storage : Value} {isArray : Bool} {index : Nat}
    {c c' : Compilation} {u : Unit} (o : c.Orderly) (plain : ¬init.isSentinel)
    (sub : ∀ k ∈ kids, ¬k.isSentinel → k ∈ c.arena.kidsOf init)
    (run : storeMembers init storage isArray index kids c = .ok (u, c')) :
    c.Revises c' (c.arena.Below init) := by
  induction kids generalizing c index with
  | nil =>
    obtain ⟨-, rfl⟩ := Run.pure_ok run
    exact .refl _ (Arena.not_isSentinel_of_below plain)
  | cons kid rest ih =>
    obtain ⟨v, c₁, c₂, ty, i, j, node, used, ext, -, -, located, stored, find, run⟩ :=
      storeMembers_cons run
    have h := (within_rvalue kid).revises c v c₁ o used
    have h := h.mono (fun below => below.head (sub kid (by simp) (h.plain .refl)))
      (Arena.not_isSentinel_of_below plain)
    have set := ext.revises_set { node with insts := node.insts ++ [i, j] } find plain rfl rfl rfl
      (by simp [InstStore.lt_of_find? located, InstStore.lt_of_find? stored])
    rw [h.below] at set
    have h := h.trans set
    have later := ih (h.orderly o) (fun k mem other => h.kidsOf init ▸ sub k (by simp [mem]) other)
      run
    rw [h.below] at later
    exact h.trans later

@[grind ←] theorem offers_initStmt (func : FuncId) (var : VarId) (init : NodeId) :
    Offers [init] (initStmt func var init) := by
  refine .early rfl <| .guard (obeys_isErrorVar _) rfl <| .guard (obeys_isErrorExpr _) rfl <|
    .pass (.ask _) fun v => ?_
  intro c a c' two run
  obtain ⟨node, find, run⟩ := getNode_bind_ok run
  split at run
  · have stored : Offers [init] _ := .andThen (offers_varExpr var v.span)
      fun lhs => offers_assign func lhs init v.span
    exact stored c a c' two run
  rename_i building
  obtain ⟨storage, c₁, address, run⟩ := Run.bind_ok.1 run
  have h₁ := idle_variableAddress var c storage c₁ trivial address
  obtain ⟨array, -, run⟩ := ask_bind_ok run
  obtain ⟨node', find', run⟩ := getNode_bind_ok run
  obtain ⟨_, c₂, stored, run⟩ := Run.bind_ok.1 run
  obtain ⟨_, c₃, finished, run⟩ := Run.bind_ok.1 run
  have size : c₃.arena.size = c.arena.size := by
    rw [sized_finishComposite _ c₂ _ c₃ trivial finished,
      sized_storeMembers _ _ _ _ _ c₁ _ c₂ trivial stored, h₁.arena]
  obtain ⟨two, made, h⟩ := makes_makeStmt .exprStmt v.span c₃ a c' (size ▸ two) run
  refine ⟨two, trivial, fun rest tidy => ?_⟩
  have tidy : c.Tidy ([init] ++ rest) := by simpa [made] using tidy
  have plain : ¬init.isSentinel := by
    intro s
    simp [(tidy.blank s find).2] at building
  have tidy₁ := h₁.tidy tidy
  have h₂ := revises_storeMembers tidy₁.toOrderly plain
    (fun k mem other => (Arena.mem_kidsOf find').2 ⟨mem, other⟩) stored
  have tidy₂ := h₂.tidy tidy₁
  have h₃ := (within_finishComposite _).revises c₂ _ c₃ tidy₂.toOrderly finished
  obtain ⟨tidy', leaves⟩ := h rest (h₃.tidy tidy₂)
  refine ⟨tidy', (h₁.leaves tidy.toOrderly).trans ?_⟩
  exact ((h₂.leaves tidy₁ (by simp)).trans (h₃.leaves tidy₂ (by simp))).trans leaves

/-- A temporary takes its first value, if it gets one. -/
theorem spends_temporary (func : FuncId) (block : Option NodeId) (ty : TypeId)
    (init : Option NodeId) (addressTaken : Bool) (span : Span) :
    Spends (fun r => if r.2.isSentinel then [] else init.toList)
      (temporary func block ty init addressTaken span) (fun r => [r.2]) fun _ => True := by
  have refused {used : List NodeId} : Spends (fun r => if r.2.isSentinel then [] else used)
      (pure (VarId.error, NodeId.errorStmt)) (fun r => [r.2]) fun _ => True :=
    (Offers.sentinel rfl).pair _
  refine .ite refused <| .pass (.ask _) fun _ => .ite refused <|
    .pass (.anyM obeys_isErrorExpr) fun _ => .ite refused <| .pass (idle_newLocal _ _ _ _ _ _)
      fun var => ?_
  cases init with
  | some init =>
    have finish := (offers_initStmt func var init).pair var
    cases block with
    | some _ => exact .edit sameSlots_of_addBlockVar finish
    | none => exact finish
  | none =>
    have finish := (makes_makeEmpty span).offers.pair var
    cases block with
    | some _ => exact .edit sameSlots_of_addBlockVar finish
    | none => exact finish

/-! ## Choices -/

/-- Two arms and a condition, and then what the choice gives. -/
theorem serves_choice (func : FuncId) (cond thenStmt elseStmt : NodeId) (span : Span)
    {result : Build NodeId} (made : Offers [] result) :
    Serves [elseStmt, thenStmt, cond] (do
      let choice ← ifStmt func cond thenStmt (some elseStmt) span
      let result ← result
      compoundExpr choice result span) :=
  Spends.andThen ((offers_ifStmt func cond thenStmt (some elseStmt) span).serves.perm
    fun _ => (List.reverse_perm [cond, thenStmt, elseStmt])) fun choice _ =>
      .bind (V := fun _ => [choice]) made.serves fun result _ =>
        (offers_compoundExpr choice result span).serves.perm fun _ => .swap ..

theorem serves_conditional (func : FuncId) (ty : TypeId) (cond thenExpr : NodeId)
    (elseExpr : Option NodeId) (span : Span) :
    Serves (thenExpr :: (elseExpr.toList ++ [cond]))
      (conditional func ty cond thenExpr elseExpr span) := by
  have refused {used : List NodeId} : Serves used (pure .errorExpr) := (Offers.sentinel rfl).serves
  refine .ite refused <| .pass (.ask _) fun _ => .ite refused <|
    .pass (obeys_isErrorExpr _) fun _ =>
    .ite refused <| .pass (obeys_isErrorExpr _) fun _ => .ite refused <|
      .pass (.anyM obeys_isErrorExpr) fun _ => .ite refused <| .ite ?_ ?_
  · refine .bind (T := [thenExpr]) (offers_exprStmt func thenExpr).serves fun thenStmt _ => ?_
    have choose (elseStmt : NodeId) :=
      serves_choice func cond thenStmt elseStmt span (makes_makeConst .void .void span).offers
    dsimp only
    cases elseExpr with
    | some elseExpr =>
      refine Spends.perm (U := fun _ => [elseExpr] ++ [thenStmt, cond]) ?_ fun _ => .swap ..
      exact .bind (offers_exprStmt func elseExpr).serves fun elseStmt _ => choose elseStmt
    | none => exact .bind (T := []) (makes_makeEmpty span) fun elseStmt _ => choose elseStmt
  · cases elseExpr with
    | none => exact .throwWithType
    | some elseExpr =>
      refine .pass (idle_intern _) fun _ => .pass (idle_newLocal _ _ _ _ _ _) fun temp => ?_
      refine .bind (T := []) (offers_varExpr temp span).serves fun thenLhs _ => ?_
      refine .bind (T := [thenLhs, thenExpr]) (offers_assign _ _ _ _).serves fun thenStmt _ => ?_
      refine .bind (T := []) (offers_varExpr temp span).serves fun elseLhs _ => ?_
      refine Spends.perm (U := fun _ => [elseLhs, elseExpr] ++ [thenStmt, cond]) ?_
        fun _ => .cons _ (.swap ..)
      exact .bind (offers_assign _ _ _ _).serves fun elseStmt _ =>
        serves_choice func cond thenStmt elseStmt span (offers_varExpr temp span)

end Build

/-! ## Refusals -/

/-- Whether a question has an answer, and the answer is yes. -/
def Compilation.affirms (c : Compilation) (question : Build Bool) : Bool :=
  match question c with
  | .ok (b, _) => b
  | .error _ => false

namespace Build

variable {c c' : Compilation} {rest : List NodeId} {ty : TypeId} {β : Type}

theorem affirms_of_ok {question : Build Bool} {b : Bool} (h : question c = .ok (b, c')) :
    c.affirms question = b := by
  rw [Compilation.affirms, h]

theorem isErrorType_bind_ok {k : Bool → Build β} {r : β × Compilation}
    (h : (isErrorType ty >>= k) c = .ok r) : k (c.affirms (isErrorType ty)) c = .ok r := by
  obtain ⟨b, c₁, asked, h⟩ := Run.bind_ok.1 h
  rw [affirms_of_ok asked]
  rwa [(ask_ok asked).2] at h

theorem isErrorVar_bind_ok {var : VarId} {k : Bool → Build β} {r : β × Compilation}
    (h : (isErrorVar var >>= k) c = .ok r) : k (c.affirms (isErrorVar var)) c = .ok r := by
  obtain ⟨b, c₁, asked, h⟩ := Run.bind_ok.1 h
  rw [affirms_of_ok asked]
  obtain ⟨v, -, asked⟩ := getVariable_bind_ok asked
  rwa [(Run.pure_ok asked).2] at h

theorem isErrorExpr_same {expr : NodeId} {b : Bool} (h : isErrorExpr expr c = .ok (b, c')) :
    c' = c := by
  rw [isErrorExpr] at h
  split at h
  · exact (Run.pure_ok h).2
  · obtain ⟨node, -, h⟩ := getNode_bind_ok h
    exact (ask_ok h).2

theorem isErrorExpr_bind_ok {expr : NodeId} {k : Bool → Build β} {r : β × Compilation}
    (h : (isErrorExpr expr >>= k) c = .ok r) : k (c.affirms (isErrorExpr expr)) c = .ok r := by
  obtain ⟨b, c₁, asked, h⟩ := Run.bind_ok.1 h
  rw [affirms_of_ok asked]
  rwa [isErrorExpr_same asked] at h

theorem anyM_isErrorExpr_bind_ok {exprs : List NodeId} {k : Bool → Build β} {r : β × Compilation}
    (h : (exprs.anyM isErrorExpr >>= k) c = .ok r) :
    k (exprs.any fun expr => c.affirms (isErrorExpr expr)) c = .ok r := by
  induction exprs with
  | nil => exact h
  | cons expr exprs ih =>
    rw [List.anyM_cons, bind_assoc] at h
    have h := isErrorExpr_bind_ok h
    rw [List.any_cons]
    cases yes : c.affirms (isErrorExpr expr) with
    | true =>
      simp only [yes] at h
      exact h
    | false =>
      simp only [yes] at h
      exact ih h

/-- A choice of which an operand is an error is not built. -/
theorem conditional_refused {func : FuncId} {cond thenExpr : NodeId} {elseExpr : Option NodeId}
    {span : Span} {id : NodeId}
    (refused : func = .error ∨ c.affirms (isErrorType ty) ∨
      (cond :: thenExpr :: elseExpr.toList).any fun expr => c.affirms (isErrorExpr expr))
    (run : conditional func ty cond thenExpr elseExpr span c = .ok (id, c')) :
    id = .errorExpr ∧ c' = c := by
  unfold conditional at run
  split at run
  · exact Run.pure_ok run
  rename_i func_ne
  have run := isErrorType_bind_ok run
  split at run
  · exact Run.pure_ok run
  rename_i typed
  have run := isErrorExpr_bind_ok run
  split at run
  · exact Run.pure_ok run
  rename_i first
  have run := isErrorExpr_bind_ok run
  split at run
  · exact Run.pure_ok run
  rename_i second
  have run := anyM_isErrorExpr_bind_ok run
  split at run
  · exact Run.pure_ok run
  rename_i third
  simp only [List.any_cons, func_ne, typed, first, second, third, Bool.false_eq_true, Bool.or_false,
    or_self] at refused

/-- A choice takes its operands, unless one of them is an error. -/
theorem tidy_conditional {func : FuncId} {cond thenExpr : NodeId} {elseExpr : Option NodeId}
    {span : Span} {id : NodeId}
    (t : c.Tidy ((if func = .error ∨ c.affirms (isErrorType ty) ∨
        (cond :: thenExpr :: elseExpr.toList).any fun expr => c.affirms (isErrorExpr expr)
      then [] else cond :: thenExpr :: elseExpr.toList) ++ rest))
    (run : conditional func ty cond thenExpr elseExpr span c = .ok (id, c')) :
    c'.Tidy (id :: rest) ∧ c.Leaves c' rest := by
  split at t
  · rename_i refused
    obtain ⟨rfl, rfl⟩ := conditional_refused refused run
    exact ⟨t.sentinel rfl, .refl _ _⟩
  · have swap : ([cond] ++ thenExpr :: elseExpr.toList).Perm
      (thenExpr :: elseExpr.toList ++ [cond]) :=
      List.perm_append_comm
    exact (serves_conditional func ty cond thenExpr elseExpr span c id c' t.sentinels run).2.2 rest
      (t.perm (swap.append_right rest))

end Build

end Codegen
