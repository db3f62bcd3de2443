import Codegen.Proofs.Compilation.Expressions

/-!
Every statement constructor keeps compilations sound. Blocks and labels are noted in a function,
whose slots they leave alone.
-/

namespace Codegen

theorem Fact.hosts_mono {c : Compilation} {id : NodeId} {kids kids' : List NodeId}
    (h : (hosts id kids).holds c) (sub : kids' ⊆ kids) : (hosts id kids').holds c :=
  ⟨h.1, h.2.1, fun node find => ⟨(h.2.2 node find).1, List.Subset.trans sub (h.2.2 node find).2⟩⟩

/-- A node that takes instructions, looked at again. -/
theorem Fact.hosts_of_known {c : Compilation} {id : NodeId} {kids : List NodeId} {node : Node}
    (h : (hosts id kids).holds c) (k : (known id node).holds c) : (hosts id node.kids).holds c :=
  ⟨h.1, h.2.1, fun node' find => ⟨(h.2.2 node' find).1, (k.2.2.2 node' find).2⟩⟩

namespace Build

variable {P : Fact} {c : Compilation}

attribute [local grind unfold] getNode getFunction getVariable isErrorType typeName

theorem keeps_makeStmt {kind : NodeKind} (plain : ∀ l, kind ≠ .switchStmt l) (kids : List NodeId)
    (span : Span) : Keeps P (makeStmt kind kids span) (.node kind kids) :=
  keeps_make .void span fun l e => absurd e (plain l)

@[grind ←] theorem steady_exprStmt (func : FuncId) (expr : NodeId) :
    Steady (exprStmt func expr) := by
  unfold exprStmt
  grind

@[grind ←] theorem steady_assign (func : FuncId) (lhs rhs : NodeId) (span : Span) :
    Steady (assign func lhs rhs span) := by
  refine .ite (.pure _) <| .guard (obeys_isErrorExpr _) <| .guard (obeys_isErrorExpr _) <|
    Keeps.steady <| .bind keeps_lvalue fun ptr => .bind keeps_rvalue fun value =>
      .bind (keeps_makeStmt (by simp) _ span) fun id =>
        .bind (keeps_attach .void rfl fun c h => ?_) fun _ =>
        .of_steady (steady_makeStmt Bool.false_ne_true)
  exact sourced_operands (h.2.1 rfl) (sourced_pair h.1.1.2 h.1.2)

/-- The address of a member and the store of its value are attached together, before other steps. -/
theorem keeps_storeMember {α : Type} {Q : α → Fact} {init : NodeId} {addrKind : InstKind}
    {ptrType : TypeId} {value : Value} (slot : addrKind.isAlloca = false)
    (noRet : addrKind.isRet = false)
    (pre : ∀ c, P.holds c → ¬init.isSentinel ∧ c.Sourced [init] value ∧
      ∀ v ∈ addrKind.operands, c.Sourced [init] v) {k : Build α} (hk : Keeps P k Q) :
    Keeps P (do
      let addr ← createInst addrKind ptrType
      let store ← createInst (.store (.inst addr) value) .void
      changeArena (·.appendInst init addr)
      changeArena (·.appendInst init store)
      k) Q := by
  intro c a c' sound hp run
  obtain ⟨addr, c₁, first, run⟩ := Run.bind_ok.1 run
  obtain ⟨store, c₂, second, run⟩ := Run.bind_ok.1 run
  obtain ⟨_, c₃, third, run⟩ := Run.bind_ok.1 run
  obtain ⟨_, c₄, fourth, last⟩ := Run.bind_ok.1 run
  obtain ⟨sound₁, g₁, madeAddr⟩ := keeps_createInst _ _ c _ c₁ sound hp first
  obtain ⟨sound₂, g₂, madeStore⟩ := keeps_createInst _ _ c₁ _ c₂ sound₁ (P.lasts sound g₁ hp) second
  have hp₂ := P.lasts sound₁ g₂ (P.lasts sound g₁ hp)
  have madeAddr := (Fact.made addr addrKind).lasts sound₁ g₂ madeAddr
  cases first
  cases second
  obtain ⟨notSentinel, _, operands⟩ := pre _ hp₂
  obtain ⟨sound₃, g₃, sourced, others⟩ := sound_appendInst sound₂ madeAddr
    (sound.not_mem_instsOf (Nat.le_refl _)) slot notSentinel operands third
  have hp₃ := P.lasts sound₂ g₃ hp₂
  have madeStore := (Fact.made _ _).lasts sound₂ g₃ madeStore
  have free := others ⟨c.insts.slots.size + 1⟩ (by simp) (sound.not_mem_instsOf (Nat.le_succ _))
  obtain ⟨_, sourcedValue, _⟩ := pre _ hp₃
  have next : (⟨(c.insts.create addrKind ptrType).2.slots.size⟩ : InstId) =
      ⟨c.insts.slots.size + 1⟩ := by simp [InstStore.create]
  obtain ⟨sound₄, g₄, _⟩ := sound_appendInst sound₃ madeStore (next ▸ free) rfl notSentinel
    (by simp [InstKind.operands, sourced noRet, sourcedValue]) fourth
  obtain ⟨sound₅, g₅, hq⟩ := hk c₄ a c' sound₄ (P.lasts sound₃ g₄ hp₃) last
  exact ⟨sound₅, (((g₁.trans g₂).trans g₃).trans g₄).trans g₅, hq⟩

/-- Members are stored at addresses that are computed from the storage, one after the other. -/
theorem keeps_storeMembers {init : NodeId} {storage : Value} {isArray : Bool} (index : Nat)
    {kids : List NodeId}
    (pre : ∀ c, P.holds c → (Fact.hosts init kids).holds c ∧ c.Sourced [init] storage) :
    Keeps P (storeMembers init storage isArray index kids) fun _ => .none := by
  induction kids generalizing P index with
  | nil => exact .pure fun _ _ => trivial
  | cons kid rest ih =>
    refine .bind keeps_rvalue fun value => .pass (obeys_typeOf _) fun ty =>
      .pass (steady_onTypes _) fun ptrType => keeps_storeMember ?_ ?_ (fun c h => ?_)
        (ih (index + 1) fun c h => ?_)
    · cases isArray <;> rfl
    · cases isArray <;> rfl
    · have ⟨hosts, sourced⟩ := pre c h.1
      have value : c.Sourced [init] value :=
        Compilation.Sourced.up (Compilation.Sourced.mono h.2 (by simp)) hosts
      refine ⟨hosts.2.1, value, ?_⟩
      cases isArray <;> simp [InstKind.operands, sourced, Compilation.sourced_of_ne]
    · have ⟨hosts, sourced⟩ := pre c h.1
      exact ⟨Fact.hosts_mono hosts (by simp), sourced⟩

@[grind ←] theorem steady_initStmt (func : FuncId) (var : VarId) (init : NodeId) :
    Steady (initStmt func var init) := by
  refine .ite (.pure _) <| .guard (obeys_isErrorVar _) <| .guard (obeys_isErrorExpr _) <|
    .bind (.ask _) fun v => Keeps.steady <| .bind keeps_getNode fun node => .ite (fun _ => ?_)
      fun building => ?_
  · exact .of_steady <| .bind (steady_varExpr _ _) fun lhs => steady_assign _ _ _ _
  · refine .bind (keeps_variableAddress _) fun storage => .pass (.ask _) fun array =>
      .bind keeps_getNode fun node' => .bind (keeps_storeMembers 0 fun c h => ?_) fun _ =>
        .bind (keeps_finishComposite fun c h => ?_) fun _ =>
          .of_steady (steady_makeStmt Bool.false_ne_true)
    · have hosts := Fact.hosts_of_building h.1.1.2 (by simpa using building)
      exact ⟨Fact.hosts_of_known hosts h.2, Compilation.Sourced.mono h.1.2 (by simp)⟩
    · exact Compilation.sourced_of_ne (by simp)

/-- What is returned comes from the child of the return. -/
theorem keeps_returned (result : TypeId) (vals : List NodeId) (span : Span) :
    Keeps P (returned result vals span) fun r => .all r.2.toList (.sourced [r.1]) := by
  unfold returned
  split
  · exact .pass (steady_makeConst _ _ _) fun child => .pure fun c _ v mem => by simp at mem
  · refine .bind keeps_rvalue fun value => .pure fun c h v mem => ?_
    cases List.mem_singleton.1 mem
    exact h.2
  · refine .pass (steady_makeNode Bool.false_ne_true) fun tuple => .bind keeps_rvalue fun value =>
      .pure fun c h v mem => ?_
    cases List.mem_singleton.1 mem
    exact h.2

@[grind ←] theorem steady_returnStmt (func : FuncId) (vals : List NodeId) (span : Span) :
    Steady (returnStmt func vals span) := by
  refine .ite (.pure _) <| .guard (.anyM obeys_isErrorExpr) <| .bind (.ask _) fun f =>
    .bind (.ask _) fun result => ?_
  split
  · exact .throw _
  · refine Keeps.steady <| .bind (keeps_returned _ _ _) fun ⟨child, value⟩ =>
      .bind (keeps_makeStmt (by simp) _ _) fun id => .bind (keeps_attach .void rfl fun c h => ?_)
        fun _ => .of_steady (steady_makeStmt Bool.false_ne_true)
    exact sourced_operands (h.2.1 rfl) h.1.2

@[grind ←] theorem steady_ifStmt (func : FuncId) (cond thenStmt : NodeId) (elseStmt : Option NodeId)
    (span : Span) : Steady (ifStmt func cond thenStmt elseStmt span) := by
  unfold ifStmt
  grind

@[grind ←] theorem steady_switchStmt (func : FuncId) (value : NodeId) (cases : List (List NodeId))
    (stmts : List NodeId) (span : Span) : Steady (switchStmt func value cases stmts span) := by
  refine .ite (.throw _) <| .ite (.pure _) <| .guard (obeys_isErrorExpr _) <|
    .guard (.anyM obeys_isErrorExpr) <| .ite (.pure _) <| .bind (steady_rvalue _) fun _ =>
      .bind (.lift _) fun layout =>
        .bind (.forM fun v => .bind (steady_rvalue v) fun _ => .pure _) fun _ =>
          Keeps.steady <| keeps_onArena_ite
            (fun count => (keeps_make .void span fun l e => by cases e; exact count).forget)
            fun _ => keeps_onArena_error _

@[grind ←] theorem steady_addToBlock (block : NodeId) (stmts : List NodeId) :
    Steady (addToBlock block stmts) := .ite (.pure _) (.forM steady_appendChild)

/-! ## Blocks and labels -/

/-- A block is a new node within a block of its function, which is told of it. -/
theorem block_ok {func : FuncId} {enclosing : Option NodeId} {vars : List VarId} {span : Span}
    {id : NodeId} (run : block func enclosing vars span c = .ok (id, c')) :
    (func = .error ∧ id = .errorStmt ∧ c' = c) ∨ ∃ f arena, c.functions[func.index]? = some f ∧
      (∀ b ∈ enclosing, f.hasBlock b) ∧ makeStmt .blockStmt [] span c = .ok (id, { c with arena }) ∧
      c' = { c with arena, functions :=
        c.functions.modify func.index fun _ => f.addBlock id vars } := by
  unfold block at run
  split at run
  · obtain ⟨rfl, rfl⟩ := Run.pure_ok run
    exact .inl ⟨‹_›, rfl, rfl⟩
  obtain ⟨f, found, run⟩ := getFunction_bind_ok run
  cases outer : enclosing.filter (!f.hasBlock ·) with
  | some outer' =>
    simp only [outer] at run
    cases run
  | none =>
    simp only [outer] at run
    obtain ⟨new, c₁, make, run⟩ := Run.bind_ok.1 run
    obtain ⟨arena, _, rfl⟩ := onArena_ok make
    rw [setFunction_bind] at run
    obtain ⟨rfl, rfl⟩ := Run.pure_ok run
    exact .inr ⟨f, arena, found, by simpa [Option.filter_eq_none_iff] using outer, make, rfl⟩

@[grind ←] theorem steady_block (func : FuncId) (enclosing : Option NodeId) (vars : List VarId)
    (span : Span) : Steady (block func enclosing vars span) := by
  intro c id c' sound run
  obtain ⟨-, -, rfl⟩ | ⟨f, arena, found, -, make, rfl⟩ := block_ok run
  · exact ⟨sound, .refl _⟩
  have ⟨sound₁, g⟩ := steady_makeStmt (by decide) c id _ sound make
  have ⟨sound₂, g₂⟩ := sound_setFunction sound₁ found (f.addBlock id vars) ⟨rfl, rfl, rfl, rfl⟩
  exact ⟨sound₂, g.trans g₂⟩

@[grind ←] theorem steady_label (func : FuncId) (span : Span) : Steady (label func span) := by
  intro c a c' sound run
  obtain ⟨f, found, run⟩ := getFunction_bind_ok run
  cases run
  exact sound_setFunction sound found (f.newLabel span).2 ⟨rfl, rfl, rfl, rfl⟩

/-- A function is changed where its slots are left alone, before other steps. -/
theorem steady_editFunction {α : Type} {func : FuncId} {change : Function → Except Fault Function}
    (same : ∀ {f f'}, change f = .ok f' → f.SameSlots f') {k : Build α} (hk : Steady k) :
    Steady (do
      let f ← getFunction func
      let f' ← change f
      setFunction func f'
      k) := by
  intro c a c' sound run
  obtain ⟨f, found, run⟩ := getFunction_bind_ok run
  obtain ⟨f', e, run⟩ := Run.lift_bind_ok run
  rw [setFunction_bind] at run
  have ⟨sound₁, g⟩ := sound_setFunction sound found f' (same e)
  have ⟨sound₂, g'⟩ := hk _ a c' sound₁ run
  exact ⟨sound₂, g.trans g'⟩

theorem sameSlots_of_defineLabel {f f' : Function} {label : Label} {stmt : NodeId}
    (h : f.defineLabel label stmt = .ok f') : f.SameSlots f' := by
  unfold Function.defineLabel at h
  split at h
  · cases h
  · split at h
    · cases h
    · cases h
    · cases h
      exact ⟨rfl, rfl, rfl, rfl⟩

theorem sameSlots_of_addBlockVar {f f' : Function} {block : NodeId} {var : VarId}
    (h : f.addBlockVar block var = .ok f') : f.SameSlots f' := by
  unfold Function.addBlockVar at h
  split at h
  · cases h
    exact ⟨rfl, rfl, rfl, rfl⟩
  · cases h

@[grind ←] theorem steady_labelStmt (label : Label) : Steady (labelStmt label) :=
  .ite (.pure _) <| .bind (steady_makeStmt Bool.false_ne_true) fun _ =>
    steady_editFunction sameSlots_of_defineLabel (.pure _)

@[grind ←] theorem steady_temporary (func : FuncId) (block : Option NodeId) (ty : TypeId)
    (init : Option NodeId) (addressTaken : Bool) (span : Span) :
    Steady (temporary func block ty init addressTaken span) := by
  refine .ite (.pure _) <| .guard (.ask _) <| .guard (.anyM obeys_isErrorExpr) <|
    .bind (steady_newLocal _ _ _ _ _ _) fun var => ?_
  cases block with
  | none => cases init <;> grind
  | some block => cases init <;> exact steady_editFunction sameSlots_of_addBlockVar (by grind)

@[grind ←] theorem steady_conditional (func : FuncId) (ty : TypeId) (cond thenExpr : NodeId)
    (elseExpr : Option NodeId) (span : Span) :
    Steady (conditional func ty cond thenExpr elseExpr span) := by
  refine .ite (.pure _) <| .guard (.ask _) <| .guard (obeys_isErrorExpr _) <|
    .guard (obeys_isErrorExpr _) <| .guard (.anyM obeys_isErrorExpr) <| .ite ?_ ?_
  · refine .bind (steady_exprStmt _ _) fun _ => ?_
    cases elseExpr <;> grind
  cases elseExpr with
  | none => grind
  | some _ =>
    refine .bind (steady_intern _) fun _ => .bind (steady_newLocal _ _ _ _ _ _) fun _ =>
      .bind (steady_varExpr _ _) fun _ => .bind (steady_assign _ _ _ _) fun _ => ?_
    grind

end Build

end Codegen
