import Codegen.Proofs.Compilation.Slots
import Codegen.Proofs.Requests.Basic

/-!
Requests with an error among their arguments. Whatever is built is built after all arguments have
been looked at, so that a request with an error among them is answered by the sentinel of its own
category and leaves everything as it was.
-/

namespace Codegen

namespace TypeTable

variable {t : TypeTable}

/-- A handle is looked at if it is in the table. -/
theorem isError_eq_ok_iff {id : TypeId} : (∃ b, t.isError id = .ok b) ↔ id = .error ∨
    id.index < t.size := by
  unfold isError
  split
  · exact ⟨fun _ => .inl ‹_›, fun _ => ⟨true, rfl⟩⟩
  · rename_i other
    rw [form]
    constructor
    · rintro ⟨b, done⟩
      cases found : t.types[id.index]? with
      | none => simp only [found] at done; cases done
      | some e => exact .inr (Array.getElem?_eq_some_iff.1 found).1
    · intro known
      have lt : id.index < t.types.size := known.resolve_left other
      rw [Array.getElem?_eq_getElem lt]
      exact ⟨_, rfl⟩

end TypeTable

namespace Compilation

/-- Whether an argument is an error. -/
def errs (c : Compilation) : Arg Category.Handle → Except Fault Bool
  | .type id => c.types.isError id
  | .expr id => if id = .errorExpr then .ok true else do c.types.isError (← c.arena.get id).ty
  | .stmt id => .ok (id = .errorStmt)
  | .var id => do return (← Build.entry c.vars id.index).isError
  | .func id => .ok (id = .error)

/-- The error type, or a placeholder resolved with an error. -/
def FaultyType (c : Compilation) (id : TypeId) : Prop := id = .error ∨ c.types.form id = .ok .error

/-- What an error is, category by category. -/
def Faulty (c : Compilation) : Arg Category.Handle → Prop
  | .type id => c.FaultyType id
  | .expr id => id = .errorExpr ∨ ∃ node, c.arena.find? id = some node ∧ c.FaultyType node.ty
  | .stmt id => id = .errorStmt
  | .var id => ∃ v, c.vars[id.index]? = some v ∧ v.isError
  | .func id => id = .error

/-- A type of the table. -/
def HasType (c : Compilation) (id : TypeId) : Prop := id.index < c.types.size

instance (c : Compilation) (id : TypeId) : Decidable (c.HasType id) :=
  inferInstanceAs (Decidable (_ < _))

/-- What has to be there for an argument to be looked at. Sentinels are told by their handles, and
so are all statements and functions. -/
def Knows (c : Compilation) : Arg Category.Handle → Prop
  | .type id => id = .error ∨ c.HasType id
  | .expr id => id = .errorExpr ∨ ∃ node, c.arena.find? id = some node ∧ c.HasType node.ty
  | .var id => id.index < c.vars.size
  | .stmt _ | .func _ => True

variable {c : Compilation} {a : Arg Category.Handle} {id : TypeId}

theorem isError_of_faulty (h : c.FaultyType id) : c.types.isError id = .ok true := by
  unfold TypeTable.isError
  split
  · rfl
  · rename_i other
    rw [h.resolve_left other]
    rfl

theorem exists_isError (h : id = .error ∨ c.HasType id) :
    ∃ b, c.types.isError id = .ok b := TypeTable.isError_eq_ok_iff.2 h

theorem errs_of_faulty (h : c.Faulty a) : c.errs a = .ok true := by
  cases a with
  | type id => exact isError_of_faulty h
  | expr id =>
    rw [errs]
    split
    · rfl
    · rename_i other
      obtain ⟨node, find, faulty⟩ := h.resolve_left other
      rw [Arena.get_eq_ok.2 find]
      exact isError_of_faulty faulty
  | stmt id => simp [errs, show id = .errorStmt from h]
  | var id =>
    obtain ⟨v, found, error⟩ := h
    rw [errs, Build.entry, found]
    exact congrArg Except.ok error
  | func id => simp [errs, show id = .error from h]

theorem faultyType_of_isError (h : c.types.isError id = .ok true) : c.FaultyType id := by
  unfold TypeTable.isError at h
  split at h
  · exact .inl ‹_›
  · obtain ⟨form, e, h⟩ := bind_eq_ok.1 h
    simp only [pure_eq_ok, beq_iff_eq] at h
    exact .inr (h ▸ e)

theorem faulty_of_errs (h : c.errs a = .ok true) : c.Faulty a := by
  cases a with
  | type id => exact faultyType_of_isError h
  | expr id =>
    rw [errs] at h
    split at h
    · exact .inl ‹_›
    · obtain ⟨node, got, h⟩ := bind_eq_ok.1 h
      exact .inr ⟨node, Arena.get_eq_ok.1 got, faultyType_of_isError h⟩
  | stmt id | func id => simpa [errs, Faulty] using h
  | var id =>
    obtain ⟨v, found, h⟩ := bind_eq_ok.1 h
    exact ⟨v, Build.entry_ok found, Except.ok.inj h⟩

theorem exists_errs (h : c.Knows a) : ∃ b, c.errs a = .ok b := by
  cases a with
  | type id => exact exists_isError h
  | expr id =>
    rw [errs]
    split
    · exact ⟨true, rfl⟩
    · rename_i other
      obtain ⟨node, find, known⟩ := h.resolve_left other
      rw [Arena.get_eq_ok.2 find]
      exact exists_isError (.inr known)
  | stmt id => exact ⟨_, rfl⟩
  | var id =>
    have found : c.vars[id.index]? = some c.vars[id.index] := Array.getElem?_eq_getElem h
    exact ⟨_, by rw [errs, Build.entry, found]; rfl⟩
  | func id => exact ⟨_, rfl⟩

end Compilation

/-! ## Looking at arguments first -/

/-- A step that looks at some arguments one after the other, does nothing if it meets an error, and
else goes on. -/
def Guarded {α : Type} (args : List (Arg Category.Handle)) (refusal : α) (op body : Build α) :
    Prop :=
  ∀ c, op c = (do if ← args.anyM c.errs then return (refusal, c) else body c)

namespace Guarded

variable {α β : Type} {args : List (Arg Category.Handle)} {a : Arg Category.Handle} {s : α}
  {op op' body : Build α}

theorem nil (s : α) (op : Build α) : Guarded [] s op op := fun _ => rfl

/-- One more argument is looked at before the others. -/
theorem cons (rest : Guarded args s op body)
    (first : ∀ c, op' c = (do if ← c.errs a then return (s, c) else op c)) :
    Guarded (a :: args) s op' body := by
  intro c
  rw [first c, List.anyM_cons]
  cases c.errs a with
  | error fault => rfl
  | ok bad =>
    cases bad with
    | true => rfl
    | false => exact rest c

/-- A test that asks whether an argument is an error. -/
theorem test {test : Build Bool} (rest : Guarded args s op body)
    (asks : ∀ c, test c = (c.errs a).map (·, c)) :
    Guarded (a :: args) s (test >>= fun bad => if bad = true then pure s else op) body := by
  refine rest.cons fun c => ?_
  change (test c >>= _) = _
  rw [asks c]
  cases c.errs a with
  | error fault => rfl
  | ok bad => cases bad <;> rfl

theorem type {ty : TypeId} (rest : Guarded args s op body) : Guarded (.type ty :: args) s
    (Build.isErrorType ty >>= fun bad => if bad = true then pure s else op) body :=
  rest.test fun c => by
    change (c.types.isError ty >>= fun b => pure (b, c)) = _
    cases h : c.types.isError ty <;> simp [Compilation.errs, h] <;> rfl

theorem isErrorExpr_eq (expr : NodeId) (c : Compilation) :
    Build.isErrorExpr expr c = (c.errs (.expr expr)).map (·, c) := by
  rw [Build.isErrorExpr, Compilation.errs]
  split
  · rfl
  · change ((c.arena.get expr >>= fun node => pure (node, c)) >>= fun r =>
      (r.2.types.isError r.1.ty >>= fun b => pure (b, r.2))) = _
    cases h : c.arena.get expr with
    | error => rfl
    | ok node =>
      change (c.types.isError node.ty >>= fun b => pure (b, c)) = (c.types.isError node.ty).map _
      cases c.types.isError node.ty <;> rfl

theorem expr {expr : NodeId} (rest : Guarded args s op body) : Guarded (.expr expr :: args) s
    (Build.isErrorExpr expr >>= fun bad => if bad = true then pure s else op) body :=
  rest.test (isErrorExpr_eq expr)

theorem isErrorVar_eq (var : VarId) (c : Compilation) :
    Build.isErrorVar var c = (c.errs (.var var)).map (·, c) := by
  change ((Build.entry c.vars var.index >>= fun v => pure (v, c)) >>= fun r =>
    pure (r.1.isError, r.2)) = (Build.entry c.vars var.index >>= fun v => pure v.isError).map _
  cases Build.entry c.vars var.index <;> rfl

theorem var {var : VarId} (rest : Guarded args s op body) : Guarded (.var var :: args) s
    (Build.isErrorVar var >>= fun bad => if bad = true then pure s else op) body :=
  rest.test (isErrorVar_eq var)

theorem func {func : FuncId} (rest : Guarded args s op body) :
    Guarded (.func func :: args) s (if func = .error then pure s else op) body := by
  refine rest.cons fun c => ?_
  by_cases h : func = .error <;> simp [Compilation.errs, h] <;> rfl

theorem stmt {stmt : NodeId} (rest : Guarded args s op body) :
    Guarded (.stmt stmt :: args) s (if stmt = .errorStmt then pure s else op) body := by
  refine rest.cons fun c => ?_
  by_cases h : stmt = .errorStmt <;> simp [Compilation.errs, h] <;> rfl

/-- Several arguments of one category, looked at in a row. -/
theorem tests {ι : Type} {test : ι → Build Bool} {arg : ι → Arg Category.Handle} (xs : List ι)
    (asks : ∀ x c, test x c = (c.errs (arg x)).map (·, c)) (rest : Guarded args s op body) :
    Guarded (xs.map arg ++ args) s
      (xs.anyM test >>= fun bad => if bad = true then pure s else op) body := by
  induction xs with
  | nil => exact rest
  | cons x xs ih =>
    refine ih.cons fun c => ?_
    rw [List.anyM_cons]
    change ((test x c >>= fun r => _) >>= _) = _
    rw [asks x c]
    cases c.errs (arg x) with
    | error => rfl
    | ok bad => cases bad <;> rfl

theorem exprs (xs : List NodeId) (rest : Guarded args s op body) :
    Guarded (xs.map (Arg.expr (A := Category.Handle)) ++ args) s
    (xs.anyM Build.isErrorExpr >>= fun bad => if bad = true then pure s else op) body :=
  rest.tests xs isErrorExpr_eq

theorem vars (xs : List VarId) (rest : Guarded args s op body) :
    Guarded (xs.map (Arg.var (A := Category.Handle)) ++ args) s
    (xs.anyM Build.isErrorVar >>= fun bad => if bad = true then pure s else op) body :=
  rest.tests xs isErrorVar_eq

theorem stmts (xs : List NodeId) (rest : Guarded args s op body) :
    Guarded (xs.map (Arg.stmt (A := Category.Handle)) ++ args) s
      (if .errorStmt ∈ xs then pure s else op) body := by
  induction xs with
  | nil => exact rest
  | cons x xs ih =>
    refine ih.cons fun c => ?_
    by_cases h : x = .errorStmt <;>
      simp [Compilation.errs, h, eq_comm (a := NodeId.errorStmt)] <;> rfl

theorem congr (h : Guarded args s op body) (same : op' = op) : Guarded args s op' body := same ▸ h

theorem last (h : Guarded (args ++ []) s op body) : Guarded args s op body := by
  rwa [List.append_nil] at h

theorem map (h : Guarded args s op body) (f : α → β) :
    Guarded args (f s) (f <$> op) (f <$> body) := by
  intro c
  change (op c >>= _) = _
  rw [h c]
  cases args.anyM c.errs with
  | error => rfl
  | ok bad => cases bad <;> rfl

/-- Without an error among the arguments the step goes on. -/
theorem eq_body {c : Compilation} (h : Guarded args s op body)
    (looked : args.anyM c.errs = .ok false) : op c = body c := by
  rw [h c, looked]
  rfl

/-- An error among the arguments is noticed before anything is done. -/
theorem eq_refusal {c : Compilation} (h : Guarded args s op body) (known : ∀ a ∈ args, c.Knows a)
    (mem : a ∈ args) (faulty : c.Faulty a) : op c = .ok (s, c) := by
  rw [h c, anyM_eq_ok_true (fun x hx => Compilation.exists_errs (known x hx)) mem
    (Compilation.errs_of_faulty faulty)]
  rfl

end Guarded

namespace Guarded

variable {α : Type} {args : List (Arg Category.Handle)} {s : α} {op body : Build α}

/-- A statement that is looked at in one test with others. -/
theorem stmt_or {x : NodeId} {p : Prop} [Decidable p]
    (rest : Guarded args s (if p then pure s else op) body) :
    Guarded (.stmt x :: args) s (if x = .errorStmt ∨ p then pure s else op) body :=
  rest.stmt.congr (by by_cases h : x = .errorStmt <;> simp [h])

theorem option_stmt {x : Option NodeId} (rest : Guarded args s op body) :
    Guarded (x.toList.map (Arg.stmt (A := Category.Handle)) ++ args) s
      (if x = some .errorStmt then pure s else op) body :=
  (rest.stmts x.toList).congr (by cases x <;> simp [eq_comm])

theorem func_or {f : FuncId} {p : Prop} [Decidable p]
    (rest : Guarded args s (if p then pure s else op) body) :
    Guarded (.func f :: args) s (if f = .error ∨ p then pure s else op) body :=
  rest.func.congr (by by_cases h : f = .error <;> simp [h])

/-- A variable that is taken out of its table once for the test and for what follows. -/
theorem variable_test {x : VarId} {k : Variable → Build α} :
    Guarded [.var x] s (Build.getVariable x >>= fun v => if v.isError = true then pure s else k v)
      (Build.getVariable x >>= k) := by
  refine (Guarded.nil s (Build.getVariable x >>= k)).cons fun c => ?_
  change ((Build.entry c.vars x.index >>= fun v => pure (v, c)) >>= fun r => _) =
    ((Build.entry c.vars x.index >>= fun v => pure v.isError) >>= fun b => if b = true then _ else
      ((Build.entry c.vars x.index >>= fun v => pure (v, c)) >>= fun r => k r.1 r.2))
  cases Build.entry c.vars x.index with
  | error => rfl
  | ok v =>
    change (if v.isError = true then (pure s : Build α) else k v) c =
      if v.isError = true then pure (s, c) else k v c
    split <;> rfl

end Guarded

namespace Request

/-- Every request with a refusal looks at its arguments first. -/
theorem guarded {r : Request Category.Handle} {refusal : Reply} (h : r.refusal? = some refusal)
    (counted : r.counted) : ∃ body, Guarded r.checked refusal r.run body := by
  cases r <;> cases h
  -- types alone, functions alone, one expression
  case zero | integerConstant | floatConstant | complexConstant | globalVariable | immutableStruct
    | declareFunction => exact ⟨_, .map (.type <| .nil _ _) _⟩
  case functionCode | block | labelStmt | gotoStmt => exact ⟨_, .map (.func <| .nil _ _) _⟩
  case addressOf | unary | structField | realPart | imagPart =>
    exact ⟨_, .map (.expr <| .nil _ _) _⟩
  case varExpr => exact ⟨_, .map .variable_test _⟩
  -- a fixed number of arguments
  case indirect | convert => exact ⟨_, .map (.type <| .expr <| .nil _ _) _⟩
  case binary | complexExpr | arrayIndex | pointerOffset =>
    exact ⟨_, .map (.expr <| .expr <| .nil _ _) _⟩
  case compoundExpr => exact ⟨_, .map (.stmt <| .expr <| .nil _ _) _⟩
  case compoundStmt => exact ⟨_, .map (.stmt_or <| .stmt <| .nil _ _) _⟩
  case exprStmt => exact ⟨_, .map (.func <| .expr <| .nil _ _) _⟩
  case assign => exact ⟨_, .map (.func <| .expr <| .expr <| .nil _ _) _⟩
  case initStmt => exact ⟨_, .map (.func <| .var <| .expr <| .nil _ _) _⟩
  case localVariable | parameterVariable => exact ⟨_, .map (.func <| .type <| .nil _ _) _⟩
  case setGlobalInit => exact ⟨_, .map (.var <| .expr <| .nil _ _) _⟩
  case setBody => exact ⟨_, .map (.func_or <| .stmt <| .nil _ _) _⟩
  -- lists and options
  case structLiteral vals _ => exact ⟨_, .map (.type <| .last <| .exprs vals <| .nil _ _) _⟩
  case arrayLiteral vals _ => exact ⟨_, .map (.type <| .last <| .exprs vals <| .nil _ _) _⟩
  case call args _ => exact ⟨_, .map (.expr <| .last <| .exprs args <| .nil _ _) _⟩
  case conditional elseExpr _ =>
    exact ⟨_, .map (.func <| .type <| .expr <| .expr <| .last <| .exprs elseExpr.toList <|
      .nil _ _) _⟩
  case temporary init _ _ =>
    exact ⟨_, .map (.func <| .type <| .last <| .exprs init.toList <| .nil _ _) _⟩
  case returnStmt vals _ => exact ⟨_, .map (.func <| .last <| .exprs vals <| .nil _ _) _⟩
  case ifStmt => exact ⟨_, .map (.func <| .expr <| .stmt_or <| .last <| .option_stmt <| .nil _ _) _⟩
  case stmtList stmts => exact ⟨_, .map (.last <| .stmts stmts <| .nil _ _) _⟩
  case addToBlock stmts => exact ⟨_, .map (.stmt_or <| .last <| .stmts stmts <| .nil _ _) _⟩
  case setParameters params => exact ⟨_, .map (.func <| .last <| .vars params <| .nil _ _) _⟩
  case switchStmt cases stmts _ =>
    have lengths : ¬cases.length ≠ stmts.length := by simpa [Request.counted] using counted
    rw [run, Build.switchStmt, if_neg lengths]
    exact ⟨_, .map (.func <| .expr <| .exprs cases.flatten <| .last <| .stmts stmts <| .nil _ _) _⟩

/-- A request with an error among the arguments that are looked at first is answered by the sentinel
of its category, whatever its other arguments are, and changes nothing. -/
theorem run_eq_refusal {r : Request Category.Handle} {refusal : Reply} {c : Compilation}
    (h : r.refusal? = some refusal) (counted : r.counted) (known : ∀ a ∈ r.checked, c.Knows a)
    (faulty : ∃ a ∈ r.checked, c.Faulty a) : r.run c = .ok (refusal, c) := by
  obtain ⟨a, mem, faulty⟩ := faulty
  obtain ⟨_, guarded⟩ := guarded h counted
  exact guarded.eq_refusal known mem faulty

/-- A unit with a placeholder that turned out to be an error, and a truth value. -/
def failedUnit : Compilation :=
  { Compilation.initial .standard with
    types := ((TypeTable.initial .standard).placeholder .struct .empty).2.define ⟨14⟩ .error
    arena := (Arena.initial.makeConst .bool (.bool true) .synthetic).2 }

/-- A choice of a failed type is the error expression, although it has no alternative and its
function is not there. -/
theorem run_conditional_of_failed_type :
    (conditional (A := Category.Handle) ⟨7⟩ ⟨14⟩ ⟨2⟩ ⟨2⟩ none .synthetic).run failedUnit =
      .ok (.node .errorExpr, failedUnit) := by
  have bool : failedUnit.Knows (.expr (⟨2⟩ : NodeId)) := .inr ⟨_, rfl, by decide⟩
  refine run_eq_refusal rfl rfl (fun a mem => ?_)
    ⟨.type (⟨14⟩ : TypeId), by simp [checked], .inr rfl⟩
  simp only [checked, Option.toList, List.map_nil, List.mem_cons, List.not_mem_nil, or_false] at mem
  rcases mem with rfl | rfl | rfl | rfl
  · trivial
  · exact .inr (by decide)
  · exact bool
  · exact bool

end Request

end Codegen
