import Codegen.Proofs.Requests.Basic
import Codegen.Proofs.Requests.Statements

/-!
Sessions: a front end sends requests and works on the tree by hand in between. What every move
keeps is said here, move by move; what holds throughout a session follows by induction.
-/

namespace Codegen

open Relation

/-! ## Requests -/

namespace Build

open Compilation

variable {X : NodeId → Prop} {c c' : Compilation} {func : FuncId}

/-- A parameter takes the position after the last of its function. -/
theorem parameterVariable_ok {name : String} {ty : TypeId} {taken : Bool} {span : Span}
    {var : VarId} (run : parameterVariable func name ty taken span c = .ok (var, c')) :
    (var = .error ∧ c' = c) ∨ ∃ f n names, c.functions[func.index]? = some f ∧ var = ⟨c.vars.size⟩ ∧
      c' = { c with
        names
        functions := c.functions.modify func.index fun _ => { f with params := f.params ++ [var] }
        vars := c.vars.push ⟨.param f.params.length, n, ty, span, some func, taken,
          .param f.params.length⟩ } := by
  unfold parameterVariable at run
  split at run
  · cases run
    exact .inl ⟨rfl, rfl⟩
  obtain ⟨bad, c₁, asked, run⟩ := Run.bind_ok.1 run
  obtain ⟨-, rfl⟩ := ask_ok asked
  cases bad with
  | true =>
    cases run
    exact .inl ⟨rfl, rfl⟩
  | false =>
  obtain ⟨n, c₁, named, run⟩ := Run.bind_ok.1 run
  cases named
  rw [Run.get_bind] at run
  obtain ⟨f, found, run⟩ := getFunction_bind_ok run
  cases run
  exact .inr ⟨f, _, _, found, rfl, rfl⟩

theorem isErrorVar_same {var : VarId} {b : Bool} (run : isErrorVar var c = .ok (b, c')) :
    c' = c := by
  obtain ⟨v, c₁, asked, answered⟩ := Run.bind_ok.1 run
  obtain ⟨-, rfl⟩ := ask_ok asked
  exact (Run.pure_ok answered).2

theorem anyM_same {α : Type} {p : α → Build Bool}
    (same : ∀ {a b c c'}, p a c = .ok (b, c') → c' = c) {xs : List α} {b : Bool}
    (run : xs.anyM p c = .ok (b, c')) : c' = c := by
  induction xs with
  | nil => exact (Run.pure_ok run).2
  | cons x rest ih =>
    rw [List.anyM_cons] at run
    obtain ⟨first, c₁, asked, run⟩ := Run.bind_ok.1 run
    obtain rfl := same asked
    cases first with
    | true => exact (Run.pure_ok run).2
    | false => exact ih run

theorem setParameters_ok {params : List VarId} {done : Bool}
    (run : setParameters func params c = .ok (done, c')) :
    (done = false ∧ c' = c) ∨ done = true ∧ ∃ f, c.functions[func.index]? = some f ∧
      c' = { c with functions := c.functions.modify func.index fun _ => { f with params } } := by
  unfold setParameters at run
  split at run
  · cases run
    exact .inl ⟨rfl, rfl⟩
  obtain ⟨bad, c₁, asked, run⟩ := Run.bind_ok.1 run
  obtain rfl := anyM_same (fun asked => isErrorVar_same asked) asked
  cases bad with
  | true =>
    cases run
    exact .inl ⟨rfl, rfl⟩
  | false =>
  obtain ⟨f, found, run⟩ := getFunction_bind_ok run
  cases run
  exact .inr ⟨rfl, f, found, rfl⟩

/-- Whatever positions parameters get, the blocks and nodes are not touched. -/
theorem turns_setParams {f : Function} {names : NameTable} {vars : Array Variable}
    {params : List VarId} (found : c.functions[func.index]? = some f) :
    c.Turns X { c with
      names
      functions := c.functions.modify func.index fun _ => { f with params }
      vars } :=
  ⟨.refl, .refl X _, blocks_of_modify found .inl⟩

end Build

namespace Request

/-- Whether a request decides on the positions of parameters. -/
def placesParameters {A : Category → Type} : Request A → Bool
  | parameterVariable .. | setParameters .. => true
  | _ => false

end Request

namespace Build

attribute [local grind unfold] getNode getFunction getVariable isErrorType typeName nilPointer
  integerConstant complexConstant booleanConstant stringConstant convert unary complexPart
  realPart imagPart pointerOffset structLiteral compoundStmt stmtList gotoStmt arrayType
  placeholderType namedType resolveArray globalVariable immutableStruct localVariable sharing
  outline NodeKind.isEffect

/-- What a request can do that does not decide on the positions of parameters. -/
theorem advancing_request {r : Request Category.Handle} (other : r.placesParameters = false) :
    Obeys (advancing fun _ => False) r.run := by
  cases r
  case parameterVariable | setParameters => cases other
  case definitions => exact .map _ (obeys_definitions (advancing_destroy · .all) _ _ _ _)
  case disableIntegrityChecks =>
    refine .map _ fun c _ _ _ run => ?_
    cases run
    exact .aside .refl (.refl _ _) (Nat.le_refl _) rfl rfl rfl
  all_goals
    unfold Request.run
    grind

end Build

namespace Request

open Build

variable {c c' : Compilation} {reply : Reply} {r : Request Category.Handle}

theorem advances (other : r.placesParameters = false) (run : r.run c = .ok (reply, c')) :
    c.Advances (fun _ => False) c' :=
  advancing_request other c reply c' trivial run

/-- What any request can do, apart from the storage of variables. -/
theorem turns (run : r.run c = .ok (reply, c')) : c.Turns (fun _ => False) c' := by
  cases other : r.placesParameters with
  | false => exact (advances other run).toTurns
  | true =>
    cases r
    case parameterVariable =>
      obtain ⟨var, done, -⟩ := Run.map_ok run
      obtain ⟨-, rfl⟩ | ⟨f, n, names, found, -, rfl⟩ := parameterVariable_ok done
      · exact (Compilation.Advances.refl _ _).toTurns
      · exact turns_setParams found
    case setParameters =>
      obtain ⟨b, done, -⟩ := Run.map_ok run
      obtain ⟨-, rfl⟩ | ⟨-, f, found, rfl⟩ := setParameters_ok done
      · exact (Compilation.Advances.refl _ _).toTurns
      · exact turns_setParams found
    all_goals cases other

end Request

/-! ## Work on the tree -/

/-- What a front end can do to the tree by itself. Constants, variables and addresses of functions
are leaves. -/
inductive Rework where
  | make (kind : NodeKind) (kids : List NodeId) (ty : TypeId) (span : Span)
      (noSwitch : ∀ l, kind ≠ .switchStmt l)
  | makeLeaf (kind : NodeKind) (ty : TypeId) (value : Value) (flags : NodeFlags) (span : Span)
  | makeSwitch (layout : SwitchLayout) (kids : List NodeId) (span : Span)
  | appendInst (id : NodeId) (inst : InstId)
  | takeInsts (id : NodeId)
  | appendChild (block stmt : NodeId)
  | replaceChild (id : NodeId) (index : Nat) (new : NodeId)
  | updateCompositeChild (id : NodeId) (index : Nat) (new : NodeId)
  | finishComposite (id : NodeId) (value : Value)
  | removeChildren (id : NodeId)
  | copy (id : NodeId)

namespace Rework

open Arena

variable {a a' : Arena} {w : Rework}

def run : Rework → Arena → Except Fault Arena
  | make kind kids ty span _, a => (·.2) <$> a.make kind kids ty span
  | makeLeaf kind ty value flags span, a => .ok (a.makeLeaf kind ty value flags span).2
  | makeSwitch layout kids span, a => (·.2) <$> a.makeSwitch layout kids span
  | appendInst id inst, a => a.appendInst id inst
  | takeInsts id, a => (·.2) <$> a.takeInsts id
  | appendChild block stmt, a => a.appendChild block stmt
  | replaceChild id index new, a => (·.2) <$> a.replaceChild id index new
  | updateCompositeChild id index new, a => (·.2) <$> a.updateCompositeChild id index new
  | finishComposite id value, a => a.finishComposite id value
  | removeChildren id, a => (·.2) <$> a.removeChildren id
  | copy id, a => (·.2) <$> a.copy id

/-- Whether a node is handed an instruction. -/
def AttachesTo : Rework → NodeId → Prop
  | appendInst x _, id => id = x
  | _, _ => False

instance (w : Rework) (id : NodeId) : Decidable (w.AttachesTo id) :=
  match w with
  | appendInst x _ => inferInstanceAs (Decidable (id = x))
  | make .. | makeLeaf .. | makeSwitch .. | takeInsts _ | appendChild .. | replaceChild ..
  | updateCompositeChild .. | finishComposite .. | removeChildren _ | copy _ => .isFalse not_false

theorem edit (run : w.run a = .ok a') : Edit a a' := by
  cases w
  case makeLeaf =>
    cases run
    exact .makeLeaf
  case appendInst => exact .appendInst run
  case appendChild => exact .appendChild run
  case finishComposite => exact .finishComposite run
  all_goals obtain ⟨⟨_, _⟩, done, rfl⟩ := map_eq_ok run
  case make noSwitch _ _ => exact .make noSwitch done
  case makeSwitch => exact .makeSwitch done
  case takeInsts => exact .takeInsts done
  case replaceChild => exact .replaceChild done
  case updateCompositeChild => exact .updateCompositeChild done
  case removeChildren => exact .removeChildren done
  case copy => exact .copy done

section

variable {X : NodeId → Prop}

theorem ripens_replaceChild {id new : NodeId} {index : Nat} {r : Except EditError NodeId}
    (run : a.replaceChild id index new = .ok (r, a')) : a.Ripens X a' := by
  have shaped := (Edit.replaceChild run).wellFormed
  obtain ⟨-, -, rfl⟩ | ⟨old, node, -, made⟩ := replaceChild_cases run
  · exact .refl _ _
  · rw [made.result] at shaped ⊢
    exact .setKids made.find shaped

theorem ripens_updateCompositeChild {id new : NodeId} {index : Nat} {r : Except EditError NodeId}
    (run : a.updateCompositeChild id index new = .ok (r, a')) : a.Ripens X a' := by
  obtain ⟨node, got, run⟩ := bind_eq_ok.1 run
  split at run
  · cases run
    exact .refl _ _
  · exact ripens_replaceChild run

theorem ripens_finishComposite {id : NodeId} {value : Value}
    (run : a.finishComposite id value = .ok a') : a.Ripens X a' := by
  have shaped := (Edit.finishComposite run).wellFormed
  obtain ⟨node, find, kind, rfl⟩ := finishComposite_ok run
  exact .set find ⟨rfl, .inr ⟨kind, rfl⟩, fun _ other => absurd kind other⟩
    (fun _ _ => Node.ready_of_value Bool.false_ne_true rfl) shaped

theorem ripens_takeInsts {id : NodeId} {insts : List InstId}
    (run : a.takeInsts id = .ok (insts, a')) : a.Ripens X a' := by
  have shaped := (Edit.takeInsts run).wellFormed
  obtain ⟨node, got, run⟩ := bind_eq_ok.1 run
  cases run
  exact .set (get_eq_ok.1 got) ⟨rfl, .inl rfl, fun none _ => none⟩
    (fun _ ready => ⟨ready.effect, fun _ some => absurd rfl some⟩) shaped

end

/-- Work by hand keeps nodes ready that were there before, except those that it hands instructions
to. -/
theorem ripens (run : w.run a = .ok a') :
    a.Ripens (fun id => w.AttachesTo id ∨ a.size ≤ id.index) a' := by
  have shaped := (edit run).wellFormed
  have added {node : Node} {P : NodeId → Prop} (shaped : a.WellFormed → (a.add node).2.WellFormed) :
      a.Ripens (fun id => P id ∨ a.size ≤ id.index) (a.add node).2 :=
    .add (fun out => absurd (.inr (Nat.le_refl _)) out) shaped
  cases w
  case makeLeaf =>
    cases run
    exact added shaped
  case appendInst => exact ripens_appendInst (.inl rfl) run
  case appendChild => exact ripens_appendChild run
  case finishComposite => exact ripens_finishComposite run
  all_goals obtain ⟨⟨_, _⟩, done, rfl⟩ := map_eq_ok run
  case make noSwitch =>
    obtain ⟨_, _, done⟩ := bind_eq_ok.1 done
    obtain ⟨_, _, done⟩ := bind_eq_ok.1 done
    cases done
    exact added shaped
  case makeSwitch =>
    unfold Arena.makeSwitch at done
    split at done
    case isFalse => cases done
    obtain ⟨_, _, done⟩ := bind_eq_ok.1 done
    obtain ⟨_, _, done⟩ := bind_eq_ok.1 done
    cases done
    exact added shaped
  case takeInsts => exact ripens_takeInsts done
  case replaceChild => exact ripens_replaceChild done
  case updateCompositeChild => exact ripens_updateCompositeChild done
  case removeChildren =>
    obtain ⟨node, got, done⟩ := bind_eq_ok.1 done
    cases done
    exact .setKids (get_eq_ok.1 got) shaped
  case copy =>
    obtain ⟨node, got, done⟩ := bind_eq_ok.1 done
    cases done
    exact added shaped

end Rework

/-! ## Sessions -/

/-- A move of a front end, with the compilation before and after. -/
inductive Move where
  | request (before : Compilation) (request : Request Category.Handle) (reply : Reply)
      (after : Compilation)
  | rework (before : Compilation) (rework : Rework) (after : Compilation)

/-- The compilations that a front end comes to, with its moves on the way, the last one first. -/
inductive Session : Compilation → List Move → Prop
  | start (settings : Settings) : Session (.initial settings) []
  | request {c c' moves r reply} : Session c moves → r.run c = .ok (reply, c') →
      Session c' (.request c r reply c' :: moves)
  | rework {c moves w a} : Session c moves → w.run c.arena = .ok a →
      Session { c with arena := a } (.rework c w { c with arena := a } :: moves)

namespace Session

/-- Sends requests one after the other. One that stops with a fault changes nothing. -/
def send : List (Request Category.Handle) → Compilation × List Move → Compilation × List Move
  | [], s => s
  | r :: rest, (c, moves) =>
    match r.run c with
    | .ok (reply, c') => send rest (c', .request c r reply c' :: moves)
    | .error _ => send rest (c, moves)

/-- A session of requests. -/
def record (settings : Settings) (requests : List (Request Category.Handle)) :
    Compilation × List Move := send requests (.initial settings, [])

theorem session_send {requests : List (Request Category.Handle)} {s : Compilation × List Move}
    (session : Session s.1 s.2) : Session (send requests s).1 (send requests s).2 := by
  induction requests generalizing s with
  | nil => exact session
  | cons r rest ih =>
    unfold send
    split
    · rename_i ran
      exact ih (.request session ran)
    · exact ih session

theorem session_record (settings : Settings) (requests : List (Request Category.Handle)) :
    Session (record settings requests).1 (record settings requests).2 :=
  session_send (.start settings)

end Session

end Codegen
