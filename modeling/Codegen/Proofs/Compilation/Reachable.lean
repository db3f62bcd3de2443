import Codegen.Proofs.Compilation.Entry
import Codegen.Proofs.Lowering.Conservation

/-!
The compilations that a front end comes to. The definition of a body keeps compilations sound as all
other steps do, so that every compilation on the way is sound.
-/

namespace Codegen

/-! ## The definition of a body -/

theorem size_of_lowerBody {func : FuncId} {a a' : Arena} {insts insts' : InstStore} {root : NodeId}
    {entry : List InstId} {void : Bool} {body : Body}
    (lowered : lowerBody func a insts root entry void = .ok (body, a', insts')) :
    a'.size = a.size := by
  obtain ⟨s, _, _, walked, rfl, _⟩ := exists_lowered lowered
  exact walked.touches.size

namespace Defines

variable {func : FuncId} {root : NodeId} {c c' : Compilation} {f f' : Function}
  {entry : List InstId} {insts insts' : InstStore} {void : Bool} {body : Body} {a : Arena}
  (h : Defines func root c c' f f' entry insts void body a insts')

include h

theorem store_eq : c'.insts = insts' := Arena.store_of_destroyWithin_wrappers h.destroyed

theorem later : insts.Later c'.insts := by
  obtain ⟨s, _, _, lowered, _, rfl⟩ := exists_lowered h.lowered
  rw [h.store_eq]
  exact lowered.touches.store

/-- Stack slots outlive the definition: only returns are freed. -/
theorem allocates (opens : f.Opens c.insts entry insts) {j : InstId} (slot : c.insts.Allocates j) :
    c'.insts.Allocates j := by
  obtain ⟨ty, name, t, found⟩ := slot
  have early := (opens.old (InstStore.lt_of_find? found)).trans found
  rcases h.later.kept early with kept | ⟨_, v, ret⟩
  · exact ⟨ty, name, t, kept⟩
  · cases ret

theorem size_eq : c'.arena.size = c.arena.size := by
  exact (Arena.razed_of_destroyWithin _ h.destroyed).size.trans (size_of_lowerBody h.lowered)

/-- A node that is still there has not changed: only sentinels outlive the tree, and they have
nothing to lose. -/
theorem find?_cases (sound : c.Sound) (n : NodeId) :
    c'.arena.find? n = c.arena.find? n ∨ c'.arena.find? n = none ∧ ¬n.isSentinel := by
  have live := h.isLive_iff sound.shaped n
  obtain ⟨s, _, _, lowered, rfl, rfl⟩ := exists_lowered h.lowered
  have razed := Arena.razed_of_destroyWithin _ h.destroyed
  cases found : c'.arena.find? n with
  | none =>
    refine .inr ⟨rfl, fun sentinel => ?_⟩
    obtain ⟨node, find⟩ := sound.shaped.exists_sentinel sentinel
    simp [Arena.isLive, found, find, sentinel] at live
  | some node' =>
    have kept : s.arena.find? n = some node' := by
      rcases razed.find_of_dies (by decide) n with e | gone
      · exact e.symm.trans found
      · simp [gone] at found
    rcases lowered.touches.nodes n with same | ⟨bare, taken⟩
    · exact .inl (kept.symm.trans same)
    obtain ⟨node, find, rfl⟩ := Option.map_eq_some_iff.1 (bare.symm.trans kept)
    have sentinel : n.isSentinel := by
      obtain ⟨m, mem, own⟩ := List.mem_flatMap.1 ((lowered.perm sound.shaped).mem_iff.1 taken)
      cases (Arena.take_mem_eventsAt.1 own).1
      rcases sound.shaped.below_of_reaches (Arena.reaches_of_mem_unfold mem) with sentinel | below
      · exact sentinel
      · have alive := Arena.isLive_of_find? found
        by_contra other
        exact (live.1 alive).2 ⟨below, other⟩
    have empty := ((sound.nodes find).sentinel sentinel).2.1
    left
    rw [show c.arena.find? n = some node from find, Node.bare, ← empty]

/-- The slots of the function have their place now. -/
theorem function_sound (sound : c.Sound) :
    Function.Sound { f' with body := some body } c'.insts ∧
      f.Extends { f' with body := some body } := by
  have old := sound.functions f (Array.mem_of_getElem? h.found)
  obtain ⟨opens, rfl⟩ := old.opens h.materialized
  refine ⟨⟨by simp, by simp, old.keys, by simp, old.slots, by simp, by simp, fun j mem => ?_⟩,
    by simp, by simp⟩
  exact h.allocates opens (old.allocas j (List.mem_append_right _ (by simpa using mem)))

theorem sound (sound : c.Sound) : c'.Sound ∧ c.Grows c' := by
  obtain ⟨opens, _⟩ := (sound.functions f (Array.mem_of_getElem? h.found)).opens h.materialized
  have store : ∀ {i : InstId}, i.index < c.insts.slots.size →
      c'.insts.find? i = c.insts.find? i ∨ c'.insts.find? i = none := by
    intro i lt
    cases found : c.insts.find? i with
    | none =>
      exact .inr (h.later.dead (Nat.lt_of_lt_of_le lt opens.size_le) ((opens.old lt).trans found))
    | some inst => exact (h.later.kept ((opens.old lt).trans found)).imp_right And.left
  obtain ⟨sound₁, g₁⟩ := sound.prune (sound.shaped.prune h.size_eq (h.find?_cases sound)) h.size_eq
    (Nat.le_trans opens.size_le h.later.size_le)
    (fun n => (h.find?_cases sound n).imp_right And.left)
    store (h.allocates opens)
  obtain ⟨new, ext⟩ := h.function_sound sound
  obtain ⟨sound₂, g₂⟩ := sound₁.setFunction h.found new ext
  rw [h.rest]
  exact ⟨sound₂, g₁.trans g₂⟩

end Defines

@[grind ←] theorem Build.steady_setBody (func : FuncId) (root : NodeId) :
    Steady (setBody func root) := by
  intro c done c' sound run
  obtain ⟨_, rfl⟩ | ⟨_, f, f', entry, insts, void, body, a, insts', defines⟩ := setBody_ok run
  · exact ⟨sound, .refl _⟩
  · exact defines.sound sound

/-! ## Front ends -/

namespace Build

/-- What a front end can ask for, where it neither edits nodes nor destroys them by itself. -/
inductive Call : {α : Type} → Build α → Prop
  -- questions and settings
  | ask {α : Type} (question : Compilation → Except Fault α) : Call (ask question)
  | disableIntegrityChecks : Call disableIntegrityChecks
  | intern (text) : Call (intern text)
  -- types
  | onTypes {α : Type} (step : TypeTable → Except Fault (α × TypeTable)) : Call (onTypes step)
  | arrayType (elem length) : Call (arrayType elem length)
  | placeholderType (shape name) : Call (placeholderType shape name)
  | namedType (name underlying) : Call (namedType name underlying)
  | resolveArray (placeholder elem length) : Call (resolveArray placeholder elem length)
  -- variables
  | globalVariable (name asmName ty external hidden uniqueSection span) :
    Call (globalVariable name asmName ty external hidden uniqueSection span)
  | immutableStruct (name asmName hidden common ty span) :
    Call (immutableStruct name asmName hidden common ty span)
  | setGlobalInit (var init) : Call (setGlobalInit var init)
  | localVariable (func name ty addressTaken span) :
    Call (localVariable func name ty addressTaken span)
  | parameterVariable (func name ty addressTaken span) :
    Call (parameterVariable func name ty addressTaken span)
  | temporary (func block ty init addressTaken span) :
    Call (temporary func block ty init addressTaken span)
  -- expressions
  | zero (ty) : Call (zero ty)
  | nilPointer : Call nilPointer
  | integerConstant (ty value) : Call (integerConstant ty value)
  | floatConstant (ty bits) : Call (floatConstant ty bits)
  | complexConstant (ty real imag) : Call (complexConstant ty real imag)
  | booleanConstant (value) : Call (booleanConstant value)
  | stringConstant (value) : Call (stringConstant value)
  | varExpr (var span) : Call (varExpr var span)
  | indirect (ty ptr span) : Call (indirect ty ptr span)
  | addressOf (expr span) : Call (addressOf expr span)
  | functionCode (func span) : Call (functionCode func span)
  | convert (ty expr span) : Call (convert ty expr span)
  | unary (op expr span) : Call (unary op expr span)
  | binary (op lhs rhs span) : Call (binary op lhs rhs span)
  | structField (expr index span) : Call (structField expr index span)
  | realPart (expr span) : Call (realPart expr span)
  | imagPart (expr span) : Call (imagPart expr span)
  | complexExpr (real imag span) : Call (complexExpr real imag span)
  | arrayIndex (array index span) : Call (arrayIndex array index span)
  | pointerOffset (base index span) : Call (pointerOffset base index span)
  | structLiteral (ty vals span) : Call (structLiteral ty vals span)
  | arrayLiteral (ty indexes vals span) : Call (arrayLiteral ty indexes vals span)
  | compoundExpr (stmt expr span) : Call (compoundExpr stmt expr span)
  | conditional (func ty cond thenExpr elseExpr span) :
    Call (conditional func ty cond thenExpr elseExpr span)
  | call (callee args span) : Call (call callee args span)
  -- statements
  | exprStmt (func expr) : Call (exprStmt func expr)
  | assign (func lhs rhs span) : Call (assign func lhs rhs span)
  | initStmt (func var init) : Call (initStmt func var init)
  | returnStmt (func vals span) : Call (returnStmt func vals span)
  | ifStmt (func cond thenStmt elseStmt span) : Call (ifStmt func cond thenStmt elseStmt span)
  | switchStmt (func value cases stmts span) : Call (switchStmt func value cases stmts span)
  | compoundStmt (first second) : Call (compoundStmt first second)
  | stmtList (stmts) : Call (stmtList stmts)
  | block (func enclosing vars span) : Call (block func enclosing vars span)
  | addToBlock (block stmts) : Call (addToBlock block stmts)
  | label (func span) : Call (label func span)
  | labelStmt (label) : Call (labelStmt label)
  | gotoStmt (label span) : Call (gotoStmt label span)
  -- functions
  | declareFunction (fntype name asmName flags splitStack span) :
    Call (declareFunction fntype name asmName flags splitStack span)
  | setParameters (func params) : Call (setParameters func params)
  | setBody (func root) : Call (setBody func root)
  | definitions (types constants functions vars) :
    Call (definitions types constants functions vars)

attribute [local grind unfold] getNode getFunction getVariable isErrorType typeName nilPointer
  integerConstant complexConstant booleanConstant stringConstant structField realPart imagPart
  complexPart complexExpr structLiteral compoundStmt stmtList gotoStmt arrayType placeholderType
  namedType resolveArray globalVariable immutableStruct localVariable

theorem Call.steady {α : Type} {op : Build α} (call : Call op) : Steady op := by
  cases call
  case definitions => exact obeys_definitions steady_destroy _ _ _ _
  all_goals grind

end Build

/-- A compilation that a front end comes to, one call after the other. -/
inductive Compilation.Reachable : Compilation → Prop
  | initial (settings : Settings) : Reachable (.initial settings)
  | call {α : Type} {op : Build α} {c c' : Compilation} {answer : α} : Reachable c → Build.Call op →
    op c = .ok (answer, c') → Reachable c'

theorem Compilation.Reachable.sound {c : Compilation} (h : c.Reachable) : c.Sound := by
  induction h with
  | initial settings => exact sound_initial settings
  | call _ call run ih =>
    obtain ⟨sound, _⟩ := call.steady _ _ _ ih run
    exact sound

end Codegen
