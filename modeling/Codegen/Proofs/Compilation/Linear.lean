import Codegen.Proofs.Compilation.Prunes

/-!
Front ends that use each node once. Main statement: as long as no node is given away twice, the
nodes are trees, whatever the constructors make behind the scenes.
-/

namespace Codegen

namespace Build

/-! ## What calls take and hand out -/

/-- Calls that neither take nor hand out nodes. -/
inductive Beside : {α : Type} → Build α → Prop
  | ask {α : Type} (question : Compilation → Except Fault α) : Beside (ask question)
  | disableIntegrityChecks : Beside disableIntegrityChecks
  | intern (text) : Beside (intern text)
  | onTypes {α : Type} (step : TypeTable → Except Fault (α × TypeTable)) : Beside (onTypes step)
  | arrayType (elem length) : Beside (arrayType elem length)
  | placeholderType (shape name) : Beside (placeholderType shape name)
  | namedType (name underlying) : Beside (namedType name underlying)
  | resolveArray (placeholder elem length) : Beside (resolveArray placeholder elem length)
  | globalVariable (name asmName ty external hidden uniqueSection span) :
    Beside (globalVariable name asmName ty external hidden uniqueSection span)
  | immutableStruct (name asmName hidden common ty span) :
    Beside (immutableStruct name asmName hidden common ty span)
  | localVariable (func name ty addressTaken span) :
    Beside (localVariable func name ty addressTaken span)
  | parameterVariable (func name ty addressTaken span) :
    Beside (parameterVariable func name ty addressTaken span)
  | label (func span) : Beside (label func span)
  | declareFunction (fntype name asmName flags splitStack span) :
    Beside (declareFunction fntype name asmName flags splitStack span)
  | setParameters (func params) : Beside (setParameters func params)

/-- Constructors, with their operands. -/
inductive Maker : List NodeId → Build NodeId → Prop
  | zero (ty) : Maker [] (zero ty)
  | nilPointer : Maker [] nilPointer
  | integerConstant (ty value) : Maker [] (integerConstant ty value)
  | floatConstant (ty bits) : Maker [] (floatConstant ty bits)
  | complexConstant (ty real imag) : Maker [] (complexConstant ty real imag)
  | booleanConstant (value) : Maker [] (booleanConstant value)
  | stringConstant (value) : Maker [] (stringConstant value)
  | varExpr (var span) : Maker [] (varExpr var span)
  | indirect (ty ptr span) : Maker [ptr] (indirect ty ptr span)
  | addressOf (expr span) : Maker [expr] (addressOf expr span)
  | functionCode (func span) : Maker [] (functionCode func span)
  | unary (op expr span) : Maker [expr] (unary op expr span)
  | binary (op lhs rhs span) : Maker [lhs, rhs] (binary op lhs rhs span)
  | structField (expr index span) : Maker [expr] (structField expr index span)
  | realPart (expr span) : Maker [expr] (realPart expr span)
  | imagPart (expr span) : Maker [expr] (imagPart expr span)
  | complexExpr (real imag span) : Maker [real, imag] (complexExpr real imag span)
  | arrayIndex (array index span) : Maker [array, index] (arrayIndex array index span)
  | pointerOffset (base index span) : Maker [base, index] (pointerOffset base index span)
  | structLiteral (ty vals span) : Maker vals (structLiteral ty vals span)
  | arrayLiteral (ty indexes vals span) : Maker vals (arrayLiteral ty indexes vals span)
  | compoundExpr (stmt expr span) : Maker [stmt, expr] (compoundExpr stmt expr span)
  | call (callee args span) : Maker (callee :: args) (call callee args span)
  | exprStmt (func expr) : Maker [expr] (exprStmt func expr)
  | assign (func lhs rhs span) : Maker [lhs, rhs] (assign func lhs rhs span)
  | initStmt (func var init) : Maker [init] (initStmt func var init)
  | returnStmt (func vals span) : Maker vals (returnStmt func vals span)
  | ifStmt (func cond thenStmt elseStmt span) :
    Maker (cond :: thenStmt :: elseStmt.toList) (ifStmt func cond thenStmt elseStmt span)
  | switchStmt (func value cases stmts span) :
    Maker (value :: cases.flatten ++ stmts) (switchStmt func value cases stmts span)
  | compoundStmt (first second) : Maker [first, second] (compoundStmt first second)
  | stmtList (stmts) : Maker stmts (stmtList stmts)
  | block (func enclosing vars span) : Maker [] (block func enclosing vars span)
  | labelStmt (label) : Maker [] (labelStmt label)
  | gotoStmt (label span) : Maker [] (gotoStmt label span)

/-- What a call takes, given where it starts and what it answers, and what it hands out. A call that
answers with a sentinel, or finds an error among what it is given, takes nothing. -/
inductive Deal : {α : Type} → Build α → (Compilation → α → List NodeId) → (α → List NodeId) → Prop
  | beside {α : Type} {op : Build α} : Beside op → Deal op (fun _ _ => []) fun _ => []
  | make {used : List NodeId} {op : Build NodeId} : Maker used op →
    Deal op (fun _ id => if id.isSentinel then [] else used) fun id => [id]
  /-- An operand of the right type already is handed back. -/
  | convert (ty expr span) : Deal (convert ty expr span)
    (fun _ id => if id.isSentinel ∨ id = expr then [] else [expr]) fun id =>
    if id = expr then [] else [id]
  | conditional (func ty cond thenExpr elseExpr span) :
    Deal (conditional func ty cond thenExpr elseExpr span)
      (fun c _ => if func = .error ∨ c.affirms (isErrorType ty) ∨
          (cond :: thenExpr :: elseExpr.toList).any fun expr => c.affirms (isErrorExpr expr)
        then [] else cond :: thenExpr :: elseExpr.toList)
      fun id => [id]
  | temporary (func block ty init addressTaken span) :
    Deal (temporary func block ty init addressTaken span)
      (fun _ r => if r.2.isSentinel then [] else init.toList) fun r => [r.2]
  | addToBlock (block stmts) : Deal (addToBlock block stmts)
    (fun _ _ => if block = .errorStmt ∨ .errorStmt ∈ stmts then [] else stmts) fun _ => []
  | setGlobalInit (var init) : Deal (setGlobalInit var init)
    (fun c _ => if c.affirms (isErrorVar var) ∨ c.affirms (isErrorExpr init) then [] else [init])
    fun _ => []
  | setBody (func root) :
      Deal (setBody func root) (fun _ done => if done then [root] else []) fun _ => []
  | definitions (types constants functions vars) : Deal (definitions types constants functions vars)
    (fun c _ => constants.filter fun constant => !c.affirms (isErrorExpr constant)) fun _ => []

variable {α : Type}

attribute [local grind unfold] getNode getFunction getVariable isErrorType typeName arrayType
  placeholderType namedType resolveArray globalVariable immutableStruct localVariable

theorem Beside.idle {op : Build α} (h : Beside op) : Idle op := by
  cases h
  case disableIntegrityChecks =>
    refine .of_same fun _ _ _ run => ?_
    cases run
    exact ⟨rfl, rfl, rfl, rfl⟩
  all_goals grind

attribute [local grind unfold] nilPointer integerConstant booleanConstant stringConstant unary
  structField realPart imagPart complexPart complexExpr pointerOffset structLiteral compoundStmt
  stmtList gotoStmt

theorem Maker.offers {used : List NodeId} {op : Build NodeId} (h : Maker used op) :
    Offers used op := by
  cases h <;> grind

/-- What is at hand after a call, and what the call leaves alone. -/
theorem Deal.tidy {op : Build α} {used : Compilation → α → List NodeId} {made : α → List NodeId}
    (deal : Deal op used made) {c c' : Compilation} {answer : α} {rest : List NodeId}
    (sound : c.Sound) (t : c.Tidy (used c answer ++ rest)) (run : op c = .ok (answer, c')) :
    c'.Tidy (made answer ++ rest) ∧ c.Leaves c' rest := by
  have spent {U G : α → List NodeId} {Q : α → Prop} (h : Spends U op G Q)
    (t : c.Tidy (U answer ++ rest)) :
      c'.Tidy (G answer ++ rest) ∧ c.Leaves c' rest :=
    (h c answer c' sound.sentinels run).2.2 rest t
  cases deal with
  | beside h =>
    have h := h.idle c answer c' trivial run
    exact ⟨h.tidy t, h.leaves t.toOrderly⟩
  | make h => exact spent h.offers t
  | convert ty expr span => exact spent (spends_convert ty expr span) t
  | conditional => exact tidy_conditional t run
  | temporary => exact spent (spends_temporary _ _ _ _ _ _) t
  | addToBlock => exact tidy_addToBlock t run
  | setGlobalInit => exact tidy_setGlobalInit sound t run
  | setBody => exact tidy_setBody sound t run
  | definitions => exact tidy_definitions sound t run

end Build

/-! ## Runs -/

/-- What a call has taken, and what it has handed out. -/
structure Transfer where
  taken : List NodeId
  handed : List NodeId

/-- Every node was handed out before it was taken. The last transfer comes first. -/
def Transfer.Honest : List Transfer → Prop
  | [] => True
  | transfer :: before =>
    (∀ n ∈ transfer.taken, n.isSentinel ∨ n ∈ before.flatMap handed) ∧ Honest before

/-- Whatever is taken is taken once, sentinels apart. -/
def Transfer.Linear (history : List Transfer) : Prop :=
  ((history.flatMap taken).filter (!·.isSentinel)).Nodup

theorem Transfer.Linear.earlier {transfer : Transfer} {history : List Transfer}
    (linear : Linear (transfer :: history)) : Linear history :=
  linear.sublist ((List.sublist_append_right _ _).filter _)

theorem Transfer.Linear.unused {transfer : Transfer} {history : List Transfer} {n : NodeId}
    (linear : Linear (transfer :: history)) (mem : n ∈ transfer.taken) (plain : ¬n.isSentinel) :
    n ∉ history.flatMap taken := by
  intro spent
  rw [Linear, List.flatMap_cons, List.filter_append] at linear
  have apart := (List.nodup_append.1 linear).2.2
  exact apart n (by simp [mem, plain]) n (by simp [spent, plain]) rfl

instance Transfer.decidableHonest : (history : List Transfer) → Decidable (Honest history)
  | [] => .isTrue trivial
  | transfer :: before =>
    have := decidableHonest before
    inferInstanceAs (Decidable ((∀ n ∈ transfer.taken, n.isSentinel ∨ n ∈ before.flatMap handed) ∧
      Honest before))

instance (history : List Transfer) : Decidable (Transfer.Linear history) :=
  inferInstanceAs (Decidable (List.Nodup _))

namespace Compilation

/-- Calls one after the other, with what they take and hand out. -/
inductive Ledger : Compilation → List Transfer → Prop
  | initial (settings : Settings) : Ledger (.initial settings) []
  | call {α : Type} {op : Build α} {used : Compilation → α → List NodeId} {made : α → List NodeId}
    {c c' : Compilation} {answer : α} {history : List Transfer} :
    Ledger c history → Build.Call op → Build.Deal op used made → op c = .ok (answer, c') →
      Ledger c' (⟨used c answer, made answer⟩ :: history)

variable {c : Compilation} {hand : List NodeId} {history : List Transfer}

theorem Ledger.reachable (h : c.Ledger history) : c.Reachable := by
  induction h with
  | initial settings => exact .initial settings
  | call _ call _ run ih => exact ih.call call run

theorem tidy_initial (settings : Settings) : (initial settings).Tidy [] := by
  have bare (n : NodeId) (node : Node) (find : Arena.initial.find? n = some node) :
      node.value = none ∧ node.isBuilding = false ∧ node.insts = [] := by
    match n with
    | ⟨0⟩ | ⟨1⟩ =>
      cases find
      exact ⟨rfl, rfl, rfl⟩
    | ⟨n + 2⟩ => cases find
  refine ⟨⟨Nat.le_refl 2, Arena.forest_initial, fun {id node} _ find => ?_, fun {n i} mem => ?_,
    fun {j} reserved => ?_⟩, by simp, nofun, nofun⟩
  · exact ⟨(bare id node find).1, (bare id node find).2.1⟩
  · cases find : Arena.initial.find? n with
    | none => simp [Arena.instsOf, show (initial settings).arena = .initial from rfl, find] at mem
    | some node =>
      rw [show (initial settings).arena = .initial from rfl, Arena.instsOf_eq_of_find? find,
        (bare n node find).2.2] at mem
      cases mem
  · rcases reserved with ⟨v, mem, e⟩ | ⟨f, mem, spill⟩
    · cases List.mem_singleton.1 (Array.mem_toList_iff.2 mem)
      cases e
    · cases List.mem_singleton.1 (Array.mem_toList_iff.2 mem)
      cases spill

/-- Some of the nodes at hand are picked, and perhaps sentinels. -/
theorem Tidy.pick {used : List NodeId} (t : c.Tidy hand)
    (known : ∀ n ∈ used, n.isSentinel ∨ n ∈ hand) (once : (used.filter (!·.isSentinel)).Nodup) :
    c.Tidy (used ++ hand.filter (· ∉ used)) := by
  have old (n : NodeId) (mem : n ∈ used ++ hand.filter (· ∉ used)) : n.isSentinel ∨ n ∈ hand := by
    rcases List.mem_append.1 mem with mem | mem
    · exact known n mem
    · exact .inr (List.mem_of_mem_filter mem)
  refine ⟨t.toOrderly, ?_, fun n mem => ?_, fun n mem => ?_⟩
  · rw [List.filter_append]
    refine List.nodup_append.2 ⟨once, t.apart.sublist (List.filter_sublist.filter _), ?_⟩
    rintro n mem m mem' rfl
    have out := List.of_mem_filter (List.mem_of_mem_filter mem')
    simp [List.mem_of_mem_filter mem] at out
  · exact (old n mem).elim Arena.isRoot_of_isSentinel (t.roots n)
  · rcases old n mem with s | mem
    · exact (t.sentinel s).known n (by simp)
    · exact t.known n mem

/-- What has been handed out and not been taken yet is at hand. -/
structure Holds (c : Compilation) (hand : List NodeId) (history : List Transfer) : Prop extends
    c.Tidy hand where
  held : ∀ n ∈ history.flatMap (·.handed), n ∉ history.flatMap (·.taken) → n ∈ hand

/-- Nodes that were handed out before are there to be taken. -/
theorem Holds.take {taken handed : List NodeId} (h : c.Holds hand history)
    (honest : Transfer.Honest (⟨taken, handed⟩ :: history))
    (linear : Transfer.Linear (⟨taken, handed⟩ :: history)) :
    c.Tidy (taken ++ hand.filter (· ∉ taken)) := by
  refine h.pick (fun n mem => ?_) (linear.sublist ((List.sublist_append_left _ _).filter _))
  by_cases s : n.isSentinel
  · exact .inl s
  · exact .inr (h.held n ((honest.1 n mem).resolve_left s) (linear.unused mem s))

/-- One call, on nodes that were handed out before. -/
theorem Holds.step {α : Type} {op : Build α} {used : Compilation → α → List NodeId}
    {made : α → List NodeId} {c' : Compilation} {answer : α} (h : c.Holds hand history)
    (sound : c.Sound) (deal : Build.Deal op used made) (run : op c = .ok (answer, c'))
    (honest : Transfer.Honest (⟨used c answer, made answer⟩ :: history))
    (linear : Transfer.Linear (⟨used c answer, made answer⟩ :: history)) :
    c'.Holds (made answer ++ hand.filter (· ∉ used c answer))
      (⟨used c answer, made answer⟩ :: history) ∧
      c.Leaves c' (hand.filter (· ∉ used c answer)) := by
  obtain ⟨t, leaves⟩ := deal.tidy sound (h.take honest linear) run
  refine ⟨⟨t, fun n given kept => ?_⟩, leaves⟩
  rw [List.flatMap_cons, List.mem_append] at given kept
  rcases given with new | given
  · exact List.mem_append_left _ new
  · refine List.mem_append_right _
      (List.mem_filter.2 ⟨h.held n given fun spent => kept (.inr spent), ?_⟩)
    simpa using fun mem => kept (.inl mem)

theorem Ledger.exists_holds (h : c.Ledger history) (honest : Transfer.Honest history)
    (linear : Transfer.Linear history) : ∃ hand, c.Holds hand history := by
  induction h with
  | initial settings => exact ⟨[], tidy_initial settings, nofun⟩
  | call before _ deal run ih =>
    obtain ⟨hand, holds⟩ := ih honest.2 linear.earlier
    exact ⟨_, (holds.step before.reachable.sound deal run honest linear).1⟩

/-- Where each node is taken at most once, the nodes are trees. -/
theorem trees_of_linear {c : Compilation} {history : List Transfer} (run : c.Ledger history)
    (honest : Transfer.Honest history) (linear : Transfer.Linear history) :
    (∀ p, (c.arena.kidsOf p).Nodup) ∧
      (∀ p q k, k ∈ c.arena.kidsOf p → k ∈ c.arena.kidsOf q → p = q) ∧
      (∀ n, (c.arena.instsOf n).Nodup) ∧
      (∀ m n i, i ∈ c.arena.instsOf m → i ∈ c.arena.instsOf n → m = n) ∧
      (∀ n i, i ∈ c.arena.instsOf n → ¬c.insts.Allocates i) ∧
      ∀ root, c.arena.isLive root → c.arena.IsRoot root → c.arena.sharing root = .ok [] := by
  obtain ⟨hand, holds⟩ := run.exists_holds honest linear
  have sound := run.reachable.sound
  have forest := holds.forest
  refine ⟨forest.nodup, fun _ _ _ => forest.unique, sound.owned.nodup,
    fun _ _ _ => sound.owned.unique, fun _ _ mem => (sound.insts_of_mem mem).2,
    fun _ live isRoot => forest.sharing_eq sound.owned live isRoot⟩

end Compilation

/-- Chooses between two truth values. -/
def choiceProgram : Build (List NodeId) := do
  let fntype ← Build.onTypes (·.functionType none [] [] .void)
  let func ← Build.declareFunction fntype "f" "" ⟨0⟩ false .synthetic
  let cond ← Build.booleanConstant true
  let yes ← Build.booleanConstant true
  let no ← Build.booleanConstant false
  let choice ← Build.conditional func .bool cond yes (some no) .synthetic
  return [cond, yes, no, choice]

theorem choiceProgram_ok : ∃ c history, choiceProgram (.initial default) =
    .ok ([⟨2⟩, ⟨3⟩, ⟨4⟩, ⟨13⟩], c) ∧
    c.arena.isLive ⟨13⟩ ∧ c.Ledger history ∧ Transfer.Honest history ∧ Transfer.Linear history ∧
    ⟨13⟩ ∈ history.flatMap (·.handed) ∧ ⟨13⟩ ∉ history.flatMap (·.taken) := by
  have outcome : (choiceProgram (.initial default)).map (fun r => (r.1, r.2.arena.isLive ⟨13⟩)) =
      .ok ([⟨2⟩, ⟨3⟩, ⟨4⟩, ⟨13⟩], true) := by decide +kernel
  obtain ⟨⟨made, c⟩, run, e⟩ := map_eq_ok outcome
  simp only [Prod.mk.injEq] at e
  obtain ⟨rfl, live⟩ := e
  have whole := run
  obtain ⟨fntype, c₁, typed, run⟩ := Run.bind_ok.1 run
  obtain ⟨func, c₂, declared, run⟩ := Run.bind_ok.1 run
  obtain ⟨cond, c₃, first, run⟩ := Run.bind_ok.1 run
  obtain ⟨yes, c₄, second, run⟩ := Run.bind_ok.1 run
  obtain ⟨no, c₅, third, run⟩ := Run.bind_ok.1 run
  obtain ⟨choice, c₆, chosen, run⟩ := Run.bind_ok.1 run
  cases run
  have ready := ((Compilation.Ledger.initial default).call (.onTypes _) (.beside (.onTypes _))
    typed).call (.declareFunction ..) (.beside (.declareFunction ..)) declared
  have operands := ((ready.call (.booleanConstant _) (.make (.booleanConstant _)) first).call
    (.booleanConstant _) (.make (.booleanConstant _)) second).call
    (.booleanConstant _) (.make (.booleanConstant _)) third
  refine ⟨c, _, whole, live, operands.call (.conditional ..) (.conditional ..) chosen, ?_⟩
  split <;> decide

theorem Compilation.trees_of_linear_choice : ∃ c history,
    choiceProgram (.initial default) = .ok ([⟨2⟩, ⟨3⟩, ⟨4⟩, ⟨13⟩], c) ∧ c.Ledger history ∧
    Transfer.Honest history ∧ Transfer.Linear history ∧ c.arena.isLive ⟨13⟩ ∧ c.arena.IsRoot ⟨13⟩ ∧
    c.arena.sharing ⟨13⟩ = .ok [] := by
  obtain ⟨c, history, run, live, ledger, honest, linear, handed, kept⟩ := choiceProgram_ok
  obtain ⟨-, -, -, -, -, trees⟩ := trees_of_linear ledger honest linear
  obtain ⟨hand, holds⟩ := ledger.exists_holds honest linear
  have root := holds.roots ⟨13⟩ (holds.held ⟨13⟩ handed kept)
  exact ⟨c, history, run, ledger, honest, linear, live, root, trees ⟨13⟩ live root⟩

/-- Takes the return within a statement, which was never handed out, into another statement. -/
def forgedProgram : Build (List NodeId) := do
  let fntype ← Build.onTypes (·.functionType none [] [] .void)
  let func ← Build.declareFunction fntype "f" "" ⟨0⟩ false .synthetic
  let leave ← Build.returnStmt func [] .synthetic
  let again ← Build.exprStmt func ⟨3⟩
  let both ← Build.stmtList [leave, again]
  return [leave, again, both]

/-- A literal of an array whose elements turn out to be errors. -/
def erroneousProgram : Build (List NodeId) := do
  let elem ← Build.placeholderType .struct "p"
  let length ← Build.integerConstant .i64 2
  let array ← Build.arrayType elem length
  let _ ← Build.onTypes (·.resolveStruct elem [⟨.empty, .error⟩])
  let literal ← Build.arrayLiteral array [] [] .synthetic
  return [length, literal]

theorem forgedProgram_ok : ∃ c history, forgedProgram (.initial default) =
    .ok ([⟨4⟩, ⟨5⟩, ⟨6⟩], c) ∧
    c.Ledger history ∧ Transfer.Linear history ∧ ⟨3⟩ ∈ c.arena.kidsOf ⟨4⟩ ∧
      ⟨3⟩ ∈ c.arena.kidsOf ⟨5⟩ ∧
    c.arena.sharing ⟨6⟩ = .ok [.sharedExpr ⟨3⟩ ⟨5⟩] := by
  have outcome : (forgedProgram (.initial default)).map
      (fun r => (r.1, r.2.arena.kidsOf ⟨4⟩, r.2.arena.kidsOf ⟨5⟩, r.2.arena.sharing ⟨6⟩)) =
      .ok ([⟨4⟩, ⟨5⟩, ⟨6⟩], [⟨3⟩], [⟨3⟩], .ok [.sharedExpr ⟨3⟩ ⟨5⟩]) := by decide +kernel
  obtain ⟨⟨made, c⟩, run, e⟩ := map_eq_ok outcome
  simp only [Prod.mk.injEq] at e
  obtain ⟨rfl, first, second, shared⟩ := e
  have whole := run
  obtain ⟨fntype, c₁, typed, run⟩ := Run.bind_ok.1 run
  obtain ⟨func, c₂, declared, run⟩ := Run.bind_ok.1 run
  obtain ⟨leave, c₃, left, run⟩ := Run.bind_ok.1 run
  obtain ⟨again, c₄, taken, run⟩ := Run.bind_ok.1 run
  obtain ⟨both, c₅, joined, run⟩ := Run.bind_ok.1 run
  cases run
  have ready := ((Compilation.Ledger.initial default).call (.onTypes _) (.beside (.onTypes _))
    typed).call (.declareFunction ..) (.beside (.declareFunction ..)) declared
  have ledger := ((ready.call (.returnStmt ..) (.make (.returnStmt ..)) left).call
    (.exprStmt ..) (.make (.exprStmt ..)) taken).call (.stmtList _) (.make (.stmtList _)) joined
  exact ⟨c, _, whole, ledger, by decide, by simp [first], by simp [second], shared⟩

theorem erroneousProgram_ok :
    ∃ c history, erroneousProgram (.initial default) = .ok ([⟨2⟩, ⟨3⟩], c) ∧
    c.Ledger history ∧ Transfer.Honest history ∧ Transfer.Linear history ∧
    (c.arena.find? ⟨3⟩).map (·.kids) = some [.errorExpr, .errorExpr] := by
  have outcome : (erroneousProgram (.initial default)).map
      (fun r => (r.1, (r.2.arena.find? ⟨3⟩).map (·.kids))) =
      .ok ([⟨2⟩, ⟨3⟩], some [.errorExpr, .errorExpr]) := by decide +kernel
  obtain ⟨⟨made, c⟩, run, e⟩ := map_eq_ok outcome
  simp only [Prod.mk.injEq] at e
  obtain ⟨rfl, kids⟩ := e
  have whole := run
  obtain ⟨elem, c₁, awaited, run⟩ := Run.bind_ok.1 run
  obtain ⟨length, c₂, counted, run⟩ := Run.bind_ok.1 run
  obtain ⟨array, c₃, arranged, run⟩ := Run.bind_ok.1 run
  obtain ⟨_, c₄, failed, run⟩ := Run.bind_ok.1 run
  obtain ⟨literal, c₅, spelled, run⟩ := Run.bind_ok.1 run
  cases run
  have ready := ((Compilation.Ledger.initial default).call (.placeholderType ..)
    (.beside (.placeholderType ..)) awaited).call (.integerConstant ..)
    (.make (.integerConstant ..)) counted
  have ledger := ((ready.call (.arrayType ..) (.beside (.arrayType ..)) arranged).call
    (.onTypes _) (.beside (.onTypes _)) failed).call (.arrayLiteral ..)
    (.make (.arrayLiteral ..)) spelled
  exact ⟨c, _, whole, ledger, by decide, by decide, kids⟩

/-- A node that was never handed out can be shared by one who guesses it, and sentinels can be
children more than once. -/
theorem Compilation.shared_of_linear :
    (∃ (c : Compilation) (history : List Transfer), c.Ledger history ∧ Transfer.Linear history ∧
      ⟨3⟩ ∈ c.arena.kidsOf ⟨4⟩ ∧ ⟨3⟩ ∈ c.arena.kidsOf ⟨5⟩ ∧
      c.arena.sharing ⟨6⟩ = .ok [.sharedExpr ⟨3⟩ ⟨5⟩]) ∧
    ∃ (c : Compilation) (history : List Transfer), c.Ledger history ∧ Transfer.Honest history ∧
      Transfer.Linear history ∧
      (c.arena.find? ⟨3⟩).map (·.kids) = some [.errorExpr, .errorExpr] := by
  obtain ⟨c, history, -, forged⟩ := forgedProgram_ok
  obtain ⟨c', history', -, erroneous⟩ := erroneousProgram_ok
  exact ⟨⟨c, history, forged⟩, c', history', erroneous⟩

end Codegen
