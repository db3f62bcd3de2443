import Codegen.Compilation.Expressions

/-!
Statement constructors, blocks and labels, and the expressions that are built from statements.
-/

namespace Codegen.Build

def makeStmt (kind : NodeKind) (kids : List NodeId) (span : Span) : Build NodeId :=
  onArena (·.makeVoid kind kids span)

def makeEmpty (span : Span) : Build NodeId := addNode (·.makeEmpty span)

/-- An expression for its effect. -/
def exprStmt (func : FuncId) (expr : NodeId) : Build NodeId := do
  if func = .error then return .errorStmt
  else if ← isErrorExpr expr then return .errorStmt
  else
    let span := (← getNode expr).span
    makeStmt .exprStmt [expr] span

/-- A store of a value at the address of an addressable expression. -/
def assign (func : FuncId) (lhs rhs : NodeId) (span : Span) : Build NodeId := do
  if func = .error then return .errorStmt
  else if ← isErrorExpr lhs then return .errorStmt
  else if ← isErrorExpr rhs then return .errorStmt
  else
    let ptr ← lvalue lhs
    let value ← rvalue rhs
    let id ← makeStmt .assign [lhs, rhs] span
    let _ ← attach id (.store ptr value) .void
    makeStmt .exprStmt [id] span

/-- Stores the members of a composite one by one, from a position on, through instructions of the
composite. -/
def storeMembers (init : NodeId) (storage : Value) (isArray : Bool) :
    Nat → List NodeId → Build Unit
  | _, [] => return ()
  | index, kid :: rest => do
    let value ← rvalue kid
    let ty ← typeOf kid
    let ptrType ← onTypes (·.pointerType ty)
    let addr ← createInst
      (if isArray then .elemAddr storage (.const (.int .i64 index)) else .fieldAddr storage index)
      ptrType
    let store ← createInst (.store (.inst addr) value) .void
    changeArena (·.appendInst init addr)
    changeArena (·.appendInst init store)
    storeMembers init storage isArray (index + 1) rest

/-- Gives a variable its first value. A composite under construction is stored member by member and
never built. -/
def initStmt (func : FuncId) (var : VarId) (init : NodeId) : Build NodeId := do
  if func = .error then return .errorStmt
  else if ← isErrorVar var then return .errorStmt
  else if ← isErrorExpr init then return .errorStmt
  else
    let v ← getVariable var
    if !(← getNode init).isBuilding then
      let lhs ← varExpr var v.span
      assign func lhs init v.span
    else
      let storage ← variableAddress var
      let isArray := (← ask (·.types.arrayElement? v.ty)).isSome
      let kids := (← getNode init).kids
      storeMembers init storage isArray 0 kids
      changeArena (·.finishComposite init (.const .void))
      makeStmt .exprStmt [init] v.span

/-- The child of a return and the value it returns. -/
def returned (result : TypeId) (vals : List NodeId) (span : Span) :
    Build (NodeId × Option Value) := do
  match vals with
  | [] => return (← makeConst .void .void span, none)
  | [single] => return (single, some (← rvalue single))
  | _ =>
    let tuple ← makeNode (.composite .building) vals result span
    return (tuple, some (← rvalue tuple))

/-- A return. Several values go as one struct. -/
def returnStmt (func : FuncId) (vals : List NodeId) (span : Span) : Build NodeId := do
  if func = .error then return .errorStmt
  else if ← vals.anyM isErrorExpr then return .errorStmt
  else
    let fntype := (← getFunction func).fntype
    match ← ask (·.types.functionResult? fntype) with
    | none => throw (.returnFromNonFunction func)
    | some result =>
      let (child, value) ← returned result vals span
      let id ← makeStmt .ret [child] span
      let _ ← attach id (.ret value) .void
      makeStmt .exprStmt [id] span

/-- A choice between two statements; without an alternative the other one is empty. -/
def ifStmt (func : FuncId) (cond thenStmt : NodeId) (elseStmt : Option NodeId) (span : Span) :
    Build NodeId := do
  if func = .error then return .errorStmt
  else if ← isErrorExpr cond then return .errorStmt
  else if thenStmt = .errorStmt ∨ elseStmt = some .errorStmt then return .errorStmt
  else
    let _ ← rvalue cond
    let elseStmt ← match elseStmt with
      | some stmt => pure stmt
      | none => makeEmpty span
    makeStmt .ifStmt [cond, thenStmt, elseStmt] span

/-- A choice by value. `cases` lists the values that select each statement, none for the default.
A statement runs on into the next. -/
def switchStmt (func : FuncId) (value : NodeId) (cases : List (List NodeId))
    (stmts : List NodeId) (span : Span) : Build NodeId := do
  if cases.length ≠ stmts.length then
    throw (.switchStatementCount cases.length stmts.length)
  else if func = .error then return .errorStmt
  else if ← isErrorExpr value then return .errorStmt
  else if ← cases.flatten.anyM isErrorExpr then return .errorStmt
  else if .errorStmt ∈ stmts then return .errorStmt
  else
    let _ ← rvalue value
    let layout ← SwitchLayout.ofCounts (cases.map List.length)
    cases.flatten.forM fun v => do let _ ← rvalue v
    onArena (·.makeSwitch layout (value :: cases.flatten ++ stmts) span)

/-- One statement after another. -/
def compoundStmt (first second : NodeId) : Build NodeId := do
  if first = .errorStmt ∨ second = .errorStmt then return .errorStmt
  else
    let span := (← getNode first).span
    makeStmt .blockStmt [first, second] span

/-- Statements in a row, at the place of the first. -/
def stmtList (stmts : List NodeId) : Build NodeId := do
  if .errorStmt ∈ stmts then return .errorStmt
  else
    let span ← match stmts with
      | [] => pure Span.synthetic
      | first :: _ => do pure (← getNode first).span
    makeStmt .blockStmt stmts span

/-- A new block of a function, in which variables come alive. A block around it has to be one of
the same function. -/
def block (func : FuncId) (enclosing : Option NodeId) (vars : List VarId) (span : Span) :
    Build NodeId := do
  if func = .error then return .errorStmt
  else
    let f ← getFunction func
    match enclosing.filter (!f.hasBlock ·) with
    | some outer => throw (.enclosingBlock outer.index func)
    | none =>
      let id ← makeStmt .blockStmt [] span
      setFunction func (f.addBlock id vars)
      return id

/-- Adds statements at the end of a block, none of them if one is an error. -/
def addToBlock (block : NodeId) (stmts : List NodeId) : Build Unit := do
  if block = .errorStmt ∨ .errorStmt ∈ stmts then return ()
  else stmts.forM fun stmt => changeArena (·.appendChild block stmt)

/-- A new label of a function. -/
def label (func : FuncId) (span : Span) : Build Label := do
  let (label, f) := (← getFunction func).newLabel span
  setFunction func f
  return label

/-- The statement that places a label. -/
def labelStmt (label : Label) : Build NodeId := do
  if label.func = .error then return .errorStmt
  else
    let id ← makeStmt (.labelStmt label.func label.id) [] label.span
    let f ← getFunction label.func
    setFunction label.func (← f.defineLabel label id)
    return id

/-- A jump to a label, which may be placed later. -/
def gotoStmt (label : Label) (span : Span) : Build NodeId := do
  if label.func = .error then return .errorStmt
  else makeStmt (.gotoStmt label.func label.id) [] span

/-- A local without a name, and the statement that gives it its first value. -/
def temporary (func : FuncId) (block : Option NodeId) (ty : TypeId) (init : Option NodeId)
    (addressTaken : Bool) (span : Span) : Build (VarId × NodeId) := do
  if func = .error then return (.error, .errorStmt)
  else if ← isErrorType ty then return (.error, .errorStmt)
  else if ← init.toList.anyM isErrorExpr then return (.error, .errorStmt)
  else
    let var ← newLocal func .temporary .empty ty addressTaken span
    if let some block := block then
      let f ← getFunction func
      setFunction func (← f.addBlockVar block var)
    match init with
    | some init => return (var, ← initStmt func var init)
    | none => return (var, ← makeEmpty span)

/-- A choice between two values, by way of a temporary that either arm stores into. A choice
without value needs no alternative. -/
def conditional (func : FuncId) (ty : TypeId) (cond thenExpr : NodeId) (elseExpr : Option NodeId)
    (span : Span) : Build NodeId := do
  if func = .error then return .errorExpr
  else if ← isErrorType ty then return .errorExpr
  else if ← isErrorExpr cond then return .errorExpr
  else if ← isErrorExpr thenExpr then return .errorExpr
  else if ← elseExpr.toList.anyM isErrorExpr then return .errorExpr
  else if ty = .void then
    let thenStmt ← exprStmt func thenExpr
    let elseStmt ← match elseExpr with
      | some e => exprStmt func e
      | none => makeEmpty span
    let choice ← ifStmt func cond thenStmt (some elseStmt) span
    let void ← makeConst .void .void span
    compoundExpr choice void span
  else match elseExpr with
    | none => throwWithType ty .missingElseArm
    | some elseExpr =>
      let name ← intern "cond.tmp"
      let temp ← newLocal func .temporary name ty false span
      let thenLhs ← varExpr temp span
      let thenStmt ← assign func thenLhs thenExpr span
      let elseLhs ← varExpr temp span
      let elseStmt ← assign func elseLhs elseExpr span
      let choice ← ifStmt func cond thenStmt (some elseStmt) span
      let result ← varExpr temp span
      compoundExpr choice result span

end Codegen.Build
