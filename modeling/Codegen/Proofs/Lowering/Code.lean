import Codegen.Body.Lowering

/-!
Structured code: what a tree of nodes says once the nodes are read in order. Blocks are sequences,
an expression is the sequence of its children and its own instructions, and what is left are
choices, labels and jumps.
-/

namespace Codegen

mutual

/-- What a tree says. -/
inductive Code where
  | skip
  | seq (first second : Code)
  | inst (id : InstId)
  /-- Leaves the function. -/
  | leave (value : Option Value)
  | label (label : LabelId)
  | goto (label : LabelId)
  /-- Does nothing if the condition fails. -/
  | ifThen (cond : Value) (body : Code)
  | ifElse (cond : Value) (body other : Code)
  /-- Tests in order; where none succeeds, a body by position or nothing. A body runs on into the
  next. -/
  | switch (scrutinee : Value) (tests : Tests) (default : Option Nat) (bodies : Bodies)

/-- The tests of a switch. -/
inductive Tests where
  | done
  /-- Computes a case value, compares it with the value switched on, and selects a body. -/
  | test (eval : Code) (value : Value) (compare : InstId) (body : Nat) (rest : Tests)

/-- The bodies of a switch, one for each case. -/
inductive Bodies where
  | nil
  | cons (body : Code) (rest : Bodies)

end

/-- One after the other. -/
def Code.all : List Code → Code
  | [] => .skip
  | code :: rest => .seq code (all rest)

/-- The tests of one case before those of the others. -/
def Tests.prepend (body : Nat) : List (Code × Value × InstId) → Tests → Tests
  | [], rest => rest
  | (eval, value, compare) :: more, rest => .test eval value compare body (prepend body more rest)

mutual

/-- The labels that code places, in order. -/
def Code.labels : Code → List LabelId
  | .label l => [l]
  | .seq first second => first.labels ++ second.labels
  | .ifThen _ body => body.labels
  | .ifElse _ body other => body.labels ++ other.labels
  | .switch _ tests _ bodies => tests.labels ++ bodies.labels
  | .skip | .inst _ | .leave _ | .goto _ => []

def Tests.labels : Tests → List LabelId
  | .done => []
  | .test eval _ _ _ rest => eval.labels ++ rest.labels

def Bodies.labels : Bodies → List LabelId
  | .nil => []
  | .cons body rest => body.labels ++ rest.labels

end

mutual

/-- The labels that code jumps to, in order. -/
def Code.gotos : Code → List LabelId
  | .goto l => [l]
  | .seq first second => first.gotos ++ second.gotos
  | .ifThen _ body => body.gotos
  | .ifElse _ body other => body.gotos ++ other.gotos
  | .switch _ tests _ bodies => tests.gotos ++ bodies.gotos
  | .skip | .inst _ | .leave _ | .label _ => []

def Tests.gotos : Tests → List LabelId
  | .done => []
  | .test eval _ _ _ rest => eval.gotos ++ rest.gotos

def Bodies.gotos : Bodies → List LabelId
  | .nil => []
  | .cons body rest => body.gotos ++ rest.gotos

end

/-- An instruction that code lays out: one of a node, or a comparison with what it compares. -/
inductive Placed where
  | own (id : InstId)
  | compare (id : InstId) (x y : Value)

def Placed.id : Placed → InstId
  | .own id | .compare id _ _ => id

mutual

/-- The instructions that code lays out, in order. -/
def Code.placed : Code → List Placed
  | .inst id => [.own id]
  | .seq first second => first.placed ++ second.placed
  | .ifThen _ body => body.placed
  | .ifElse _ body other => body.placed ++ other.placed
  | .switch scrutinee tests _ bodies => tests.placed scrutinee ++ bodies.placed
  | .skip | .leave _ | .label _ | .goto _ => []

def Tests.placed (scrutinee : Value) : Tests → List Placed
  | .done => []
  | .test eval value compare _ rest =>
    eval.placed ++ .compare compare scrutinee value :: rest.placed scrutinee

def Bodies.placed : Bodies → List Placed
  | .nil => []
  | .cons body rest => body.placed ++ rest.placed

end

/-! ## Reading a tree -/

/-- A step of reading, with the number of the next comparison. -/
abbrev Reading := StateT Nat Option

/-- What an instruction says. -/
def InstStore.read (s : InstStore) (inst : InstId) : Code :=
  match s.find? inst with
  | some ⟨.ret value, _⟩ => .leave value
  | _ => .inst inst

/-- The position of the last case without values. -/
def SwitchCase.lastDefault : List SwitchCase → Option Nat
  | [] => none
  | case :: rest =>
    match lastDefault rest with
    | some i => some (i + 1)
    | none => if case.isDefault then some 0 else none

namespace Arena

/-- The value of a node. -/
def value? (a : Arena) (id : NodeId) : Option Value := (a.find? id).bind (·.value)

/-- A case value, and the comparison that it takes part in. -/
def readTest (a : Arena) (read : NodeId → Reading Code) (id : NodeId) :
    Reading (Code × Value × InstId) := do
  let eval ← read id
  let value ← a.value? id
  let compare ← getModify (· + 1)
  return (eval, value, ⟨compare⟩)

/-- The tests of a switch, those of the first case for the body at a position. -/
def readTests (a : Arena) (read : NodeId → Reading Code) (kids : List NodeId) :
    Nat → List SwitchCase → Reading Tests
  | _, [] => return .done
  | body, case :: rest => do
    if case.valueIndex + case.valueCount ≤ kids.length then
      let values := (kids.drop case.valueIndex).take case.valueCount
      let tests ← values.mapM (a.readTest read)
      return .prepend body tests (← a.readTests read kids (body + 1) rest)
    else failure

def readBodies (read : NodeId → Reading Code) (kids : List NodeId) :
    List SwitchCase → Reading Bodies
  | [] => return .nil
  | case :: rest => do
    let body ← read (← kids[case.stmtIndex]?)
    return .cons body (← readBodies read kids rest)

mutual

/-- What a statement says, found within a number of steps down. -/
def readStmt (a : Arena) (s : InstStore) : Nat → NodeId → Reading Code
  | 0, _ => failure
  | fuel + 1, id => do
    let node ← a.find? id
    match node.kind with
    | .blockStmt => return .all (← node.kids.mapM (a.readStmt s fuel))
    | .exprStmt => a.readExpr s fuel (← node.kids[0]?)
    | .ifStmt =>
      match node.kids with
      | [cond, thenStmt, elseStmt] => a.readIf s fuel cond thenStmt elseStmt
      | _ => failure
    | .labelStmt _ label => return .label label
    | .gotoStmt _ label => return .goto label
    | .switchStmt layout => a.readSwitch s fuel node.kids layout.cases
    | .emptyStmt | .errorStmt => return .skip
    | _ => failure

/-- A choice, after its condition. An empty alternative is none. -/
def readIf (a : Arena) (s : InstStore) : Nat → NodeId → NodeId → NodeId → Reading Code
  | 0, _, _, _ => failure
  | fuel + 1, cond, thenStmt, elseStmt => do
    let eval ← a.readExpr s fuel cond
    let value ← a.value? cond
    let elseNode ← a.find? elseStmt
    let body ← a.readStmt s fuel thenStmt
    if elseNode.kind = .emptyStmt then return .seq eval (.ifThen value body)
    else return .seq eval (.ifElse value body (← a.readStmt s fuel elseStmt))

/-- A switch, after the value switched on. -/
def readSwitch (a : Arena) (s : InstStore) :
    Nat → List NodeId → List SwitchCase → Reading Code
  | 0, _, _ => failure
  | fuel + 1, kids, cases => do
    let scrutinee ← kids[0]?
    let eval ← a.readExpr s fuel scrutinee
    let value ← a.value? scrutinee
    let tests ← a.readTests (a.readExpr s fuel) kids 0 cases
    let bodies ← readBodies (a.readStmt s fuel) kids cases
    return .seq eval (.switch value tests (SwitchCase.lastDefault cases) bodies)

/-- What an expression says: its children in order, then its own instructions. -/
def readExpr (a : Arena) (s : InstStore) : Nat → NodeId → Reading Code
  | 0, _ => failure
  | fuel + 1, id => do
    let node ← a.find? id
    let kids ← node.kids.mapM fun kid => do
      let child ← a.find? kid
      if child.isStmt then a.readStmt s fuel kid else a.readExpr s fuel kid
    return .seq (.all kids) (.all (node.insts.map s.read))

end

/-- What the tree below a root says. Comparisons are numbered from the first free instruction. -/
def reading (a : Arena) (s : InstStore) (root : NodeId) : Option Code := do
  return (← a.readStmt s (8 * (a.size + 1)) root s.slots.size).1

end Arena

end Codegen
