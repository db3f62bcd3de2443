import Codegen.Body.Builder
import Codegen.Tree.Destroy

/-!
Lowering: a statement tree becomes basic blocks. The tree is walked once, depth first, with a
cursor at the block that receives instructions, which move out of the nodes.
-/

namespace Codegen

/-- Everything that changes while a tree is lowered. -/
structure Lowering where
  func : FuncId
  arena : Arena
  insts : InstStore
  builder : Builder
  /-- The block of each label, made when the label is first mentioned. -/
  labels : List (LabelId × BlockId)
  nextIf : Nat
  nextOrphan : Nat
  nextSwitch : Nat
  nextCase : Nat
  nextTest : Nat
  deriving Repr

/-- A step of lowering. -/
abbrev Lower := StateT Lowering (Except Fault)

namespace Lower

def node (id : NodeId) : Lower Node := do (← get).arena.get id

def newBlock (name : String) : Lower BlockId :=
  modifyGet fun s =>
    let (id, builder) := s.builder.newBlock name
    (id, { s with builder })

def moveTo (block : BlockId) : Lower Unit := do
  let s ← get
  set { s with builder := ← s.builder.moveTo block }

def append (insts : List InstId) : Lower Unit := do
  let s ← get
  set { s with builder := ← s.builder.append insts }

def terminate (exit : Terminator) : Lower Unit := do
  let s ← get
  set { s with builder := ← s.builder.terminate exit }

/-- Goes on in a new block that nothing leads to. -/
def startOrphan : Lower Unit := do
  let s ← get
  set { s with nextOrphan := s.nextOrphan + 1 }
  moveTo (← newBlock s!"orphan.{s.nextOrphan}")

/-- The block of a label of the function that is lowered. -/
def labelBlock (owner : FuncId) (label : LabelId) : Lower BlockId := do
  let s ← get
  if owner ≠ s.func then throw (.foreignLabel label.index owner s.func)
  else match s.labels.lookup label with
    | some block => return block
    | none =>
      let block ← newBlock s!"label.{label.index}"
      modify fun s => { s with labels := (label, block) :: s.labels }
      return block

/-- Moves one instruction to the cursor. A return ends the block instead. -/
def place (inst : InstId) : Lower Unit := do
  let s ← get
  match (← s.insts.get inst).kind with
  | .ret value =>
    set { s with insts := s.insts.free inst }
    terminate (.ret value)
    startOrphan
  | _ => append [inst]

/-- Moves a node's own instructions to the cursor. -/
def placeInsts (id : NodeId) : Lower Unit := do
  let s ← get
  let (insts, arena) ← s.arena.takeInsts id
  set { s with arena }
  insts.forM place

/-- The value that a node's instructions have computed. -/
def valueOf (id : NodeId) : Lower Value := do
  let node ← node id
  match node.value with
  | some value => return value
  | none => throw (.noValueToLower node.kind.flavor id.index)

/-- The child at a position. -/
def childAt (kids : List NodeId) (index : Nat) : Except Fault NodeId :=
  match kids[index]? with
  | some kid => .ok kid
  | none => .error (.indexOutOfBounds kids.length index)

/-- Children from one position on. -/
def childrenFrom (kids : List NodeId) (start count : Nat) : Except Fault (List NodeId) :=
  if start + count ≤ kids.length then .ok ((kids.drop start).take count)
  else .error (.sliceOutOfBounds kids.length (start + count))

/-- One new block for each case. -/
def caseBlocks : List SwitchCase → Lower (List BlockId)
  | [] => return []
  | _ :: rest => do
    let s ← get
    set { s with nextCase := s.nextCase + 1 }
    let block ← newBlock s!"case.{s.nextCase}"
    return block :: (← caseBlocks rest)

/-- Compares the value switched on with a case value and goes on where they differ. -/
def test (scrutinee value : Value) (body : BlockId) : Lower Unit := do
  let s ← get
  let (inst, insts) := s.insts.create (.compare .eqEq scrutinee value) .bool
  set { s with insts, nextTest := s.nextTest + 1 }
  append [inst]
  let next ← newBlock s!"switch.test.{s.nextTest}"
  terminate (.branch (.inst inst) body next)
  moveTo next

/-- The body of the default case, the last one if there are several. -/
def defaultBody (cases : List (SwitchCase × BlockId)) : Option BlockId :=
  (cases.reverse.find? (·.1.isDefault)).map (·.2)

mutual

/-- Lowers a statement, within a number of steps down. -/
def walk : Nat → NodeId → Lower Unit
  | 0, _ => throw .endless
  | fuel + 1, id => do
    let node ← node id
    match node.kind with
    | .blockStmt => node.kids.forM (walk fuel)
    | .exprStmt => emit fuel (← childAt node.kids 0)
    | .ifStmt =>
      match node.kids with
      | [cond, thenStmt, elseStmt] => walkIf fuel cond thenStmt elseStmt
      | kids => throw (.ifChildCount kids.length)
    | .labelStmt owner label =>
      let block ← labelBlock owner label
      terminate (.jump block)
      moveTo block
    | .gotoStmt owner label =>
      let block ← labelBlock owner label
      terminate (.jump block)
      startOrphan
    | .switchStmt layout => walkSwitch fuel node.kids layout.cases
    | .emptyStmt | .errorStmt => return ()
    | kind => throw (.notLowerable kind.flavor)

/-- Lowers both arms of a condition; they meet again in a block of their own. -/
def walkIf : Nat → NodeId → NodeId → NodeId → Lower Unit
  | 0, _, _, _ => throw .endless
  | fuel + 1, cond, thenStmt, elseStmt => do
    emit fuel cond
    let value ← valueOf cond
    let s ← get
    let n := s.nextIf
    set { s with nextIf := n + 1 }
    let thenBlock ← newBlock s!"then.{n}"
    let elseNode ← node elseStmt
    if elseNode.kind = .emptyStmt then
      let join ← newBlock s!"fallthrough.{n}"
      terminate (.branch value thenBlock join)
      moveTo thenBlock
      walk fuel thenStmt
      terminate (.jump join)
      moveTo join
    else
      let elseBlock ← newBlock s!"else.{n}"
      let join ← newBlock s!"fallthrough.{n}"
      terminate (.branch value thenBlock elseBlock)
      moveTo thenBlock
      walk fuel thenStmt
      terminate (.jump join)
      moveTo elseBlock
      walk fuel elseStmt
      terminate (.jump join)
      moveTo join

/-- Lowers a switch: case values are tested in order, and the body of a case runs on into the body
of the next. Where no test succeeds the default body runs, or nothing. -/
def walkSwitch : Nat → List NodeId → List SwitchCase → Lower Unit
  | 0, _, _ => throw .endless
  | fuel + 1, kids, cases => do
    let scrutineeNode ← childAt kids 0
    emit fuel scrutineeNode
    let scrutinee ← valueOf scrutineeNode
    let s ← get
    set { s with nextSwitch := s.nextSwitch + 1 }
    let bodies ← caseBlocks cases
    let exit ← newBlock s!"switch.exit.{s.nextSwitch}"
    let cases := cases.zip bodies
    cases.forM fun (case, body) => do
      let values ← childrenFrom kids case.valueIndex case.valueCount
      values.forM fun value => do
        emit fuel value
        test scrutinee (← valueOf value) body
    terminate (.jump ((defaultBody cases).getD exit))
    (cases.zip (bodies.tail ++ [exit])).forM fun ((case, body), next) => do
      moveTo body
      walk fuel (← childAt kids case.stmtIndex)
      terminate (.jump next)
    moveTo exit

/-- Lowers an expression: its children in order, then its own instructions. -/
def emit : Nat → NodeId → Lower Unit
  | 0, _ => throw .endless
  | fuel + 1, id => do
    let kids := (← node id).kids
    kids.forM fun kid => do
      if (← node kid).isStmt then walk fuel kid else emit fuel kid
    placeInsts id

end

end Lower

/-- Lowers the tree of a function. `entry` opens the entry block. A walk in a circle without
labels never ends; one that meets a label again stops there by its third round. -/
def lowerBody (func : FuncId) (arena : Arena) (insts : InstStore) (root : NodeId)
    (entry : List InstId) (resultIsVoid : Bool) : Except Fault (Body × Arena × InstStore) := do
  let start : Lowering := ⟨func, arena, insts, .initial, [], 0, 0, 0, 0, 0⟩
  let ((), s) ← (do Lower.append entry; Lower.walk (8 * (arena.size + 1)) root : Lower Unit) start
  return (s.builder.finish resultIsVoid, s.arena, s.insts)

end Codegen
