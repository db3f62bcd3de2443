import Codegen.Inst.Store
import Codegen.Number.Shortest
import Codegen.Text.Quoted
import Codegen.Tree.Arena
import Codegen.Types.Display

/-!
A tree as indented text: one line for each node, then its instructions, then its children one level
deeper.
-/

namespace Codegen

/-- The text of a constant's value. -/
def Constant.display (names : NameTable) : Constant → Except Fault String
  | .int _ value => .ok (toString value)
  | .float _ bits => .ok (Binary64.toText bits)
  | .bool value => .ok (toString value)
  | .null _ => .ok "nil"
  | .zero _ => .ok "zero"
  | .str data => do return Text.quote (← names.lookup data)
  | .void => .ok "void"

/-- What a kind carries, as the text after its short word. -/
def NodeKind.detail : NodeKind → String
  | .var id => s!" v{id.index}"
  | .funcAddress id => s!" f{id.index}"
  | .unaryOp op | .binaryOp op => " " ++ op.symbol
  | .structField index => s!" .{index}"
  | .labelStmt _ label | .gotoStmt _ label => s!" L{label.index}"
  | .composite .building => " building"
  | .composite .finalized => " finalized"
  | .switchStmt layout => s!" cases={layout.cases.length}"
  | _ => ""

/-- Everything that the text of a tree is taken from. -/
structure Outline where
  arena : Arena
  insts : InstStore
  types : TypeTable
  names : NameTable

namespace Outline

def indent (level : Nat) : String := String.ofList (List.replicate (2 * level) ' ')

/-- The part of a line that only expressions have: type, constant value, address mark. -/
def valueText (o : Outline) (node : Node) : Except Fault String := do
  let ty ← o.types.display o.names node.ty
  let value ← match node.value with
    | some (.const c) => do pure (" = " ++ (← c.display o.names))
    | _ => pure ""
  return " : " ++ ty ++ value ++ if node.flags.address then " [addr]" else ""

def instText (o : Outline) (inst : InstId) : String :=
  match o.insts.find? inst with
  | some data => s!"%{inst.index} = " ++ data.kind.describe
  | none => s!"%{inst.index} <freed>"

/-- The lines of a tree, found within a number of steps down. -/
def linesWithin (o : Outline) : Nat → Nat → NodeId → Except Fault (List String)
  | 0, _, _ => .error .endless
  | fuel + 1, level, id =>
    match o.arena.find? id with
    | none => .ok [indent level ++ s!"<destroyed {id.index}>"]
    | some node => do
      let value ← if node.isExpr then o.valueText node else pure ""
      let head := indent level ++ node.kind.flavor ++ node.kind.detail ++ value
      let insts := node.insts.map fun i => indent (level + 1) ++ o.instText i
      let kids ← node.kids.mapM (o.linesWithin fuel (level + 1))
      return head :: insts ++ kids.flatten

/-- The text of the tree below a node. -/
def text (o : Outline) (root : NodeId) : Except Fault String := do
  let lines ← o.linesWithin (o.arena.size + 2) 0 root
  return String.join (lines.map (· ++ "\n"))

end Outline

end Codegen
