import Codegen.Tree.Arena

/-!
Changes to nodes after construction. What a caller may try is refused with an `EditError`, which
leaves the arena as it was.
-/

namespace Codegen

/-- Why a change of children was refused. -/
inductive EditError where
  | notComposite (node : NodeId)
  | finalized (node : NodeId)
  | hasValue (node : NodeId)
  | noSuchChild (node : NodeId) (index : Nat)
  | categoryMismatch (node : NodeId) (index : Nat)
  | typeMismatch (expected found : TypeId)
  deriving DecidableEq, Repr

namespace EditError

def kind : EditError → String
  | notComposite .. => "NotComposite"
  | finalized .. => "Finalized"
  | hasValue .. => "HasValue"
  | noSuchChild .. => "NoSuchChild"
  | categoryMismatch .. => "CategoryMismatch"
  | typeMismatch .. => "TypeMismatch"

def message : EditError → String
  | notComposite node => s!"node {node.index} is not a composite"
  | finalized node => s!"composite {node.index} is finalized; its children are frozen"
  | hasValue node => s!"node {node.index} already has its value; its operands are fixed"
  | noSuchChild node index => s!"node {node.index} has no child {index}"
  | categoryMismatch node index =>
    s!"child {index} of node {node.index} cannot change between expression and statement"
  | typeMismatch expected found =>
    "replacement type " ++ found.describe ++ " does not match child type " ++ expected.describe

end EditError

namespace Arena

/-- Attaches an instruction to an expression. -/
def appendInst (a : Arena) (id : NodeId) (inst : InstId) : Except Fault Arena := do
  let node ← a.get id
  if node.isExpr then return a.set id { node with insts := node.insts ++ [inst] }
  else throw .instructionOnStatement

/-- Detaches all instructions of a node. -/
def takeInsts (a : Arena) (id : NodeId) : Except Fault (List InstId × Arena) := do
  let node ← a.get id
  return (node.insts, a.set id { node with insts := [] })

def setValue (a : Arena) (id : NodeId) (value : Value) : Except Fault Arena :=
  a.update id fun node => { node with value := some value }

def setFlags (a : Arena) (id : NodeId) (flags : NodeFlags) : Except Fault Arena :=
  a.update id fun node => { node with flags := flags }

/-- Adds a statement at the end of a block. -/
def appendChild (a : Arena) (block stmt : NodeId) : Except Fault Arena := do
  if (← a.get stmt).isStmt then
    let node ← a.get block
    if node.kind = .blockStmt then return a.set block { node with kids := node.kids ++ [stmt] }
    else throw (.appendToNonBlock node.kind.flavor)
  else throw .appendNonStatement

/-- Puts another child in the place of one and gives back the old one. A node that has its value
keeps its operands; a child is replaced by one of its own category and, if an expression, of its
own type. -/
def replaceChild (a : Arena) (id : NodeId) (index : Nat) (new : NodeId) :
    Except Fault (Except EditError NodeId × Arena) := do
  let parent ← a.get id
  if parent.kind.compositeState? = some .finalized then return (.error (.finalized id), a)
  else if parent.value.isSome then return (.error (.hasValue id), a)
  else match parent.kids[index]? with
    | none => return (.error (.noSuchChild id index), a)
    | some old =>
      let oldNode ← a.get old
      let newNode ← a.get new
      if oldNode.isStmt ≠ newNode.isStmt then return (.error (.categoryMismatch id index), a)
      else if oldNode.isExpr ∧ oldNode.ty ≠ newNode.ty then
        return (.error (.typeMismatch oldNode.ty newNode.ty), a)
      else return (.ok old, a.set id { parent with kids := parent.kids.set index new })

/-- Replaces a child of a composite. -/
def updateCompositeChild (a : Arena) (id : NodeId) (index : Nat) (new : NodeId) :
    Except Fault (Except EditError NodeId × Arena) := do
  match (← a.get id).kind.compositeState? with
  | none => return (.error (.notComposite id), a)
  | some _ => a.replaceChild id index new

/-- Gives a composite its value, after which its children are fixed. -/
def finishComposite (a : Arena) (id : NodeId) (value : Value) : Except Fault Arena := do
  let node ← a.get id
  match node.kind with
  | .composite .building =>
    return a.set id { node with kind := .composite .finalized, value := some value }
  | .composite .finalized => throw (.compositeFinished id.index)
  | kind => throw (.finishNonComposite kind.flavor)

/-- Whether an expression has its final value. -/
def isFinished (a : Arena) (id : NodeId) : Except Fault Bool := do
  let node ← a.get id
  return !node.isBuilding && node.value.isSome

/-- Detaches all children of a node. -/
def removeChildren (a : Arena) (id : NodeId) : Except Fault (List NodeId × Arena) := do
  let node ← a.get id
  return (node.kids, a.set id { node with kids := [] })

/-- Takes in a copy of a live node, with the same children and instructions. -/
def copy (a : Arena) (id : NodeId) : Except Fault (NodeId × Arena) := do return a.add (← a.get id)

end Arena

end Codegen
