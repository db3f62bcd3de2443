import Codegen.Fault

/-!
Function bodies: basic blocks that end in one exit each, and the graph of their exits.
-/

namespace Codegen

/-- A block of one body. Number 0 is the entry. -/
structure BlockId where
  index : Nat
  deriving DecidableEq, Repr, Inhabited

/-- How a block ends. -/
inductive Terminator where
  | jump (target : BlockId)
  | branch (cond : Value) (thenBlock elseBlock : BlockId)
  | ret (value : Option Value)
  | unreachable
  deriving DecidableEq, Repr

/-- The blocks that an exit names, in its order. A branch names a block twice if both ways lead
there. -/
def Terminator.named : Terminator → List BlockId
  | .jump target => [target]
  | .branch _ thenBlock elseBlock => [thenBlock, elseBlock]
  | .ret _ | .unreachable => []

/-- Adds a block to a list that it is not in. -/
def BlockId.addTo (out : List BlockId) (id : BlockId) : List BlockId :=
  if id ∈ out then out else out ++ [id]

/-- Where a block may go on, each block once, in the order of the exit. -/
def Terminator.targets (exit : Terminator) : List BlockId := exit.named.foldl BlockId.addTo []

/-- Instructions without a branch among them, then an exit. The name is for people. -/
structure BasicBlock where
  id : BlockId
  name : String
  insts : List InstId
  terminator : Terminator
  deriving DecidableEq, Repr

structure Body where
  blocks : Array BasicBlock
  entry : BlockId
  deriving DecidableEq, Repr

namespace Body

/-- The block at a position. -/
def block (b : Body) (id : BlockId) : Except Fault BasicBlock :=
  match b.blocks[id.index]? with
  | some block => .ok block
  | none => .error (.indexOutOfBounds b.blocks.size id.index)

/-- The first block of a name. -/
def blockNamed? (b : Body) (name : String) : Option BasicBlock :=
  b.blocks.find? (·.name == name)

/-- Where the block at a position may go on. -/
def successors (b : Body) (id : BlockId) : Except Fault (List BlockId) := do
  return (← b.block id).terminator.targets

/-- Notes a block with one that it names, unless that is beyond the body or has been seen. -/
def note (size : Nat) (id : BlockId) (state : List BlockId × List (List BlockId))
    (target : BlockId) : List BlockId × List (List BlockId) :=
  if target.index < size ∧ target ∉ state.1 then
    (target :: state.1, state.2.modify target.index (· ++ [id]))
  else state

/-- Notes a block with all that its exit names. -/
def noteAll (size : Nat) (rows : List (List BlockId)) (block : BasicBlock) : List (List BlockId) :=
  (block.terminator.named.foldl (note size block.id) ([], rows)).2

/-- The blocks that may go on at each position. -/
def predecessors (b : Body) : List (List BlockId) :=
  b.blocks.foldl (noteAll b.blocks.size) (List.replicate b.blocks.size [])

end Body

end Codegen
