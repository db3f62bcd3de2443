import Codegen.Body.Basic

/-!
Bodies under construction: blocks that may still be open, and a cursor at the block that receives
instructions.
-/

namespace Codegen

structure OpenBlock where
  name : String
  insts : List InstId
  terminator : Option Terminator
  deriving DecidableEq, Repr

/-- The blocks so far; their positions are their numbers. -/
structure Builder where
  blocks : Array OpenBlock
  cursor : BlockId
  deriving DecidableEq, Repr

namespace Builder

/-- An open entry block, with the cursor on it. -/
def initial : Builder := ⟨#[⟨"entry", [], none⟩], ⟨0⟩⟩

/-- Adds an empty block and leaves the cursor where it is. -/
def newBlock (b : Builder) (name : String) : BlockId × Builder :=
  (⟨b.blocks.size⟩, { b with blocks := b.blocks.push ⟨name, [], none⟩ })

/-- Goes on at a block, which has to exist. -/
def moveTo (b : Builder) (block : BlockId) : Except Fault Builder :=
  if block.index < b.blocks.size then .ok { b with cursor := block }
  else .error (.blockOutOfBounds block.index b.blocks.size)

/-- The block under the cursor. -/
def current (b : Builder) : Except Fault OpenBlock :=
  match b.blocks[b.cursor.index]? with
  | some block => .ok block
  | none => .error (.indexOutOfBounds b.blocks.size b.cursor.index)

/-- Changes the block under the cursor. -/
def setCurrent (b : Builder) (block : OpenBlock) : Builder :=
  { b with blocks := b.blocks.modify b.cursor.index fun _ => block }

/-- Adds instructions to the block under the cursor, which has to be open. -/
def append (b : Builder) (insts : List InstId) : Except Fault Builder := do
  let block ← b.current
  if block.terminator.isSome then throw (.appendToTerminated b.cursor.index)
  else return b.setCurrent { block with insts := block.insts ++ insts }

/-- Ends the block under the cursor, which has to be open. -/
def terminate (b : Builder) (exit : Terminator) : Except Fault Builder := do
  let block ← b.current
  if block.terminator.isSome then throw (.alreadyTerminated b.cursor.index)
  else return b.setCurrent { block with terminator := some exit }

/-- The finished body. A block left open returns where the function returns nothing, and cannot be
left otherwise. -/
def finish (b : Builder) (resultIsVoid : Bool) : Body :=
  let exit := if resultIsVoid then .ret none else .unreachable
  { blocks := b.blocks.mapIdx fun i block =>
      ⟨⟨i⟩, block.name, block.insts, block.terminator.getD exit⟩
    entry := ⟨0⟩ }

end Builder

end Codegen
