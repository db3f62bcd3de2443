import Codegen.Body.Basic
import Codegen.Inst.Store
import Codegen.Span
import Codegen.Tree.Kind

/-!
Functions: what is known of one before its body is lowered, and the body after. Stack slots wait
here for their place in the entry block.
-/

namespace Codegen

/-- A label together with the function it belongs to. -/
structure Label where
  func : FuncId
  id : LabelId
  span : Span
  deriving DecidableEq, Repr

/-- Attributes of a function's symbol and code, one bit each: visible, declared only, inlinable,
in a section of its own. -/
structure FunctionFlags where
  bits : UInt8
  deriving DecidableEq, Repr

/-- Drops the bits that name no attribute. -/
def FunctionFlags.ofBits (bits : UInt8) : FunctionFlags := ⟨bits &&& 0xf⟩

structure Function where
  id : FuncId
  name : Name
  /-- The symbol, or the empty name. -/
  asmName : Name
  fntype : TypeId
  flags : FunctionFlags
  splitStack : Bool
  span : Span
  params : List VarId
  /-- The statement that places each label, by label number. -/
  labels : Array (Option NodeId)
  /-- Stack slots of parameters by position, in the order of their creation. -/
  spills : List (Nat × InstId)
  /-- Parameters whose slot has no place in the entry block yet. -/
  pendingSpills : List Nat
  /-- Slots of locals that have no place in the entry block yet. -/
  pendingLocals : List InstId
  /-- Blocks made for the function, with the variables that come alive in each. -/
  blocks : List (NodeId × List VarId)
  body : Option Body
  deriving Repr

namespace Function

/-- A function of which only the declaration is known. -/
def declare (id : FuncId) (name asmName : Name) (fntype : TypeId) (flags : FunctionFlags)
    (splitStack : Bool) (span : Span) : Function :=
  { id, name, asmName, fntype, flags, splitStack, span, params := [], labels := #[], spills := [],
    pendingSpills := [], pendingLocals := [], blocks := [], body := none }

/-- The error function. -/
def error : Function := declare .error .empty .empty .error ⟨0⟩ false .synthetic

/-- The symbol of the function: its name, if no other was given. -/
def symbol (f : Function) : Name := if f.asmName.isEmpty then f.name else f.asmName

/-- Adds a parameter and gives its position. -/
def pushParam (f : Function) (var : VarId) : Nat × Function :=
  (f.params.length, { f with params := f.params ++ [var] })

/-- A function gets its body once. -/
def setBody (f : Function) (body : Body) : Except Fault Function :=
  if f.body.isSome then .error (.bodyTwice f.id) else .ok { f with body := some body }

def addBlock (f : Function) (block : NodeId) (vars : List VarId) : Function :=
  { f with blocks := f.blocks ++ [(block, vars)] }

def hasBlock (f : Function) (block : NodeId) : Bool := f.blocks.any (·.1 == block)

/-- Adds a variable to the first entry of a block. -/
def addToBlock (block : NodeId) (var : VarId) :
    List (NodeId × List VarId) → List (NodeId × List VarId)
  | [] => []
  | (b, vars) :: rest =>
    if b = block then (b, vars ++ [var]) :: rest else (b, vars) :: addToBlock block var rest

/-- Notes that a variable comes alive in a block of the function. -/
def addBlockVar (f : Function) (block : NodeId) (var : VarId) : Except Fault Function :=
  if f.hasBlock block then .ok { f with blocks := addToBlock block var f.blocks }
  else .error (.blockOfOtherFunction block.index f.id)

/-- A new label. -/
def newLabel (f : Function) (span : Span) : Label × Function :=
  (⟨f.id, ⟨f.labels.size⟩, span⟩, { f with labels := f.labels.push none })

/-- Notes the statement that places a label; a label is placed once. -/
def defineLabel (f : Function) (label : Label) (stmt : NodeId) : Except Fault Function :=
  if label.func ≠ f.id then .error (.labelOfOtherFunction label.id.index label.func f.id)
  else match f.labels[label.id.index]? with
    | none => .error (.indexOutOfBounds f.labels.size label.id.index)
    | some (some _) => .error (.labelTwice label.id.index)
    | some none => .ok { f with labels := f.labels.modify label.id.index fun _ => some stmt }

def labelDefinition? (f : Function) (label : LabelId) : Option NodeId :=
  f.labels[label.index]?.join

/-- The slot of a parameter. -/
def spillSlot? (f : Function) (index : Nat) : Option InstId := f.spills.lookup index

/-- The slot of a parameter, made on first use. -/
def spillSlotFor (f : Function) (index : Nat) (ty ptrType : TypeId) (name : Name)
    (insts : InstStore) : InstId × Function × InstStore :=
  match f.spillSlot? index with
  | some slot => (slot, f, insts)
  | none =>
    let (slot, insts) := insts.create (.alloca ty name) ptrType
    (slot, { f with
      spills := f.spills ++ [(index, slot)]
      pendingSpills := f.pendingSpills ++ [index] }, insts)

def addPendingLocal (f : Function) (slot : InstId) : Function :=
  { f with pendingLocals := f.pendingLocals ++ [slot] }

def hasPendingSlots (f : Function) : Bool := !f.pendingSpills.isEmpty || !f.pendingLocals.isEmpty

/-- Stores incoming arguments into their slots. -/
def storeArguments : List (Nat × InstId) → InstStore → List InstId × InstStore
  | [], insts => ([], insts)
  | (index, slot) :: rest, insts =>
    let (store, insts) := insts.create (.store (.inst slot) (.param index)) .void
    let (stores, insts) := storeArguments rest insts
    (store :: stores, insts)

/-- The instructions that open the entry block: slots of parameters in parameter order, slots of
locals in order of creation, then the stores of the arguments. Nothing waits after that. -/
def materializeEntry (f : Function) (insts : InstStore) : List InstId × Function × InstStore :=
  let sorted := f.pendingSpills.mergeSort
  let spills := sorted.filterMap fun index => (f.spillSlot? index).map (index, ·)
  let (stores, insts) := storeArguments spills insts
  (spills.map (·.2) ++ f.pendingLocals ++ stores,
    { f with pendingSpills := [], pendingLocals := [] }, insts)

end Function

end Codegen
