import Codegen.Types.Table
import Codegen.Word

/-!
Sizes, alignments and field offsets. Each field sits at the next offset aligned for it, and a
struct's size is rounded up to its alignment.
-/

namespace Codegen

/-- Bytes taken and alignment required. -/
structure Layout where
  size : Nat
  align : Nat
  deriving DecidableEq, Repr

/-- The least power of two that is not below `n`. -/
def powerAtLeast (n : Nat) : Nat := if n ≤ 1 then 1 else 1 <<< ((n - 1).log2 + 1)

namespace Target

def pointer (target : Target) : Layout := ⟨target.pointerSize, target.pointerAlign⟩

/-- Integers take a power of two of bytes. -/
def integer (target : Target) (bits : Nat) : Layout :=
  let bytes := powerAtLeast ((bits + 7) / 8)
  ⟨bytes, min bytes target.maxIntAlign⟩

end Target

namespace TypeTable

/-- Places fields after `offset`, under the alignment met so far. A field without a layout leaves
the struct without one. -/
def placeFields (layout : TypeId → Except Fault (Option Layout)) :
    List TypeId → Nat → Nat → Except Fault (Option Layout)
  | [], offset, align => do return some ⟨← Word.roundUp offset align, align⟩
  | field :: rest, offset, align => do
    match ← layout field with
    | none => return none
    | some l =>
      let start ← Word.roundUp offset l.align
      placeFields layout rest (← Word.add start l.size) (max align l.align)

/-- The layout of a type, found within a number of steps down. -/
def layoutWithin (t : TypeTable) : Nat → TypeId → Except Fault (Option Layout)
  | 0, _ => .error .endless
  | fuel + 1, id => do
    match ← t.form id with
    | .void => return some ⟨0, 1⟩
    | .bool | .error => return some ⟨1, 1⟩
    | .int bits _ => return some (t.target.integer bits)
    | .float bits => return some ⟨bits / 8, bits / 8⟩
    | .complex bits => return some ⟨bits / 8, bits / 8 / 2⟩
    | .pointer _ | .function .. => return some t.target.pointer
    | .placeholder .pointer _ | .placeholder .function _ => return some t.target.pointer
    | .placeholder .struct _ | .placeholder .array _ => return none
    | .marker => return none
    | .named _ under => t.layoutWithin fuel under
    | .array elem length =>
      match ← t.layoutWithin fuel elem with
      | none => return none
      | some l =>
        if l.size * length < Word.limit then return some ⟨l.size * length, l.align⟩
        else throw (.arrayTooLarge id)
    | .struct fields => placeFields (t.layoutWithin fuel) fields 0 1

/-- The layout of a type, if it has one yet: an aggregate placeholder that is still pending and the
marker type have none. -/
def layout? (t : TypeTable) (id : TypeId) : Except Fault (Option Layout) :=
  t.layoutWithin (t.size + 1) id

def layout (t : TypeTable) (id : TypeId) : Except Fault Layout := do
  match ← t.layout? id with
  | some l => return l
  | none => throw (.noLayout id)

def sizeOf (t : TypeTable) (id : TypeId) : Except Fault Nat := do return (← t.layout id).size

def alignOf (t : TypeTable) (id : TypeId) : Except Fault Nat := do return (← t.layout id).align

/-- Alignment as a struct field, which is the alignment everywhere. -/
def fieldAlignOf (t : TypeTable) (id : TypeId) : Except Fault Nat := t.alignOf id

/-- The offset of the last of some fields, laid out from `offset`. -/
def offsetAfter (t : TypeTable) (offset : Nat) : List TypeId → TypeId → Except Fault Nat
  | [], last => do Word.roundUp offset (← t.layout last).align
  | field :: rest, last => do
    let l ← t.layout field
    let start ← Word.roundUp offset l.align
    t.offsetAfter (← Word.add start l.size) rest last

/-- The offset of a field. The error type answers 0. -/
def offsetOf (t : TypeTable) (id : TypeId) (index : Nat) : Except Fault Nat := do
  if ← t.isError id then return 0
  else match ← t.structFields? id with
    | none => throw (.offsetInNonStruct id)
    | some fields =>
      match fields[index]? with
      | none => throw (.offsetOutOfRange index id fields.length)
      | some field => t.offsetAfter 0 (fields.take index) field

/-- Whether a type is known to take no bytes. -/
def isZeroSized (t : TypeTable) (id : TypeId) : Except Fault Bool := do
  return (← t.layout? id).any (·.size == 0)

end TypeTable

end Codegen
