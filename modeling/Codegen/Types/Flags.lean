import Codegen.Types.Table

/-!
Category flags of types, packed into one word.
-/

namespace Codegen

/-- A set of categories, one bit each. -/
structure TypeFlags where
  bits : UInt16
  deriving DecidableEq, Repr

namespace TypeFlags

/-- The categories by bit: void, bool, integer, signed, float, complex, pointer, struct, array,
function, named, pending, error. -/
def known : UInt16 := 0x1fff

/-- Drops the bits that name no category. -/
def ofBits (bits : UInt16) : TypeFlags := ⟨bits &&& known⟩

def none : TypeFlags := ⟨0⟩
def void : TypeFlags := ⟨1⟩
def bool : TypeFlags := ⟨2⟩
def integer : TypeFlags := ⟨4⟩
def signed : TypeFlags := ⟨8⟩
def float : TypeFlags := ⟨16⟩
def complex : TypeFlags := ⟨32⟩
def pointer : TypeFlags := ⟨64⟩
def struct : TypeFlags := ⟨128⟩
def array : TypeFlags := ⟨256⟩
def function : TypeFlags := ⟨512⟩
def named : TypeFlags := ⟨1024⟩
def pending : TypeFlags := ⟨2048⟩
def error : TypeFlags := ⟨4096⟩

def union (a b : TypeFlags) : TypeFlags := ⟨a.bits ||| b.bits⟩

def meets (a b : TypeFlags) : Bool := a.bits &&& b.bits != 0

/-- Fits a register: bool, integer, float, pointer. -/
def isScalar (f : TypeFlags) : Bool :=
  f.meets bool || f.meets integer || f.meets float || f.meets pointer

/-- Has several parts: struct, array, complex. -/
def isAggregate (f : TypeFlags) : Bool := f.meets struct || f.meets array || f.meets complex

def isUnsignedInteger (f : TypeFlags) : Bool := f.meets integer && !f.meets signed

/-- The category of a form below nominal types. -/
def ofForm : TypeForm → TypeFlags
  | .void => void
  | .bool => bool
  | .int _ true => integer.union signed
  | .int _ false => integer
  | .float _ => float
  | .complex _ => complex
  | .pointer _ => pointer
  | .struct _ => struct
  | .array .. => array
  | .function .. => function
  | .placeholder .. => pending
  | .error => error
  | .marker | .named .. => none

end TypeFlags

/-- The categories of a handle: those of the form below nominal types, and whether it is nominal
itself. -/
def TypeTable.flags (t : TypeTable) (id : TypeId) : Except Fault TypeFlags := do
  let own := match ← t.form id with
    | .named .. => TypeFlags.named
    | _ => TypeFlags.none
  return own.union (TypeFlags.ofForm (← t.underlyingForm id))

end Codegen
