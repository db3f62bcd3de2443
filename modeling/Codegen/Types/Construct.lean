import Codegen.Types.Layout

/-!
Constructors of types. Each gives the error type when one of its inputs is the error type.
-/

namespace Codegen.TypeTable

/-- Integers are 1 to 128 bits wide. -/
def integerType (t : TypeTable) (unsigned : Bool) (bits : Nat) :
    Except Fault (TypeId × TypeTable) :=
  if 1 ≤ bits ∧ bits ≤ 128 then t.intern (.int bits !unsigned)
  else .error (.integerWidth bits)

/-- Floats have 32 or 64 bits. -/
def floatType (bits : Nat) : Except Fault TypeId :=
  if bits = 32 then .ok .f32
  else if bits = 64 then .ok .f64
  else .error (.floatWidth bits)

/-- Complex types have 64 or 128 bits in all. -/
def complexType (t : TypeTable) (bits : Nat) : Except Fault (TypeId × TypeTable) :=
  if bits = 64 ∨ bits = 128 then t.intern (.complex bits) else .error (.complexWidth bits)

/-- The float type of a complex type's parts. -/
def complexPart (t : TypeTable) (id : TypeId) : Except Fault TypeId := do
  match ← t.underlyingForm id with
  | .complex bits => floatType (bits / 2)
  | .error => return .error
  | form => throw (.notComplex form)

/-- A pointer; one to void is a pointer to a byte. -/
def pointerType (t : TypeTable) (target : TypeId) : Except Fault (TypeId × TypeTable) := do
  if ← t.isError target then return (.error, t)
  else t.intern (.pointer (if target = .void then .u8 else target))

/-- A struct; names of fields do not tell structs apart. -/
def structType (t : TypeTable) (fields : List Field) : Except Fault (TypeId × TypeTable) := do
  if ← fields.anyM (fun f => t.isError f.ty) then return (.error, t)
  else t.intern (.struct (fields.map (·.ty)))

def arrayType (t : TypeTable) (elem : TypeId) (length : Nat) :
    Except Fault (TypeId × TypeTable) := do
  if ← t.isError elem then return (.error, t) else t.intern (.array elem length)

/-- The one type that several results travel in. -/
def resultType (results : List Field) (resultStruct : TypeId) : TypeId :=
  match results with
  | [] => .void
  | [single] => single.ty
  | _ => resultStruct

/-- A signature. A receiver is the first parameter; a result that takes no bytes is void. -/
def functionType (t : TypeTable) (receiver : Option Field) (params results : List Field)
    (resultStruct : TypeId) : Except Fault (TypeId × TypeTable) := do
  let inputs := (receiver.toList ++ params).map (·.ty)
  let result := resultType results resultStruct
  if ← inputs.anyM t.isError then return (.error, t)
  else if ← results.anyM (fun f => t.isError f.ty) then return (.error, t)
  else if ← t.isError result then return (.error, t)
  else if ← t.isZeroSized result then t.intern (.function inputs .void)
  else t.intern (.function inputs result)

/-- A nominal type. -/
def namedType (t : TypeTable) (name : Name) (underlying : TypeId) :
    Except Fault (TypeId × TypeTable) := do
  if ← t.isError underlying then return (.error, t) else t.intern (.named name underlying)

/-- The pointer that stands in while a front end breaks a cycle of types. -/
def circularPointerType (t : TypeTable) : Except Fault (TypeId × TypeTable) :=
  t.intern (.pointer .marker)

def isCircularPointerType (t : TypeTable) (id : TypeId) : Except Fault Bool := do
  return (← t.form id) == .pointer .marker

end Codegen.TypeTable
