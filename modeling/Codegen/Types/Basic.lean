import Codegen.Name
import Codegen.Text.Record

/-!
Type handles and the one-level forms they stand for.
-/

namespace Codegen

/-- A handle of a type in a type table. The low handles are fixed. -/
structure TypeId where
  index : Nat
  deriving DecidableEq, Repr, Inhabited

namespace TypeId

def void : TypeId := ⟨0⟩
def bool : TypeId := ⟨1⟩
def i64 : TypeId := ⟨5⟩
def u8 : TypeId := ⟨6⟩
def f32 : TypeId := ⟨10⟩
def f64 : TypeId := ⟨11⟩
/-- The marker type, met only behind a pointer. -/
def marker : TypeId := ⟨12⟩
/-- The error sentinel. -/
def error : TypeId := ⟨13⟩

def describe (t : TypeId) : String :=
  if t = void then "TypeId(void)"
  else if t = bool then "TypeId(bool)"
  else if t = error then "TypeId(error)"
  else s!"TypeId({t.index})"

theorem index_inj {a b : TypeId} : a.index = b.index ↔ a = b := by
  cases a
  cases b
  simp

end TypeId

/-- What a placeholder will turn out to be. -/
inductive Shape where
  | pointer | struct | array | function
  deriving DecidableEq, Repr, Inhabited

namespace Shape

def all : List Shape := [.pointer, .struct, .array, .function]

def name : Shape → String
  | .pointer => "Pointer"
  | .struct => "Struct"
  | .array => "Array"
  | .function => "Function"

def ofName? (s : String) : Option Shape := all.find? (·.name == s)

end Shape

/-- The outermost form of a type, over handles of its components. -/
inductive TypeForm where
  | void
  | bool
  | int (bits : Nat) (signed : Bool)
  | float (bits : Nat)
  /-- A pair of floats of half the width each. -/
  | complex (bits : Nat)
  | pointer (target : TypeId)
  | struct (fields : List TypeId)
  | array (elem : TypeId) (length : Nat)
  | function (params : List TypeId) (result : TypeId)
  /-- A nominal type: equal names over equal types are equal. -/
  | named (name : Name) (underlying : TypeId)
  /-- A type without a body. -/
  | marker
  /-- A type of known shape whose definition is still to come. -/
  | placeholder (shape : Shape) (name : Name)
  | error
  deriving DecidableEq, Repr, Inhabited

namespace TypeForm

/-- The shape of placeholder that this form can define. A nominal type has none of its own. -/
def shape? : TypeForm → Option Shape
  | .pointer _ => some .pointer
  | .struct _ | .complex _ => some .struct
  | .array .. => some .array
  | .function .. => some .function
  | .placeholder shape _ => some shape
  | _ => none

def isPlaceholder : TypeForm → Bool
  | .placeholder .. => true
  | _ => false

/-- Components stored inside a value of this form, not behind a pointer. -/
def parts : TypeForm → List TypeId
  | .struct fields => fields
  | .array elem _ => [elem]
  | .named _ underlying => [underlying]
  | _ => []

open Text in
def describe : TypeForm → String
  | .void => "Void"
  | .bool => "Bool"
  | .int bits signed => record "Int" [("bits", toString bits), ("signed", toString signed)]
  | .float bits => record "Float" [("bits", toString bits)]
  | .complex bits => record "Complex" [("bits", toString bits)]
  | .pointer target => tuple "Pointer" [target.describe]
  | .struct fields => tuple "Struct" [listing (fields.map TypeId.describe)]
  | .array elem length => record "Array" [("elem", elem.describe), ("len", toString length)]
  | .function params result =>
    record "Function" [("params", listing (params.map TypeId.describe)),
      ("result", result.describe)]
  | .named name underlying =>
    record "Named" [("name", name.describe), ("underlying", underlying.describe)]
  | .marker => "Opaque"
  | .placeholder shape name =>
    record "Placeholder" [("shape", shape.name), ("name", name.describe)]
  | .error => "Error"

end TypeForm

/-- A named, typed entry of a struct or of a parameter list. -/
structure Field where
  name : Name
  ty : TypeId
  deriving DecidableEq, Repr, Inhabited

end Codegen
