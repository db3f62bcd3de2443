import Codegen.Operator
import Codegen.Types.Basic

/-!
Instructions: their operands, their kinds, and the one-line text of each.
-/

namespace Codegen

/-- An instruction of an instruction store. -/
structure InstId where
  index : Nat
  deriving DecidableEq, Repr, Inhabited

/-- A function of a compilation. Number 0 is the error function. -/
structure FuncId where
  index : Nat
  deriving DecidableEq, Repr, Inhabited

/-- A global variable of a compilation. -/
structure GlobalId where
  index : Nat
  deriving DecidableEq, Repr, Inhabited

def InstId.describe (i : InstId) : String := s!"InstId({i.index})"
def FuncId.describe (f : FuncId) : String := s!"FuncId({f.index})"
def GlobalId.describe (g : GlobalId) : String := s!"GlobalId({g.index})"

/-- The error function. -/
def FuncId.error : FuncId := ⟨0⟩

/-- A constant known at compile time. Floats are kept as the bits of a binary64. -/
inductive Constant where
  | int (ty : TypeId) (value : Int)
  | float (ty : TypeId) (bits : UInt64)
  | bool (value : Bool)
  | null (ty : TypeId)
  | zero (ty : TypeId)
  | str (data : Name)
  | void
  deriving DecidableEq, Repr, Inhabited

/-- An operand. -/
inductive Value where
  | inst (id : InstId)
  | const (c : Constant)
  /-- The address of a global. -/
  | global (id : GlobalId)
  /-- An incoming argument. -/
  | param (index : Nat)
  /-- The address of a function. -/
  | func (id : FuncId)
  deriving DecidableEq, Repr, Inhabited

inductive InstKind where
  /-- A stack slot for one value. -/
  | alloca (allocated : TypeId) (name : Name)
  | load (ptr : Value)
  | store (ptr value : Value)
  | binary (op : Operator) (lhs rhs : Value)
  | compare (op : Operator) (lhs rhs : Value)
  | unary (op : Operator) (operand : Value)
  | cast (value : Value)
  /-- The address of a field of the aggregate at an address. -/
  | fieldAddr (base : Value) (index : Nat)
  /-- A field of an aggregate value. -/
  | extractField (aggregate : Value) (index : Nat)
  /-- An element of an array value. -/
  | extractElem (aggregate index : Value)
  /-- The address of an element counted from an address. -/
  | elemAddr (base index : Value)
  | aggregate (elems : List Value)
  | call (callee : Value) (args : List Value)
  /-- Leaves the function; a block's exit once lowered. -/
  | ret (value : Option Value)
  deriving DecidableEq, Repr, Inhabited

/-- An instruction with the type of its result, `void` where it has none. -/
structure Inst where
  kind : InstKind
  ty : TypeId
  deriving DecidableEq, Repr, Inhabited

open Text in
def Constant.describe : Constant → String
  | .int ty value => record "Int" [("ty", ty.describe), ("value", toString value)]
  | .float ty bits => record "Float" [("ty", ty.describe), ("bits", toString bits.toNat)]
  | .bool value => tuple "Bool" [toString value]
  | .null ty => tuple "Null" [ty.describe]
  | .zero ty => tuple "Zero" [ty.describe]
  | .str data => tuple "Str" [data.describe]
  | .void => "Void"

open Text in
def Value.describe : Value → String
  | .inst id => tuple "Inst" [id.describe]
  | .const c => tuple "Const" [c.describe]
  | .global id => tuple "Global" [id.describe]
  | .param index => tuple "Param" [toString index]
  | .func id => tuple "Func" [id.describe]

/-- Text of a value that may be missing. -/
def Value.describe? (v : Option Value) : String := Text.optional (v.map Value.describe)

open Text in
def InstKind.describe : InstKind → String
  | .alloca allocated name =>
    record "Alloca" [("allocated", allocated.describe), ("name", name.describe)]
  | .load ptr => record "Load" [("ptr", ptr.describe)]
  | .store ptr value => record "Store" [("ptr", ptr.describe), ("value", value.describe)]
  | .binary op lhs rhs =>
    record "Binary" [("op", op.name), ("lhs", lhs.describe), ("rhs", rhs.describe)]
  | .compare op lhs rhs =>
    record "Compare" [("op", op.name), ("lhs", lhs.describe), ("rhs", rhs.describe)]
  | .unary op operand => record "Unary" [("op", op.name), ("operand", operand.describe)]
  | .cast value => record "Cast" [("value", value.describe)]
  | .fieldAddr base index =>
    record "FieldAddr" [("base", base.describe), ("index", toString index)]
  | .extractField whole index =>
    record "ExtractField" [("aggregate", whole.describe), ("index", toString index)]
  | .extractElem whole index =>
    record "ExtractElem" [("aggregate", whole.describe), ("index", index.describe)]
  | .elemAddr base index =>
    record "ElemAddr" [("base", base.describe), ("index", index.describe)]
  | .aggregate elems => record "Aggregate" [("elems", listing (elems.map Value.describe))]
  | .call callee args =>
    record "Call" [("callee", callee.describe), ("args", listing (args.map Value.describe))]
  | .ret value => record "Ret" [("value", Value.describe? value)]

end Codegen
