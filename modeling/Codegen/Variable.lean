import Codegen.Inst.Basic
import Codegen.Span
import Codegen.Tree.Kind

/-!
Variables and the definitions of globals.
-/

namespace Codegen

inductive VarKind where
  | global
  | local
  /-- A parameter at a position. -/
  | param (index : Nat)
  | temporary
  | error
  deriving DecidableEq, Repr

structure Variable where
  kind : VarKind
  name : Name
  ty : TypeId
  span : Span
  /-- The function of a variable that is not global. -/
  func : Option FuncId
  addressTaken : Bool
  /-- The address of the storage. A parameter holds its incoming value until it is first used. -/
  storage : Value
  deriving DecidableEq, Repr

namespace Variable

/-- The error variable. -/
def error : Variable := ⟨.error, .empty, .error, .synthetic, none, false, .const .void⟩

def isError (v : Variable) : Bool := v.kind == .error

end Variable

/-- Linkage of a global. -/
structure GlobalFlags where
  external : Bool
  hidden : Bool
  common : Bool
  constant : Bool
  uniqueSection : Bool
  deriving DecidableEq, Repr

/-- The attributes as one bit each, in the order of the fields. -/
def GlobalFlags.bits (f : GlobalFlags) : Nat :=
  f.external.toNat + 2 * f.hidden.toNat + 4 * f.common.toNat + 8 * f.constant.toNat +
    16 * f.uniqueSection.toNat

/-- The initial value of a global. -/
inductive GlobalInit where
  | scalar (c : Constant)
  /-- Members in order. -/
  | aggregate (members : List GlobalInit)
  deriving Repr

structure GlobalData where
  var : VarId
  asmName : Name
  flags : GlobalFlags
  init : Option GlobalInit
  deriving Repr

end Codegen
