import Codegen.Compilation.Basic

/-!
Types from a front end's point of view: names are strings and array lengths are constants of the
tree.
-/

namespace Codegen.Build

/-- The length that a constant expression gives an array. -/
def arrayLength (length : NodeId) : Build Nat := do
  match (← getNode length).value with
  | some (.const (.int _ value)) =>
    if 0 ≤ value ∧ value < Word.limit then return value.toNat else throw (.arrayLengthRange value)
  | other => throw (.arrayLengthNotConstant other)

def arrayType (elem : TypeId) (length : NodeId) : Build TypeId := do
  if ← isErrorExpr length then return .error
  else
    let length ← arrayLength length
    onTypes (·.arrayType elem length)

def placeholderType (shape : Shape) (name : String) : Build TypeId := do
  let name ← intern name
  onTypes fun t => .ok (t.placeholder shape name)

def namedType (name : String) (underlying : TypeId) : Build TypeId := do
  let name ← intern name
  onTypes (·.namedType name underlying)

def resolveArray (placeholder elem : TypeId) (length : NodeId) :
    Build (Except PlaceholderError Resolution) := do
  let real ← arrayType elem length
  onTypes (·.resolve placeholder real)

end Codegen.Build
