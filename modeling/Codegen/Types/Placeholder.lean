import Codegen.Types.Construct

/-!
Placeholders: types of known shape that are defined later, once. Misuse is reported to the caller
and leaves every existing handle as it was.
-/

namespace Codegen

/-- How a definition was received. -/
inductive Resolution where
  /-- The placeholder has its form now. -/
  | resolved
  /-- The handle was never a placeholder and has that form already. -/
  | alreadyConcrete
  /-- One side was an error; a pending placeholder is an error now. -/
  | errorType
  deriving DecidableEq, Repr

def Resolution.name : Resolution → String
  | .resolved => "Resolved"
  | .alreadyConcrete => "AlreadyConcrete"
  | .errorType => "ErrorType"

/-- Why a definition was refused. -/
inductive PlaceholderError where
  | alreadyResolved (placeholder : TypeId)
  | structureMismatch (handle target : TypeId)
  | shapeMismatch (placeholder : TypeId) (expected : Shape)
  | targetPending (placeholder target : TypeId)
  | infiniteSize (placeholder : TypeId)
  deriving DecidableEq, Repr

namespace PlaceholderError

def kind : PlaceholderError → String
  | alreadyResolved .. => "AlreadyResolved"
  | structureMismatch .. => "StructureMismatch"
  | shapeMismatch .. => "ShapeMismatch"
  | targetPending .. => "TargetPending"
  | infiniteSize .. => "InfiniteSize"

def message : PlaceholderError → String
  | alreadyResolved placeholder =>
    "placeholder " ++ placeholder.describe ++ " has already been resolved"
  | structureMismatch handle target =>
    handle.describe ++ " is not a placeholder and differs structurally from " ++ target.describe
  | shapeMismatch placeholder expected =>
    "placeholder " ++ placeholder.describe ++ " expects a " ++ expected.name ++ " definition"
  | targetPending placeholder target =>
    "cannot resolve " ++ placeholder.describe ++ " with " ++ target.describe ++
      ", which is itself still pending"
  | infiniteSize placeholder =>
    "placeholder " ++ placeholder.describe ++ " would contain itself by value"

end PlaceholderError

namespace TypeTable

/-- A new pending placeholder. -/
def placeholder (t : TypeTable) (shape : Shape) (name : Name) : TypeId × TypeTable :=
  t.push (.placeholder shape name) (some name)

/-- Whether a type is stored by value inside another, found within a number of steps down. -/
def holdsWithin (t : TypeTable) (needle : TypeId) : Nat → TypeId → Except Fault Bool
  | 0, _ => .error .endless
  | fuel + 1, id =>
    if id = needle then .ok true
    else do (← t.form id).parts.anyM (t.holdsWithin needle fuel)

/-- Whether `needle` is stored by value, not behind a pointer, in `id`. -/
def holds (t : TypeTable) (id needle : TypeId) : Except Fault Bool :=
  t.holdsWithin needle (t.size + 1) id

/-- Gives a pending placeholder the form of `real`. -/
def resolve (t : TypeTable) (placeholder real : TypeId) :
    Except Fault (Except PlaceholderError Resolution × TypeTable) := do
  if (← t.isError placeholder) then return (.ok .errorType, t.define placeholder .error)
  else if (← t.isError real) then return (.ok .errorType, t.define placeholder .error)
  else if t.isResolved placeholder then return (.error (.alreadyResolved placeholder), t)
  else if !t.isPending placeholder then
    if ← t.sameType placeholder real then return (.ok .alreadyConcrete, t)
    else return (.error (.structureMismatch placeholder real), t)
  else if t.isPending real then return (.error (.targetPending placeholder real), t)
  else match ← t.form placeholder with
    | .placeholder expected _ =>
      if (← t.underlyingForm real).shape? ≠ some expected then
        return (.error (.shapeMismatch placeholder expected), t)
      else if ← t.holds real placeholder then
        return (.error (.infiniteSize placeholder), t)
      else return (.ok .resolved, t.define placeholder (← t.form real))
    | _ => throw .pendingWithForm

def resolvePointer (t : TypeTable) (placeholder target : TypeId) :
    Except Fault (Except PlaceholderError Resolution × TypeTable) := do
  let (real, t) ← t.pointerType target
  t.resolve placeholder real

def resolveStruct (t : TypeTable) (placeholder : TypeId) (fields : List Field) :
    Except Fault (Except PlaceholderError Resolution × TypeTable) := do
  let (real, t) ← t.structType fields
  t.resolve placeholder real

def resolveArray (t : TypeTable) (placeholder elem : TypeId) (length : Nat) :
    Except Fault (Except PlaceholderError Resolution × TypeTable) := do
  let (real, t) ← t.arrayType elem length
  t.resolve placeholder real

end TypeTable

end Codegen
