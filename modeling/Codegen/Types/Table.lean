import Codegen.Fault
import Codegen.Types.Cache
import Codegen.Types.Target

/-!
The type table. An interned form is entered once; a placeholder is entered on its own and given its
form later.
-/

namespace Codegen

/-- All types of a compilation. -/
structure TypeTable extends TypeCache where
  target : Target
  coherent : toTypeCache.Coherent
  deriving DecidableEq, Repr

namespace TypeTable

/-- The forms of the fixed handles. -/
def primitives : List TypeForm :=
  [.void, .bool, .int 8 true, .int 16 true, .int 32 true, .int 64 true, .int 8 false,
    .int 16 false, .int 32 false, .int 64 false, .float 32, .float 64, .marker, .error]

def empty (target : Target) : TypeTable where
  types := #[]
  map := []
  pending := []
  resolved := []
  names := []
  target := target
  coherent := ⟨by simp, by simp, by simp, by simp, by simp, .nil⟩

def size (t : TypeTable) : Nat := t.types.size

def push (t : TypeTable) (form : TypeForm) (name? : Option Name) : TypeId × TypeTable :=
  (t.next, ⟨t.toTypeCache.push form name?, t.target, t.coherent.push form name?⟩)

def define (t : TypeTable) (id : TypeId) (form : TypeForm) : TypeTable :=
  ⟨t.toTypeCache.define id form, t.target, t.coherent.define id form⟩

/-- A table of the fixed handles alone. -/
def initial (target : Target) : TypeTable :=
  primitives.foldl (fun t form => (t.push form none).2) (empty target)

/-- The form of a handle. -/
def form (t : TypeTable) (id : TypeId) : Except Fault TypeForm :=
  match t.types[id.index]? with
  | some form => .ok form
  | none => .error (.indexOutOfBounds t.size id.index)

/-- The handle that a form was interned at. -/
def lookup? (t : TypeTable) (form : TypeForm) : Option TypeId := t.map.lookup form

/-- Whether a handle denotes the error type: the sentinel, or a placeholder resolved with an
error. -/
def isError (t : TypeTable) (id : TypeId) : Except Fault Bool :=
  if id = .error then .ok true else do return (← t.form id) == .error

/-- Whether some component of a form is an error. -/
def hasErrorPart (t : TypeTable) : TypeForm → Except Fault Bool
  | .error => .ok true
  | .pointer part | .array part _ | .named _ part => t.isError part
  | .struct fields => fields.anyM t.isError
  | .function params result => do
    if ← t.isError result then return true else params.anyM t.isError
  | _ => .ok false

/-- The handle of a form, which is entered if it is new. A form with an error in it is the error
type. -/
def intern (t : TypeTable) (form : TypeForm) : Except Fault (TypeId × TypeTable) :=
  if form.isPlaceholder then .error .internedPlaceholder
  else do
    if ← t.hasErrorPart form then return (.error, t)
    else match t.lookup? form with
      | some id => return (id, t)
      | none => return t.push form none

/-- Follows nominal types for at most a number of steps. -/
def underlyingWithin (t : TypeTable) : Nat → TypeId → Except Fault TypeId
  | 0, _ => .error .endless
  | fuel + 1, id => do
    match ← t.form id with
    | .named _ under => t.underlyingWithin fuel under
    | _ => return id

/-- The first handle below nominal types. As no type holds itself by value, a descent meets each
handle at most once. -/
def underlying (t : TypeTable) (id : TypeId) : Except Fault TypeId :=
  t.underlyingWithin (t.size + 1) id

/-- The form below nominal types. -/
def underlyingForm (t : TypeTable) (id : TypeId) : Except Fault TypeForm := do
  t.form (← t.underlying id)

def isPending (t : TypeTable) (id : TypeId) : Bool := id ∈ t.pending

def isResolved (t : TypeTable) (id : TypeId) : Bool := id ∈ t.resolved

/-- Whether a handle was created as a placeholder. -/
def isPlaceholder (t : TypeTable) (id : TypeId) : Bool := t.isPending id || t.isResolved id

def placeholderName? (t : TypeTable) (id : TypeId) : Option Name := t.names.lookup id

/-- Placeholders that still wait for a definition. -/
def pendingCount (t : TypeTable) : Nat := t.pending.length

/-- Whether two handles denote the same form. A pending placeholder is the same as itself only. -/
def sameType (t : TypeTable) (a b : TypeId) : Except Fault Bool :=
  if a = b then .ok true
  else if t.isPending a || t.isPending b then .ok false
  else do return (← t.form a) == (← t.form b)

/-- What a pointer type points at. -/
def pointee? (t : TypeTable) (id : TypeId) : Except Fault (Option TypeId) := do
  match ← t.underlyingForm id with
  | .pointer target => return some target
  | _ => return none

def structFields? (t : TypeTable) (id : TypeId) : Except Fault (Option (List TypeId)) := do
  match ← t.underlyingForm id with
  | .struct fields => return some fields
  | _ => return none

def arrayElement? (t : TypeTable) (id : TypeId) : Except Fault (Option TypeId) := do
  match ← t.underlyingForm id with
  | .array elem _ => return some elem
  | _ => return none

def functionResult? (t : TypeTable) (id : TypeId) : Except Fault (Option TypeId) := do
  match ← t.underlyingForm id with
  | .function _ result => return some result
  | _ => return none

/-- Width and signedness of an integer type. -/
def integer? (t : TypeTable) (id : TypeId) : Except Fault (Option (Nat × Bool)) := do
  match ← t.underlyingForm id with
  | .int bits signed => return some (bits, signed)
  | _ => return none

end TypeTable

end Codegen
