import Codegen.NameTable
import Codegen.Types.Table

/-!
Types as text for people. Nominal types and inner placeholders go by their names, which keeps the
text of a recursive type finite.
-/

namespace Codegen.TypeTable

/-- The text of a type, found within a number of steps down. At the top a placeholder shows its
form, below it goes by its name. -/
def displayWithin (t : TypeTable) (names : NameTable) : Nat → Bool → TypeId → Except Fault String
  | 0, _, _ => .error .endless
  | fuel + 1, top, id =>
    let inner := t.displayWithin names fuel false
    match if top then none else t.placeholderName? id with
    | some name => do return "%" ++ (← names.lookup name)
    | none => do
      match ← t.form id with
      | .void => return "void"
      | .bool => return "bool"
      | .int bits signed => return (if signed then "i" else "u") ++ toString bits
      | .float bits => return "f" ++ toString bits
      | .complex bits => return "complex" ++ toString bits
      | .pointer target => return "*" ++ (← inner target)
      | .struct fields => return "\x7b" ++ ", ".intercalate (← fields.mapM inner) ++ "\x7d"
      | .array elem length => return "[" ++ toString length ++ " x " ++ (← inner elem) ++ "]"
      | .function params result =>
        let params ← params.mapM inner
        return "fn(" ++ ", ".intercalate params ++ ") -> " ++ (← inner result)
      | .named name _ => names.lookup name
      | .marker => return "opaque"
      | .placeholder shape name =>
        return "placeholder(" ++ shape.name ++ " %" ++ (← names.lookup name) ++ ")"
      | .error => return "<error>"

/-- The text of a type. Below the top every step goes to a component of an interned form, which
was entered before it. -/
def display (t : TypeTable) (names : NameTable) (id : TypeId) : Except Fault String :=
  t.displayWithin names (t.size + 2) true id

end Codegen.TypeTable
