import Codegen.Json.Basic

/-!
Reading structured values out of JSON: records by their fields, alternatives by their tags.
-/

namespace Codegen.Json

/-- A natural number below a limit. -/
def natBelow? (limit : Nat) (j : Json) : Option Nat := do
  let n ← j.nat?
  if n < limit then return n else none

/-- A 32-bit number. -/
def u32? (j : Json) : Option Nat := natBelow? (1 <<< 32) j

/-- A 64-bit number. -/
def u64? (j : Json) : Option Nat := natBelow? (1 <<< 64) j

/-- A signed 128-bit number. -/
def i128? (j : Json) : Option Int := do
  let n ← j.int?
  let limit : Nat := 1 <<< 127
  if -limit ≤ n ∧ n < limit then return n else none

def list? {α : Type} (item? : Json → Option α) : Json → Option (List α)
  | .arr items => items.mapM item?
  | _ => none

/-- A value that may be null. -/
def nullable? {α : Type} (item? : Json → Option α) : Json → Option (Option α)
  | .null => some none
  | j => (item? j).map some

/-- The values of the fields of a record, in the order of `names`, none where a field is missing.
A record is an object, in which members of other names count for nothing and none of these names
comes twice, or an array of all fields in order. -/
def fields? (names : List String) : Json → Option (List (Option Json))
  | .arr items => if items.length = names.length then some (items.map some) else none
  | .obj members =>
    let keys := members.map (·.1)
    if none ∉ keys ∧ names.all (fun name => keys.count (some name) ≤ 1) then
      some (names.map fun name => members.lookup (some name))
    else none
  | _ => none

/-- The tag of an alternative, and what it carries. A tag alone is a string. -/
def tagged? : Json → Option (String × Option Json)
  | .str (some tag) => some (tag, none)
  | .obj [(some tag, payload)] => some (tag, some payload)
  | _ => none

/-- Accepts an alternative that carries nothing. -/
def nothing? {α : Type} (x : α) : Option Json → Option α
  | none | some .null => some x
  | _ => none

end Codegen.Json
