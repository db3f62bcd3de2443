/-!
JSON values. Objects keep the order and the repetition of their members. A number is kept as it is
written, and a string is kept even where its escapes spell no text.
-/

namespace Codegen

inductive Json where
  | null
  | bool (value : Bool)
  /-- Sign, whole part, and the fraction and exponent as written. -/
  | number (negative : Bool) (whole : Nat) (tail : String)
  /-- A string; none where a surrogate stands alone. -/
  | str (text : Option String)
  | arr (items : List Json)
  | obj (members : List (Option String × Json))
  deriving Repr, Inhabited

namespace Json

def text (s : String) : Json := .str (some s)

def nat (n : Nat) : Json := .number false n ""

def int (n : Int) : Json := .number (n < 0) n.natAbs ""

/-- An object of members with different keys. -/
def record (members : List (String × Json)) : Json := .obj (members.map fun m => (some m.1, m.2))

/-- A value that may be missing. -/
def optional {α : Type} (encode : α → Json) : Option α → Json
  | none => .null
  | some x => encode x

def text? : Json → Option String
  | .str s => s
  | _ => none

def bool? : Json → Option Bool
  | .bool b => some b
  | _ => none

def arr? : Json → Option (List Json)
  | .arr items => some items
  | _ => none

/-- A natural number: digits alone. -/
def nat? : Json → Option Nat
  | .number false whole "" => some whole
  | _ => none

/-- A whole number: digits with a sign at most. -/
def int? : Json → Option Int
  | .number negative whole "" => some (if negative then -whole else whole)
  | _ => none

/-- The value of the first member of a key. -/
def member? (key : String) : Json → Option Json
  | .obj members => members.lookup (some key)
  | _ => none

end Json

end Codegen
