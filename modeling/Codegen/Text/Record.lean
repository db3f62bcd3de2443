/-!
One-line text of structured values: a head word with its parts in parentheses, with named parts in
braces, lists in brackets.
-/

namespace Codegen.Text

/-- Items between brackets, separated by a comma and a blank. -/
def listing (items : List String) : String :=
  "[" ++ ", ".intercalate items ++ "]"

/-- A head word and its parts: `Head(a, b)`. -/
def tuple (head : String) (parts : List String) : String :=
  head ++ "(" ++ ", ".intercalate parts ++ ")"

/-- A head word and its named parts, in braces. -/
def record (head : String) (parts : List (String × String)) : String :=
  head ++ " \x7b " ++ ", ".intercalate (parts.map fun p => p.1 ++ ": " ++ p.2) ++ " \x7d"

/-- A part that may be absent. -/
def optional : Option String → String
  | none => "None"
  | some part => tuple "Some" [part]

end Codegen.Text
