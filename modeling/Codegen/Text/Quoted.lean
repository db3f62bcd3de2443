import Codegen.Text.Unprintable

/-!
Quoted strings: a text between double quotes, with escapes for quotes, backslashes and every
character that would not show.
-/

namespace Codegen.Text

/-- A code point in hexadecimal between braces. -/
def escapeCode (c : Char) : String :=
  "\\u\x7b" ++ String.ofList (Nat.toDigits 16 c.toNat) ++ "\x7d"

/-- The written form of one character of a quoted string. -/
def escapeChar (c : Char) : String :=
  if c = '\x00' then "\\0"
  else if c = '\t' then "\\t"
  else if c = '\r' then "\\r"
  else if c = '\n' then "\\n"
  else if c = '\\' then "\\\\"
  else if c = '"' then "\\\""
  else if isUnprintable c then escapeCode c
  else c.toString

/-- A string between double quotes. -/
def quote (s : String) : String := "\"" ++ String.join (s.toList.map escapeChar) ++ "\""

end Codegen.Text
