import Codegen.Json.Basic

/-!
The strict reader of JSON text: no comments, no trailing commas, no leading zeros, nothing after the
value but blanks.
-/

namespace Codegen.Json

namespace Reader

def isBlank (c : Char) : Bool := c == ' ' || c == '\n' || c == '\t' || c == '\r'

def skipBlanks (cs : List Char) : List Char := cs.dropWhile isBlank

/-- One written element of a string: a character, or a code unit given by its number. -/
inductive Piece where
  | char (c : Char)
  | unit (n : Nat)

def hexDigit? (c : Char) : Option Nat :=
  if c.isDigit then some (c.toNat - '0'.toNat)
  else if 'a' ≤ c ∧ c ≤ 'f' then some (c.toNat - 'a'.toNat + 10)
  else if 'A' ≤ c ∧ c ≤ 'F' then some (c.toNat - 'A'.toNat + 10)
  else none

/-- A number of four hexadecimal digits. -/
def hex4? (a b c d : Char) : Option Nat := do
  return (((← hexDigit? a) * 16 + (← hexDigit? b)) * 16 + (← hexDigit? c)) * 16 + (← hexDigit? d)

/-- The character that stands behind a backslash. -/
def shortEscape? (c : Char) : Option Char :=
  [('"', '"'), ('\\', '\\'), ('/', '/'), ('b', '\x08'), ('f', '\x0c'), ('n', '\n'), ('r', '\r'),
    ('t', '\t')].lookup c

/-- The pieces up to the closing quote, and what follows it. -/
def pieces : List Char → Option (List Piece × List Char)
  | [] => none
  | '"' :: rest => some ([], rest)
  | '\\' :: 'u' :: a :: b :: c :: d :: rest => do
    let n ← hex4? a b c d
    let (ps, rest) ← pieces rest
    return (.unit n :: ps, rest)
  | '\\' :: c :: rest => do
    let c ← shortEscape? c
    let (ps, rest) ← pieces rest
    return (.char c :: ps, rest)
  | c :: rest =>
    if c.toNat < 0x20 || c = '\\' then none
    else do
      let (ps, rest) ← pieces rest
      return (.char c :: ps, rest)

/-- The text that pieces spell. Two surrogates make one character, and one alone makes none. -/
def spell : List Piece → Option (List Char)
  | [] => some []
  | .char c :: rest => do return c :: (← spell rest)
  | .unit high :: .unit low :: rest =>
    if 0xd800 ≤ high ∧ high < 0xdc00 ∧ 0xdc00 ≤ low ∧ low < 0xe000 then do
      return Char.ofNat (0x10000 + (high - 0xd800) * 0x400 + (low - 0xdc00)) :: (← spell rest)
    else if 0xd800 ≤ high ∧ high < 0xe000 then none
    else do return Char.ofNat high :: (← spell (.unit low :: rest))
  | .unit n :: rest =>
    if 0xd800 ≤ n ∧ n < 0xe000 then none else do return Char.ofNat n :: (← spell rest)

/-- A string, from behind its opening quote. -/
def string (cs : List Char) : Option (Option String × List Char) := do
  let (ps, rest) ← pieces cs
  return ((spell ps).map String.ofList, rest)

/-- The number that decimal digits write. -/
def decimal (digits : List Char) : Nat :=
  digits.foldl (fun n c => n * 10 + (c.toNat - '0'.toNat)) 0

/-- One digit or more. -/
def digits1 (cs : List Char) : Option (List Char × List Char) :=
  match cs.takeWhile Char.isDigit with
  | [] => none
  | ds => some (ds, cs.dropWhile Char.isDigit)

/-- A fraction, if a point announces one. -/
def fraction : List Char → Option (List Char × List Char)
  | '.' :: rest => do
    let (ds, rest) ← digits1 rest
    return ('.' :: ds, rest)
  | cs => some ([], cs)

/-- The digits of an exponent with their sign. -/
def signedDigits : List Char → Option (List Char × List Char)
  | '+' :: rest => do
    let (ds, rest) ← digits1 rest
    return ('+' :: ds, rest)
  | '-' :: rest => do
    let (ds, rest) ← digits1 rest
    return ('-' :: ds, rest)
  | cs => digits1 cs

/-- An exponent, if a letter announces one. -/
def exponent : List Char → Option (List Char × List Char)
  | [] => some ([], [])
  | c :: rest =>
    if c = 'e' ∨ c = 'E' then do
      let (ds, rest) ← signedDigits rest
      return (c :: ds, rest)
    else some ([], c :: rest)

/-- A number, from behind its sign. A whole part of several digits starts with none. -/
def unsigned (negative : Bool) (cs : List Char) : Option (Json × List Char) := do
  let (ds, rest) ← digits1 cs
  if ds.head? = some '0' ∧ ds.length ≠ 1 then none
  else
    let (frac, rest) ← fraction rest
    let (exp, rest) ← exponent rest
    return (.number negative (decimal ds) (String.ofList (frac ++ exp)), rest)

/-- What follows an expected word. -/
def word (expected : List Char) (value : Json) (cs : List Char) : Option (Json × List Char) :=
  if expected.isPrefixOf cs then some (value, cs.drop expected.length) else none

mutual

/-- A value, found within a number of steps. -/
def value : Nat → List Char → Option (Json × List Char)
  | 0, _ => none
  | fuel + 1, cs =>
    match skipBlanks cs with
    | 'n' :: rest => word ['u', 'l', 'l'] .null rest
    | 't' :: rest => word ['r', 'u', 'e'] (.bool true) rest
    | 'f' :: rest => word ['a', 'l', 's', 'e'] (.bool false) rest
    | '-' :: rest => unsigned true rest
    | '"' :: rest => do
      let (s, rest) ← string rest
      return (.str s, rest)
    | '[' :: rest =>
      match skipBlanks rest with
      | ']' :: rest => some (.arr [], rest)
      | rest => do
        let (items, rest) ← items fuel rest
        return (.arr items, rest)
    | '\x7b' :: rest =>
      match skipBlanks rest with
      | '\x7d' :: rest => some (.obj [], rest)
      | rest => do
        let (members, rest) ← members fuel rest
        return (.obj members, rest)
    | rest => unsigned false rest

/-- The items of an array from one of them on, with the closing bracket. -/
def items : Nat → List Char → Option (List Json × List Char)
  | 0, _ => none
  | fuel + 1, cs => do
    let (item, rest) ← value fuel cs
    match skipBlanks rest with
    | ']' :: rest => return ([item], rest)
    | ',' :: rest =>
      let (others, rest) ← items fuel rest
      return (item :: others, rest)
    | _ => none

/-- The members of an object from one of them on, with the closing brace. -/
def members : Nat → List Char → Option (List (Option String × Json) × List Char)
  | 0, _ => none
  | fuel + 1, cs =>
    match skipBlanks cs with
    | '"' :: rest => do
      let (key, rest) ← string rest
      match skipBlanks rest with
      | ':' :: rest =>
        let (item, rest) ← value fuel rest
        match skipBlanks rest with
        | '\x7d' :: rest => return ([(key, item)], rest)
        | ',' :: rest =>
          let (others, rest) ← members fuel rest
          return ((key, item) :: others, rest)
        | _ => none
      | _ => none
    | _ => none

end

end Reader

/-- The value that a text writes, if it writes one. Every second step of the reader consumes a
character. -/
def parse? (s : String) : Option Json := do
  let cs := s.toList
  let (json, rest) ← Reader.value (2 * cs.length + 2) cs
  if (Reader.skipBlanks rest).isEmpty then return json else none

end Codegen.Json
