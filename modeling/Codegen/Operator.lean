/-!
Operators of unary and binary expressions.
-/

namespace Codegen

inductive Operator where
  | orOr | andAnd
  | eqEq | notEq | lt | le | gt | ge
  | plus | minus | or | xor | mult | div | mod
  | lshift | rshift
  | and | not | eq | bitClear
  deriving DecidableEq, Repr, Inhabited

/-- What an operator does with its operands: compare them, connect truth values, compute in their
type, shift the left one, or none of these. -/
inductive OperatorClass where
  | comparison | logical | arithmetic | shift | other
  deriving DecidableEq, Repr

def OperatorClass.name : OperatorClass → String
  | .comparison => "Comparison"
  | .logical => "Logical"
  | .arithmetic => "Arithmetic"
  | .shift => "Shift"
  | .other => "Other"

namespace Operator

/-- Every operator, in the order of their declaration. -/
def all : List Operator :=
  [.orOr, .andAnd, .eqEq, .notEq, .lt, .le, .gt, .ge, .plus, .minus, .or, .xor, .mult, .div, .mod,
    .lshift, .rshift, .and, .not, .eq, .bitClear]

/-- The word that stands for the operator in instruction text. -/
def name : Operator → String
  | .orOr => "OrOr"
  | .andAnd => "AndAnd"
  | .eqEq => "EqEq"
  | .notEq => "NotEq"
  | .lt => "Lt"
  | .le => "Le"
  | .gt => "Gt"
  | .ge => "Ge"
  | .plus => "Plus"
  | .minus => "Minus"
  | .or => "Or"
  | .xor => "Xor"
  | .mult => "Mult"
  | .div => "Div"
  | .mod => "Mod"
  | .lshift => "LShift"
  | .rshift => "RShift"
  | .and => "And"
  | .not => "Not"
  | .eq => "Eq"
  | .bitClear => "BitClear"

/-- The operator that a word stands for. -/
def ofName? (s : String) : Option Operator := all.find? (·.name == s)

/-- The sign a front end writes. -/
def symbol : Operator → String
  | .orOr => "||"
  | .andAnd => "&&"
  | .eqEq => "=="
  | .notEq => "!="
  | .lt => "<"
  | .le => "<="
  | .gt => ">"
  | .ge => ">="
  | .plus => "+"
  | .minus => "-"
  | .or => "|"
  | .xor => "^"
  | .mult => "*"
  | .div => "/"
  | .mod => "%"
  | .lshift => "<<"
  | .rshift => ">>"
  | .and => "&"
  | .not => "!"
  | .eq => "="
  | .bitClear => "&^"

def cls : Operator → OperatorClass
  | .eqEq | .notEq | .lt | .le | .gt | .ge => .comparison
  | .orOr | .andAnd => .logical
  | .plus | .minus | .or | .xor | .mult | .div | .mod | .and | .bitClear => .arithmetic
  | .lshift | .rshift => .shift
  | .not | .eq => .other

/-- Accepted in front of one operand: negation, logical not, complement. -/
def isUnary : Operator → Bool
  | .minus | .not | .xor => true
  | _ => false

/-- Accepted between two operands. -/
def isBinary : Operator → Bool
  | .not | .eq => false
  | _ => true

end Operator

end Codegen
