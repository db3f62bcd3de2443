import Codegen.Fault
import Codegen.Word

/-!
Kinds of tree nodes, and what each kind asks of its children.
-/

namespace Codegen

/-- A node of an arena. Numbers 0 and 1 are the error expression and the error statement. -/
structure NodeId where
  index : Nat
  deriving DecidableEq, Repr, Inhabited

/-- A variable of a compilation. Number 0 is the error variable. -/
structure VarId where
  index : Nat
  deriving DecidableEq, Repr, Inhabited

/-- A label of one function. -/
structure LabelId where
  index : Nat
  deriving DecidableEq, Repr, Inhabited

namespace NodeId

/-- The error expression. -/
def errorExpr : NodeId := ⟨0⟩

/-- The error statement. -/
def errorStmt : NodeId := ⟨1⟩

def isSentinel (id : NodeId) : Bool := id == errorExpr || id == errorStmt

end NodeId

/-- The error variable. -/
def VarId.error : VarId := ⟨0⟩

/-- Whether a composite literal still takes new children. -/
inductive CompositeState where
  | building
  | finalized
  deriving DecidableEq, Repr

def CompositeState.name : CompositeState → String
  | .building => "Building"
  | .finalized => "Finalized"

/-- Where the children of one switch case are. -/
structure SwitchCase where
  valueIndex : Nat
  valueCount : Nat
  stmtIndex : Nat
  deriving DecidableEq, Repr

/-- A case without values is the default. -/
def SwitchCase.isDefault (c : SwitchCase) : Bool := c.valueCount == 0

/-- How many values cases have together that have these numbers of them. -/
def total : List Nat → Nat
  | [] => 0
  | count :: rest => count + total rest

/-- Where the children of a switch are: the value switched on, then the values of all cases in case
order, then one statement for each case. The number of values of each case tells it all. -/
structure SwitchLayout where
  counts : List Nat
  deriving DecidableEq, Repr

namespace SwitchLayout

/-- Cases from their value counts, the first of them at given positions. -/
def place : List Nat → Nat → Nat → List SwitchCase
  | [], _, _ => []
  | count :: rest, valueIndex, stmtIndex =>
    ⟨valueIndex, count, stmtIndex⟩ :: place rest (valueIndex + count) (stmtIndex + 1)

/-- The cases in order. -/
def cases (l : SwitchLayout) : List SwitchCase := place l.counts 1 (1 + total l.counts)

/-- The layout of a switch whose cases have the given numbers of values. -/
def ofCounts (counts : List Nat) : Except Fault SwitchLayout :=
  if 1 + total counts + counts.length < Word.limit then .ok ⟨counts⟩ else .error .addOverflow

/-- Children of all values, the value switched on included. -/
def valueCount (l : SwitchLayout) : Nat := 1 + total (l.cases.map (·.valueCount))

/-- Children in all. -/
def childCount (l : SwitchLayout) : Nat := l.valueCount + l.cases.length

theorem length_place (counts : List Nat) (v s : Nat) :
    (place counts v s).length = counts.length := by
  induction counts generalizing v s with
  | nil => rfl
  | cons _ _ ih => simp [place, ih]

end SwitchLayout

inductive NodeKind where
  -- expressions
  | error
  | const
  | var (id : VarId)
  | funcAddress (id : FuncId)
  | conversion
  | deref
  | address
  | unaryOp (op : Operator)
  /-- Leaves the function; owns the return instruction. -/
  | ret
  | structField (index : Nat)
  | binaryOp (op : Operator)
  /-- A statement for its effect, then an expression for its value. -/
  | compound
  | arrayIndex
  /-- Stores the right child at the address of the left child. -/
  | assign
  | composite (state : CompositeState)
  /-- The callee, then the arguments. -/
  | call
  -- statements
  | errorStmt
  | emptyStmt
  | labelStmt (func : FuncId) (label : LabelId)
  | gotoStmt (func : FuncId) (label : LabelId)
  | exprStmt
  /-- Condition, statement, alternative. -/
  | ifStmt
  | blockStmt
  | switchStmt (layout : SwitchLayout)
  deriving DecidableEq, Repr

/-- How many children a kind takes. -/
inductive Arity where
  | fixed (count : Nat)
  | variadic
  deriving DecidableEq, Repr

def Arity.accepts : Arity → Nat → Bool
  | .fixed n, count => n == count
  | .variadic, _ => true

namespace NodeKind

def arity : NodeKind → Arity
  | .error | .const | .var _ | .funcAddress _ | .errorStmt | .emptyStmt | .labelStmt ..
  | .gotoStmt .. => .fixed 0
  | .conversion | .deref | .address | .unaryOp _ | .ret | .structField _ | .exprStmt => .fixed 1
  | .binaryOp _ | .compound | .arrayIndex | .assign => .fixed 2
  | .ifStmt => .fixed 3
  | .composite _ | .call | .blockStmt | .switchStmt _ => .variadic

/-- The short word for a kind. -/
def flavor : NodeKind → String
  | .error => "error"
  | .const => "const"
  | .var _ => "var"
  | .funcAddress _ => "fcn"
  | .conversion => "conv"
  | .deref => "deref"
  | .address => "addr"
  | .unaryOp _ => "unary"
  | .ret => "return"
  | .structField _ => "field"
  | .binaryOp _ => "binary"
  | .compound => "compound"
  | .arrayIndex => "arindex"
  | .assign => "assign"
  | .composite _ => "composite"
  | .call => "call"
  | .errorStmt => "errorst"
  | .emptyStmt => "empty"
  | .labelStmt .. => "label"
  | .gotoStmt .. => "goto"
  | .exprStmt => "exprst"
  | .ifStmt => "ifstmt"
  | .blockStmt => "block"
  | .switchStmt _ => "switch"

def isStmt : NodeKind → Bool
  | .errorStmt | .emptyStmt | .labelStmt .. | .gotoStmt .. | .exprStmt | .ifStmt | .blockStmt
  | .switchStmt _ => true
  | _ => false

def isExpr (k : NodeKind) : Bool := !k.isStmt

/-- Whether the child at a position has to be a statement. -/
def wantsStmt : NodeKind → Nat → Bool
  | .compound, i => i == 0
  | .ifStmt, i => 0 < i
  | .blockStmt, _ => true
  | .switchStmt layout, i => layout.valueCount ≤ i
  | _, _ => false

/-- The state of a composite. -/
def compositeState? : NodeKind → Option CompositeState
  | .composite state => some state
  | _ => none

end NodeKind

end Codegen
