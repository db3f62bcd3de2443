import Codegen.Inst.Basic

/-!
Faults: everything that stops an operation for good. A fault names its cause; the wording is in
`Fault.message` alone. What a caller may recover from is not a fault and has a type of its own.
-/

namespace Codegen

/-- Why an operation stopped. -/
inductive Fault where
  -- machine limits
  | indexOutOfBounds (length index : Nat)
  | sliceOutOfBounds (length stop : Nat)
  | addOverflow
  | subtractOverflow
  | multiplyOverflow
  | negateOverflow
  | shiftOverflow
  | divideByZero
  | capacityOverflow
  | tooMany (what : String)
  /-- A descent through a cyclic structure. -/
  | endless
  -- names and types
  | unknownName (name : Name)
  | integerWidth (bits : Nat)
  | floatWidth (bits : Nat)
  | complexWidth (bits : Nat)
  | notComplex (form : TypeForm)
  | internedPlaceholder
  | pendingWithForm
  | arrayTooLarge (ty : TypeId)
  | noLayout (ty : TypeId)
  | offsetInNonStruct (ty : TypeId)
  | offsetOutOfRange (index : Nat) (ty : TypeId) (count : Nat)
  -- nodes and instructions
  | destroyedNode (node : Nat)
  | childCount (flavor : String) (required got : Nat)
  | childCategory (index : Nat) (flavor : String) (wantsStmt : Bool) (got : String)
  | callWithoutCallee
  | switchChildCount (got expected : Nat)
  | instructionOnStatement
  | appendNonStatement
  | appendToNonBlock (flavor : String)
  | compositeFinished (node : Nat)
  | finishNonComposite (flavor : String)
  | freedInst (inst : InstId)
  -- lowering
  | foreignLabel (label : Nat) (owner func : FuncId)
  | notLowerable (flavor : String)
  | noValueToLower (flavor : String) (node : Nat)
  | ifChildCount (got : Nat)
  | appendToTerminated (block : Nat)
  | alreadyTerminated (block : Nat)
  | blockOutOfBounds (block count : Nat)
  -- functions
  | bodyTwice (func : FuncId)
  | blockOfOtherFunction (block : Nat) (func : FuncId)
  | labelOfOtherFunction (label : Nat) (owner func : FuncId)
  | labelTwice (label : Nat)
  | enclosingBlock (block : Nat) (func : FuncId)
  | brokenTree (func : String) (report : String)
  | declaredNonFunction (func type : String)
  | returnFromNonFunction (func : FuncId)
  -- variables
  | variableNotGlobal (var : Nat)
  | namedNotGlobal (name : String)
  | initializedTwice (var : Nat)
  | hiddenAndCommon (name : String)
  | strayConstant (node : Nat) (value : Option Value)
  | nonConstantInitializer (flavor : String)
  -- expressions
  | noValue (flavor : String) (node : Nat)
  | notAddressable (flavor : String) (node : Nat)
  | noAddress (flavor : String) (node : Nat)
  | arrayLengthRange (value : Int)
  | arrayLengthNotConstant (value : Option Value)
  | integerOfNonInteger (type : String)
  | doesNotFit (value : Int) (type : String)
  | floatOfNonFloat (type : String)
  | notUnary (op : Operator)
  | notBinary (op : Operator)
  | operandTypes (op : Operator) (lhs rhs : String)
  | fieldOutOfRange (index : Nat) (type : String)
  | fieldOfNonStruct (type : String)
  | complexOfNonFloat (type : String)
  | indexOfNonArray (type : String)
  | structLiteralCount (type : String) (fields values : Nat)
  | arrayLiteralCount (indexes values : Nat)
  | arrayLiteralOfNonArray (type : String)
  | arrayLiteralIndex (index length : Nat)
  | arrayLiteralTwice (index : Nat)
  | missingElseArm (type : String)
  | callOfNonFunction (type : String)
  | switchStatementCount (cases stmts : Nat)
  deriving DecidableEq, Repr

namespace Fault

/-- The text of a failed comparison of two values. -/
def comparison (text left right : String) : String :=
  "assertion `left == right` failed: " ++ text ++ "\n  left: " ++ left ++ "\n right: " ++ right

def message : Fault → String
  | indexOutOfBounds length index =>
    s!"index out of bounds: the len is {length} but the index is {index}"
  | sliceOutOfBounds length stop =>
    s!"range end index {stop} out of range for slice of length {length}"
  | addOverflow => "attempt to add with overflow"
  | subtractOverflow => "attempt to subtract with overflow"
  | multiplyOverflow => "attempt to multiply with overflow"
  | negateOverflow => "attempt to negate with overflow"
  | shiftOverflow => "attempt to shift left with overflow"
  | divideByZero => "attempt to divide by zero"
  | capacityOverflow => "capacity overflow"
  | tooMany what => s!"too many {what}: exceeded u32::MAX"
  | endless => "the descent does not end"
  | unknownName name => name.describe ++ " was not produced by this interner"
  | integerWidth bits => s!"unsupported integer width: {bits}"
  | floatWidth bits => s!"unsupported float width: {bits}"
  | complexWidth bits => s!"unsupported complex width: {bits}"
  | notComplex form => form.describe ++ " is not a complex type"
  | internedPlaceholder => "placeholders are not interned structurally"
  | pendingWithForm =>
    "internal error: entered unreachable code: pending handle without placeholder data"
  | arrayTooLarge ty => "array type " ++ ty.describe ++ " overflows u64 bytes"
  | noLayout ty =>
    "layout query on " ++ ty.describe ++ ", which has no layout (unresolved or opaque)"
  | offsetInNonStruct ty => "field offset query on non-struct " ++ ty.describe
  | offsetOutOfRange index ty count =>
    s!"field index {index} out of range for " ++ ty.describe ++ s!" with {count} fields"
  | destroyedNode node => s!"use of destroyed node {node}"
  | childCount flavor required got =>
    s!"{flavor} node requires {required} children, got {got}"
  | childCategory index flavor wantsStmt got =>
    s!"child {index} of {flavor} node must be " ++
      (if wantsStmt then "a statement" else "an expression") ++ s!", got {got}"
  | callWithoutCallee => "call node needs a callee child"
  | switchChildCount got expected =>
    comparison s!"switch node layout expects {expected} children, got {got}"
      (toString got) (toString expected)
  | instructionOnStatement => "instructions belong to expressions"
  | appendNonStatement => "only statements can be added to a block"
  | appendToNonBlock flavor => s!"cannot append children to a {flavor} node"
  | compositeFinished node => s!"composite {node} is already finalized"
  | finishNonComposite flavor => s!"finish_composite on a {flavor} node"
  | freedInst inst => s!"use of freed instruction {inst.index}"
  | foreignLabel label owner func =>
    s!"label L{label} of function {owner.index} used in function {func.index}"
  | notLowerable flavor => s!"unsupported node kind in lowering: {flavor}"
  | noValueToLower flavor node => s!"{flavor} node {node} has no value to lower"
  | ifChildCount got => s!"expected 3 children, got {got}"
  | appendToTerminated block => s!"append to terminated block {block}"
  | alreadyTerminated block => s!"block {block} already terminated"
  | blockOutOfBounds block count => s!"BlockId {block} out of bounds (have {count} blocks)"
  | bodyTwice func => s!"function {func.index} already has a body"
  | blockOfOtherFunction block func =>
    s!"block node {block} does not belong to function {func.index}"
  | labelOfOtherFunction label owner func =>
    comparison s!"label {label} belongs to another function" owner.describe func.describe
  | labelTwice label => s!"label {label} defined twice"
  | enclosingBlock block func =>
    s!"enclosing block {block} does not belong to function {func.index}"
  | brokenTree func report => s!"tree integrity check failed for function {func}:\n{report}"
  | declaredNonFunction func type =>
    s!"function {func} declared with non-function type {type}"
  | returnFromNonFunction func => s!"function {func.index} has non-function type"
  | variableNotGlobal var => s!"variable {var} is not a global"
  | namedNotGlobal name => s!"variable {name} is not a global"
  | initializedTwice var => s!"global {var} already has an initializer"
  | hiddenAndCommon name => s!"immutable struct {name} cannot be both hidden and common"
  | strayConstant node value => s!"constant node {node} has value " ++ Value.describe? value
  | nonConstantInitializer flavor => s!"initializer must be constant, got {flavor} node"
  | noValue flavor node => s!"{flavor} node {node} has no value"
  | notAddressable flavor node => s!"{flavor} node {node} is not addressable"
  | noAddress flavor node => s!"{flavor} node {node} has no address"
  | arrayLengthRange value => s!"array length {value} out of range"
  | arrayLengthNotConstant value =>
    "array length must be an integer constant, got " ++ Value.describe? value
  | integerOfNonInteger type => s!"integer constant of non-integer type {type}"
  | doesNotFit value type => s!"constant {value} does not fit {type}"
  | floatOfNonFloat type => s!"float constant of non-float type {type}"
  | notUnary op => op.symbol ++ " is not a unary operator"
  | notBinary op => op.symbol ++ " is not a binary operator"
  | operandTypes op lhs rhs =>
    "operands of " ++ op.symbol ++ s!" have different types: {lhs} and {rhs}"
  | fieldOutOfRange index type => s!"field {index} out of range for {type}"
  | fieldOfNonStruct type => s!"field access on non-struct {type}"
  | complexOfNonFloat type => s!"complex part of non-float type {type}"
  | indexOfNonArray type => s!"index into non-array {type}"
  | structLiteralCount type fields values =>
    comparison s!"struct literal of {type} needs {fields} values" (toString fields)
      (toString values)
  | arrayLiteralCount indexes values =>
    comparison "one index per array literal value" (toString indexes) (toString values)
  | arrayLiteralOfNonArray type => s!"array literal of non-array {type}"
  | arrayLiteralIndex index length =>
    s!"array literal index {index} out of range for length {length}"
  | arrayLiteralTwice index => s!"array literal index {index} given twice"
  | missingElseArm type => s!"conditional of type {type} needs an else arm"
  | callOfNonFunction type => s!"call of non-function {type}"
  | switchStatementCount cases stmts =>
    comparison "one statement per switch case" (toString cases) (toString stmts)

end Fault

end Codegen
