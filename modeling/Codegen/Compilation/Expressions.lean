import Codegen.Compilation.Variables
import Codegen.Types.Construct
import Codegen.Wide

/-!
Expression constructors. Each settles the values of its operands, builds its node and attaches the
instructions that compute the node's own value. Nothing is folded.
-/

namespace Codegen

/-- Whether an integer is in the range of a type of `bits` bits. A constant has at most 128 bits
with its sign, so the widest ranges need no upper test. -/
def fitsInteger (value : Int) (bits : Nat) (signed : Bool) : Except Fault Bool :=
  if signed then
    if 128 ≤ bits then pure true
    else do
      let half ← Wide.bit (← Word.sub bits 1)
      let low ← Wide.neg half
      return low ≤ value && value < half
  else if value < 0 then pure false
  else if 127 ≤ bits then pure true
  else do return value < (← Wide.bit bits)

namespace Build

/-- A node without a value of its own yet. -/
def makeNode (kind : NodeKind) (kids : List NodeId) (ty : TypeId) (span : Span) : Build NodeId :=
  onArena (·.make kind kids ty span)

def makeConst (ty : TypeId) (c : Constant) (span : Span) : Build NodeId :=
  addNode (·.makeConst ty c span)

/-- A node whose value is computed by one instruction. -/
def makeComputed (kind : NodeKind) (kids : List NodeId) (inst : InstKind) (ty : TypeId)
    (span : Span) : Build NodeId := do
  let id ← makeNode kind kids ty span
  attachValue id inst ty
  return id

/-- A node whose value is an address, computed by one instruction. -/
def makeAddressed (kind : NodeKind) (kids : List NodeId) (inst : InstKind) (ty : TypeId)
    (span : Span) : Build NodeId := do
  let ptrType ← onTypes (·.pointerType ty)
  let id ← makeNode kind kids ty span
  attachValue id inst ptrType
  changeArena (·.setFlags id ⟨true, false⟩)
  return id

/-- The zero of a type. -/
def zero (ty : TypeId) : Build NodeId := do
  if ← isErrorType ty then return .errorExpr else makeConst ty (.zero ty) .synthetic

def nilPointer : Build NodeId := do
  let ty ← onTypes (·.pointerType .void)
  makeConst ty (.null ty) .synthetic

/-- An integer constant, which has to be in the range of its type. -/
def integerConstant (ty : TypeId) (value : Int) : Build NodeId := do
  if ← isErrorType ty then return .errorExpr
  else match ← ask (·.types.integer? ty) with
    | none => throwWithType ty .integerOfNonInteger
    | some (bits, signed) =>
      if ← fitsInteger value bits signed then makeConst ty (.int ty value) .synthetic
      else throwWithType ty (.doesNotFit value)

/-- A float constant, rounded to the width of its type. -/
def floatConstant (ty : TypeId) (bits : UInt64) : Build NodeId := do
  if ← isErrorType ty then return .errorExpr
  else match ← ask (·.types.underlyingForm ty) with
    | .float 32 => makeConst ty (.float ty (Binary64.roundToSingle bits)) .synthetic
    | .float _ => makeConst ty (.float ty bits) .synthetic
    | _ => throwWithType ty .floatOfNonFloat

/-- A complex constant: a composite of two float constants. -/
def complexConstant (ty : TypeId) (real imag : UInt64) : Build NodeId := do
  if ← isErrorType ty then return .errorExpr
  else
    let part ← ask (·.types.complexPart ty)
    let re ← floatConstant part real
    let im ← floatConstant part imag
    makeNode (.composite .building) [re, im] ty .synthetic

def booleanConstant (value : Bool) : Build NodeId := makeConst .bool (.bool value) .synthetic

/-- A pointer to the bytes of a string. -/
def stringConstant (value : String) : Build NodeId := do
  let data ← intern value
  let ty ← onTypes (·.pointerType .u8)
  makeConst ty (.str data) .synthetic

/-- A reference to a variable, which is loaded only when its value is used. -/
def varExpr (var : VarId) (span : Span) : Build NodeId := do
  let v ← getVariable var
  if v.isError then return .errorExpr
  else
    let storage ← variableAddress var
    addNode (·.makeVar var v.ty storage span)

/-- What a pointer points at, as an addressable expression. -/
def indirect (ty : TypeId) (ptr : NodeId) (span : Span) : Build NodeId := do
  if ← isErrorType ty then return .errorExpr
  else if ← isErrorExpr ptr then return .errorExpr
  else
    let addr ← rvalue ptr
    let id ← makeNode .deref [ptr] ty span
    changeArena (·.setValue id addr)
    changeArena (·.setFlags id ⟨true, false⟩)
    return id

/-- The address of an addressable expression. -/
def addressOf (expr : NodeId) (span : Span) : Build NodeId := do
  if ← isErrorExpr expr then return .errorExpr
  else
    let addr ← lvalue expr
    let ty ← typeOf expr
    let ptrType ← onTypes (·.pointerType ty)
    let id ← makeNode .address [expr] ptrType span
    changeArena (·.setValue id addr)
    return id

/-- A pointer to the code of a function. -/
def functionCode (func : FuncId) (span : Span) : Build NodeId := do
  if func = .error then return .errorExpr
  else
    let f ← getFunction func
    let ty ← onTypes (·.pointerType f.fntype)
    addNode (·.makeFuncAddress func ty span)

/-- A conversion; the expression itself, where the types agree. -/
def convert (ty : TypeId) (expr : NodeId) (span : Span) : Build NodeId := do
  if ← isErrorType ty then return .errorExpr
  else if ← isErrorExpr expr then return .errorExpr
  else
    let source ← typeOf expr
    if ← ask (·.types.sameType ty source) then return expr
    else
      let value ← rvalue expr
      makeComputed .conversion [expr] (.cast value) ty span

def unary (op : Operator) (expr : NodeId) (span : Span) : Build NodeId := do
  if ← isErrorExpr expr then return .errorExpr
  else if !op.isUnary then throw (.notUnary op)
  else
    let operand ← rvalue expr
    let ty ← typeOf expr
    makeComputed (.unaryOp op) [expr] (.unary op operand) ty span

/-- An operation on two operands of one type, shifts apart. A comparison gives a truth value; the
logical connectives evaluate both operands. -/
def binary (op : Operator) (lhs rhs : NodeId) (span : Span) : Build NodeId := do
  if ← isErrorExpr lhs then return .errorExpr
  else if ← isErrorExpr rhs then return .errorExpr
  else if !op.isBinary then throw (.notBinary op)
  else
    let lhsType ← typeOf lhs
    let rhsType ← typeOf rhs
    let agree ← if op.cls = .shift then pure true else ask (·.types.sameType lhsType rhsType)
    if !agree then
      let left ← typeName lhsType
      let right ← typeName rhsType
      throw (.operandTypes op left right)
    else
      let l ← rvalue lhs
      let r ← rvalue rhs
      if op.cls = .comparison then
        makeComputed (.binaryOp op) [lhs, rhs] (.compare op l r) .bool span
      else makeComputed (.binaryOp op) [lhs, rhs] (.binary op l r) lhsType span

/-- A field of an aggregate, addressable where the aggregate is. -/
def fieldAccess (expr : NodeId) (index : Nat) (fieldType : TypeId) (span : Span) :
    Build NodeId := do
  if (← getNode expr).flags.address then
    let base ← lvalue expr
    makeAddressed (.structField index) [expr] (.fieldAddr base index) fieldType span
  else
    let whole ← rvalue expr
    makeComputed (.structField index) [expr] (.extractField whole index) fieldType span

def structField (expr : NodeId) (index : Nat) (span : Span) : Build NodeId := do
  if ← isErrorExpr expr then return .errorExpr
  else
    let ty ← typeOf expr
    match ← ask (·.types.structFields? ty) with
    | none => throwWithType ty .fieldOfNonStruct
    | some fields =>
      match fields[index]? with
      | none => throwWithType ty (.fieldOutOfRange index)
      | some fieldType => fieldAccess expr index fieldType span

/-- The real part of a complex value at index 0, the imaginary part at index 1. -/
def complexPart (expr : NodeId) (index : Nat) (span : Span) : Build NodeId := do
  if ← isErrorExpr expr then return .errorExpr
  else
    let ty ← typeOf expr
    let part ← ask (·.types.complexPart ty)
    fieldAccess expr index part span

def realPart (expr : NodeId) (span : Span) : Build NodeId := complexPart expr 0 span

def imagPart (expr : NodeId) (span : Span) : Build NodeId := complexPart expr 1 span

/-- A complex value from its parts. -/
def complexExpr (real imag : NodeId) (span : Span) : Build NodeId := do
  if ← isErrorExpr real then return .errorExpr
  else if ← isErrorExpr imag then return .errorExpr
  else
    let part ← typeOf real
    match ← ask (·.types.underlyingForm part) with
    | .float bits =>
      let ty ← onTypes (·.complexType (bits * 2))
      makeNode (.composite .building) [real, imag] ty span
    | _ => throwWithType part .complexOfNonFloat

/-- An element of an array, addressable where the array is. -/
def arrayIndex (array index : NodeId) (span : Span) : Build NodeId := do
  if ← isErrorExpr array then return .errorExpr
  else if ← isErrorExpr index then return .errorExpr
  else
    let ty ← typeOf array
    match ← ask (·.types.arrayElement? ty) with
    | none => throwWithType ty .indexOfNonArray
    | some elem =>
      let i ← rvalue index
      if (← getNode array).flags.address then
        let base ← lvalue array
        makeAddressed .arrayIndex [array, index] (.elemAddr base i) elem span
      else
        let whole ← rvalue array
        makeComputed .arrayIndex [array, index] (.extractElem whole i) elem span

/-- A pointer moved on by a number of elements. -/
def pointerOffset (base index : NodeId) (span : Span) : Build NodeId := do
  if ← isErrorExpr base then return .errorExpr
  else if ← isErrorExpr index then return .errorExpr
  else
    let ty ← typeOf base
    let b ← rvalue base
    let i ← rvalue index
    makeComputed .arrayIndex [base, index] (.elemAddr b i) ty span

/-- A struct or complex literal, under construction until its value is used. -/
def structLiteral (ty : TypeId) (vals : List NodeId) (span : Span) : Build NodeId := do
  if ← isErrorType ty then return .errorExpr
  else if ← vals.anyM isErrorExpr then return .errorExpr
  else match ← ask (·.types.structFields? ty) with
    | some fields =>
      if fields.length = vals.length then makeNode (.composite .building) vals ty span
      else throwWithType ty (.structLiteralCount · fields.length vals.length)
    | none => makeNode (.composite .building) vals ty span

/-- Puts values at their indexes into slots that are empty so far. -/
def fillSlots : List (Nat × NodeId) → Array (Option NodeId) →
    Except Fault (Array (Option NodeId))
  | [], slots => .ok slots
  | (index, val) :: rest, slots =>
    match slots[index]? with
    | none => .error (.arrayLiteralIndex index slots.size)
    | some (some _) => .error (.arrayLiteralTwice index)
    | some none => fillSlots rest (slots.modify index fun _ => some val)

/-- The first number of slots that do not fit a vector. A slot takes 8 bytes. -/
def slotLimit : Nat := 1 <<< 60

/-- The first number that does not fit a node. -/
def nodeLimit : Nat := 1 <<< 32

/-- An array literal: each value at its index, and zeros elsewhere. As there may be many of them,
the nodes are counted at the end. -/
def arrayLiteral (ty : TypeId) (indexes : List Nat) (vals : List NodeId) (span : Span) :
    Build NodeId := do
  if ← isErrorType ty then return .errorExpr
  else if ← vals.anyM isErrorExpr then return .errorExpr
  else if indexes.length ≠ vals.length then
    throw (.arrayLiteralCount indexes.length vals.length)
  else match ← ask (·.types.underlyingForm ty) with
    | .array elem length =>
      if slotLimit ≤ length then throw .capacityOverflow
      else
        let slots ← fillSlots (indexes.zip vals) (Array.replicate length none)
        let kids ← slots.toList.mapM fun slot =>
          match slot with
          | some val => pure val
          | none => zero elem
        if nodeLimit ≤ (← get).arena.size then throw (.tooMany "nodes")
        else makeNode (.composite .building) kids ty span
    | _ => throwWithType ty .arrayLiteralOfNonArray

/-- A statement for its effect, then an expression for its value. -/
def compoundExpr (stmt expr : NodeId) (span : Span) : Build NodeId := do
  if stmt = .errorStmt then return .errorExpr
  else if ← isErrorExpr expr then return .errorExpr
  else
    let inner ← getNode expr
    let value ← match inner.value with
      | some value => pure value
      | none => rvalue expr
    let id ← makeNode .compound [stmt, expr] inner.ty span
    changeArena (·.setValue id value)
    changeArena (·.setFlags id inner.flags)
    return id

/-- A call of the function that an expression names or points to. -/
def call (callee : NodeId) (args : List NodeId) (span : Span) : Build NodeId := do
  if ← isErrorExpr callee then return .errorExpr
  else if ← args.anyM isErrorExpr then return .errorExpr
  else
    let calleeType ← typeOf callee
    let fntype := (← ask (·.types.pointee? calleeType)).getD calleeType
    match ← ask (·.types.functionResult? fntype) with
    | none => throwWithType calleeType .callOfNonFunction
    | some result =>
      let calleeValue ← rvalue callee
      let argValues ← args.mapM rvalue
      let id ← onArena (·.makeCall result (callee :: args) span)
      attachValue id (.call calleeValue argValues) result
      return id

end Build

end Codegen
