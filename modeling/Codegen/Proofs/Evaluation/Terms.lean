import Codegen.Proofs.Compilation.Linear
import Codegen.Proofs.Evaluation.Literals

/-!
What a front end asks for, node by node, and the expression that it writes down in this way. Every
constructor builds a node that stands for its expression.
-/

namespace Codegen

/-- A constructor of expressions with what it is given. -/
inductive Term where
  | zero (ty : TypeId)
  | nil
  | int (ty : TypeId) (value : Int)
  | float (ty : TypeId) (bits : UInt64)
  | complex (ty : TypeId) (real imag : UInt64)
  | bool (value : Bool)
  | string (value : String)
  | var (var : VarId) (span : Span)
  | func (func : FuncId) (span : Span)
  | deref (ty : TypeId) (ptr : NodeId) (span : Span)
  | address (place : NodeId) (span : Span)
  | convert (ty : TypeId) (operand : NodeId) (span : Span)
  | unary (op : Operator) (operand : NodeId) (span : Span)
  | binary (op : Operator) (lhs rhs : NodeId) (span : Span)
  | field (whole : NodeId) (index : Nat) (span : Span)
  | realPart (whole : NodeId) (span : Span)
  | imagPart (whole : NodeId) (span : Span)
  | complexOf (real imag : NodeId) (span : Span)
  | elem (array index : NodeId) (span : Span)
  | offset (base index : NodeId) (span : Span)
  | struct (ty : TypeId) (vals : List NodeId) (span : Span)
  | array (ty : TypeId) (indexes : List Nat) (vals : List NodeId) (span : Span)
  | call (callee : NodeId) (args : List NodeId) (span : Span)

namespace Term

def build : Term → Build NodeId
  | zero ty => Build.zero ty
  | nil => Build.nilPointer
  | int ty value => Build.integerConstant ty value
  | float ty bits => Build.floatConstant ty bits
  | complex ty real imag => Build.complexConstant ty real imag
  | bool value => Build.booleanConstant value
  | string value => Build.stringConstant value
  | var v span => Build.varExpr v span
  | func f span => Build.functionCode f span
  | deref ty ptr span => Build.indirect ty ptr span
  | address place span => Build.addressOf place span
  | convert ty operand span => Build.convert ty operand span
  | unary op operand span => Build.unary op operand span
  | binary op lhs rhs span => Build.binary op lhs rhs span
  | field whole index span => Build.structField whole index span
  | realPart whole span => Build.realPart whole span
  | imagPart whole span => Build.imagPart whole span
  | complexOf real imag span => Build.complexExpr real imag span
  | elem whole index span => Build.arrayIndex whole index span
  | offset base index span => Build.pointerOffset base index span
  | struct ty vals span => Build.structLiteral ty vals span
  | array ty indexes vals span => Build.arrayLiteral ty indexes vals span
  | call callee args span => Build.call callee args span

/-- The nodes that a constructor takes, from left to right. -/
def operands : Term → List NodeId
  | zero _ | nil | int _ _ | float _ _ | complex _ _ _ | bool _ | string _ | var _ _
  | func _ _ => []
  | deref _ x _ | address x _ | convert _ x _ | unary _ x _ | field x _ _ | realPart x _
  | imagPart x _ => [x]
  | binary _ x y _ | complexOf x y _ | elem x y _ | offset x y _ => [x, y]
  | struct _ vals _ | array _ _ vals _ => vals
  | call callee args _ => callee :: args

/-- A part of a complex value. -/
def part (t : TypeTable) (e : Expr) (index : Nat) : Expr :=
  .field (t.partOf e.ty) (t.pointerTo (t.partOf e.ty)) e index

/-- The expression that is written down, given those of the operands. Types are those that the
compilation finds for it; a parameter has its address once it is referred to. -/
def expr (before after : Compilation) : Term → List Expr → Expr
  | zero ty, _ => .const ty (.zero ty)
  | nil, _ => .const (before.types.pointerTo .void) (.null (before.types.pointerTo .void))
  | int ty value, _ => .const ty (.int ty value)
  | float ty bits, _ => .const ty (.float ty (before.types.round ty bits))
  | complex ty real imag, _ =>
    let part := before.types.partOf ty
    .literal ty [.const part (.float part (before.types.round part real)),
      .const part (.float part (before.types.round part imag))]
  | bool value, _ => .const .bool (.bool value)
  | string value, _ => .const (before.types.pointerTo .u8) (.str (before.names.intern value).1)
  | var v _, _ =>
    match after.vars[v.index]? with
    | some v => .var v.ty v.storage
    | none => .const .error .void
  | func f _, _ =>
    match before.functions[f.index]? with
    | some found => .func (before.types.pointerTo found.fntype) f
    | none => .const .error .void
  | deref ty _ _, [ptr] => .deref ty ptr
  | address _ _, [place] => .address (before.types.pointerTo place.ty) place
  | convert ty _ _, [operand] => .cast ty operand
  | unary op _ _, [operand] => .unary op operand
  | binary op _ _ _, [lhs, rhs] => .binary op lhs rhs
  | field _ index _, [whole] =>
    let ty := before.types.fieldOf whole.ty index
    .field ty (before.types.pointerTo ty) whole index
  | realPart _ _, [whole] => part before.types whole 0
  | imagPart _ _, [whole] => part before.types whole 1
  | complexOf _ _ _, [real, imag] => .literal (before.types.complexOf real.ty) [real, imag]
  | elem _ _ _, [whole, index] =>
    let ty := before.types.elementOf whole.ty
    .elem ty (before.types.pointerTo ty) whole index
  | offset _ _ _, [base, index] => .offset base index
  | struct ty _ _, vals => .literal ty vals
  | array ty indexes _ _, vals =>
    match before.types.underlyingForm ty with
    | .ok (.array element length) => .literal ty (Expr.placed element length (indexes.zip vals))
    | _ => .literal ty []
  | call _ _ _, callee :: args => .call (before.types.resultOf callee.ty) callee args
  | _, _ => .const .error .void

open Compilation
open Build (Maker Deal Call)

/-- A conversion may hand its operand back; every other constructor makes a node. -/
theorem call_and_maker (term : Term) : Call term.build ∧
    (Maker term.operands term.build ∨ ∃ ty x span, term = .convert ty x span) := by
  cases term with
  | zero => exact ⟨.zero _, .inl (.zero _)⟩
  | nil => exact ⟨.nilPointer, .inl .nilPointer⟩
  | int => exact ⟨.integerConstant _ _, .inl (.integerConstant _ _)⟩
  | float => exact ⟨.floatConstant _ _, .inl (.floatConstant _ _)⟩
  | complex => exact ⟨.complexConstant _ _ _, .inl (.complexConstant _ _ _)⟩
  | bool => exact ⟨.booleanConstant _, .inl (.booleanConstant _)⟩
  | string => exact ⟨.stringConstant _, .inl (.stringConstant _)⟩
  | var => exact ⟨.varExpr _ _, .inl (.varExpr _ _)⟩
  | func => exact ⟨.functionCode _ _, .inl (.functionCode _ _)⟩
  | deref => exact ⟨.indirect _ _ _, .inl (.indirect _ _ _)⟩
  | address => exact ⟨.addressOf _ _, .inl (.addressOf _ _)⟩
  | convert => exact ⟨.convert _ _ _, .inr ⟨_, _, _, rfl⟩⟩
  | unary => exact ⟨.unary _ _ _, .inl (.unary _ _ _)⟩
  | binary => exact ⟨.binary _ _ _ _, .inl (.binary _ _ _ _)⟩
  | field => exact ⟨.structField _ _ _, .inl (.structField _ _ _)⟩
  | realPart => exact ⟨.realPart _ _, .inl (.realPart _ _)⟩
  | imagPart => exact ⟨.imagPart _ _, .inl (.imagPart _ _)⟩
  | complexOf => exact ⟨.complexExpr _ _ _, .inl (.complexExpr _ _ _)⟩
  | elem => exact ⟨.arrayIndex _ _ _, .inl (.arrayIndex _ _ _)⟩
  | offset => exact ⟨.pointerOffset _ _ _, .inl (.pointerOffset _ _ _)⟩
  | struct => exact ⟨.structLiteral _ _ _, .inl (.structLiteral _ _ _)⟩
  | array => exact ⟨.arrayLiteral _ _ _ _, .inl (.arrayLiteral _ _ _ _)⟩
  | call => exact ⟨.call _ _ _, .inl (.call _ _ _)⟩

/-- A constructor that makes a node takes its operands for it. -/
theorem exists_deal (term : Term) : ∃ used made, Deal term.build used made ∧
    ∀ c x, ¬x.isSentinel → x ∉ term.operands → used c x = term.operands ∧ made x = [x] := by
  rcases term.call_and_maker.2 with maker | ⟨ty, x, span, rfl⟩
  · exact ⟨_, _, .make maker, fun c x plain _ => ⟨if_neg plain, rfl⟩⟩
  · refine ⟨_, _, .convert ty x span, fun c id plain new => ?_⟩
    have ne : id ≠ x := by simpa [operands] using new
    exact ⟨if_neg (by simp [plain, ne]), if_neg ne⟩

theorem denotes (term : Term) {c c' : Compilation} {x : NodeId} {es : List Expr}
    {rest : List NodeId}
    (sound : c.Sound) (t : c.Tidy (term.operands ++ rest))
    (ds : List.Forall₂ c.Denotes term.operands es)
    (run : term.build c = .ok (x, c')) (plain : ¬x.isSentinel) (new : x ∉ term.operands) :
    c'.Denotes x (term.expr c c' es) := by
  have single {y : NodeId} (ds : List.Forall₂ c.Denotes [y] es) :
      ∃ e, es = [e] ∧ c.Denotes y e := by
    obtain ⟨e, _, d, none, rfl⟩ := List.forall₂_cons_left_iff.1 ds
    cases none
    exact ⟨e, rfl, d⟩
  have pair {y z : NodeId} (ds : List.Forall₂ c.Denotes [y, z] es) :
      ∃ e e', es = [e, e'] ∧ c.Denotes y e ∧ c.Denotes z e' := by
    obtain ⟨e, _, d, later, rfl⟩ := List.forall₂_cons_left_iff.1 ds
    obtain ⟨e', _, d', none, rfl⟩ := List.forall₂_cons_left_iff.1 later
    cases none
    exact ⟨e, e', rfl, d, d'⟩
  cases term with
  | zero => exact (gives_zero sound run).denotes plain
  | nil => exact denotes_nilPointer sound run plain
  | int => exact denotes_integerConstant sound run plain
  | float => exact (gives_floatConstant sound run).denotes plain
  | complex => exact denotes_complexConstant sound run plain
  | bool => exact (gives_makeConst sound run).denotes plain
  | string => exact denotes_stringConstant sound run plain
  | var v span =>
    obtain ⟨v', found, d⟩ := denotes_varExpr sound t.toOrderly run plain
    simpa only [expr, found] using d
  | func f span =>
    obtain ⟨f', found, d⟩ := denotes_functionCode sound run plain
    simpa only [expr, found] using d
  | deref =>
    obtain ⟨e, rfl, d⟩ := single ds
    exact denotes_indirect sound t d run plain
  | address =>
    obtain ⟨e, rfl, d⟩ := single ds
    exact denotes_addressOf sound t d run plain
  | convert =>
    obtain ⟨e, rfl, d⟩ := single ds
    exact denotes_convert sound t d run plain (by simpa [operands] using new)
  | unary =>
    obtain ⟨e, rfl, d⟩ := single ds
    exact denotes_unary sound t d run plain
  | binary =>
    obtain ⟨e, e', rfl, d, d'⟩ := pair ds
    exact denotes_binary sound t d d' run plain
  | field =>
    obtain ⟨e, rfl, d⟩ := single ds
    exact denotes_structField sound t d run plain
  | realPart | imagPart =>
    obtain ⟨e, rfl, d⟩ := single ds
    exact denotes_complexPart sound t d run plain
  | complexOf =>
    obtain ⟨e, e', rfl, d, d'⟩ := pair ds
    exact denotes_complexExpr sound d d' run plain
  | elem =>
    obtain ⟨e, e', rfl, d, d'⟩ := pair ds
    exact denotes_arrayIndex sound t d d' run plain
  | offset =>
    obtain ⟨e, e', rfl, d, d'⟩ := pair ds
    exact denotes_pointerOffset sound t d d' run plain
  | struct => exact denotes_structLiteral sound ds run plain
  | array ty indexes vals span =>
    obtain ⟨element, length, known, d⟩ := denotes_arrayLiteral sound ds run plain
    simpa only [expr, known] using d
  | call callee args span =>
    obtain ⟨e, es, d, later, rfl⟩ := List.forall₂_cons_left_iff.1 ds
    exact denotes_call sound t d later run plain

end Term

end Codegen
