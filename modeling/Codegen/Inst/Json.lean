import Codegen.Inst.Basic
import Codegen.Json.Decode

/-!
Instructions and operands as JSON: numbers stand for handles, an alternative is an object of one
member named by its tag.
-/

namespace Codegen

open Json (record text nat)

/-- An alternative that carries something. -/
def Json.tag (name : String) (payload : Json) : Json := record [(name, payload)]

def TypeId.toJson (t : TypeId) : Json := nat t.index

def Name.toJson (n : Name) : Json := nat n.index

def Constant.toJson : Constant → Json
  | .int ty value => .tag "Int" (record [("ty", ty.toJson), ("value", .int value)])
  | .float ty bits => .tag "Float" (record [("ty", ty.toJson), ("bits", nat bits.toNat)])
  | .bool value => .tag "Bool" (.bool value)
  | .null ty => .tag "Null" ty.toJson
  | .zero ty => .tag "Zero" ty.toJson
  | .str data => .tag "Str" data.toJson
  | .void => text "Void"

def Value.toJson : Value → Json
  | .inst id => .tag "Inst" (nat id.index)
  | .const c => .tag "Const" c.toJson
  | .global id => .tag "Global" (nat id.index)
  | .param index => .tag "Param" (nat index)
  | .func id => .tag "Func" (nat id.index)

def InstKind.toJson : InstKind → Json
  | .alloca allocated name =>
    .tag "Alloca" (record [("allocated", allocated.toJson), ("name", name.toJson)])
  | .load ptr => .tag "Load" (record [("ptr", ptr.toJson)])
  | .store ptr value => .tag "Store" (record [("ptr", ptr.toJson), ("value", value.toJson)])
  | .binary op lhs rhs =>
    .tag "Binary" (record [("op", text op.name), ("lhs", lhs.toJson), ("rhs", rhs.toJson)])
  | .compare op lhs rhs =>
    .tag "Compare" (record [("op", text op.name), ("lhs", lhs.toJson), ("rhs", rhs.toJson)])
  | .unary op operand =>
    .tag "Unary" (record [("op", text op.name), ("operand", operand.toJson)])
  | .cast value => .tag "Cast" (record [("value", value.toJson)])
  | .fieldAddr base index =>
    .tag "FieldAddr" (record [("base", base.toJson), ("index", nat index)])
  | .extractField whole index =>
    .tag "ExtractField" (record [("aggregate", whole.toJson), ("index", nat index)])
  | .extractElem whole index =>
    .tag "ExtractElem" (record [("aggregate", whole.toJson), ("index", index.toJson)])
  | .elemAddr base index =>
    .tag "ElemAddr" (record [("base", base.toJson), ("index", index.toJson)])
  | .aggregate elems => .tag "Aggregate" (record [("elems", .arr (elems.map Value.toJson))])
  | .call callee args =>
    .tag "Call" (record [("callee", callee.toJson), ("args", .arr (args.map Value.toJson))])
  | .ret value => .tag "Ret" (record [("value", .optional Value.toJson value)])

def Inst.toJson (inst : Inst) : Json :=
  record [("kind", inst.kind.toJson), ("ty", inst.ty.toJson)]

def TypeId.ofJson? (j : Json) : Option TypeId := j.u32?.map TypeId.mk

def Constant.ofJson? (j : Json) : Option Constant := do
  match ← j.tagged? with
  | ("Int", some payload) =>
    match ← payload.fields? ["ty", "value"] with
    | [some ty, some value] => return .int (← TypeId.ofJson? ty) (← value.i128?)
    | _ => none
  | ("Float", some payload) =>
    match ← payload.fields? ["ty", "bits"] with
    | [some ty, some bits] => return .float (← TypeId.ofJson? ty) (← bits.u64?).toUInt64
    | _ => none
  | ("Bool", some payload) => return .bool (← payload.bool?)
  | ("Null", some payload) => return .null (← TypeId.ofJson? payload)
  | ("Zero", some payload) => return .zero (← TypeId.ofJson? payload)
  | ("Str", some payload) => return .str ⟨← payload.u32?⟩
  | ("Void", payload) => Json.nothing? .void payload
  | _ => none

def Value.ofJson? (j : Json) : Option Value := do
  match ← j.tagged? with
  | ("Inst", some payload) => return .inst ⟨← payload.u32?⟩
  | ("Const", some payload) => return .const (← Constant.ofJson? payload)
  | ("Global", some payload) => return .global ⟨← payload.u32?⟩
  | ("Param", some payload) => return .param (← payload.u32?)
  | ("Func", some payload) => return .func ⟨← payload.u32?⟩
  | _ => none

end Codegen
