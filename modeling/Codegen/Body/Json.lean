import Codegen.Body.Basic
import Codegen.Inst.Json

/-!
Bodies as JSON, and back.
-/

namespace Codegen

open Json (record text nat)

def BlockId.toJson (b : BlockId) : Json := nat b.index

def BlockId.ofJson? (j : Json) : Option BlockId := j.u32?.map BlockId.mk

def Terminator.toJson : Terminator → Json
  | .jump target => .tag "Jump" (record [("target", target.toJson)])
  | .branch cond thenBlock elseBlock =>
    .tag "Branch" (record [("cond", cond.toJson), ("then_block", thenBlock.toJson),
      ("else_block", elseBlock.toJson)])
  | .ret value => .tag "Return" (record [("value", .optional Value.toJson value)])
  | .unreachable => text "Unreachable"

def Terminator.ofJson? (j : Json) : Option Terminator := do
  match ← j.tagged? with
  | ("Jump", some payload) =>
    match ← payload.fields? ["target"] with
    | [some target] => return .jump (← BlockId.ofJson? target)
    | _ => none
  | ("Branch", some payload) =>
    match ← payload.fields? ["cond", "then_block", "else_block"] with
    | [some cond, some thenBlock, some elseBlock] =>
      return .branch (← Value.ofJson? cond) (← BlockId.ofJson? thenBlock)
        (← BlockId.ofJson? elseBlock)
    | _ => none
  | ("Return", some payload) =>
    match ← payload.fields? ["value"] with
    | [none] => return .ret none
    | [some value] => return .ret (← value.nullable? Value.ofJson?)
    | _ => none
  | ("Unreachable", payload) => Json.nothing? .unreachable payload
  | _ => none

def BasicBlock.toJson (b : BasicBlock) : Json :=
  record [("id", b.id.toJson), ("name", text b.name),
    ("insts", .arr (b.insts.map fun i => nat i.index)), ("terminator", b.terminator.toJson)]

def BasicBlock.ofJson? (j : Json) : Option BasicBlock := do
  match ← j.fields? ["id", "name", "insts", "terminator"] with
  | [some id, some name, some insts, some terminator] =>
    return ⟨← BlockId.ofJson? id, ← name.text?, (← insts.list? Json.u32?).map InstId.mk,
      ← Terminator.ofJson? terminator⟩
  | _ => none

def Body.toJson (b : Body) : Json :=
  record [("blocks", .arr (b.blocks.toList.map BasicBlock.toJson)), ("entry", b.entry.toJson)]

def Body.ofJson? (j : Json) : Option Body := do
  match ← j.fields? ["blocks", "entry"] with
  | [some blocks, some entry] =>
    return ⟨(← blocks.list? BasicBlock.ofJson?).toArray, ← BlockId.ofJson? entry⟩
  | _ => none

end Codegen
