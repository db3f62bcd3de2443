import Codegen.Compilation.Basic

/-!
Values and addresses of expressions. Using a value settles it: a composite gets its aggregate, an
address gets its load, each once.
-/

namespace Codegen.Build

/-- Creates an instruction and attaches it to a node. -/
def attach (id : NodeId) (kind : InstKind) (ty : TypeId) : Build InstId := do
  let inst ← createInst kind ty
  changeArena (·.appendInst id inst)
  return inst

/-- Creates an instruction that computes the value of a node. -/
def attachValue (id : NodeId) (kind : InstKind) (ty : TypeId) : Build Unit := do
  let inst ← attach id kind ty
  changeArena (·.setValue id (.inst inst))

/-- The value of a node that is no longer under construction. An address is loaded by an
instruction of the node's own. -/
def settle (id : NodeId) : Build Value := do
  let node ← getNode id
  match node.value with
  | none => throw (.noValue node.kind.flavor id.index)
  | some value =>
    if node.flags.address then
      let load ← attach id (.load value) node.ty
      changeArena (·.setValue id (.inst load))
      changeArena (·.setFlags id { node.flags with address := false })
      return .inst load
    else return value

/-- The value of an expression, found within a number of steps down. -/
def rvalueWithin : Nat → NodeId → Build Value
  | 0, _ => throw .endless
  | fuel + 1, id => do
    let node ← getNode id
    if node.isBuilding then
      let elems ← node.kids.mapM (rvalueWithin fuel)
      let aggregate ← attach id (.aggregate elems) node.ty
      changeArena (·.finishComposite id (.inst aggregate))
    settle id

/-- The value of an expression for use as an operand. A composite under construction is finished
with an aggregate of its children's values. -/
def rvalue (id : NodeId) : Build Value := do rvalueWithin ((← get).arena.size + 1) id

/-- The address that an addressable expression denotes. -/
def lvalue (id : NodeId) : Build Value := do
  let node ← getNode id
  if node.flags.address then
    match node.value with
    | some addr => return addr
    | none => throw (.noAddress node.kind.flavor id.index)
  else throw (.notAddressable node.kind.flavor id.index)

end Codegen.Build
