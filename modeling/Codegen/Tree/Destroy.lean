import Codegen.Inst.Store
import Codegen.Tree.Edit

/-!
Destruction of trees: of the nodes, of their instructions, or of both.
-/

namespace Codegen

inductive DestroyMode where
  /-- Nodes and their instructions. -/
  | all
  /-- Nodes only, once their instructions live elsewhere. -/
  | wrappers
  /-- Instructions only; the nodes stay without them. -/
  | instructions
  deriving DecidableEq, Repr

namespace Arena

/-- Destroys what is below a node, within a number of steps down. Sentinels and dead nodes are
passed over. -/
def destroyWithin (mode : DestroyMode) :
    Nat → NodeId → Arena × InstStore → Except Fault (Arena × InstStore)
  | 0, _, _ => .error .endless
  | fuel + 1, id, (a, insts) =>
    match if id.isSentinel then none else a.find? id with
    | none => .ok (a, insts)
    | some node => do
      let cleared := if mode = .wrappers then (a, insts)
        else (a.set id { node with insts := [] }, insts.freeAll node.insts)
      let (a, insts) ← node.kids.foldlM (fun state kid => destroyWithin mode fuel kid state) cleared
      return (if mode = .instructions then a else a.kill id, insts)

/-- Destroys the tree below a node. A descent that goes deeper than there are nodes runs in a
circle. -/
def destroy (a : Arena) (insts : InstStore) (root : NodeId) (mode : DestroyMode) :
    Except Fault (Arena × InstStore) :=
  destroyWithin mode (a.size + 1) root (a, insts)

end Arena

end Codegen
