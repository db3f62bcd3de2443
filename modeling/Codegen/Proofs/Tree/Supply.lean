import Codegen.Proofs.Body.Dominance
import Codegen.Tree.Arena

/-!
What the evaluation of an expression leaves behind for the expressions around it.
-/

namespace Codegen

/-- An instruction that goes on: it is no return. -/
def InstStore.Yields (s : InstStore) (j : InstId) : Prop := ∀ v ty, s.find? j ≠ some ⟨.ret v, ty⟩

/-- The instructions whose results are there once an expression was evaluated: its own and those of
its children. Statements leave nothing behind, and of dead nodes nothing is known. -/
inductive Arena.Supplies (a : Arena) (s : InstStore) : NodeId → InstId → Prop
  | dead {id j} : a.find? id = none → Supplies a s id j
  | own {id node j} : a.find? id = some node → node.isExpr → j ∈ node.insts → s.Yields j →
    Supplies a s id j
  | kid {id node k j} : a.find? id = some node → node.isExpr → k ∈ node.kids →
    Supplies a s k j → Supplies a s id j

end Codegen
