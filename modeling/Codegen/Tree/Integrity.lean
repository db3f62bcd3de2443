import Codegen.Tree.Arena

/-!
The single-parent check: below a root, every node is a child once and every instruction is owned
once. Sentinels may stand in any number of places.
-/

namespace Codegen

/-- One case of sharing. -/
inductive Violation where
  | sharedInst (inst : InstId) (first second : NodeId)
  | sharedExpr (node parent : NodeId)
  | sharedStmt (node parent : NodeId)
  deriving DecidableEq, Repr

def Violation.message : Violation → String
  | .sharedInst inst first second =>
    s!"instruction has multiple parents: inst {inst.index} owned by node {first.index} and node {second.index}"
  | .sharedExpr node parent =>
    s!"expression has multiple parents: node {node.index} reached again from node {parent.index}"
  | .sharedStmt node parent =>
    s!"statement has multiple parents: node {node.index} reached again from node {parent.index}"

/-- A violation for each line. -/
def Violation.text (violations : List Violation) : String :=
  String.join (violations.map fun v => v.message ++ "\n")

namespace Arena

/-- A check on its way through a tree. -/
structure Survey where
  /-- Nodes met so far. -/
  seen : List NodeId
  /-- The first owner of each instruction met so far. -/
  owners : List (InstId × NodeId)
  /-- Nodes met and not yet looked into, the next one first. -/
  stack : List NodeId
  /-- What was found, the latest first. -/
  found : List Violation

namespace Survey

/-- Notes that a node owns an instruction. -/
def own (node : NodeId) (s : Survey) (inst : InstId) : Survey :=
  match s.owners.lookup inst with
  | some first => { s with found := .sharedInst inst first node :: s.found }
  | none => { s with owners := (inst, node) :: s.owners }

/-- Notes a child of a node. -/
def meet (a : Arena) (parent : NodeId) (s : Survey) (kid : NodeId) : Except Fault Survey :=
  if kid.isSentinel then .ok s
  else if kid ∈ s.seen then do
    let found := if (← a.get kid).isStmt then .sharedStmt kid parent else .sharedExpr kid parent
    return { s with found := found :: s.found }
  else .ok { s with seen := kid :: s.seen, stack := kid :: s.stack }

/-- Looks into a node. -/
def visit (a : Arena) (id : NodeId) (s : Survey) : Except Fault Survey := do
  let node ← a.get id
  node.kids.reverse.foldlM (meet a id) (node.insts.foldl (own id) s)

/-- Looks into the nodes that wait, at most a number of them. -/
def run (a : Arena) : Nat → Survey → Except Fault Survey
  | 0, _ => .error .endless
  | fuel + 1, s =>
    match s.stack with
    | [] => .ok s
    | id :: rest => do run a fuel (← visit a id { s with stack := rest })

end Survey

/-- All sharing below a root, in the order in which it is met. Every node is looked into once, so
there are no more turns than nodes. -/
def sharing (a : Arena) (root : NodeId) : Except Fault (List Violation) := do
  return (← Survey.run a (a.size + 1) ⟨[root], [], [root], []⟩).found.reverse

end Arena

end Codegen
