import Codegen.Tree.Arena

/-!
Construction of nodes. A node is taken in only with as many children as its kind asks for, each of
them live and of the right category.
-/

namespace Codegen.Arena

/-- Checks the categories of children, the first of them at position `index`. -/
def checkKids (a : Arena) (kind : NodeKind) : Nat → List NodeId → Except Fault Unit
  | _, [] => .ok ()
  | index, kid :: rest => do
    let child ← a.get kid
    if child.isStmt = kind.wantsStmt index then a.checkKids kind (index + 1) rest
    else throw (.childCategory index kind.flavor (kind.wantsStmt index) child.kind.flavor)

/-- Checks the number of children that a kind fixes. -/
def checkArity (kind : NodeKind) (kids : List NodeId) : Except Fault Unit :=
  match kind.arity with
  | .fixed n => if n = kids.length then .ok () else .error (.childCount kind.flavor n kids.length)
  | .variadic => .ok ()

/-- Takes in a node of a kind over children. -/
def make (a : Arena) (kind : NodeKind) (kids : List NodeId) (ty : TypeId) (span : Span) :
    Except Fault (NodeId × Arena) := do
  checkArity kind kids
  a.checkKids kind 0 kids
  return a.add (.fresh kind kids ty span)

/-- Takes in a node without children that has its value from the start. -/
def makeLeaf (a : Arena) (kind : NodeKind) (ty : TypeId) (value : Value) (flags : NodeFlags)
    (span : Span) : NodeId × Arena :=
  a.add { Node.fresh kind [] ty span with value := some value, flags := flags }

def makeConst (a : Arena) (ty : TypeId) (c : Constant) (span : Span) : NodeId × Arena :=
  a.makeLeaf .const ty (.const c) ⟨false, true⟩ span

/-- A reference to a variable; its value is the variable's address. -/
def makeVar (a : Arena) (var : VarId) (ty : TypeId) (storage : Value) (span : Span) :
    NodeId × Arena :=
  a.makeLeaf (.var var) ty storage ⟨true, false⟩ span

def makeFuncAddress (a : Arena) (func : FuncId) (ty : TypeId) (span : Span) : NodeId × Arena :=
  a.makeLeaf (.funcAddress func) ty (.func func) ⟨false, true⟩ span

/-- A statement, or an expression without a result. -/
def makeVoid (a : Arena) (kind : NodeKind) (kids : List NodeId) (span : Span) :
    Except Fault (NodeId × Arena) :=
  a.make kind kids .void span

def makeEmpty (a : Arena) (span : Span) : NodeId × Arena :=
  a.add (.fresh .emptyStmt [] .void span)

/-- A call needs a callee. -/
def makeCall (a : Arena) (ty : TypeId) (kids : List NodeId) (span : Span) :
    Except Fault (NodeId × Arena) :=
  if kids.isEmpty then .error .callWithoutCallee else a.make .call kids ty span

/-- A switch over as many children as its layout has places. -/
def makeSwitch (a : Arena) (layout : SwitchLayout) (kids : List NodeId) (span : Span) :
    Except Fault (NodeId × Arena) :=
  if kids.length = layout.childCount then a.makeVoid (.switchStmt layout) kids span
  else .error (.switchChildCount kids.length layout.childCount)

end Codegen.Arena
