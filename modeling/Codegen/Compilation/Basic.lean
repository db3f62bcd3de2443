import Codegen.Body.Lowering
import Codegen.Function
import Codegen.Settings
import Codegen.Tree.Integrity
import Codegen.Tree.Make
import Codegen.Tree.Outline
import Codegen.Types.Placeholder
import Codegen.Variable

/-!
A compilation: everything that one unit of code is made of, and the steps a front end takes on it.
A step either ends with an answer and a new state, or stops with a fault.

Every category has an error sentinel. A constructor that is handed one gives back the sentinel of
its own category and builds nothing.
-/

namespace Codegen

/-- One unit of code under construction. -/
structure Compilation where
  settings : Settings
  names : NameTable
  types : TypeTable
  arena : Arena
  insts : InstStore
  /-- Number 0 is the error function. -/
  functions : Array Function
  /-- Number 0 is the error variable. -/
  vars : Array Variable
  globals : Array GlobalData
  deriving Repr

namespace Compilation

def initial (settings : Settings) : Compilation :=
  { settings, names := .initial, types := .initial settings.target, arena := .initial,
    insts := .initial, functions := #[.error], vars := #[.error], globals := #[] }

end Compilation

/-- A step on a compilation. -/
abbrev Build := StateT Compilation (Except Fault)

namespace Build

/-- Asks a question that changes nothing. -/
def ask {α : Type} (question : Compilation → Except Fault α) : Build α := do question (← get)

/-- A step on the types. -/
def onTypes {α : Type} (step : TypeTable → Except Fault (α × TypeTable)) : Build α := do
  let c ← get
  let (answer, types) ← step c.types
  set { c with types }
  return answer

/-- A step on the nodes. -/
def onArena {α : Type} (step : Arena → Except Fault (α × Arena)) : Build α := do
  let c ← get
  let (answer, arena) ← step c.arena
  set { c with arena }
  return answer

/-- A change of the nodes. -/
def changeArena (step : Arena → Except Fault Arena) : Build Unit := do
  let c ← get
  set { c with arena := ← step c.arena }

/-- Adds a node that needs no check. -/
def addNode (step : Arena → NodeId × Arena) : Build NodeId :=
  modifyGet fun c =>
    let (id, arena) := step c.arena
    (id, { c with arena })

def intern (s : String) : Build Name :=
  modifyGet fun c =>
    let (name, names) := c.names.intern s
    (name, { c with names })

def createInst (kind : InstKind) (ty : TypeId) : Build InstId :=
  modifyGet fun c =>
    let (id, insts) := c.insts.create kind ty
    (id, { c with insts })

/-- Destroys the tree below a node. -/
def destroy (root : NodeId) (mode : DestroyMode) : Build Unit := do
  let c ← get
  let (arena, insts) ← c.arena.destroy c.insts root mode
  set { c with arena, insts }

/-- The entry of a table at a position. -/
def entry {α : Type} (table : Array α) (index : Nat) : Except Fault α :=
  match table[index]? with
  | some x => .ok x
  | none => .error (.indexOutOfBounds table.size index)

def getNode (id : NodeId) : Build Node := ask (·.arena.get id)

def getFunction (id : FuncId) : Build Function := ask fun c => entry c.functions id.index

def getVariable (id : VarId) : Build Variable := ask fun c => entry c.vars id.index

def setFunction (id : FuncId) (f : Function) : Build Unit :=
  modify fun c => { c with functions := c.functions.modify id.index fun _ => f }

def setVariable (id : VarId) (v : Variable) : Build Unit :=
  modify fun c => { c with vars := c.vars.modify id.index fun _ => v }

/-- The text of a type. -/
def typeName (ty : TypeId) : Build String := ask fun c => c.types.display c.names ty

def isErrorType (ty : TypeId) : Build Bool := ask (·.types.isError ty)

/-- Whether an expression is the error expression or has an error type. -/
def isErrorExpr (expr : NodeId) : Build Bool := do
  if expr = .errorExpr then return true else isErrorType (← getNode expr).ty

def isErrorVar (var : VarId) : Build Bool := do return (← getVariable var).isError

/-- The type of an expression. -/
def typeOf (expr : NodeId) : Build TypeId := do return (← getNode expr).ty

def outline (root : NodeId) : Build String :=
  ask fun c => Outline.text ⟨c.arena, c.insts, c.types, c.names⟩ root

def sharing (root : NodeId) : Build (List Violation) := ask (·.arena.sharing root)

def disableIntegrityChecks : Build Unit :=
  modify fun c => { c with settings := { c.settings with integrityChecks := false } }

/-- Stops with a fault that names a type. -/
def throwWithType {α : Type} (ty : TypeId) (fault : String → Fault) : Build α := do
  throw (fault (← typeName ty))

end Build

end Codegen
