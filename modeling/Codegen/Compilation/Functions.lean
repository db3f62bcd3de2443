import Codegen.Compilation.Statements

/-!
Functions: declaration, parameters, body, and the definitions of a finished unit.
-/

namespace Codegen

/-- Everything that a unit defines. -/
structure Definitions where
  types : List TypeId
  constants : List GlobalInit
  functions : List Function
  globals : List GlobalData
  deriving Repr

/-- Functions that have a body. -/
def Definitions.definedCount (d : Definitions) : Nat := d.functions.countP (·.body.isSome)

namespace Build

/-- Declares a function. -/
def declareFunction (fntype : TypeId) (name asmName : String) (flags : FunctionFlags)
    (splitStack : Bool) (span : Span) : Build FuncId := do
  if ← isErrorType fntype then return .error
  else if (← ask (·.types.functionResult? fntype)).isNone then
    throwWithType fntype (.declaredNonFunction name)
  else
    let id : FuncId := ⟨(← get).functions.size⟩
    let name ← intern name
    let asmName ← intern asmName
    let f := Function.declare id name asmName fntype flags splitStack span
    modify fun c => { c with functions := c.functions.push f }
    return id

/-- Replaces the parameters of a function, unless one is an error. -/
def setParameters (func : FuncId) (params : List VarId) : Build Bool := do
  if func = .error then return false
  else if ← params.anyM isErrorVar then return false
  else
    let f ← getFunction func
    setFunction func { f with params }
    return true

/-- Stops at a tree that shares nodes or instructions, if such trees are looked for. -/
def checkBody (name : String) (body : NodeId) : Build Unit := do
  if (← get).settings.integrityChecks then
    let violations ← sharing body
    if violations ≠ [] then throw (.brokenTree name (Violation.text violations))

/-- Lowers a tree into the body of a function and destroys the nodes, whose instructions are in the
body now. -/
def setBody (func : FuncId) (body : NodeId) : Build Bool := do
  if func = .error ∨ body = .errorStmt then return false
  else
    let f ← getFunction func
    let name ← ask fun c => c.names.lookup f.name
    checkBody name body
    let result ← ask (·.types.functionResult? f.fntype)
    let c ← get
    let (entry, f, insts) := f.materializeEntry c.insts
    let (lowered, arena, insts) ←
      lowerBody func c.arena insts body entry (result == some .void)
    set { c with arena, insts }
    setFunction func (← f.setBody lowered)
    destroy body .wrappers
    return true

/-- The values of constants, which are consumed. Errors are left out. -/
def takeConstants : List NodeId → Build (List GlobalInit)
  | [] => return []
  | constant :: rest => do
    if ← isErrorExpr constant then takeConstants rest
    else
      let value ← constInit constant
      destroy constant .all
      return value :: (← takeConstants rest)

/-- The definitions of globals. Errors are left out. -/
def takeGlobals : List VarId → Build (List GlobalData)
  | [] => return []
  | var :: rest => do
    let v ← getVariable var
    if v.isError then takeGlobals rest
    else match v.storage with
      | .global global =>
        let data ← ask fun c => entry c.globals global.index
        return data :: (← takeGlobals rest)
      | _ => do
        let name ← ask fun c => c.names.lookup v.name
        throw (.namedNotGlobal name)

/-- The definitions of a finished unit, without the errors among them. -/
def definitions (types : List TypeId) (constants : List NodeId) (functions : List FuncId)
    (vars : List VarId) : Build Definitions := do
  let constants ← takeConstants constants
  let globals ← takeGlobals vars
  let types ← types.filterM fun ty => do return !(← isErrorType ty)
  let functions ← (functions.filter (· ≠ .error)).mapM getFunction
  return { types, constants, functions, globals }

end Build

end Codegen
