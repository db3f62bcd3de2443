import Codegen.Compilation.Values

/-!
Variables: globals, locals, parameters. A local's slot waits in its function for the entry block; a
parameter gets a slot when it is first used.
-/

namespace Codegen.Build

def pushVariable (v : Variable) : Build VarId :=
  modifyGet fun c => (⟨c.vars.size⟩, { c with vars := c.vars.push v })

def newGlobal (name asmName : String) (ty : TypeId) (flags : GlobalFlags) (span : Span) :
    Build VarId := do
  let name ← intern name
  let asmName ← intern asmName
  let global : GlobalId := ⟨(← get).globals.size⟩
  let var ← pushVariable ⟨.global, name, ty, span, none, true, .global global⟩
  modify fun c => { c with globals := c.globals.push ⟨var, asmName, flags, none⟩ }
  return var

/-- A variable with a stack slot of its own. -/
def newLocal (func : FuncId) (kind : VarKind) (name : Name) (ty : TypeId) (addressTaken : Bool)
    (span : Span) : Build VarId := do
  let ptrType ← onTypes (·.pointerType ty)
  let slot ← createInst (.alloca ty name) ptrType
  let f ← getFunction func
  setFunction func (f.addPendingLocal slot)
  pushVariable ⟨kind, name, ty, span, some func, addressTaken, .inst slot⟩

/-- A variable of the whole unit. -/
def globalVariable (name asmName : String) (ty : TypeId) (external hidden uniqueSection : Bool)
    (span : Span) : Build VarId := do
  if ← isErrorType ty then return .error
  else newGlobal name asmName ty ⟨external, hidden, false, false, uniqueSection⟩ span

/-- A read-only global that holds a struct. -/
def immutableStruct (name asmName : String) (hidden common : Bool) (ty : TypeId) (span : Span) :
    Build VarId := do
  if ← isErrorType ty then return .error
  else if hidden && common then throw (.hiddenAndCommon name)
  else newGlobal name asmName ty ⟨false, hidden, common, true, false⟩ span

/-- The constant that an expression spells out, found within a number of steps down. -/
def constInitWithin (arena : Arena) : Nat → NodeId → Except Fault GlobalInit
  | 0, _ => .error .endless
  | fuel + 1, id => do
    let node ← arena.get id
    match node.kind with
    | .const =>
      match node.value with
      | some (.const c) => return .scalar c
      | other => throw (.strayConstant id.index other)
    | .composite _ => return .aggregate (← node.kids.mapM (constInitWithin arena fuel))
    | kind => throw (.nonConstantInitializer kind.flavor)

/-- The constant that an expression spells out. -/
def constInit (id : NodeId) : Build GlobalInit :=
  ask fun c => constInitWithin c.arena (c.arena.size + 1) id

/-- Gives a global its initial value, once, and consumes the expression. -/
def setGlobalInit (var : VarId) (init : NodeId) : Build Unit := do
  if ← isErrorVar var then return ()
  else if ← isErrorExpr init then return ()
  else match (← getVariable var).storage with
    | .global global =>
      let value ← constInit init
      let data ← ask fun c => entry c.globals global.index
      if data.init.isSome then throw (.initializedTwice var.index)
      else
        modify fun c => { c with
          globals := c.globals.modify global.index fun _ => { data with init := some value } }
        destroy init .all
    | _ => throw (.variableNotGlobal var.index)

def localVariable (func : FuncId) (name : String) (ty : TypeId) (addressTaken : Bool)
    (span : Span) : Build VarId := do
  if func = .error then return .error
  else if ← isErrorType ty then return .error
  else
    let name ← intern name
    newLocal func .local name ty addressTaken span

/-- The next parameter of a function. -/
def parameterVariable (func : FuncId) (name : String) (ty : TypeId) (addressTaken : Bool)
    (span : Span) : Build VarId := do
  if func = .error then return .error
  else if ← isErrorType ty then return .error
  else
    let name ← intern name
    let var : VarId := ⟨(← get).vars.size⟩
    let (index, f) := (← getFunction func).pushParam var
    setFunction func f
    pushVariable ⟨.param index, name, ty, span, some func, addressTaken, .param index⟩

/-- The address of a variable's storage. A parameter gets its slot now if it has none. -/
def variableAddress (var : VarId) : Build Value := do
  let v ← getVariable var
  match v.kind, v.storage, v.func with
  | .param index, .param _, some func =>
    let ptrType ← onTypes (·.pointerType v.ty)
    let f ← getFunction func
    let c ← get
    let (slot, f, insts) := f.spillSlotFor index v.ty ptrType v.name c.insts
    set { c with insts }
    setFunction func f
    setVariable var { v with storage := .inst slot }
    return .inst slot
  | _, storage, _ => return storage

end Codegen.Build
