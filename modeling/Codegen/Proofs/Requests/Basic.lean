import Codegen.Compilation.Functions
import Codegen.Compilation.Types

/-!
What a front end can ask of a compilation, as data. Arguments are told apart by category, so that
those of a request can be listed and replaced.
-/

namespace Codegen

/-- What an argument stands for. -/
inductive Category where
  | type
  | expr
  | stmt
  | var
  | func
  deriving DecidableEq, Repr

namespace Category

/-- The handles of a category. -/
@[reducible] def Handle : Category → Type
  | type => TypeId
  | expr => NodeId
  | stmt => NodeId
  | var => VarId
  | func => FuncId

/-- The handle that stands for an error. -/
def sentinel : (k : Category) → k.Handle
  | type => TypeId.error
  | expr => NodeId.errorExpr
  | stmt => NodeId.errorStmt
  | var => VarId.error
  | func => FuncId.error

end Category

/-- An argument of any category. -/
inductive Arg (A : Category → Type) where
  | type (x : A .type)
  | expr (x : A .expr)
  | stmt (x : A .stmt)
  | var (x : A .var)
  | func (x : A .func)

def Arg.map {A B : Category → Type} (f : ∀ k, A k → B k) : Arg A → Arg B
  | .type x => .type (f _ x)
  | .expr x => .expr (f _ x)
  | .stmt x => .stmt (f _ x)
  | .var x => .var (f _ x)
  | .func x => .func (f _ x)

/-- What a front end can ask for, over arguments in some form. A root is an expression or a
statement. A label comes with its function. -/
inductive Request (A : Category → Type) where
  -- types
  | integerType (unsigned : Bool) (bits : Nat)
  | floatType (bits : Nat)
  | complexType (bits : Nat)
  | pointerType (target : A .type)
  | structType (fields : List (Name × A .type))
  | arrayType (elem : A .type) (length : A .expr)
  | functionType (receiver : Option (Name × A .type)) (params results : List (Name × A .type))
      (resultStruct : A .type)
  | placeholderType (shape : Shape) (name : String)
  | namedType (name : String) (underlying : A .type)
  | circularPointerType
  | resolvePointer (placeholder target : A .type)
  | resolveStruct (placeholder : A .type) (fields : List (Name × A .type))
  | resolveArray (placeholder elem : A .type) (length : A .expr)
  | resolveFunction (placeholder fntype : A .type)
  | isCircularPointerType (ty : A .type)
  | typeSize (ty : A .type)
  | typeAlignment (ty : A .type)
  | typeFieldAlignment (ty : A .type)
  | fieldOffset (ty : A .type) (index : Nat)
  | typeName (ty : A .type)
  -- expressions
  | zero (ty : A .type)
  | nilPointer
  | integerConstant (ty : A .type) (value : Int)
  | floatConstant (ty : A .type) (bits : UInt64)
  | complexConstant (ty : A .type) (real imag : UInt64)
  | booleanConstant (value : Bool)
  | stringConstant (value : String)
  | varExpr (var : A .var) (span : Span)
  | indirect (ty : A .type) (ptr : A .expr) (span : Span)
  | addressOf (expr : A .expr) (span : Span)
  | functionCode (func : A .func) (span : Span)
  | convert (ty : A .type) (expr : A .expr) (span : Span)
  | unary (op : Operator) (expr : A .expr) (span : Span)
  | binary (op : Operator) (lhs rhs : A .expr) (span : Span)
  | structField (expr : A .expr) (index : Nat) (span : Span)
  | realPart (expr : A .expr) (span : Span)
  | imagPart (expr : A .expr) (span : Span)
  | complexExpr (real imag : A .expr) (span : Span)
  | arrayIndex (array index : A .expr) (span : Span)
  | pointerOffset (base index : A .expr) (span : Span)
  | structLiteral (ty : A .type) (vals : List (A .expr)) (span : Span)
  | arrayLiteral (ty : A .type) (indexes : List Nat) (vals : List (A .expr)) (span : Span)
  | compoundExpr (stmt : A .stmt) (expr : A .expr) (span : Span)
  | conditional (func : A .func) (ty : A .type) (cond thenExpr : A .expr)
      (elseExpr : Option (A .expr)) (span : Span)
  | call (callee : A .expr) (args : List (A .expr)) (span : Span)
  -- statements
  | exprStmt (func : A .func) (expr : A .expr)
  | initStmt (func : A .func) (var : A .var) (init : A .expr)
  | assign (func : A .func) (lhs rhs : A .expr) (span : Span)
  | returnStmt (func : A .func) (vals : List (A .expr)) (span : Span)
  | ifStmt (func : A .func) (cond : A .expr) (thenStmt : A .stmt) (elseStmt : Option (A .stmt))
      (span : Span)
  | switchStmt (func : A .func) (value : A .expr) (cases : List (List (A .expr)))
      (stmts : List (A .stmt)) (span : Span)
  | compoundStmt (first second : A .stmt)
  | stmtList (stmts : List (A .stmt))
  | block (func : A .func) (enclosing : Option (A .stmt)) (vars : List (A .var)) (span : Span)
  | addToBlock (block : A .stmt) (stmts : List (A .stmt))
  | label (func : A .func) (span : Span)
  | labelStmt (func : A .func) (label : LabelId) (span : Span)
  | gotoStmt (func : A .func) (label : LabelId) (labelSpan span : Span)
  -- variables
  | globalVariable (name asmName : String) (ty : A .type) (external hidden uniqueSection : Bool)
      (span : Span)
  | immutableStruct (name asmName : String) (hidden common : Bool) (ty : A .type) (span : Span)
  | setGlobalInit (var : A .var) (init : A .expr)
  | localVariable (func : A .func) (name : String) (ty : A .type) (addressTaken : Bool)
    (span : Span)
  | parameterVariable (func : A .func) (name : String) (ty : A .type) (addressTaken : Bool)
      (span : Span)
  | temporary (func : A .func) (block : Option (A .stmt)) (ty : A .type) (init : Option (A .expr))
      (addressTaken : Bool) (span : Span)
  -- functions
  | declareFunction (fntype : A .type) (name asmName : String) (flags : FunctionFlags)
      (splitStack : Bool) (span : Span)
  | setParameters (func : A .func) (params : List (A .var))
  | setBody (func : A .func) (body : A .stmt)
  | definitions (types : List (A .type)) (constants : List (A .expr)) (functions : List (A .func))
      (vars : List (A .var))
  -- the unit as a whole
  | intern (text : String)
  | disableIntegrityChecks
  | destroy (root : A .expr ⊕ A .stmt) (mode : DestroyMode)
  | sharing (root : A .expr ⊕ A .stmt)
  | outline (root : A .expr ⊕ A .stmt)
  | functionData (func : A .func)
  | variableData (var : A .var)

/-- The answer to a request. -/
inductive Reply where
  | type (id : TypeId)
  | node (id : NodeId)
  | var (id : VarId)
  | func (id : FuncId)
  /-- A temporary and the statement that gives it its first value. -/
  | temporary (var : VarId) (init : NodeId)
  | label (label : Label)
  | name (name : Name)
  | resolution (outcome : Except PlaceholderError Resolution)
  | definitions (all : Definitions)
  | functionData (f : Function)
  | variableData (v : Variable)
  | violations (all : List Violation)
  | flag (answer : Bool)
  | number (n : Nat)
  | text (s : String)
  | done

namespace Request

variable {A B : Category → Type}

/-- The same request with every argument replaced. -/
def map (f : ∀ k, A k → B k) : Request A → Request B
  | integerType unsigned bits => integerType unsigned bits
  | floatType bits => floatType bits
  | complexType bits => complexType bits
  | pointerType target => pointerType (f _ target)
  | structType fields => structType (fields.map fun x => (x.1, f _ x.2))
  | arrayType elem length => arrayType (f _ elem) (f _ length)
  | functionType receiver params results resultStruct =>
    functionType (receiver.map fun x => (x.1, f _ x.2)) (params.map fun x => (x.1, f _ x.2))
      (results.map fun x => (x.1, f _ x.2)) (f _ resultStruct)
  | placeholderType shape name => placeholderType shape name
  | namedType name underlying => namedType name (f _ underlying)
  | circularPointerType => circularPointerType
  | resolvePointer placeholder target => resolvePointer (f _ placeholder) (f _ target)
  | resolveStruct placeholder fields =>
    resolveStruct (f _ placeholder) (fields.map fun x => (x.1, f _ x.2))
  | resolveArray placeholder elem length => resolveArray (f _ placeholder) (f _ elem) (f _ length)
  | resolveFunction placeholder fntype => resolveFunction (f _ placeholder) (f _ fntype)
  | isCircularPointerType ty => isCircularPointerType (f _ ty)
  | typeSize ty => typeSize (f _ ty)
  | typeAlignment ty => typeAlignment (f _ ty)
  | typeFieldAlignment ty => typeFieldAlignment (f _ ty)
  | fieldOffset ty index => fieldOffset (f _ ty) index
  | typeName ty => typeName (f _ ty)
  | zero ty => zero (f _ ty)
  | nilPointer => nilPointer
  | integerConstant ty value => integerConstant (f _ ty) value
  | floatConstant ty bits => floatConstant (f _ ty) bits
  | complexConstant ty real imag => complexConstant (f _ ty) real imag
  | booleanConstant value => booleanConstant value
  | stringConstant value => stringConstant value
  | varExpr var span => varExpr (f _ var) span
  | indirect ty ptr span => indirect (f _ ty) (f _ ptr) span
  | addressOf expr span => addressOf (f _ expr) span
  | functionCode func span => functionCode (f _ func) span
  | convert ty expr span => convert (f _ ty) (f _ expr) span
  | unary op expr span => unary op (f _ expr) span
  | binary op lhs rhs span => binary op (f _ lhs) (f _ rhs) span
  | structField expr index span => structField (f _ expr) index span
  | realPart expr span => realPart (f _ expr) span
  | imagPart expr span => imagPart (f _ expr) span
  | complexExpr real imag span => complexExpr (f _ real) (f _ imag) span
  | arrayIndex array index span => arrayIndex (f _ array) (f _ index) span
  | pointerOffset base index span => pointerOffset (f _ base) (f _ index) span
  | structLiteral ty vals span => structLiteral (f _ ty) (vals.map (f _)) span
  | arrayLiteral ty indexes vals span => arrayLiteral (f _ ty) indexes (vals.map (f _)) span
  | compoundExpr stmt expr span => compoundExpr (f _ stmt) (f _ expr) span
  | conditional func ty cond thenExpr elseExpr span =>
    conditional (f _ func) (f _ ty) (f _ cond) (f _ thenExpr) (elseExpr.map (f _)) span
  | call callee args span => call (f _ callee) (args.map (f _)) span
  | exprStmt func expr => exprStmt (f _ func) (f _ expr)
  | initStmt func var init => initStmt (f _ func) (f _ var) (f _ init)
  | assign func lhs rhs span => assign (f _ func) (f _ lhs) (f _ rhs) span
  | returnStmt func vals span => returnStmt (f _ func) (vals.map (f _)) span
  | ifStmt func cond thenStmt elseStmt span =>
    ifStmt (f _ func) (f _ cond) (f _ thenStmt) (elseStmt.map (f _)) span
  | switchStmt func value cases stmts span =>
    switchStmt (f _ func) (f _ value) (cases.map (·.map (f _))) (stmts.map (f _)) span
  | compoundStmt first second => compoundStmt (f _ first) (f _ second)
  | stmtList stmts => stmtList (stmts.map (f _))
  | block func enclosing vars span =>
    block (f _ func) (enclosing.map (f _)) (vars.map (f _)) span
  | addToBlock target stmts => addToBlock (f _ target) (stmts.map (f _))
  | label func span => label (f _ func) span
  | labelStmt func id span => labelStmt (f _ func) id span
  | gotoStmt func id labelSpan span => gotoStmt (f _ func) id labelSpan span
  | globalVariable name asmName ty external hidden uniqueSection span =>
    globalVariable name asmName (f _ ty) external hidden uniqueSection span
  | immutableStruct name asmName hidden common ty span =>
    immutableStruct name asmName hidden common (f _ ty) span
  | setGlobalInit var init => setGlobalInit (f _ var) (f _ init)
  | localVariable func name ty addressTaken span =>
    localVariable (f _ func) name (f _ ty) addressTaken span
  | parameterVariable func name ty addressTaken span =>
    parameterVariable (f _ func) name (f _ ty) addressTaken span
  | temporary func target ty init addressTaken span =>
    temporary (f _ func) (target.map (f _)) (f _ ty) (init.map (f _)) addressTaken span
  | declareFunction fntype name asmName flags splitStack span =>
    declareFunction (f _ fntype) name asmName flags splitStack span
  | setParameters func params => setParameters (f _ func) (params.map (f _))
  | setBody func body => setBody (f _ func) (f _ body)
  | definitions types constants functions vars =>
    definitions (types.map (f _)) (constants.map (f _)) (functions.map (f _)) (vars.map (f _))
  | intern text => intern text
  | disableIntegrityChecks => disableIntegrityChecks
  | destroy root mode => destroy (root.map (f _) (f _)) mode
  | sharing root => sharing (root.map (f _) (f _))
  | outline root => outline (root.map (f _) (f _))
  | functionData func => functionData (f _ func)
  | variableData var => variableData (f _ var)

/-- Fields from names and types. -/
def fieldsOf (fields : List (Name × TypeId)) : List Field := fields.map fun x => ⟨x.1, x.2⟩

/-- The node that a root is. -/
def rootOf (root : NodeId ⊕ NodeId) : NodeId := root.elim id id

/-- Carries a request out. -/
def run : Request Category.Handle → Build Reply
  | integerType unsigned bits => Reply.type <$> Build.onTypes (·.integerType unsigned bits)
  | floatType bits => Reply.type <$> Build.ask fun _ => TypeTable.floatType bits
  | complexType bits => Reply.type <$> Build.onTypes (·.complexType bits)
  | pointerType target => Reply.type <$> Build.onTypes (·.pointerType target)
  | structType fields => Reply.type <$> Build.onTypes (·.structType (fieldsOf fields))
  | arrayType elem length => Reply.type <$> Build.arrayType elem length
  | functionType receiver params results resultStruct =>
    Reply.type <$> Build.onTypes (·.functionType (receiver.map fun x => ⟨x.1, x.2⟩)
      (fieldsOf params) (fieldsOf results) resultStruct)
  | placeholderType shape name => Reply.type <$> Build.placeholderType shape name
  | namedType name underlying => Reply.type <$> Build.namedType name underlying
  | circularPointerType => Reply.type <$> Build.onTypes (·.circularPointerType)
  | resolvePointer placeholder target =>
    Reply.resolution <$> Build.onTypes (·.resolvePointer placeholder target)
  | resolveStruct placeholder fields =>
    Reply.resolution <$> Build.onTypes (·.resolveStruct placeholder (fieldsOf fields))
  | resolveArray placeholder elem length =>
    Reply.resolution <$> Build.resolveArray placeholder elem length
  | resolveFunction placeholder fntype =>
    Reply.resolution <$> Build.onTypes (·.resolve placeholder fntype)
  | isCircularPointerType ty => Reply.flag <$> Build.ask (·.types.isCircularPointerType ty)
  | typeSize ty => Reply.number <$> Build.ask (·.types.sizeOf ty)
  | typeAlignment ty => Reply.number <$> Build.ask (·.types.alignOf ty)
  | typeFieldAlignment ty => Reply.number <$> Build.ask (·.types.fieldAlignOf ty)
  | fieldOffset ty index => Reply.number <$> Build.ask (·.types.offsetOf ty index)
  | typeName ty => Reply.text <$> Build.typeName ty
  | zero ty => Reply.node <$> Build.zero ty
  | nilPointer => Reply.node <$> Build.nilPointer
  | integerConstant ty value => Reply.node <$> Build.integerConstant ty value
  | floatConstant ty bits => Reply.node <$> Build.floatConstant ty bits
  | complexConstant ty real imag => Reply.node <$> Build.complexConstant ty real imag
  | booleanConstant value => Reply.node <$> Build.booleanConstant value
  | stringConstant value => Reply.node <$> Build.stringConstant value
  | varExpr var span => Reply.node <$> Build.varExpr var span
  | indirect ty ptr span => Reply.node <$> Build.indirect ty ptr span
  | addressOf expr span => Reply.node <$> Build.addressOf expr span
  | functionCode func span => Reply.node <$> Build.functionCode func span
  | convert ty expr span => Reply.node <$> Build.convert ty expr span
  | unary op expr span => Reply.node <$> Build.unary op expr span
  | binary op lhs rhs span => Reply.node <$> Build.binary op lhs rhs span
  | structField expr index span => Reply.node <$> Build.structField expr index span
  | realPart expr span => Reply.node <$> Build.realPart expr span
  | imagPart expr span => Reply.node <$> Build.imagPart expr span
  | complexExpr real imag span => Reply.node <$> Build.complexExpr real imag span
  | arrayIndex array index span => Reply.node <$> Build.arrayIndex array index span
  | pointerOffset base index span => Reply.node <$> Build.pointerOffset base index span
  | structLiteral ty vals span => Reply.node <$> Build.structLiteral ty vals span
  | arrayLiteral ty indexes vals span => Reply.node <$> Build.arrayLiteral ty indexes vals span
  | compoundExpr stmt expr span => Reply.node <$> Build.compoundExpr stmt expr span
  | conditional func ty cond thenExpr elseExpr span =>
    Reply.node <$> Build.conditional func ty cond thenExpr elseExpr span
  | call callee args span => Reply.node <$> Build.call callee args span
  | exprStmt func expr => Reply.node <$> Build.exprStmt func expr
  | initStmt func var init => Reply.node <$> Build.initStmt func var init
  | assign func lhs rhs span => Reply.node <$> Build.assign func lhs rhs span
  | returnStmt func vals span => Reply.node <$> Build.returnStmt func vals span
  | ifStmt func cond thenStmt elseStmt span =>
    Reply.node <$> Build.ifStmt func cond thenStmt elseStmt span
  | switchStmt func value cases stmts span =>
    Reply.node <$> Build.switchStmt func value cases stmts span
  | compoundStmt first second => Reply.node <$> Build.compoundStmt first second
  | stmtList stmts => Reply.node <$> Build.stmtList stmts
  | block func enclosing vars span => Reply.node <$> Build.block func enclosing vars span
  | addToBlock target stmts => (fun _ => Reply.done) <$> Build.addToBlock target stmts
  | label func span => Reply.label <$> Build.label func span
  | labelStmt func id span => Reply.node <$> Build.labelStmt ⟨func, id, span⟩
  | gotoStmt func id labelSpan span => Reply.node <$> Build.gotoStmt ⟨func, id, labelSpan⟩ span
  | globalVariable name asmName ty external hidden uniqueSection span =>
    Reply.var <$> Build.globalVariable name asmName ty external hidden uniqueSection span
  | immutableStruct name asmName hidden common ty span =>
    Reply.var <$> Build.immutableStruct name asmName hidden common ty span
  | setGlobalInit var init => (fun _ => Reply.done) <$> Build.setGlobalInit var init
  | localVariable func name ty addressTaken span =>
    Reply.var <$> Build.localVariable func name ty addressTaken span
  | parameterVariable func name ty addressTaken span =>
    Reply.var <$> Build.parameterVariable func name ty addressTaken span
  | temporary func target ty init addressTaken span =>
    (fun x => Reply.temporary x.1 x.2) <$> Build.temporary func target ty init addressTaken span
  | declareFunction fntype name asmName flags splitStack span =>
    Reply.func <$> Build.declareFunction fntype name asmName flags splitStack span
  | setParameters func params => Reply.flag <$> Build.setParameters func params
  | setBody func body => Reply.flag <$> Build.setBody func body
  | definitions types constants functions vars =>
    Reply.definitions <$> Build.definitions types constants functions vars
  | intern text => Reply.name <$> Build.intern text
  | disableIntegrityChecks => (fun _ => Reply.done) <$> Build.disableIntegrityChecks
  | destroy root mode => (fun _ => Reply.done) <$> Build.destroy (rootOf root) mode
  | sharing root => Reply.violations <$> Build.sharing (rootOf root)
  | outline root => Reply.text <$> Build.outline (rootOf root)
  | functionData func => Reply.functionData <$> Build.getFunction func
  | variableData var => Reply.variableData <$> Build.getVariable var

/-- The arguments that decide whether anything is built at all, in the order in which they are
looked at. Of a new block this is the function only, and of a temporary everything but its block. -/
def checked : Request A → List (Arg A)
  | zero ty | integerConstant ty _ | floatConstant ty _ | complexConstant ty .. => [.type ty]
  | varExpr var _ => [.var var]
  | functionCode func _ => [.func func]
  | addressOf expr _ | unary _ expr _ | structField expr .. | realPart expr _ | imagPart expr _ =>
    [.expr expr]
  | indirect ty expr _ | convert ty expr _ => [.type ty, .expr expr]
  | binary _ x y _ | complexExpr x y _ | arrayIndex x y _ | pointerOffset x y _ =>
    [.expr x, .expr y]
  | structLiteral ty vals _ | arrayLiteral ty _ vals _ => .type ty :: vals.map .expr
  | compoundExpr stmt expr _ => [.stmt stmt, .expr expr]
  | conditional func ty cond thenExpr elseExpr _ =>
    .func func :: .type ty :: .expr cond :: .expr thenExpr :: elseExpr.toList.map .expr
  | call callee args _ => .expr callee :: args.map .expr
  | exprStmt func expr => [.func func, .expr expr]
  | initStmt func var init => [.func func, .var var, .expr init]
  | assign func lhs rhs _ => [.func func, .expr lhs, .expr rhs]
  | returnStmt func vals _ => .func func :: vals.map .expr
  | ifStmt func cond thenStmt elseStmt _ =>
    .func func :: .expr cond :: .stmt thenStmt :: elseStmt.toList.map .stmt
  | switchStmt func value cases stmts _ =>
    .func func :: .expr value :: (cases.flatten.map .expr ++ stmts.map .stmt)
  | compoundStmt first second => [.stmt first, .stmt second]
  | stmtList stmts => stmts.map .stmt
  | block func .. | labelStmt func .. | gotoStmt func .. => [.func func]
  | addToBlock target stmts => .stmt target :: stmts.map .stmt
  | globalVariable _ _ ty .. | immutableStruct _ _ _ _ ty _ | declareFunction ty .. => [.type ty]
  | setGlobalInit var init => [.var var, .expr init]
  | localVariable func _ ty .. | parameterVariable func _ ty .. => [.func func, .type ty]
  | temporary func _ ty init .. => .func func :: .type ty :: init.toList.map .expr
  | setParameters func params => .func func :: params.map .var
  | setBody func body => [.func func, .stmt body]
  | _ => []

/-- The answer to a request with an error among the arguments that are looked at first. Requests
without such arguments have none. -/
def refusal? : Request A → Option Reply
  | zero .. | integerConstant .. | floatConstant .. | complexConstant .. | varExpr ..
  | indirect .. | addressOf .. | functionCode .. | convert .. | unary .. | binary ..
  | structField .. | realPart .. | imagPart .. | complexExpr .. | arrayIndex .. | pointerOffset ..
  | structLiteral .. | arrayLiteral .. | compoundExpr .. | conditional .. | call .. =>
    some (.node .errorExpr)
  | exprStmt .. | initStmt .. | assign .. | returnStmt .. | ifStmt .. | switchStmt ..
  | compoundStmt .. | stmtList .. | block .. | labelStmt .. | gotoStmt .. => some (.node .errorStmt)
  | globalVariable .. | immutableStruct .. | localVariable .. | parameterVariable .. =>
    some (.var .error)
  | temporary .. => some (.temporary .error .errorStmt)
  | declareFunction .. => some (.func .error)
  | setParameters .. | setBody .. => some (.flag false)
  | addToBlock .. | setGlobalInit .. => some .done
  | _ => none

/-- Whether a switch has as many statements as cases. -/
def counted : Request A → Bool
  | switchStmt _ _ cases stmts _ => cases.length == stmts.length
  | _ => true

end Request

end Codegen
