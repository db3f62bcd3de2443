import Codegen.Proofs.Evaluation.Machine

/-!
Expressions, and what they mean: operands are evaluated from left to right. An object is known by
its address until its value is used, and is then read once, right after its address was found.
-/

namespace Codegen

/-- What a front end writes down, with the types that the compilation gave. -/
inductive Expr where
  | const (ty : TypeId) (value : Constant)
  | func (ty : TypeId) (id : FuncId)
  | var (ty : TypeId) (storage : Value)
  | deref (ty : TypeId) (ptr : Expr)
  | address (ty : TypeId) (place : Expr)
  | cast (ty : TypeId) (operand : Expr)
  | unary (op : Operator) (operand : Expr)
  | binary (op : Operator) (lhs rhs : Expr)
  | field (ty ptrType : TypeId) (whole : Expr) (index : Nat)
  | elem (ty ptrType : TypeId) (array index : Expr)
  | offset (base index : Expr)
  | literal (ty : TypeId) (members : List Expr)
  | call (ty : TypeId) (callee : Expr) (args : List Expr)

namespace Expr

/-- The type of what an expression denotes. -/
def ty : Expr → TypeId
  | const ty _ | func ty _ | var ty _ | deref ty _ | address ty _ | cast ty _ | field ty _ _ _
  | elem ty _ _ _ | literal ty _ | call ty _ _ => ty
  | unary _ operand => operand.ty
  | binary op lhs _ => if op.cls = .comparison then .bool else lhs.ty
  | offset base _ => base.ty

/-- Whether an expression denotes an object in memory. -/
def isPlace : Expr → Bool
  | var _ _ | deref _ _ => true
  | field _ _ whole _ => whole.isPlace
  | elem _ _ array _ => array.isPlace
  | _ => false

end Expr

/-- What a value depends on: the addresses of the stack slots, and the memory, which may change. -/
abbrev Meaning := (K : Machine) → K.Regs → StateM K.Mem K.Val

/-- The value of an object is read from its address. -/
def Machine.fetch (K : Machine) (ty : TypeId) (isPlace : Bool) (v : K.Val) : StateM K.Mem K.Val :=
  if isPlace then K.act (.load v) ty else pure v

/-- One after the other. -/
def Meaning.all : List Meaning → (K : Machine) → K.Regs → StateM K.Mem (List K.Val)
  | [], _, _ => pure []
  | f :: rest, K, σ => do
    let v ← f K σ
    let vs ← all rest K σ
    return v :: vs

namespace Expr

mutual

/-- The address of an object, and the value of anything else. -/
def eval : Expr → Meaning
  | const _ k, K, _ => pure (K.constant k)
  | func _ f, K, _ => pure (K.func f)
  | var _ storage, K, σ => pure (K.value σ storage)
  | deref _ ptr, K, σ => ptr.eval K σ >>= K.fetch ptr.ty ptr.isPlace
  | address _ place, K, σ => place.eval K σ
  | cast ty operand, K, σ => do
    let v ← operand.eval K σ >>= K.fetch operand.ty operand.isPlace
    K.act (.cast v) ty
  | unary op operand, K, σ => do
    let v ← operand.eval K σ >>= K.fetch operand.ty operand.isPlace
    K.act (.unary op v) operand.ty
  | binary op lhs rhs, K, σ => do
    let l ← lhs.eval K σ >>= K.fetch lhs.ty lhs.isPlace
    let r ← rhs.eval K σ >>= K.fetch rhs.ty rhs.isPlace
    if op.cls = .comparison then K.act (.compare op l r) .bool else K.act (.binary op l r) lhs.ty
  | field ty ptrType whole index, K, σ => do
    let v ← whole.eval K σ
    if whole.isPlace then K.act (.fieldAddr v index) ptrType else K.act (.extractField v index) ty
  | elem ty ptrType array index, K, σ => do
    let v ← array.eval K σ
    let i ← index.eval K σ >>= K.fetch index.ty index.isPlace
    if array.isPlace then K.act (.elemAddr v i) ptrType else K.act (.extractElem v i) ty
  | offset base index, K, σ => do
    let b ← base.eval K σ >>= K.fetch base.ty base.isPlace
    let i ← index.eval K σ >>= K.fetch index.ty index.isPlace
    K.act (.elemAddr b i) base.ty
  | literal ty members, K, σ => do
    let vs ← evalAll members K σ
    K.act (.aggregate vs) ty
  | call ty callee args, K, σ => do
    let f ← callee.eval K σ >>= K.fetch callee.ty callee.isPlace
    let vs ← evalAll args K σ
    K.act (.call f vs) ty

/-- Values from left to right, each object read before the next operand. -/
def evalAll : List Expr → (K : Machine) → K.Regs → StateM K.Mem (List K.Val)
  | [], _, _ => pure []
  | e :: rest, K, σ => do
    let v ← e.eval K σ >>= K.fetch e.ty e.isPlace
    let vs ← evalAll rest K σ
    return v :: vs

end

/-- The value of an expression; an object is read. -/
def read (e : Expr) : Meaning := fun K σ => e.eval K σ >>= K.fetch e.ty e.isPlace

/-- The address is found before the value that goes there. -/
def assigned (place value : Expr) : Meaning := fun K σ => do
  let p ← place.eval K σ
  let v ← value.read K σ
  K.act (.store p v) .void

/-- Nothing is given back, or a value, or several in one struct. -/
def returned (result : TypeId) : List Expr → Meaning
  | [], K, _ => K.act (.ret none) .void
  | [e], K, σ => do
    let v ← e.read K σ
    K.act (.ret (some v)) .void
  | es, K, σ => do
    let v ← (literal result es).read K σ
    K.act (.ret (some v)) .void

theorem evalAll_eq (es : List Expr) (K : Machine) (σ : K.Regs) :
    evalAll es K σ = Meaning.all (es.map read) K σ := by
  induction es with
  | nil => rw [evalAll, List.map_nil, Meaning.all]
  | cons e es ih => rw [evalAll, ih, List.map_cons, Meaning.all, read]

theorem read_of_not_isPlace {e : Expr} (h : e.isPlace = false) : e.read = e.eval := by
  funext K σ
  rw [read, h]
  exact bind_pure _

theorem read_of_isPlace {e : Expr} (h : e.isPlace = true) (K : Machine) (σ : K.Regs) :
    e.read K σ = (e.eval K σ >>= fun v => K.act (.load v) e.ty) := by
  rw [read, h]
  rfl

end Expr

end Codegen
