import Codegen.Proofs.Compilation.Sound

/-!
Machines that execute instructions, under any meaning of what the instructions ask for. Loads and
stores are asked for like everything else, so that a machine can tell how often, in which order and
where its memory is read.
-/

namespace Codegen

/-- What an instruction asks for once its operands are known. -/
inductive Operation (V : Type) where
  | alloca (allocated : TypeId) (name : Name)
  | load (ptr : V)
  | store (ptr value : V)
  | binary (op : Operator) (lhs rhs : V)
  | compare (op : Operator) (lhs rhs : V)
  | unary (op : Operator) (operand : V)
  | cast (value : V)
  | fieldAddr (base : V) (index : Nat)
  | extractField (aggregate : V) (index : Nat)
  | extractElem (aggregate index : V)
  | elemAddr (base index : V)
  | aggregate (elems : List V)
  | call (callee : V) (args : List V)
  | ret (value : Option V)

def InstKind.operation {V : Type} (value : Value → V) : InstKind → Operation V
  | .alloca allocated name => .alloca allocated name
  | .load ptr => .load (value ptr)
  | .store ptr v => .store (value ptr) (value v)
  | .binary op lhs rhs => .binary op (value lhs) (value rhs)
  | .compare op lhs rhs => .compare op (value lhs) (value rhs)
  | .unary op operand => .unary op (value operand)
  | .cast v => .cast (value v)
  | .fieldAddr base index => .fieldAddr (value base) index
  | .extractField whole index => .extractField (value whole) index
  | .extractElem whole index => .extractElem (value whole) (value index)
  | .elemAddr base index => .elemAddr (value base) (value index)
  | .aggregate elems => .aggregate (elems.map value)
  | .call callee args => .call (value callee) (args.map value)
  | .ret v => .ret (v.map value)

/-- Values, a memory, and what operations with a type of result do to it. -/
structure Machine where
  Val : Type
  Mem : Type
  constant : Constant → Val
  global : GlobalId → Val
  param : Nat → Val
  func : FuncId → Val
  act : Operation Val → TypeId → StateM Mem Val

namespace Machine

variable (K : Machine)

/-- What each instruction has left behind, and each stack slot from the start. -/
abbrev Regs := InstId → K.Val

/-- What an operand stands for. -/
def value (ρ : K.Regs) : Value → K.Val
  | .inst i => ρ i
  | .const k => K.constant k
  | .global g => K.global g
  | .param index => K.param index
  | .func f => K.func f

/-- What is left behind, with the latest. -/
def Regs.set {K : Machine} (ρ : K.Regs) (i : InstId) (v : K.Val) : K.Regs :=
  fun j => if j = i then v else ρ j

/-- Executes instructions one after the other, unless one of them does not exist. -/
def exec (s : InstStore) : List InstId → K.Regs × K.Mem → Option (K.Regs × K.Mem)
  | [], state => some state
  | i :: rest, (ρ, m) => do
    let inst ← s.find? i
    let (v, m) := K.act (inst.kind.operation (K.value ρ)) inst.ty m
    exec s rest (Regs.set ρ i v, m)

variable {K} {s s' : InstStore}

theorem exec_cons {i : InstId} {rest : List InstId} {inst : Inst} (found : s.find? i = some inst)
    (ρ : K.Regs) (m : K.Mem) :
    K.exec s (i :: rest) (ρ, m) =
      let r := K.act (inst.kind.operation (K.value ρ)) inst.ty m
      K.exec s rest (Regs.set ρ i r.1, r.2) := by
  rw [exec, found]
  rfl

theorem exec_append (code rest : List InstId) (state : K.Regs × K.Mem) :
    K.exec s (code ++ rest) state = (K.exec s code state).bind (K.exec s rest) := by
  induction code generalizing state with
  | nil => rfl
  | cons i code ih =>
    obtain ⟨ρ, m⟩ := state
    cases found : s.find? i with
    | none => simp [exec, found]
    | some inst =>
      rw [List.cons_append, exec_cons found, exec_cons found]
      exact ih _

/-- Instructions that stay as they are do the same. -/
theorem exec_congr {code : List InstId} (same : ∀ i ∈ code, s'.find? i = s.find? i)
    (state : K.Regs × K.Mem) : K.exec s' code state = K.exec s code state := by
  induction code generalizing state with
  | nil => rfl
  | cons i code ih =>
    obtain ⟨ρ, m⟩ := state
    have ih := ih fun j mem => same j (by simp [mem])
    simp only [exec, same i (by simp), ih]

/-- What other instructions have left behind stays. -/
theorem exec_of_not_mem {code : List InstId} {state state' : K.Regs × K.Mem}
    (run : K.exec s code state = some state') {j : InstId} (out : j ∉ code) :
    state'.1 j = state.1 j := by
  induction code generalizing state with
  | nil =>
    cases run
    rfl
  | cons i code ih =>
    obtain ⟨ρ, m⟩ := state
    simp only [List.mem_cons, not_or] at out
    cases found : s.find? i with
    | none => simp [exec, found] at run
    | some inst =>
      rw [exec_cons found] at run
      rw [ih run out.2]
      exact if_neg out.1

end Machine

end Codegen
