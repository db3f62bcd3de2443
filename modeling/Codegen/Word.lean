import Codegen.Fault

/-!
Arithmetic on 64-bit sizes and counts. A result that leaves the range is a fault, so an answer is
always the exact natural number.
-/

namespace Codegen.Word

/-- The first number that does not fit 64 bits. -/
def limit : Nat := 1 <<< 64

def add (a b : Nat) : Except Fault Nat :=
  if a + b < limit then .ok (a + b) else .error .addOverflow

def sub (a b : Nat) : Except Fault Nat :=
  if b ≤ a then .ok (a - b) else .error .subtractOverflow

def mul (a b : Nat) : Except Fault Nat :=
  if a * b < limit then .ok (a * b) else .error .multiplyOverflow

/-- The least multiple of `align` that is not below `offset`. -/
def roundUp (offset align : Nat) : Except Fault Nat :=
  if align = 0 then .error .divideByZero else mul ((offset + align - 1) / align) align

theorem add_eq_ok {a b c : Nat} : add a b = .ok c ↔ c = a + b ∧ c < limit := by
  unfold add
  split
  · rw [Except.ok.injEq]; omega
  · simp; omega

theorem mul_eq_ok {a b c : Nat} : mul a b = .ok c ↔ c = a * b ∧ c < limit := by
  unfold mul
  split
  · rw [Except.ok.injEq]
    exact ⟨fun h => by omega, fun h => h.1.symm⟩
  · simp only [reduceCtorEq, false_iff]
    rintro ⟨rfl, h⟩
    contradiction

end Codegen.Word
