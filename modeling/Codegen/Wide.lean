import Codegen.Fault

/-!
Arithmetic on integers of 128 bits with a sign, as constants are.
-/

namespace Codegen.Wide

/-- The first number that is too large. -/
def limit : Nat := 1 <<< 127

/-- A one, shifted to the left. The last bit is the sign. -/
def bit (n : Nat) : Except Fault Int :=
  if n < 127 then .ok (1 <<< n : Nat)
  else if n = 127 then .ok (-limit)
  else .error .shiftOverflow

/-- The least number has no counterpart. -/
def neg (x : Int) : Except Fault Int := if x = -limit then .error .negateOverflow else .ok (-x)

end Codegen.Wide
