/-!
Binary floating point by its bits. A finite number is `m · 2^q` for naturals `m`; rounding to the
narrower format is done on `m` and `q` alone.
-/

namespace Codegen

/-- What the 64 bits of a floating-point number say, the sign apart. -/
inductive Magnitude where
  | finite (m : Nat) (q : Int)
  | infinite
  | notANumber (payload : Nat)
  deriving DecidableEq, Repr

namespace Binary64

def signBit : UInt64 := 0x8000000000000000

def isNegative (bits : UInt64) : Bool := bits &&& signBit != 0

/-- The magnitude of a number: 11 bits of exponent, 52 of fraction. -/
def magnitude (bits : UInt64) : Magnitude :=
  let exponent := ((bits >>> 52) &&& 0x7ff).toNat
  let fraction := (bits &&& 0xfffffffffffff).toNat
  if exponent = 0x7ff then
    if fraction = 0 then .infinite else .notANumber fraction
  else if exponent = 0 then .finite fraction (-1074)
  else .finite (fraction + 1 <<< 52) (exponent - 1075)

/-- The bits of infinity. -/
def infinity : UInt64 := 0x7ff0000000000000

/-- `m / 2^k` to the nearest natural, a half to the even one. -/
def shiftToEven (m k : Nat) : Nat :=
  let whole := m >>> k
  let rest := m % 1 <<< k
  let half := 1 <<< k / 2
  if k = 0 then m
  else if half < rest then whole + 1
  else if rest < half then whole
  else whole + whole % 2

/-- The bits of `n · 2^u`, for a number that the format holds exactly and normally. -/
def ofScaled (n : Nat) (u : Int) : UInt64 :=
  if n = 0 then 0
  else
    let top := n.log2
    let fraction := n <<< (52 - top) - 1 <<< 52
    let exponent := (top + u + 1023).toNat
    (exponent <<< 52 + fraction).toUInt64

/-- The nearest number that 32 bits hold: a fraction of 23 bits, steps of at least `2^-149`, and
infinity from `2^128` on. A half goes to the even neighbour. A number that is none keeps the upper
part of its payload, with the quiet bit set. -/
def roundToSingle (bits : UInt64) : UInt64 :=
  let sign := bits &&& signBit
  match magnitude bits with
  | .infinite => bits
  | .notANumber payload =>
    let kept := payload >>> 29 <<< 29
    sign ||| infinity ||| 0x8000000000000 ||| kept.toUInt64
  | .finite m q =>
    let u := max (-149) (m.log2 + q - 23)
    let n := if u ≤ q then m <<< (q - u).toNat else shiftToEven m (u - q).toNat
    if n ≠ 0 ∧ 128 ≤ n.log2 + u then sign ||| infinity else sign ||| ofScaled n u

end Binary64

end Codegen
