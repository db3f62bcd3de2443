import Codegen.Number.Binary64

/-!
Decimal text of a binary floating-point number: the fewest digits that read back as the number, and
of those the nearest; written without an exponent.
-/

namespace Codegen.Binary64

/-- A nonnegative rational number. -/
structure Ratio where
  num : Nat
  den : Nat

namespace Ratio

/-- `n · 2^q`. -/
def scaled (n : Nat) (q : Int) : Ratio := ⟨n <<< q.toNat, 1 <<< (-q).toNat⟩

/-- The number in units of `10^p`. -/
def inUnits (x : Ratio) (p : Int) : Ratio :=
  ⟨x.num * Nat.pow 10 (-p).toNat, x.den * Nat.pow 10 p.toNat⟩

def le (x y : Ratio) : Bool := x.num * y.den ≤ y.num * x.den

def lt (x y : Ratio) : Bool := x.num * y.den < y.num * x.den

def floor (x : Ratio) : Nat := x.num / x.den

end Ratio

/-- The numbers that round to one number: from `low` to `high`, ends included where `closed`. -/
structure Interval where
  low : Ratio
  high : Ratio
  closed : Bool

def Interval.contains (i : Interval) (x : Ratio) : Bool :=
  if i.closed then i.low.le x && x.le i.high else i.low.lt x && x.lt i.high

/-- The reals that round to `m · 2^q`. Below a power of two the neighbour is half as far away. -/
def rounding (m : Nat) (q : Int) : Interval :=
  let below := if m = 1 <<< 52 then 1 else 2
  ⟨.scaled (4 * m - below) (q - 2), .scaled (4 * m + 2) (q - 2), m % 2 == 0⟩

/-- The least `e` with `x < 10^e`, given that it is near `guess`. -/
def decimalExponent (x : Ratio) (guess : Int) : Int :=
  let fits (e : Int) : Bool := (x.inUnits e).lt ⟨1, 1⟩
  ([guess - 1, guess, guess + 1].find? fits).getD (guess + 2)

/-- The decimal `n · 10^p` on the grid of `10^p` that reads back as `x`, if there is one: of two the
nearer, and the upper one where both are as near. -/
def onGrid? (x : Ratio) (i : Interval) (p : Int) : Option Nat :=
  let units := x.inUnits p
  let down := units.floor
  let reads (n : Nat) : Bool :=
    i.contains ⟨n * Nat.pow 10 p.toNat, Nat.pow 10 (-p).toNat⟩
  match reads down, reads (down + 1) with
  | true, true => some (if 2 * units.num < (2 * down + 1) * units.den then down else down + 1)
  | true, false => some down
  | false, true => some (down + 1)
  | false, false => none

/-- The shortest decimal `n · 10^p` that reads back as `m · 2^q`, for a positive `m`. Seventeen
digits always do. -/
def shortest (m : Nat) (q : Int) : Nat × Int :=
  let x := Ratio.scaled m q
  let e := decimalExponent x ((m.log2 + q) * 1233 / 4096)
  let attempt (k : Nat) : Option (Nat × Int) :=
    let p := e - (k + 1)
    (onGrid? x (rounding m q) p).map (·, p)
  ((List.range 17).findSome? attempt).getD ((x.inUnits (e - 17)).floor, e - 17)

/-- Drops trailing zeros of `n · 10^p`, at most a number of them. -/
def dropZeros : Nat → Nat → Int → Nat × Int
  | 0, n, p => (n, p)
  | k + 1, n, p => if n % 10 = 0 then dropZeros k (n / 10) (p + 1) else (n, p)

/-- `n · 10^p` without an exponent, with a point only where a fraction follows. -/
def positional (n : Nat) (p : Int) : String :=
  let digits := Nat.toDigits 10 n
  if 0 ≤ p then String.ofList (digits ++ List.replicate p.toNat '0')
  else
    let places := (-p).toNat
    let padded := List.replicate (places + 1 - digits.length) '0' ++ digits
    let cut := padded.length - places
    String.ofList (padded.take cut ++ '.' :: padded.drop cut)

/-- The decimal text of a number. -/
def toText (bits : UInt64) : String :=
  let sign := if isNegative bits then "-" else ""
  match magnitude bits with
  | .notANumber _ => "NaN"
  | .infinite => sign ++ "inf"
  | .finite m q =>
    if m = 0 then sign ++ "0"
    else
      let (n, p) := shortest m q
      let (n, p) := dropZeros 17 n p
      sign ++ positional n p

end Codegen.Binary64
