import ArcSelection.Decimal.Binary64

/-!
# The fewest digits that read back

A finite double is the nearest double to every number in an interval around it.  The
shortest form of the double is the decimal with the fewest digits in that interval, the
one nearest to the double among several.  The search runs over digit counts one to
seventeen and compares exactly.
-/

namespace ArcSelection.Decimal

/-- A decimal number `digits * 10 ^ exponent`. -/
structure Digits where
  digits : Nat
  exponent : Int
deriving DecidableEq

/-- The decimal digits of a number, most significant first. -/
def digitsOf (n : Nat) : List Char := Nat.toDigits 10 n

/-- Drops the trailing zeros of a number of at most `fuel` digits into the exponent. -/
def Digits.normalize : (fuel : Nat) -> Digits -> Digits
  | 0, d => d
  | fuel + 1, d =>
      if d.digits ≠ 0 && d.digits % 10 = 0 then
        Digits.normalize fuel ⟨d.digits / 10, d.exponent + 1⟩
      else d

/-- `num / den` measured in units of ten to the `power`, as a numerator and a denominator. -/
def inUnits (num den : Nat) (power : Int) : Nat × Nat :=
  (num * Nat.pow 10 (-power).toNat, den * Nat.pow 10 power.toNat)

/-- The exponent `k` with `10 ^ (k - 1) ≤ num / den < 10 ^ k`, for a positive ratio. -/
def decimalExponent (num den : Nat) : Int :=
  let guess : Int := ((digitsOf num).length : Int) - ((digitsOf den).length : Int)
  let (n, d) := inUnits num den guess
  if n < d then guess else guess + 1

/-- The interval of the reals that round to a double, in quarter units of its last place:
the ends, and whether they belong to it. -/
structure Interval where
  low : Nat
  middle : Nat
  high : Nat
  closed : Bool

/-- The rounding interval of a positive finite double. -/
def Dyadic.interval (d : Dyadic) : Interval :=
  let m := d.mantissa
  { low := if m = Nat.pow 2 52 && d.exponent ≠ -1074 then 4 * m - 1 else 4 * m - 2
    middle := 4 * m
    high := 4 * m + 2
    closed := m % 2 == 0 }

/-- The best decimal with `count` digits inside the interval, if there is one. -/
def Interval.pick? (i : Interval) (exponent : Int) (top : Int) (count : Nat) : Option Digits :=
  let power := top - count
  let scale (x : Nat) : Nat :=
    (inUnits (x * Nat.pow 2 exponent.toNat) (Nat.pow 2 (-exponent).toNat) power).1
  let den := (inUnits 1 (Nat.pow 2 (-exponent).toNat) power).2
  let low := scale i.low
  let middle := scale i.middle
  let high := scale i.high
  let inside (x : Nat) : Bool :=
    if i.closed then low ≤ x * den && x * den ≤ high else low < x * den && x * den < high
  let under := middle / den
  let above := under + 1
  match inside under, inside above with
  | true, true =>
      let toUnder := middle - under * den
      let toOver := above * den - middle
      if toUnder < toOver || (toUnder == toOver && under % 2 == 0) then some ⟨under, power⟩
      else some ⟨above, power⟩
  | true, false => some ⟨under, power⟩
  | false, true => some ⟨above, power⟩
  | false, false => none

/-- The shortest decimal that reads back as a finite double, without its sign. -/
def Dyadic.shortest (d : Dyadic) : Digits :=
  if d.mantissa = 0 then ⟨0, 0⟩
  else
    let top := decimalExponent d.numerator d.denominator
    let found := (List.range 17).findSome? fun n =>
      d.interval.pick? (d.exponent - 2) top (n + 1)
    (found.getD ⟨0, 0⟩).normalize 20

/-- The decimal with `count` digits nearest to a finite double, ties to even. -/
def Dyadic.significant (d : Dyadic) (count : Nat) : Digits :=
  if d.mantissa = 0 then ⟨0, 0⟩
  else
    let top := decimalExponent d.numerator d.denominator
    let power := top - count
    let (n, m) := inUnits d.numerator d.denominator power
    (Digits.mk (roundHalfEven n m) power).normalize 20

end ArcSelection.Decimal
