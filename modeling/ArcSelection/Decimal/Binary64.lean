import ArcSelection.Decimal.Rounding

/-!
# The exact value of a double

A double is read as an exact dyadic number, an infinity or a nan, and an exact ratio is
rounded back to the nearest double.  All number text and all exact arithmetic of the
library goes through these two functions.
-/

namespace ArcSelection.Decimal

/-- A finite double: `mantissa * 2 ^ exponent` with a sign of its own, so that negative
zero is kept apart from zero. -/
structure Dyadic where
  negative : Bool
  mantissa : Nat
  exponent : Int
deriving DecidableEq

/-- What a double stands for. -/
inductive Binary64 where
  | finite (value : Dyadic)
  | infinite (negative : Bool)
  | nan
deriving DecidableEq

namespace Dyadic

/-- The numerator of the absolute value, over `denominator`. -/
def numerator (d : Dyadic) : Nat := d.mantissa * Nat.pow 2 d.exponent.toNat

/-- The denominator of the absolute value, a power of two. -/
def denominator (d : Dyadic) : Nat := Nat.pow 2 (-d.exponent).toNat

/-- The value as a rational number. -/
def toRat (d : Dyadic) : Rat :=
  mkRat (if d.negative then -(d.numerator : Int) else (d.numerator : Int)) d.denominator

end Dyadic

/-- Reads the sign, exponent and fraction fields of a double. -/
def decode (x : Float) : Binary64 :=
  let bits := x.toBits.toNat
  let negative : Bool := bits ≥ Nat.pow 2 63
  let exponent : Nat := bits / Nat.pow 2 52 % 2048
  let fraction : Nat := bits % Nat.pow 2 52
  if exponent = 2047 then
    if fraction = 0 then .infinite negative else .nan
  else if exponent = 0 then .finite ⟨negative, fraction, -1074⟩
  else .finite ⟨negative, Nat.pow 2 52 + fraction, (exponent : Int) - 1075⟩

/-- The bits of positive infinity. -/
def infinityBits : Nat := 2047 * Nat.pow 2 52

/-- The bits of the double nearest to a positive ratio, ties to even; at or above
`infinityBits` when the ratio is too large. -/
def nearestBits (num den : Nat) : Nat :=
  if num = 0 then 0
  else
    let guess : Int := (num.log2 : Int) - (den.log2 : Int)
    let below := num * Nat.pow 2 (-guess).toNat < den * Nat.pow 2 guess.toNat
    let top : Int := if below then guess - 1 else guess
    let step : Int := max (top - 52) (-1074)
    let units := roundHalfEven (num * Nat.pow 2 (-step).toNat) (den * Nat.pow 2 step.toNat)
    (step + 1074).toNat * Nat.pow 2 52 + units

/-- The double nearest to a ratio with a sign, or nothing when it is too large. -/
def nearest? (negative : Bool) (num den : Nat) : Option Float :=
  let bits := nearestBits num den
  if bits < infinityBits then
    some (Float.ofBits (UInt64.ofNat (if negative then Nat.pow 2 63 + bits else bits)))
  else none

/-- Positive or negative infinity. -/
def infinity (negative : Bool) : Float :=
  Float.ofBits (UInt64.ofNat (if negative then Nat.pow 2 63 + infinityBits else infinityBits))

/-- The double that is not a number. -/
def notANumber : Float := Float.ofBits (UInt64.ofNat (infinityBits + Nat.pow 2 51))

/-- The double nearest to a ratio with a sign; an infinity when it is too large. -/
def nearest (negative : Bool) (num den : Nat) : Float :=
  (nearest? negative num den).getD (infinity negative)

/-- The double nearest to an integer, or nothing when it is too large. -/
def ofInt? (n : Int) : Option Float := nearest? (n < 0) n.natAbs 1

/-- The double nearest to a rational number; an infinity when it is too large. -/
def ofRat (q : Rat) : Float := nearest (q < 0) q.num.natAbs q.den

end ArcSelection.Decimal
