import ArcSelection.Decimal.Binary64

/-!
# Exact numbers with infinities

The rational numbers, two infinities and nan.  A double has an exact value here, so
comparing numbers of different kinds and stating what a computation means without
rounding both happen in this type.
-/

namespace ArcSelection.Decimal

/-- An exact rational number, an infinity, or nan. -/
inductive Extended where
  | nan
  | bottom
  | finite (q : Rat)
  | top
deriving DecidableEq, Inhabited

namespace Extended

/-- The order of two numbers; nan has none. -/
def compare? : Extended -> Extended -> Option Ordering
  | .nan, _ => none
  | _, .nan => none
  | .bottom, .bottom => some .eq
  | .bottom, _ => some .lt
  | .top, .top => some .eq
  | .top, _ => some .gt
  | .finite _, .bottom => some .gt
  | .finite _, .top => some .lt
  | .finite p, .finite q => some (if p < q then .lt else if q < p then .gt else .eq)

/-- The sum; opposite infinities have none. -/
def add : Extended -> Extended -> Extended
  | .nan, _ => .nan
  | _, .nan => .nan
  | .finite p, .finite q => .finite (p + q)
  | .finite _, x => x
  | x, .finite _ => x
  | .top, .top => .top
  | .bottom, .bottom => .bottom
  | _, _ => .nan

/-- An infinity with the sign of a nonzero rational; zero times an infinity is nan. -/
def scaleTop (q : Rat) : Extended :=
  if q = 0 then .nan else if q < 0 then .bottom else .top

/-- The product. -/
def mul : Extended -> Extended -> Extended
  | .nan, _ => .nan
  | _, .nan => .nan
  | .finite p, .finite q => .finite (p * q)
  | .finite p, .top => scaleTop p
  | .finite p, .bottom => scaleTop (-p)
  | .top, .finite q => scaleTop q
  | .bottom, .finite q => scaleTop (-q)
  | .top, .top => .top
  | .bottom, .bottom => .top
  | _, _ => .bottom

/-- The exact value of a double. -/
def ofFloat (x : Float) : Extended :=
  match decode x with
  | .nan => .nan
  | .infinite negative => if negative then .bottom else .top
  | .finite d => .finite d.toRat

end Extended

end ArcSelection.Decimal
