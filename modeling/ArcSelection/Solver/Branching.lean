import ArcSelection.Decimal.Extended
import ArcSelection.Solver.Outcome
import ArcSelection.Solver.Simplex

/-!
# An exact backend for integer programs

Bounds and rows that may be infinite are brought to nonnegative variables and one-sided
rows for the exact simplex search.  Where an integer column takes a fraction, the search
branches below and above it and keeps the better end.  The answer is exact, so a report of
infeasibility or optimality is true of the arrays.
-/

namespace ArcSelection

open ArcSelection.Decimal

/-- A column of exact bounds; nothing means no bound. -/
structure Box where
  lower : Option Rat
  upper : Option Rat
  integral : Bool

/-- A row of exact coefficients with exact bounds. -/
structure ExactRow where
  coefficients : List Rat
  lower : Option Rat
  upper : Option Rat

/-- An encoded problem over the rationals, costs to be minimised. -/
structure ExactProgram where
  costs : List Rat
  boxes : List Box
  rows : List ExactRow

namespace ExactProgram

/-- How a column is made of nonnegative variables: an offset and a sign, and whether a
second variable of the opposite sign is needed. -/
structure Shift where
  offset : Rat
  sign : Rat
  free : Bool

/-- Measures a column from its lower bound, else downwards from its upper bound, else as
the difference of two variables. -/
def Box.shift (b : Box) : Shift :=
  match b.lower, b.upper with
  | some l, _ => ⟨l, 1, false⟩
  | none, some u => ⟨u, -1, false⟩
  | none, none => ⟨0, 1, true⟩

/-- Coefficients over the columns as coefficients over the nonnegative variables. -/
def spread (shifts : List Shift) (coefficients : List Rat) : List Rat :=
  (shifts.zip coefficients).flatMap fun (s, c) =>
    if s.free then [c, -c] else [c * s.sign]

/-- The part of a row that the offsets of the columns contribute. -/
def offsetOf (shifts : List Shift) (coefficients : List Rat) : Rat :=
  (shifts.zip coefficients).foldl (fun sum (s, c) => sum + c * s.offset) 0

/-- A row with two optional bounds as one-sided rows. -/
def oneSided (coefficients : List Rat) (lower upper : Option Rat) : List (List Rat × Rat) :=
  (match upper with
    | some u => [(coefficients, u)]
    | none => []) ++
  (match lower with
    | some l => [(coefficients.map (-·), -l)]
    | none => [])

/-- The unit row of a column. -/
def unitRow (count j : Nat) : List Rat := (List.replicate count 0).set j 1

/-- Reads the columns off the nonnegative variables. -/
def gather : List Shift -> List Rat -> List Rat
  | [], _ => []
  | s :: shifts, x :: y :: rest =>
      if s.free then (x - y) :: gather shifts rest
      else (s.offset + s.sign * x) :: gather shifts (y :: rest)
  | s :: shifts, [x] => (s.offset + s.sign * x) :: gather shifts []
  | s :: shifts, [] => s.offset :: gather shifts []

/-- The best point when integrality is disregarded. -/
def relaxation (p : ExactProgram) : Simplex.Outcome :=
  if p.boxes.any fun b => match b.lower, b.upper with
    | some l, some u => u < l
    | _, _ => false then .infeasible
  else
    let shifts := p.boxes.map Box.shift
    let count := p.boxes.length
    let bounded := p.boxes.zipIdx.flatMap fun (b, j) =>
      match b.lower, b.upper with
      | some _, some u => [(unitRow count j, u)]
      | _, _ => []
    let given := p.rows.flatMap fun r => oneSided r.coefficients r.lower r.upper
    let rows := (bounded ++ given).map fun (a, b) => (spread shifts a, b - offsetOf shifts a)
    match Simplex.maximize (spread shifts (p.costs.map (-·))) rows with
    | .infeasible => .infeasible
    | .unbounded => .unbounded
    | .optimal x value =>
        .optimal (gather shifts x) (offsetOf shifts p.costs - value)

/-- The first integer column that takes a fraction at a point. -/
def fractional? (p : ExactProgram) (point : List Rat) : Option (Nat × Rat) :=
  ((p.boxes.zip point).zipIdx.find? fun ((b, x), _) => b.integral && x.den != 1).map
    fun ((_, x), j) => (j, x)

/-- Lowers the upper bound of a column. -/
def cutAbove (p : ExactProgram) (j : Nat) (u : Rat) : ExactProgram :=
  { p with boxes := p.boxes.modify j fun b => { b with upper := some u } }

/-- Raises the lower bound of a column. -/
def cutBelow (p : ExactProgram) (j : Nat) (l : Rat) : ExactProgram :=
  { p with boxes := p.boxes.modify j fun b => { b with lower := some l } }

/-- The better of two outcomes, the first among equals. -/
def better (a b : Simplex.Outcome) : Simplex.Outcome :=
  match a, b with
  | .unbounded, _ => .unbounded
  | _, .unbounded => .unbounded
  | .infeasible, b => b
  | a, .infeasible => a
  | .optimal x v, .optimal y w => if w < v then .optimal y w else .optimal x v

/-- The best point with integral columns, branching at most `depth` times on one way. -/
def solve : (depth : Nat) -> ExactProgram -> Simplex.Outcome
  | 0, _ => .infeasible
  | depth + 1, p =>
      match p.relaxation with
      | .optimal x value =>
          match p.fractional? x with
          | none => .optimal x value
          | some (j, v) =>
              better (solve depth (p.cutAbove j v.floor))
                (solve depth (p.cutBelow j (v.floor + 1)))
      | other => other

/-- How often one way can branch: the total width of the integer columns, or a fixed
allowance for columns without both bounds. -/
def depth (p : ExactProgram) : Nat :=
  p.boxes.foldl
    (fun sum b => sum + match b.lower, b.upper with
      | some l, some u => (u - l).ceil.toNat + 1
      | _, _ => 64)
    1

end ExactProgram

/-- Bounds of at least this size count as infinite. -/
def infiniteSize : Rat := Nat.pow 10 20

/-- What a bound stands for: nothing for an infinite one. -/
def boundOf : Extended -> Option Rat
  | .finite q => if -infiniteSize < q && q < infiniteSize then some q else none
  | _ => none

/-- Whether a lower bound lets nothing pass: it is positive infinity or nan. -/
def blocksBelow : Extended -> Bool
  | .finite q => infiniteSize ≤ q
  | .bottom => false
  | _ => true

/-- Whether an upper bound lets nothing pass: it is negative infinity or nan. -/
def blocksAbove : Extended -> Bool
  | .finite q => q ≤ -infiniteSize
  | .top => false
  | _ => true

/-- A number that must be finite. -/
def finite? : Extended -> Option Rat
  | .finite q => some q
  | _ => none

/-- The exact number a value stands for, nan if it is none. -/
def exactNumber (v : Value) : Extended := v.number?.getD .nan

/-- Whether a bound of an encoded problem lets nothing pass. -/
def isBlocked (e : Encoding Value) : Bool :=
  (e.lower ++ e.rows.map (·.lower)).any (fun v => blocksBelow (exactNumber v)) ||
    (e.upper ++ e.rows.map (·.upper)).any fun v => blocksAbove (exactNumber v)

/-- The exact program of encoded values; nothing if a coefficient is not finite. -/
def exactProgram? (e : Encoding Value) : Option ExactProgram := do
  let bound (v : Value) : Option Rat := boundOf (exactNumber v)
  let costs <- e.costs.mapM fun v => finite? (exactNumber v)
  let boxes := ((e.lower.zip e.upper).zip e.integral).map fun ((l, u), integral) =>
    Box.mk (bound l) (bound u) integral
  let rows <- e.rows.mapM fun r => do
    let coefficients <- r.coefficients.mapM fun v => finite? (exactNumber v)
    return ExactRow.mk coefficients (bound r.lower) (bound r.upper)
  return ⟨costs, boxes, rows⟩

/-- The reason given for costs that are not finite. -/
def nonfiniteCosts : String :=
  "\x60c\x60 must be a one-dimensional array of finite numbers with at least one element."

/-- The backend that solves exactly and reports the nearest doubles. -/
def exactBackend : Backend Value := fun e =>
  match exactProgram? e with
  | none =>
      if e.costs.all fun v => (finite? (exactNumber v)).isSome then
        .ok ⟨4, some "Numerical trouble", none, none⟩
      else .error nonfiniteCosts
  | some p =>
      match if isBlocked e then .infeasible else p.solve p.depth with
      | .infeasible => .ok ⟨2, some "The problem is infeasible.", none, none⟩
      | .unbounded => .ok ⟨3, some "The problem is unbounded.", none, none⟩
      | .optimal x value =>
          .ok ⟨0, some "Optimization terminated successfully.",
            some (x.map fun q => .float (ofRat q)), some (.float (ofRat value))⟩

end ArcSelection
