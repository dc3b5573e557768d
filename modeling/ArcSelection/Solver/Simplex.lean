/-!
# Exact linear programs

Linear programs over the rationals, solved exactly.  A dictionary writes the basic
variables and the objective as affine functions of the others, which are zero; a pivot
exchanges two variables.  The least-index rule picks both, so the search ends; it is also
bounded by the number of bases.
-/

namespace ArcSelection.Simplex

/-- An affine function of the variables that are zero. -/
structure Affine where
  constant : Rat
  coefficients : List Rat
deriving Inhabited

namespace Affine

/-- The sum of an affine function and a multiple of another. -/
def addScaled (f : Affine) (c : Rat) (g : Affine) : Affine :=
  ⟨f.constant + c * g.constant,
    List.zipWith (fun x y => x + c * y) f.coefficients g.coefficients⟩

/-- The coefficient at a position. -/
def entry (f : Affine) (j : Nat) : Rat := f.coefficients.getD j 0

/-- Replaces the coefficient at a position. -/
def setAt (f : Affine) (j : Nat) (c : Rat) : Affine :=
  { f with coefficients := f.coefficients.set j c }

end Affine

/-- A basic variable with its value in terms of the nonbasic ones. -/
structure BasicRow where
  label : Nat
  value : Affine
deriving Inhabited

/-- A dictionary: the nonbasic variables, the basic rows and the objective to maximise. -/
structure Dictionary where
  nonbasic : List Nat
  rows : List BasicRow
  objective : Affine

namespace Dictionary

/-- The position and index of the nonbasic variable to raise: the one of least index among
those that raise the objective. -/
def entering? (d : Dictionary) : Option Nat :=
  let candidates := (List.range d.nonbasic.length).filter fun j => 0 < d.objective.entry j
  candidates.foldl
    (fun best j => match best with
      | none => some j
      | some b => if d.nonbasic.getD j 0 < d.nonbasic.getD b 0 then some j else some b)
    none

/-- The position of the row that limits a nonbasic variable most, of least index among
equals. -/
def leaving? (d : Dictionary) (j : Nat) : Option Nat :=
  let limit (i : Nat) : Rat :=
    let row := d.rows.getD i default
    row.value.constant / (-(row.value.entry j))
  let candidates := (List.range d.rows.length).filter fun i =>
    (d.rows.getD i default).value.entry j < 0
  candidates.foldl
    (fun best i => match best with
      | none => some i
      | some b =>
          let x := limit i
          let y := limit b
          if x < y || (x == y &&
              (d.rows.getD i default).label < (d.rows.getD b default).label) then some i
          else some b)
    none

/-- Exchanges the nonbasic variable at position `j` with the basic one of row `i`. -/
def pivot (d : Dictionary) (i j : Nat) : Dictionary :=
  let row := d.rows.getD i default
  let c := row.value.entry j
  let solved : Affine :=
    ⟨-(row.value.constant / c), (row.value.coefficients.map fun x => -(x / c)).set j (1 / c)⟩
  let substitute (f : Affine) : Affine := (f.setAt j 0).addScaled (f.entry j) solved
  { nonbasic := d.nonbasic.set j row.label
    rows := d.rows.mapIdx fun k r =>
      if k = i then ⟨d.nonbasic.getD j 0, solved⟩ else ⟨r.label, substitute r.value⟩
    objective := substitute d.objective }

/-- Pivots until no variable raises the objective; nothing if it can grow for ever. -/
def optimize : (fuel : Nat) -> Dictionary -> Option Dictionary
  | 0, d => some d
  | fuel + 1, d =>
      match d.entering? with
      | none => some d
      | some j =>
          match d.leaving? j with
          | none => none
          | some i => optimize fuel (d.pivot i j)

/-- A number of pivots that no search exceeds: more than there are bases. -/
def pivotBound (d : Dictionary) : Nat := Nat.pow 2 (d.nonbasic.length + d.rows.length) + 1

/-- The value of a variable in the present solution. -/
def valueOf (d : Dictionary) (x : Nat) : Rat :=
  match d.rows.find? fun r => r.label == x with
  | some r => r.value.constant
  | none => 0

/-- Drops the nonbasic variable at a position. -/
def dropColumn (d : Dictionary) (j : Nat) : Dictionary :=
  let drop (f : Affine) : Affine := { f with coefficients := f.coefficients.eraseIdx j }
  { nonbasic := d.nonbasic.eraseIdx j
    rows := d.rows.map fun r => ⟨r.label, drop r.value⟩
    objective := drop d.objective }

/-- Writes a linear objective over the variables in terms of the nonbasic ones. -/
def withObjective (d : Dictionary) (costs : List Rat) : Dictionary :=
  let zeroRow : Affine := ⟨0, List.replicate d.nonbasic.length 0⟩
  let term (x : Nat) : Affine :=
    match d.rows.find? fun r => r.label == x with
    | some r => r.value
    | none => match d.nonbasic.idxOf? x with
      | some j => zeroRow.setAt j 1
      | none => zeroRow
  let objective := (costs.zipIdx).foldl (fun f (c, x) => f.addScaled c (term x)) zeroRow
  { d with objective := objective }

/-- Finds a dictionary whose present solution is feasible, by first maximising the negative
of an extra variable that relaxes every row. -/
def feasible? (d : Dictionary) : Option Dictionary :=
  if d.rows.all fun r => 0 ≤ r.value.constant then some d
  else
    let extra := d.nonbasic.length + d.rows.length
    let relaxed : Dictionary :=
      { nonbasic := d.nonbasic ++ [extra]
        rows := d.rows.map fun r =>
          ⟨r.label, { r.value with coefficients := r.value.coefficients ++ [1] }⟩
        objective := ⟨0, List.replicate d.nonbasic.length 0 ++ [-1]⟩ }
    let worst := (List.range d.rows.length).foldl
      (fun b i =>
        if (d.rows.getD i default).value.constant < (d.rows.getD b default).value.constant
        then i else b) 0
    let start := relaxed.pivot worst d.nonbasic.length
    match start.optimize start.pivotBound with
    | none => none
    | some final =>
        if final.objective.constant < 0 then none
        else
          let settled := match final.rows.findIdx? fun r => r.label == extra with
            | none => final
            | some i =>
                let row := final.rows.getD i default
                match row.value.coefficients.findIdx? fun c => c != 0 with
                | some j => final.pivot i j
                | none => { final with rows := final.rows.eraseIdx i }
          match settled.nonbasic.idxOf? extra with
          | some j => some (settled.dropColumn j)
          | none => some settled

end Dictionary

/-- How a linear program ends. -/
inductive Outcome where
  | infeasible
  | unbounded
  | optimal (point : List Rat) (value : Rat)

/-- Maximises a linear objective over nonnegative variables under rows `a · x ≤ b`. -/
def maximize (costs : List Rat) (rows : List (List Rat × Rat)) : Outcome :=
  let n := costs.length
  let start : Dictionary :=
    { nonbasic := List.range n
      rows := rows.mapIdx fun i (a, b) => ⟨n + i, ⟨b, a.map (-·)⟩⟩
      objective := ⟨0, costs⟩ }
  match start.feasible? with
  | none => .infeasible
  | some d =>
      let ready := d.withObjective costs
      match ready.optimize ready.pivotBound with
      | none => .unbounded
      | some final =>
          .optimal ((List.range n).map final.valueOf) final.objective.constant

end ArcSelection.Simplex
