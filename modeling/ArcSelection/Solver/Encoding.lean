import ArcSelection.Program.Problem

/-!
# Problems as arrays

A solver backend takes a problem as arrays over columns: costs to be minimised, bounds and
integrality of each column, and rows with a lower and an upper bound.  Columns are the
variables in the order of their creation.  A problem to be maximised is encoded with
negated costs.
-/

namespace ArcSelection

/-- One constraint over the columns. -/
structure EncodedRow (α : Type) where
  coefficients : List α
  lower : α
  upper : α

/-- A problem over columns. -/
structure Encoding (α : Type) where
  costs : List α
  integral : List Bool
  lower : List α
  upper : List α
  rows : List (EncodedRow α)

namespace Encoding

variable {ι κ α : Type} [BEq ι] [Arithmetic α]

/-- The coefficients of an expression by column; a variable without a column is refused. -/
def columns (unknowns : OrderedMap ι (Variable κ α)) (e : Expression ι α) :
    Except Fault (List α) := do
  let sums <- e.terms.entries.foldlM
    (fun (acc : OrderedMap ι α) t =>
      if unknowns.contains t.1 then do
        return acc.insert t.1 (<- Arithmetic.add Arithmetic.origin t.2)
      else .error .unknownColumn)
    .empty
  return unknowns.keys.map fun x => (sums.get? x).getD Arithmetic.origin

/-- A constraint as a row: the constant of its expression moves to the bound. -/
def rowOf (unknowns : OrderedMap ι (Variable κ α)) (c : Constraint ι α) :
    Except Fault (EncodedRow α) := do
  let coefficients <- columns unknowns c.expression
  let bound <- Arithmetic.sub c.bound c.expression.constant
  match c.relation with
  | .atMost => return ⟨coefficients, Arithmetic.bottom, bound⟩
  | .atLeast => return ⟨coefficients, bound, Arithmetic.top⟩
  | .equal => return ⟨coefficients, bound, bound⟩

/-- The arrays of a problem. -/
def ofProblem (p : Problem ι κ α) : Except Fault (Encoding α) := do
  let costs <- columns p.unknowns p.objective
  let costs <- match p.sense with
    | .minimize => pure costs
    | .maximize => costs.mapM (Arithmetic.mul Arithmetic.minusOne)
  let unknowns := p.unknowns.values
  let lower <- unknowns.mapM fun x => Arithmetic.asReal x.lower
  let upper <- unknowns.mapM fun x => Arithmetic.asReal x.upper
  let rows <- p.constraints.mapM (rowOf p.unknowns)
  return ⟨costs, unknowns.map (·.type == .integer), lower, upper, rows⟩

end Encoding

end ArcSelection
