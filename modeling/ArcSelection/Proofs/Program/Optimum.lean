import ArcSelection.Proofs.Program.Evaluation
import ArcSelection.Solver.Outcome
import Mathlib.Algebra.Order.Group.Unbundled.Abs

/-!
# Feasible and optimal points of a program

The points a program admits, the best ones among them, and what it means that the
answer of a solver is true of a program: exactly, or up to a tolerance on the value
of every variable.
-/

namespace ArcSelection

open Decimal

variable {ι κ : Type} [BEq ι]

/-- The variable may take the value: it lies within the bounds, and is an integer if
the domain is integral. -/
structure Variable.Allows (v : Variable κ Extended) (q : Rat) : Prop where
  lower : v.lower ≤ .finite q
  upper : .finite q ≤ v.upper
  integer : v.type = .integer → ∃ z : Int, q = z

/-- One objective value is at least as good as another. -/
def Sense.Prefers : Sense → Extended → Extended → Prop
  | .minimize, a, b => a ≤ b
  | .maximize, a, b => b ≤ a

namespace Problem

/-- Every variable may take its value and every constraint holds. -/
structure Feasible (p : Problem ι κ Extended) (x : ι → Rat) : Prop where
  allowed : ∀ i v, (i, v) ∈ p.unknowns.entries → v.Allows (x i)
  satisfied : ∀ c ∈ p.constraints, c.HoldsAt x

/-- A feasible point whose objective is at least as good as that of any other. -/
structure Optimal (p : Problem ι κ Extended) (x : ι → Rat) : Prop where
  feasible : p.Feasible x
  best : ∀ y, p.Feasible y → ∃ here there,
    p.objective.evaluate (point x) = .ok here ∧ p.objective.evaluate (point y) = .ok there ∧
      p.sense.Prefers here there

end Problem

variable [BEq κ]

/-- The solution says nothing false about the program: it is infeasible only if no point
is feasible, and optimal only with values within the tolerance of an optimal point. -/
structure Solution.TrueOf (s : Solution κ Extended) (p : Problem ι κ Extended)
    (tolerance : Rat) : Prop where
  infeasible : s.type = .infeasible → ∀ x, ¬ p.Feasible x
  optimal : s.type = .optimal → ∃ x, p.Optimal x ∧ ∀ i v, (i, v) ∈ p.unknowns.entries →
    ∃ q, s.value v.key = .finite q ∧ |q - x i| ≤ tolerance

/-- Whatever solution the solver returns for the program is true of it up to the
tolerance. -/
def Solver.ExactWithin (solver : Solver ι κ Extended) (tolerance : Rat)
    (p : Problem ι κ Extended) : Prop :=
  ∀ s, (solver p).result = .ok s → s.TrueOf p tolerance

/-- The solver that gives one answer whatever it is asked. -/
def Solver.answering (s : Solution κ Extended) : Solver ι κ Extended := fun _ => ⟨[], .ok s⟩

/-- A solver that answers truly is exact. -/
theorem Solver.exactWithin_answering {s : Solution κ Extended} {p : Problem ι κ Extended}
    {tolerance : Rat} (trueOf : s.TrueOf p tolerance) :
    (answering s).ExactWithin tolerance p := by
  intro answer answered
  cases answered
  exact trueOf

/-- The solver returns an optimal point of the program, or finds it infeasible. -/
def Solver.Settles (solver : Solver ι κ Extended) (p : Problem ι κ Extended) : Prop :=
  ∃ s, (solver p).result = .ok s ∧ s.TrueOf p 0 ∧ (s.type = .optimal ∨ s.type = .infeasible)

end ArcSelection
