import ArcSelection.Graph.View.Matching
import ArcSelection.Selection.Run

/-!
# Matchings of least cost and of greatest size

A matching is a selection in which no node has a degree above one, so both matching tasks
are selection tasks.  The outcome of a matching task changes only when a run gets as far
as having one; a failing run leaves the previous outcome in place.
-/

namespace ArcSelection

/-- What a matching task shows: the last outcome and matching, and the state of the
selection task behind it. -/
structure MatchingState (α : Type) where
  type : Option SolutionType
  matching : Option Matching
  run : RunState α

namespace MatchingState

/-- Nothing has been run. -/
def blank {α : Type} : MatchingState α := ⟨none, none, .blank⟩

end MatchingState

/-- The bound on the degree of every node in a matching. -/
def matchingBound : BoundInput := .value (.float 1.0)

/-- The configuration of a matching of least cost. -/
def leastCostInput (cost : Arc -> Except Fault Value) (minimum maximum : Value) : TaskInput :=
  { TaskInput.unbounded with
    maxDegree := matchingBound
    minArcs := minimum
    maxArcs := maximum
    costs := [.function cost (.float 1.0)] }

/-- The configuration of a matching of greatest size: every arc is worth one. -/
def greatestSizeInput (minimum maximum : Value) : TaskInput :=
  { TaskInput.unbounded with
    maxDegree := matchingBound
    minArcs := minimum
    maxArcs := maximum
    costs := [.function (fun _ => .ok (.float 1.0)) (.float (-1.0))] }

/-- Turns a selection into a matching, arc by arc. -/
def toMatching (g : Graph) (s : Selection) : Except Fault Matching :=
  (s.arcs g .all).foldlM (fun m a => m.enable g a) .empty

namespace SelectionTask

variable {α : Type} [Arithmetic α]

/-- Runs a matching task. -/
def runMatching (t : SelectionTask α) (g : Graph) (solver : Solver Arc Arc α)
    (before : MatchingState α) : RunResult (MatchingState α) :=
  let r := t.run g solver before.run
  match r.outcome with
  | .error fault => ⟨r.log, { before with run := r.state }, .error fault⟩
  | .ok type =>
      match r.state.selected with
      | none => ⟨r.log, ⟨some type, none, r.state⟩, .ok type⟩
      | some s =>
          match toMatching g s with
          | .error fault =>
              ⟨r.log, { before with type := some type, run := r.state }, .error fault⟩
          | .ok m => ⟨r.log, ⟨some type, some m, r.state⟩, .ok type⟩

end SelectionTask

end ArcSelection
