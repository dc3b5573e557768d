import ArcSelection.Exchange.NodeNames
import ArcSelection.Graph.Stored
import ArcSelection.Selection.Task
import ArcSelection.Solver.Options
import ArcSelection.Value.Properties

/-!
# Problems from files

A problem file describes a graph with named nodes, bounds on degrees and on the number of
arcs, and how to solve the problem.  This module holds what such a file says and the
selection task it stands for.
-/

namespace ArcSelection

/-- A bound as a file gives it: one number, or numbers by node and one for the others. -/
inductive DegreeEntry where
  | constant (x : Float)
  | perNode (bounds : OrderedMap Node Float) (others : Float)

namespace DegreeEntry

/-- The number for a node. -/
def boundAt (e : DegreeEntry) (n : Node) : Float :=
  match e with
  | constant x => x
  | perNode bounds others => (bounds.get? n).getD others

/-- The bound of a task. -/
def toBound : DegreeEntry -> BoundInput
  | constant x => .value (.float x)
  | e => .function fun n => .ok (.float (e.boundAt n))

end DegreeEntry

/-- The property of an arc that holds its cost. -/
def costProperty : String := "cost"

/-- What a problem file says. -/
structure ProblemFile where
  graph : StoredGraph
  names : NodeNames
  bounds : List (DegreeKey × DegreeEntry)
  /-- The least number of arcs; nothing means infinity. -/
  minimum : Option Nat
  /-- The greatest number of arcs; nothing means infinity. -/
  maximum : Option Nat
  relaxed : Bool
  threshold : Option Value
  options : SolverOptions
  /-- The constraints that are mentioned. -/
  mentioned : List String

namespace ProblemFile

/-- The cost of an arc. -/
def cost (p : ProblemFile) (a : Arc) : Except Fault Value :=
  let properties := (p.graph.properties.arcs.get? a).getD []
  .float <$> ((Properties.value? properties costProperty).getD (.float 0.0)).toFloat

/-- The bound on a degree, if the file gives one. -/
def bound (p : ProblemFile) (k : DegreeKey) : BoundInput :=
  match p.bounds.lookup k with
  | some e => e.toBound
  | none => .value .null

/-- An arc count as a value. -/
def countValue : Option Nat -> Value
  | some n => .int n
  | none => .float (Decimal.infinity false)

/-- The configuration of the task. -/
def toTaskInput (p : ProblemFile) : TaskInput :=
  { TaskInput.bounded p.bound with
    minArcs := countValue p.minimum
    maxArcs := countValue p.maximum
    costs := [.function p.cost (.float 1.0)]
    relaxed := .bool p.relaxed
    threshold := p.threshold.getD .null }

/-- The task that the file describes. -/
def toTask (p : ProblemFile) : Except Fault (SelectionTask Value) :=
  SelectionTask.ofInput p.toTaskInput

end ProblemFile

end ArcSelection
