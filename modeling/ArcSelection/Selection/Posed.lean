import ArcSelection.Graph.Store
import ArcSelection.Selection.Matching

/-!
# Tasks on the graphs of a store

A posed task names its graph by the position in a store.  What it selects becomes a graph
of the store as well: a view over the graph of the task.
-/

namespace ArcSelection

/-- What the last run of a task left, by the kind of task. -/
inductive TaskProgress where
  | selection (state : RunState Value)
  | matching (state : MatchingState Value)

namespace TaskProgress

/-- The type of the outcome. -/
def type? : TaskProgress -> Option SolutionType
  | .selection s => s.type?
  | .matching s => s.type

end TaskProgress

/-- A task with the position of its graph, what its last run left, and the position of
the graph it selected. -/
structure PosedTask where
  graph : Nat
  task : SelectionTask Value
  last : TaskProgress
  result : Option Nat

namespace PosedTask

/-- A selection task that was not run yet. -/
def selecting (graph : Nat) (task : SelectionTask Value) : PosedTask :=
  ⟨graph, task, .selection .blank, none⟩

/-- A matching task that was not run yet. -/
def matching (graph : Nat) (task : SelectionTask Value) : PosedTask :=
  ⟨graph, task, .matching .blank, none⟩

/-- Adds the layer of a result, if there is a result. -/
def addResult {β : Type} (s : Store) (layer : β -> Layer) : Option β -> Option Nat × Store
  | none => (none, s)
  | some x =>
      let (i, s) := s.add (layer x)
      (some i, s)

/-- The integer program of the task. -/
def compile (t : PosedTask) (s : Store) : Except Fault (Problem Arc Arc Value) :=
  t.task.compile (s.graph t.graph)

/-- Runs the task.  A selection task that fails has no result; a matching task that fails
keeps the result it had. -/
def run (t : PosedTask) (s : Store) (solver : Solver Arc Arc Value) :
    RunResult (PosedTask × Store) :=
  let g := s.graph t.graph
  match t.last with
  | .selection before =>
      let r := t.task.run g solver before
      let (result, s) := addResult s (.selection · t.graph) r.state.selected
      ⟨r.log, ({ t with last := .selection r.state, result }, s), r.outcome⟩
  | .matching before =>
      let r := t.task.runMatching g solver before
      let t := { t with last := .matching r.state }
      match r.outcome with
      | .error fault => ⟨r.log, (t, s), .error fault⟩
      | .ok type =>
          let (result, s) := addResult s (.matching · t.graph) r.state.matching
          ⟨r.log, ({ t with result }, s), .ok type⟩

end PosedTask

end ArcSelection
