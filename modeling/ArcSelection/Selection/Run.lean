import ArcSelection.Graph.View.Selection
import ArcSelection.Selection.Compile
import ArcSelection.Solver.Outcome

/-!
# Running a task

A run compiles the task, asks the solver and selects the arcs whose values reach the
threshold.  The state of a task tells the outcome of its last run: it is emptied before
the run starts, so a run that fails leaves nothing of an earlier one.
-/

namespace ArcSelection

/-- What the last run of a task left. -/
structure RunState (α : Type) where
  solution : Option (Solution Arc α)
  selected : Option Selection

namespace RunState

variable {α : Type}

/-- Nothing has been run, or the last run failed. -/
def blank : RunState α := ⟨none, none⟩

/-- The type of the last outcome. -/
def type? (s : RunState α) : Option SolutionType := s.solution.map (·.type)

/-- The objective of the last solution. -/
def objective? (s : RunState α) : Option α := s.solution.bind (·.objective)

end RunState

/-- What a run does: its reports, the state it leaves, and its outcome. -/
structure RunResult (σ : Type) where
  log : List LogRecord
  state : σ
  outcome : Except Fault SolutionType

namespace SelectionTask

variable {α : Type} [Arithmetic α]

/-- Selects the arcs whose values reach the threshold, in the order of the variables. -/
def decode (t : SelectionTask α) (p : Problem Arc Arc α) (s : Solution Arc α) :
    Except Fault Selection :=
  p.unknowns.keys.foldlM
    (fun chosen a => do
      if <- Arithmetic.atMost t.threshold (s.value a) then return chosen.enable a true
      else return chosen)
    .empty

/-- The report on a selection. -/
def selectedReport (g : Graph) (p : Problem Arc Arc α) (s : Solution Arc α)
    (chosen : Selection) : LogRecord :=
  let objective := match s.objective with
    | some x => (Arithmetic.toValue x).plainText
    | none => Value.null.plainText
  ⟨.info, .compiler,
    "Optimal subgraph: " ++ s.type.name ++ ", " ++
      toString ((chosen.graphOver g).arcCount .all) ++ " of " ++ toString p.unknowns.size ++
      " arcs selected, objective " ++ objective⟩

/-- The report on an outcome without a selection. -/
def emptyReport : SolutionType -> LogRecord
  | .unbounded =>
      ⟨.warning, .compiler, "Optimal subgraph problem is unbounded; arc costs must be finite"⟩
  | type => ⟨.info, .compiler, "Optimal subgraph problem is " ++ type.name⟩

/-- Compiles, solves and selects.  What the last run left is emptied first: its solution, and
then its selection. -/
def run (t : SelectionTask α) (g : Graph) (solver : Solver Arc Arc α) (last : RunState α) :
    RunResult (RunState α) :=
  let state := { last with solution := none }
  let state := { state with selected := none }
  match t.compile g with
  | .error fault => ⟨[], state, .error fault⟩
  | .ok p =>
      let answer := solver p
      let log := compiledReport p :: answer.log
      match answer.result with
      | .error fault => ⟨log, state, .error fault⟩
      | .ok s =>
          let state := { state with solution := some s }
          if s.type.hasSolution then
            match t.decode p s with
            | .error fault => ⟨log, state, .error fault⟩
            | .ok chosen =>
                ⟨log ++ [selectedReport g p s chosen], { state with selected := some chosen },
                  .ok s.type⟩
          else ⟨log ++ [emptyReport s.type], state, .ok s.type⟩

end SelectionTask

end ArcSelection
