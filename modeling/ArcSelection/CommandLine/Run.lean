import ArcSelection.CommandLine.Files
import ArcSelection.CommandLine.Report
import ArcSelection.CommandLine.Request
import ArcSelection.GraphML.Load
import ArcSelection.Log.Setup
import ArcSelection.Log.Work
import ArcSelection.ProblemFile.Reading
import ArcSelection.Selection.Matching

/-!
# Running commands

Running a command line gives an exit status, what is printed, and the reports that pass
the level of the run.  The status is zero when a solution was found, one after a failure
and two when there is no solution or the command line is misused.
-/

namespace ArcSelection.CommandLine

/-- What a run leaves to its caller. -/
structure Execution where
  status : Nat
  output : String
  errors : String
  log : List LogRecord

/-- A report of the command line itself. -/
def note (level : LogLevel) (text : String) : LogRecord := ⟨level, .commandLine, text⟩

/-- The report on what a command is about to do. -/
def startNote (activity path : String) (g : Graph) : LogRecord :=
  note LogLevel.info
    (activity ++ " " ++ path ++ ": " ++ toString g.nodeCount ++ " nodes, " ++
      toString (g.arcCount .all) ++ " arcs")

/-- The selected arcs with the names of their ends and their costs. -/
def selectedArcs (g : Graph) (names : NodeNames) (cost : Arc -> Except Fault Value)
    (arcs : List Arc) : Except Fault (List SelectedArc) :=
  arcs.mapM fun a => do
    return {
      source := names.name (g.tail a), target := names.name (g.head a)
      directed := !g.isEdge a, cost := <- cost a }

/-- Solves the problem of a file. -/
def solveProblem (solver : Solver Arc Arc Value) (path text : String) : Work Report := do
  let p <- Work.quietly (ProblemFile.read text)
  Work.report p.loadedReport
  let t <- Work.quietly p.toTask
  let g := p.graph.graph
  Work.report (startNote "Solving" path g)
  let r := t.run g solver .blank
  let outcome <- (⟨r.log, r.outcome⟩ : Work SolutionType)
  let chosen := (r.state.selected.map fun s => s.arcs g .all).getD []
  let arcs <- Work.quietly (selectedArcs g p.names p.cost chosen)
  return { outcome, objective := r.state.objective?, arcs }

/-- The cost of an arc from one of its properties, which must be there and be a number. -/
def propertyCost (g : Graph) (name : String) (a : Arc) : Except Fault Value :=
  match Properties.value? ((g.arcProperties a).getD []) name with
  | none => .error (.noAttribute a name)
  | some v =>
      match v.toFloat with
      | .ok x => .ok (.float x)
      | .error .tooLarge => .error .tooLarge
      | .error _ => .error (.attributeNotNumber name a v)

/-- The limits on the size of a matching as a task wants them. -/
def Settings.sizes (s : Settings) : Value × Value :=
  (.int s.leastSize, match s.greatestSize with
    | some n => .int n
    | none => .float (Decimal.infinity false))

/-- The sum of the costs of some arcs, zero without arcs. -/
def totalCost (arcs : List SelectedArc) : Except Fault Value :=
  arcs.foldlM (fun total a => total.add a.cost) (.int 0)

/-- Finds a matching in the graph of a file. -/
def findMatching (solver : Solver Arc Arc Value) (reader : GraphML.Reader) (path text : String)
    (s : Settings) : Work Report := do
  let l <- Work.quietly (GraphML.load reader path text)
  Work.report (GraphML.loadedReport path l)
  let g := l.graph.graph
  Work.report (startNote "Matching on" path g)
  let cost : Arc -> Except Fault Value :=
    if s.maximum then fun _ => .ok (.float 1.0) else propertyCost g s.costAttribute
  let (least, greatest) := s.sizes
  let input :=
    if s.maximum then greatestSizeInput least greatest else leastCostInput cost least greatest
  let t <- Work.quietly (SelectionTask.ofInput input)
  let r := t.runMatching g solver .blank
  let outcome <- (⟨r.log, r.outcome⟩ : Work SolutionType)
  match r.state.matching with
  | none => return { outcome, objective := none, arcs := [] }
  | some m =>
      let arcs <- Work.quietly (selectedArcs g l.names cost (m.selection.arcs g .all))
      return { outcome, objective := some (<- Work.quietly (totalCost arcs)), arcs }

/-- Runs the command of a request. -/
def Request.run (solver : Solver Arc Arc Value) (reader : GraphML.Reader)
    (read : String -> Except Fault String) : Request -> Work Report
  | .solve path _ => do solveProblem solver path (<- Work.quietly (read path))
  | .matching path s => do findMatching solver reader path (<- Work.quietly (read path)) s

/-- How a failure is reported, if it is of a class that ends a run in order. -/
def failureText? (fault : Fault) : Option String :=
  match fault.kind with
  | .noFile => some fault.message
  | .invalid | .unreadable | .solver | .isDirectory | .notDirectory | .fileTrouble =>
      some ("Failed to solve: " ++ fault.kind.label ++ ": " ++ fault.message)
  | .wrongType | .tooLarge | .missing | .unknownName | .beyondEnd | .unsupported
  | .malformed => none

/-- What is left to do after a command: printing its report, or telling of its failure. -/
def finish (s : Settings) (w : Work Report) : Except Fault Execution :=
  let level := LogSetup.runLevel s.verbose s.quiet
  let shown (more : List LogRecord) : List LogRecord :=
    (note LogLevel.debug "Debug logging enabled" :: w.log ++ more).filter fun r =>
      level ≤ r.level
  let rendered := w.result >>= fun r => do return (r.status, <- r.render s.json)
  match rendered with
  | .ok (status, output) => .ok ⟨status, output, "", shown []⟩
  | .error fault =>
      match failureText? fault with
      | some text => .ok ⟨1, "", "", shown [note LogLevel.error text]⟩
      | none => .error fault

/-- What is printed instead of running a command. -/
def Refusal.execution : Refusal -> Execution
  | .help t => ⟨0, t.help, "", []⟩
  | .misuse t reason => ⟨2, "", t.complaint reason, []⟩

/-- Runs a command line, with a solver, a reader of graph files and the contents of files by
path.  A failure of a class that is not expected is left to the caller. -/
def run (solver : Solver Arc Arc Value) (reader : GraphML.Reader)
    (read : String -> Except Fault String) (texts : List String) : Except Fault Execution :=
  match Request.read texts with
  | .error refusal => .ok refusal.execution
  | .ok request => finish request.settings (request.run solver reader read)

end ArcSelection.CommandLine
