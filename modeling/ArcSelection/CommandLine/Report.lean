import ArcSelection.Arithmetic
import ArcSelection.Decimal.Style
import ArcSelection.Keyword
import ArcSelection.Value.Json

/-!
# Reports of results

A command ends with a report: the kind of outcome, and if there is a solution its
objective and the selected arcs.  It is printed as lines of text or as JSON.
-/

namespace ArcSelection.CommandLine

/-- A selected arc by the names of its ends. -/
structure SelectedArc where
  source : Value
  target : Value
  directed : Bool
  cost : Value

/-- What is known at the end of a command. -/
structure Report where
  outcome : SolutionType
  objective : Option Value
  arcs : List SelectedArc

namespace SelectedArc

/-- The fields of an arc. -/
def toValue (a : SelectedArc) : Value :=
  .map [(.text "source", a.source), (.text "target", a.target),
    (.text "directed", .bool a.directed), (.text "cost", a.cost)]

end SelectedArc

/-- A number as it is shown to readers. -/
def numberText (v : Value) : Except Fault String := Decimal.costText <$> v.toFloat

namespace SelectedArc

/-- The line for an arc. -/
def line (a : SelectedArc) : Except Fault String := do
  let link := if a.directed then "->" else "--"
  return "   " ++ a.source.plainText ++ " " ++ link ++ " " ++ a.target.plainText ++
    "   (cost " ++ (<- numberText a.cost) ++ ")\n"

end SelectedArc

namespace Report

/-- The fields of a report. -/
def toValue (r : Report) : Value :=
  .map [(.text "status", .text r.outcome.name), (.text "objective", r.objective.getD .null),
    (.text "arcs", .list (r.arcs.map SelectedArc.toValue))]

/-- The report as JSON. -/
def json (r : Report) : String := Json.ofValue 0 r.toValue ++ "\n"

/-- The line for the objective, if there is one. -/
def objectiveLine (r : Report) : Except Fault String :=
  match r.objective with
  | none => .ok ""
  | some v => do return "Objective: " ++ (<- numberText v) ++ "\n"

/-- The report as lines of text; without a solution only the outcome is told. -/
def lines (r : Report) : Except Fault String := do
  let status := "Status: " ++ r.outcome.name ++ "\n"
  if r.outcome.hasSolution then
    return status ++ (<- r.objectiveLine) ++
      "Selected arcs: " ++ toString r.arcs.length ++ "\n" ++
      String.join (<- r.arcs.mapM SelectedArc.line)
  else return status

/-- The report in the form that is asked for. -/
def render (r : Report) (asJson : Bool) : Except Fault String :=
  if asJson then .ok r.json else r.lines

/-- The exit status: zero with a solution, two without. -/
def status (r : Report) : Nat := if r.outcome.hasSolution then 0 else 2

end Report

end ArcSelection.CommandLine
