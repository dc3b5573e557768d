import ArcSelection.Log.Record
import ArcSelection.Solver.Encoding

/-!
# From backend reports to solutions

A backend reports a numeric status with, as the case may be, a message, a point and an
objective value.  Zero means optimal, one that a limit was reached, two infeasible, three
unbounded, four any other trouble.  A report is classified into one of the four outcomes
or refused.  A problem without variables never reaches the backend.
-/

namespace ArcSelection

/-- What a backend says about an encoded problem. -/
structure BackendReport (α : Type) where
  status : Int
  message : Option String
  point : Option (List α)
  value : Option α

/-- A backend either rejects a problem with a reason or reports on it. -/
abbrev Backend (α : Type) := Encoding α -> Except String (BackendReport α)

/-- A solver turns a problem into a solution, reporting on the way. -/
abbrev Solver (ι κ α : Type) [BEq ι] :=
  Problem ι κ α -> Traced (Except Fault (Solution κ α))

namespace Solver

variable {ι κ α : Type} [BEq ι] [BEq κ] [Arithmetic α]

/-- Whether a text occurs in another. -/
def occursIn (wanted : List Char) : List Char -> Bool
  | [] => wanted.isEmpty
  | c :: rest => wanted.isPrefixOf (c :: rest) || occursIn wanted rest

/-- Whether a backend's message speaks of infeasibility, in any case of letters. -/
def speaksOfInfeasible (message : Option String) : Bool :=
  occursIn "infeasible".toList ((message.getD "").toList.map Char.toLower)

/-- Whether every variable has two finite bounds; such a problem is never unbounded. -/
def isBoxed (p : Problem ι κ α) : Bool :=
  p.unknowns.values.all fun x => Arithmetic.isFinite x.lower && Arithmetic.isFinite x.upper

/-- The outcome a report stands for, if it is one of the four. -/
def classify? (p : Problem ι κ α) (r : BackendReport α) : Option SolutionType :=
  if r.status = 2 then some .infeasible
  else if r.status = 3 then some .unbounded
  else if r.status = 4 && speaksOfInfeasible r.message && isBoxed p then some .infeasible
  else if r.status = 0 then some .optimal
  else if r.status = 1 && r.point.isSome then some .feasible
  else none

/-- The value of each variable at a point, which must have a coordinate for each. -/
def valuesAt (p : Problem ι κ α) (point : List α) : Except Fault (List (κ × α)) :=
  p.unknowns.values.zipIdx.mapM fun (x, i) =>
    match point[i]? with
    | some v => do return (x.key, <- Arithmetic.asReal v)
    | none => .error .pointTooShort

/-- The objective of the problem, from that of the encoded one. -/
def objectiveOf (p : Problem ι κ α) (value : α) : Except Fault α := do
  let direction : α := match p.sense with
    | .minimize => Arithmetic.unit
    | .maximize => Arithmetic.minusOne
  Arithmetic.add (<- Arithmetic.mul (<- Arithmetic.asReal value) direction)
    p.objective.constant

/-- Entries by key: a later one takes the place of an earlier one with the same key. -/
def byKey (entries : List (κ × α)) : List (κ × α) := (OrderedMap.ofList entries).entries

/-- The solution a report stands for. -/
def interpret (p : Problem ι κ α) (r : BackendReport α) : Except Fault (Solution κ α) :=
  match classify? p r with
  | none =>
      .error (.unclassified (.int r.status) (match r.message with
        | some m => .text m
        | none => .null))
  | some .infeasible => .ok (.without .infeasible)
  | some .unbounded => .ok (.without .unbounded)
  | some type =>
      match r.point, r.value with
      | some point, some value => do
          let values <- valuesAt p point
          let objective <- objectiveOf p value
          return ⟨type, some objective, byKey values⟩
      | _, _ => .error .wrongType

/-- Whether every constraint of a problem without variables holds. -/
def constantsHold (constraints : List (Constraint ι α)) : Except Fault Bool :=
  match constraints with
  | [] => .ok true
  | c :: rest => do
      if <- Constraint.admits c.relation c.expression.constant c.bound then
        constantsHold rest
      else return false

/-- Solves a problem without variables. -/
def solveConstant (p : Problem ι κ α) : Except Fault (Solution κ α) := do
  if <- constantsHold p.constraints then
    return ⟨.optimal, some p.objective.constant, []⟩
  else return .without .infeasible

/-- The report on a problem that is about to be handed to the backend. -/
def announcement (p : Problem ι κ α) : LogRecord :=
  let unknowns := p.unknowns.values
  ⟨.debug, .solver,
    "Solving problem with " ++ toString unknowns.length ++ " variables (" ++
      toString (unknowns.filter (·.type == .integer)).length ++ " integer) and " ++
      toString p.constraints.length ++ " constraints"⟩

/-- The report on what the backend said. -/
def finishedReport (r : BackendReport α) : LogRecord :=
  ⟨.debug, .solver,
    "HiGHS finished with status " ++ toString r.status ++ ": " ++
      r.message.getD Value.null.plainText⟩

/-- The solver that encodes a problem, asks a backend and classifies its report. -/
def ofBackend (backend : Backend α) : Solver ι κ α := fun p =>
  if p.unknowns.isEmpty then ⟨[], solveConstant p⟩
  else
    match Encoding.ofProblem p with
    | .error fault => ⟨[], .error fault⟩
    | .ok encoding =>
        match backend encoding with
        | .error reason => ⟨[announcement p], .error (.rejectedProblem reason)⟩
        | .ok report => ⟨[announcement p, finishedReport report], interpret p report⟩

end Solver

end ArcSelection
