/-!
# Log records

What the library reports while it works: a level, the part that speaks, and a text.
Functions that report return their records beside their result; who shows them, and from
which level on, is decided elsewhere.
-/

namespace ArcSelection

/-- The level of a report, higher being more urgent. -/
abbrev LogLevel := Int

namespace LogLevel

/-- Details of interest to developers. -/
def debug : LogLevel := 10

/-- Progress. -/
def info : LogLevel := 20

/-- Something unexpected that does not stop the work. -/
def warning : LogLevel := 30

/-- A failure. -/
def error : LogLevel := 40

/-- The name of a level. -/
def name (level : LogLevel) : String :=
  if level = 0 then "NOTSET"
  else if level = 10 then "DEBUG"
  else if level = 20 then "INFO"
  else if level = 30 then "WARNING"
  else if level = 40 then "ERROR"
  else if level = 50 then "CRITICAL"
  else "Level " ++ toString level

end LogLevel

/-- The parts of the library that report. -/
inductive LogSource where
  | commandLine
  | problemFile
  | graphFile
  | compiler
  | solver
  | shortestPaths
deriving DecidableEq, Inhabited

namespace LogSource

/-- The name under which a part reports. -/
def name : LogSource -> String
  | .commandLine => "optgraph.cli"
  | .problemFile => "optgraph.problem"
  | .graphFile => "optgraph.io.graphml"
  | .compiler => "optgraph.lp.optimal_subgraph"
  | .solver => "optgraph.lp.solver"
  | .shortestPaths => "optgraph.algorithms.bellman_ford"

end LogSource

/-- One report. -/
structure LogRecord where
  level : LogLevel
  source : LogSource
  text : String

/-- A result together with the reports made on the way, which stay when it is a fault. -/
structure Traced (β : Type) where
  log : List LogRecord
  result : β

namespace Traced

variable {β γ : Type}

/-- Puts earlier reports in front. -/
def after (log : List LogRecord) (t : Traced β) : Traced β := ⟨log ++ t.log, t.result⟩

end Traced

end ArcSelection
