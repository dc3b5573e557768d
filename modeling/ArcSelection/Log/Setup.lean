import ArcSelection.Log.Layout
import ArcSelection.OrderedMap

/-!
# Who shows log records

Loggers form a tree by the dots in their names.  A logger without a level of its own takes
that of its nearest ancestor that has one, and the root above all names has one.  The
package logger holds the only handler; it is installed by the first setup after a reset.
A record is shown if its level reaches that of its logger and that of the handler.
-/

namespace ArcSelection

/-- A place where records are written: the least level that passes, and the layout. -/
structure LogHandler where
  level : LogLevel
  layout : LogLayout

/-- The state of logging. -/
structure LogSetup where
  /-- The handlers of the package logger. -/
  handlers : List LogHandler
  /-- Whether the handler was installed since the last reset. -/
  configured : Bool
  /-- Whether records of the package go on to the root. -/
  propagates : Bool
  /-- The own levels of loggers by name; one that is missing is zero, which is none. -/
  levels : OrderedMap String LogLevel

namespace LogSetup

/-- The logger that holds the handler. -/
def package : String := "optgraph"

/-- The logger above all others. -/
def root : String := "root"

/-- The name a logger is kept under; the root is also meant by the empty name. -/
def canonical (logger : String) : String := if logger.isEmpty then root else logger

/-- Nothing is set up. -/
def start : LogSetup := ⟨[], false, false, OrderedMap.empty.insert root LogLevel.warning⟩

/-- The own level of a logger. -/
def ownLevel (s : LogSetup) (logger : String) : LogLevel :=
  (s.levels.get? (canonical logger)).getD 0

/-- Gives a logger a level of its own, or takes it away if the level is zero. -/
def setLevel (s : LogSetup) (logger : String) (level : LogLevel) : LogSetup :=
  { s with levels := s.levels.insert (canonical logger) level }

/-- A logger and its ancestors, nearest first, the root last. -/
def lineage (logger : String) : List String :=
  let name := canonical logger
  if name = root then [root]
  else
    let parts := name.splitOn "."
    ((List.range parts.length).map fun i =>
      String.intercalate "." (parts.take (parts.length - i))) ++ [root]

/-- The level from which on a logger lets records pass. -/
def effectiveLevel (s : LogSetup) (logger : String) : LogLevel :=
  (((lineage logger).map s.ownLevel).find? (· != 0)).getD 0

/-- Installs the handler with a layout, unless that was done since the last reset.  If the
layout cannot be read, the level is set and no handler is left. -/
def install (s : LogSetup) (level : LogLevel) (layout : String) : LogSetup × Option Fault :=
  if s.configured then (s, none)
  else
    let s := { s with handlers := [] }.setLevel package level
    match LogLayout.read layout with
    | .error fault => (s, some fault)
    | .ok layout =>
        ({ s with handlers := [⟨0, layout⟩], configured := true, propagates := true }, none)

/-- Makes sure that the handler is installed. -/
def ensure (s : LogSetup) : LogSetup := (s.install LogLevel.info "").1

/-- Prepares a logger, which keeps no level of its own. -/
def prepare (s : LogSetup) (logger : String) : LogSetup := s.ensure.setLevel logger 0

/-- Sets the level of the package logger and of its handlers. -/
def setPackageLevel (s : LogSetup) (level : LogLevel) : LogSetup :=
  let s := s.ensure.setLevel package level
  { s with handlers := s.handlers.map fun h => { h with level } }

/-- The level of a run from the command line; verbosity wins over quietness. -/
def runLevel (verbose quiet : Bool) : LogLevel :=
  if verbose then LogLevel.debug else if quiet then LogLevel.warning else LogLevel.info

/-- Forgets the handlers and the level of the package logger. -/
def reset (s : LogSetup) : LogSetup :=
  { s with handlers := [], configured := false }.setLevel package 0

/-- The handlers that see the records of a logger. -/
def handlersFor (s : LogSetup) (logger : String) : List LogHandler :=
  if (lineage logger).contains package then s.handlers else []

/-- What is written for a record.  A record that no handler sees is written as it stands
if it is at least a warning. -/
def emit (s : LogSetup) (time logger : String) (level : LogLevel) (message : String) :
    String :=
  if level ≤ 0 || level < s.effectiveLevel logger then ""
  else
    match s.handlersFor logger with
    | [] => if level ≥ LogLevel.warning then message ++ "\n" else ""
    | handlers =>
        String.join ((handlers.filter fun h => h.level ≤ level).map fun h =>
          h.layout.line time logger level message)

end LogSetup

end ArcSelection
