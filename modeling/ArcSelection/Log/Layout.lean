import ArcSelection.Fault
import ArcSelection.Log.Record

/-!
# The layout of log lines

A layout tells how a record becomes a line: text with fields for the time, the logger, the
level by name and by number, and the message.  Reading a layout fails if it has no field at all.
-/

namespace ArcSelection

/-- A piece of a layout. -/
inductive LayoutPart where
  | character (c : Char)
  | time
  | logger
  | level
  | severity
  | message
deriving DecidableEq

/-- The pieces of a line, from left to right. -/
abbrev LogLayout := List LayoutPart

namespace LogLayout

/-- How the pieces that are not taken as they stand are written. -/
def fields : List (List Char × LayoutPart) :=
  [("%(asctime)s".toList, .time), ("%(name)s".toList, .logger),
   ("%(levelname)s".toList, .level), ("%(levelno)s".toList, .severity),
   ("%(levelno)d".toList, .severity), ("%(message)s".toList, .message),
   ("%%".toList, .character '%')]

/-- The pieces of a text. -/
def ofChars : List Char -> LogLayout
  | [] => []
  | c :: rest =>
      match fields.find? fun f => f.1.isPrefixOf (c :: rest) with
      | some f => f.2 :: ofChars (rest.drop (f.1.length - 1))
      | none => .character c :: ofChars rest
termination_by cs => cs.length
decreasing_by all_goals (simp only [List.length_drop, List.length_cons]; omega)

/-- Whether a piece is a field. -/
def isField : LayoutPart -> Bool
  | .character _ => false
  | _ => true

/-- The layout that is used where none is given. -/
def default : LogLayout :=
  ofChars "%(asctime)s - %(name)s - %(levelname)s - %(message)s".toList

/-- Reads a layout; an empty text stands for the default. -/
def read (text : String) : Except Fault LogLayout :=
  if text.isEmpty then .ok default
  else
    let layout := ofChars text.toList
    if layout.any isField then .ok layout else .error (.badLayout text)

/-- The text of a piece. -/
def partText (time logger : String) (level : LogLevel) (message : String) :
    LayoutPart -> String
  | .character c => c.toString
  | .time => time
  | .logger => logger
  | .level => LogLevel.name level
  | .severity => toString level
  | .message => message

/-- The line for a message. -/
def line (layout : LogLayout) (time logger : String) (level : LogLevel)
    (message : String) : String :=
  String.join (layout.map (partText time logger level message)) ++ "\n"

end LogLayout

end ArcSelection
