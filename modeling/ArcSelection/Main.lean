import ArcSelection.CommandLine.Run
import ArcSelection.GraphML.Reading
import ArcSelection.Solver.Branching
import Std.Time

/-!
# The program

Reads the file that the command line names, runs the command and prints what it leaves:
its output, its complaints, and its log with the time in front.
-/

open ArcSelection ArcSelection.CommandLine

/-- The text of a file, or why it cannot be read. -/
def readText (path : String) : IO (Except Fault String) := do
  try
    match String.fromUTF8? (<- IO.FS.readBinFile path) with
    | some text => return .ok text
    | none => return .error .invalidDocument
  catch
    | .noFileOrDirectory _ _ _ => return .error (.fileNotFound path)
    | .inappropriateType _ _ _ => return .error (.isDirectory path)
    | _ => return .error (.fileNotFound path)

/-- The content of the file that a command line names, if it names one. -/
def contentFor (arguments : List String) : IO (Except Fault String) :=
  match Request.read arguments with
  | .ok request => readText request.path
  | .error _ => return .error .invalidDocument

def main (arguments : List String) : IO UInt32 := do
  let content <- contentFor arguments
  match CommandLine.run (Solver.ofBackend exactBackend) GraphML.readFirst (fun _ => content)
      arguments with
  | .ok e =>
      let now <- Std.Time.PlainDateTime.now
      let time := now.format "uuuu-MM-dd HH:mm:ss,SSS"
      for r in e.log do
        IO.eprint (LogLayout.default.line time r.source.name r.level r.text)
      IO.print e.output
      IO.eprint e.errors
      return e.status.toUInt32
  | .error fault =>
      IO.eprintln (fault.kind.label ++ ": " ++ fault.message)
      return 1
