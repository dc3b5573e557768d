import ArcSelection.CommandLine.Event
import ArcSelection.CommandLine.Files
import ArcSelection.Decimal.Reading

/-!
# Requests

A command line that can be followed is a request: which command to run, on which file, and
how.  Any other command line asks for help or is a misuse of the program or a command.
-/

namespace ArcSelection.CommandLine

/-- What an option is for. -/
inductive Purpose where
  | help
  | verbose
  | quiet
  | json
  | costAttribute
  | leastSize
  | greatestSize
  | maximum
deriving DecidableEq

/-- The option that asks for help. -/
def helpFlag : Flag Purpose := ⟨["-h", "--help"], false, .help⟩

/-- The options of a topic, in the order they are listed. -/
def Topic.flags : Topic -> List (Flag Purpose)
  | .program =>
      [helpFlag, ⟨["--verbose", "-v"], false, .verbose⟩, ⟨["--quiet"], false, .quiet⟩]
  | .solve => [helpFlag, ⟨["--json"], false, .json⟩]
  | .matching =>
      [helpFlag, ⟨["--cost-attr"], true, .costAttribute⟩, ⟨["--min-size"], true, .leastSize⟩,
       ⟨["--max-size"], true, .greatestSize⟩, ⟨["--maximum"], false, .maximum⟩,
       ⟨["--json"], false, .json⟩]

/-- The name of the operand of a topic. -/
def Topic.operand : Topic -> String
  | .program => commandPlaceholder
  | .solve => "problem"
  | .matching => "graph"

/-- What the options of a command line say. -/
structure Settings where
  verbose : Bool
  quiet : Bool
  json : Bool
  maximum : Bool
  /-- The name of the attribute that holds costs. -/
  costAttribute : String
  leastSize : Int
  /-- The greatest size, if there is one. -/
  greatestSize : Option Int

namespace Settings

/-- What holds without options. -/
def default : Settings :=
  { verbose := false, quiet := false, json := false, maximum := false
    costAttribute := "cost", leastSize := 0, greatestSize := none }

/-- Turns a switch on. -/
def switch (s : Settings) : Purpose -> Settings
  | .verbose => { s with verbose := true }
  | .quiet => { s with quiet := true }
  | .json => { s with json := true }
  | .maximum => { s with maximum := true }
  | _ => s

/-- Reads a size. -/
def readSize (f : Flag Purpose) (argument : String) : Except Misuse Int :=
  match Decimal.readInt? argument with
  | some n => .ok n
  | none => .error (.notInteger f.label argument)

/-- Enters the argument of an option. -/
def enter (s : Settings) (f : Flag Purpose) (argument : String) : Except Misuse Settings :=
  match f.purpose with
  | .costAttribute => .ok { s with costAttribute := argument }
  | .leastSize => do return { s with leastSize := <- readSize f argument }
  | .greatestSize => do return { s with greatestSize := some (<- readSize f argument) }
  | _ => .ok s

end Settings

/-- A command on the file at a path in normal form. -/
inductive Request where
  | solve (path : String) (settings : Settings)
  | matching (path : String) (settings : Settings)

/-- Why there is nothing to run. -/
inductive Refusal where
  | help (t : Topic)
  | misuse (t : Topic) (reason : Misuse)

/-- What has been gathered along a command line. -/
structure Gathered where
  settings : Settings
  /-- The operand: the path, or the command with the words left to it. -/
  operand : Option (String × List String)
  strays : List String

namespace Gathered

/-- Takes in one event. -/
def take (t : Topic) (g : Gathered) : Event Purpose -> Except Refusal Gathered
  | .switched .help => .error (.help t)
  | .switched purpose => .ok { g with settings := g.settings.switch purpose }
  | .given f argument =>
      match g.settings.enter f argument with
      | .ok settings => .ok { g with settings }
      | .error reason => .error (.misuse t reason)
  | .operand text => .ok { g with operand := some (text, []) }
  | .command word rest => .ok { g with operand := some (word, rest) }
  | .stray text => .ok { g with strays := g.strays ++ [text] }
  | .refused reason => .error (.misuse t reason)

/-- Gathers what a command line says, starting from settings. -/
def ofTexts (t : Topic) (expected : Expected) (settings : Settings) (texts : List String) :
    Except Refusal Gathered :=
  match readEvents t.flags expected texts with
  | .error reason => .error (.misuse t reason)
  | .ok events => events.foldlM (take t) ⟨settings, none, []⟩

end Gathered

/-- The operand of a topic, which must be there. -/
def operandOf (t : Topic) (g : Gathered) : Except Refusal (String × List String) :=
  match g.operand with
  | some operand => .ok operand
  | none => .error (.misuse t (.missing t.operand))

/-- The topic of a command. -/
def commandTopic (word : String) : Except Refusal Topic :=
  if word == "solve" then .ok .solve
  else if word == "match" then .ok .matching
  else .error (.misuse .program (.unknownCommand word))

/-- The request of a command; words without a meaning are kept. -/
def readCommand (settings : Settings) (word : String) (rest : List String) :
    Except Refusal (Request × List String) := do
  let t <- commandTopic word
  let g <- Gathered.ofTexts t .operand settings rest
  let (word, _) <- operandOf t g
  let path := normalPath word
  return (if t = .solve then .solve path g.settings else .matching path g.settings, g.strays)

namespace Request

/-- The file of a request. -/
def path : Request -> String
  | .solve p _ | .matching p _ => p

/-- The settings of a request. -/
def settings : Request -> Settings
  | .solve _ s | .matching _ s => s

/-- The request that a command line makes.  Without any words the program shows its help. -/
def read (texts : List String) : Except Refusal Request := do
  if texts.isEmpty then throw (.help .program)
  let g <- Gathered.ofTexts .program .command .default texts
  let (word, rest) <- operandOf .program g
  let (request, strays) <- readCommand g.settings word rest
  match g.strays ++ strays with
  | [] => return request
  | strays => throw (.misuse .program (.unrecognized strays))

end Request

end ArcSelection.CommandLine
