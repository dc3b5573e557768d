import ArcSelection.CommandLine.Word

/-!
# What happens along a command line

Going through the words of a command line from left to right gives a list of events:
options take effect, operands and unknown words turn up, and the list ends early where the
words do not fit the options.
-/

namespace ArcSelection.CommandLine

variable {κ : Type}

/-- What a word, or an option with the word after it, leads to. -/
inductive Event (κ : Type) where
  /-- An option without argument. -/
  | switched (purpose : κ)
  /-- An option with its argument. -/
  | given (f : Flag κ) (argument : String)
  | operand (text : String)
  /-- A command with the words that are left to it. -/
  | command (word : String) (rest : List String)
  /-- A word without a meaning. -/
  | stray (text : String)
  | refused (reason : Misuse)

/-- Which operands are expected. -/
inductive Expected where
  /-- A command, which takes all the words that follow. -/
  | command
  /-- One operand. -/
  | operand
  /-- No operand; the last word was the one expected. -/
  | filled
  /-- No operand. -/
  | nothing

/-- What is expected after one more word. -/
def Expected.later : Expected -> Expected
  | .filled => .nothing
  | e => e

/-- What a word that is no option leads to, and what is expected after it. -/
def Event.ofOperand (text : String) : Expected -> Event κ × Expected
  | .operand => (.operand text, .filled)
  | _ => (.stray text, .nothing)

/-- What happens along the words.  An option may wait for the next word as its argument.  A
separator is passed over in front of the expected operand and right after it. -/
def events (flags : List (Flag κ)) :
    (waiting : Option (Flag κ)) -> Expected -> List (String × Word κ) -> List (Event κ)
  | some f, e, (text, .operand) :: rest => .given f text :: events flags none e rest
  | some f, _, _ => [.refused (.missingArgument f.label)]
  | none, _, [] => []
  | none, e, (_, .flag use) :: rest =>
      let e := e.later
      match use.expand flags with
      | .error reason => [.refused reason]
      | .ok (passed, ending) =>
          let before := passed.map fun f => Event.switched f.purpose
          match ending with
          | .stray text => before ++ .stray text :: events flags none e rest
          | .flag f (some argument) => before ++ .given f argument :: events flags none e rest
          | .flag f none =>
              if f.takesArgument then before ++ events flags (some f) e rest
              else before ++ .switched f.purpose :: events flags none e rest
  | none, e, (text, .unknown) :: rest => .stray text :: events flags none e.later rest
  | none, .command, (text, .operand) :: rest => [.command text (rest.map (·.1))]
  | none, .command, (text, .separator) :: rest =>
      if rest.isEmpty then [.stray text] else [.command text (rest.map (·.1))]
  | none, e, (text, .operand) :: rest =>
      let (event, e) := Event.ofOperand text e
      event :: events flags none e rest
  | none, .operand, (text, .separator) :: rest =>
      if rest.isEmpty then [.stray text] else events flags none .operand rest
  | none, .filled, (_, .separator) :: rest => events flags none .nothing rest
  | none, .nothing, (text, .separator) :: rest => .stray text :: events flags none .nothing rest

/-- What happens along a command line. -/
def readEvents (flags : List (Flag κ)) (expected : Expected) (texts : List String) :
    Except Misuse (List (Event κ)) := do
  return events flags none expected (<- readWords flags texts)

end ArcSelection.CommandLine
