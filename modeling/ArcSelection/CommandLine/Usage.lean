import ArcSelection.Text.Quoted

/-!
# How the program is called

The program has two commands.  This module holds the help texts and what can be wrong with
a command line.
-/

namespace ArcSelection.CommandLine

/-- What a help text or a complaint is about. -/
inductive Topic where
  | program
  | solve
  | matching
deriving DecidableEq

/-- The words that name the commands. -/
def commandWords : List String := ["solve", "match"]

/-- The commands as one placeholder. -/
def commandPlaceholder : String := "\x7b" ++ String.intercalate "," commandWords ++ "\x7d"

namespace Topic

/-- The words that call a topic. -/
def call : Topic -> String
  | .program => "optgraph"
  | .solve => "optgraph solve"
  | .matching => "optgraph match"

/-- How a topic is called. -/
def usage : Topic -> String
  | .program =>
      "usage: optgraph [-h] [--verbose] [--quiet] " ++ commandPlaceholder ++ " ...\n"
  | .solve => "usage: optgraph solve [-h] [--json] problem\n"
  | .matching =>
      "usage: optgraph match [-h] [--cost-attr COST_ATTR] [--min-size MIN_SIZE]\n" ++
      "                      [--max-size MAX_SIZE] [--maximum] [--json]\n" ++
      "                      graph\n"

/-- What the words of a call mean. -/
def explanation : Topic -> String
  | .program =>
      "Solve degree-constrained optimal subgraph and matching problems.\n" ++
      "\n" ++
      "options:\n" ++
      "  -h, --help     show this help message and exit\n" ++
      "  --verbose, -v  Enable debug logging\n" ++
      "  --quiet        Only log warnings and errors\n" ++
      "\n" ++
      "Available commands:\n" ++
      "  " ++ commandPlaceholder ++ "  Available commands\n" ++
      "    solve        Solve an optimal subgraph problem file\n" ++
      "    match        Find a matching in a GraphML graph\n"
  | .solve =>
      "positional arguments:\n" ++
      "  problem     Path to problem YAML\n" ++
      "\n" ++
      "options:\n" ++
      "  -h, --help  show this help message and exit\n" ++
      "  --json      Print the result as JSON\n"
  | .matching =>
      "positional arguments:\n" ++
      "  graph                 Path to GraphML file\n" ++
      "\n" ++
      "options:\n" ++
      "  -h, --help            show this help message and exit\n" ++
      "  --cost-attr COST_ATTR\n" ++
      "                        Edge attribute holding the arc cost (default: cost)\n" ++
      "  --min-size MIN_SIZE   Minimum number of matched arcs\n" ++
      "  --max-size MAX_SIZE   Maximum number of matched arcs\n" ++
      "  --maximum             Maximize the number of matched arcs instead of\n" ++
      "                        minimizing cost\n" ++
      "  --json                Print the result as JSON\n"

/-- The help text of a topic. -/
def help (t : Topic) : String := t.usage ++ "\n" ++ t.explanation

end Topic

/-- What is wrong with a command line. -/
inductive Misuse where
  /-- A word that may stand for several options. -/
  | ambiguous (word : String) (names : List String)
  /-- An argument written to an option that takes none. -/
  | unwantedArgument (option : String) (argument : String)
  /-- An option without the argument it takes. -/
  | missingArgument (option : String)
  /-- An argument that should be an integer. -/
  | notInteger (option : String) (argument : String)
  /-- A word in the place of a command that names none. -/
  | unknownCommand (word : String)
  /-- Something that has to be given. -/
  | missing (name : String)
  /-- Words that have no meaning. -/
  | unrecognized (words : List String)

namespace Misuse

/-- A complaint about one argument. -/
def about (argument complaint : String) : String :=
  "argument " ++ argument ++ ": " ++ complaint

/-- The wording of a complaint. -/
def message : Misuse -> String
  | .ambiguous word names =>
      "ambiguous option: " ++ word ++ " could match " ++ String.intercalate ", " names
  | .unwantedArgument option argument =>
      about option ("ignored explicit argument " ++ Text.quoted argument)
  | .missingArgument option => about option "expected one argument"
  | .notInteger option argument =>
      about option ("invalid int value: " ++ Text.quoted argument)
  | .unknownCommand word =>
      about commandPlaceholder ("invalid choice: " ++ Text.quoted word ++ " (choose from " ++
        String.intercalate ", " (commandWords.map Text.quoted) ++ ")")
  | .missing name => "the following arguments are required: " ++ name
  | .unrecognized words => "unrecognized arguments: " ++ String.intercalate " " words

end Misuse

/-- What is printed for a complaint: how the topic is called, and what is wrong. -/
def Topic.complaint (t : Topic) (m : Misuse) : String :=
  t.usage ++ t.call ++ ": error: " ++ m.message ++ "\n"

end ArcSelection.CommandLine
