import ArcSelection.CommandLine.Usage
import ArcSelection.Text.Digit

/-!
# The words of a command line

A word is an option, the separator of options and operands, or an operand.  Options begin
with a dash.  A long option may be shortened to a beginning that no other option has, and
its argument may follow an equals sign; the letter of a short option may be followed by an
argument or by the letters of more options.  Letters that name no option are left over.
-/

namespace ArcSelection.CommandLine

/-- An option: its names, whether it takes an argument, and what it is for. -/
structure Flag (κ : Type) where
  names : List String
  takesArgument : Bool
  purpose : κ

/-- What follows a name in the same word. -/
inductive Attached where
  | nothing
  /-- Text after an equals sign. -/
  | assigned (text : List Char)
  /-- Text without a mark in front. -/
  | letters (text : List Char)

/-- An option as it is written: one of its names, and what is attached to it. -/
structure FlagUse (κ : Type) where
  flag : Flag κ
  name : List Char
  attached : Attached

/-- A word of a command line. -/
inductive Word (κ : Type) where
  | flag (use : FlagUse κ)
  | unknown
  | separator
  | operand

variable {κ : Type}

namespace Flag

/-- The names of an option as they appear in complaints. -/
def label (f : Flag κ) : String := String.intercalate "/" f.names

/-- Every name of every option, without arguments. -/
def uses (flags : List (Flag κ)) : List (FlagUse κ) :=
  flags.flatMap fun f => f.names.map fun n => ⟨f, n.toList, .nothing⟩

/-- The option with a name. -/
def find? (flags : List (Flag κ)) (name : List Char) : Option (FlagUse κ) :=
  (uses flags).find? fun u => u.name == name

/-- A word cut at its first equals sign. -/
def cut (word : List Char) : List Char × Attached :=
  match word.dropWhile (· != '=') with
  | [] => (word, .nothing)
  | _ :: text => (word.takeWhile (· != '='), .assigned text)

/-- The options that a shortened word may stand for. -/
def expansions (flags : List (Flag κ)) (word : List Char) : List (FlagUse κ) :=
  match word with
  | '-' :: '-' :: _ =>
      let (start, attached) := cut word
      ((uses flags).filter fun u => start.isPrefixOf u.name).map fun u =>
        { u with attached }
  | '-' :: letter :: tail =>
      ((uses flags).filter fun u => u.name == ['-', letter]).map fun u =>
        { u with attached := .letters tail }
  | _ => []

end Flag

/-- Whether a word is a negative number without exponent; a line break may follow it. -/
def isNegativeNumber (word : List Char) : Bool :=
  let isDigit (c : Char) : Bool := (Text.digitValue? c).isSome
  let word := if word.getLast? == some '\n' then word.dropLast else word
  match word with
  | '-' :: digits =>
      match digits.dropWhile isDigit with
      | [] => !digits.isEmpty
      | '.' :: places => !places.isEmpty && places.all isDigit
      | _ => false
  | _ => false

/-- What a word before the separator is. -/
def readWord (flags : List (Flag κ)) (text : String) : Except Misuse (Word κ) :=
  let word := text.toList
  if word.head? != some '-' then .ok .operand
  else
    match Flag.find? flags word with
    | some use => .ok (.flag use)
    | none =>
        if word.length = 1 then .ok .operand
        else
          match Flag.cut word with
          | (_, .nothing) => shortened word
          | (name, attached) =>
              match Flag.find? flags name with
              | some use => .ok (.flag { use with attached })
              | none => shortened word
where
  /-- What a word is that has no full name of an option in front. -/
  shortened (word : List Char) : Except Misuse (Word κ) :=
    match Flag.expansions flags word with
    | [use] => .ok (.flag use)
    | [] => .ok (if isNegativeNumber word || word.contains ' ' then .operand else .unknown)
    | uses => .error (.ambiguous text (uses.map fun u => String.ofList u.name))

/-- The words of a command line with their texts.  After the separator every word is an
operand. -/
def readWords (flags : List (Flag κ)) :
    List String -> Except Misuse (List (String × Word κ))
  | [] => .ok []
  | text :: rest =>
      if text == "--" then .ok ((text, .separator) :: rest.map fun t => (t, .operand))
      else do
        let word <- readWord flags text
        return (text, word) :: (<- readWords flags rest)

/-- How a word ends after the options without an argument that it begins with. -/
inductive Ending (κ : Type) where
  /-- One more option, with the argument that the word holds. -/
  | flag (f : Flag κ) (argument : Option String)
  /-- Letters that name no option. -/
  | stray (text : String)

/-- The argument that is attached to an option, which must take one. -/
def assign (f : Flag κ) (argument : List Char) : Except Misuse (List (Flag κ) × Ending κ) :=
  let text := String.ofList argument
  if f.takesArgument then .ok ([], .flag f (some text))
  else .error (.unwantedArgument f.label text)

/-- The options named by the letters after an option. -/
def unpack (flags : List (Flag κ)) (f : Flag κ) :
    (letters : List Char) -> Except Misuse (List (Flag κ) × Ending κ)
  | [] => .ok ([], .flag f none)
  | letter :: rest =>
      if f.takesArgument || letter == '-' then assign f (letter :: rest)
      else
        match Flag.find? flags ['-', letter], rest with
        | none, _ => .ok ([f], .stray (String.ofList ('-' :: letter :: rest)))
        | some next, '=' :: argument => do
            let (fs, ending) <- assign next.flag argument
            return (f :: fs, ending)
        | some next, _ => do
            let (fs, ending) <- unpack flags next.flag rest
            return (f :: fs, ending)

/-- The options that a use stands for, in order, and how its word ends. -/
def FlagUse.expand (flags : List (Flag κ)) (u : FlagUse κ) :
    Except Misuse (List (Flag κ) × Ending κ) :=
  match u.attached with
  | .nothing => .ok ([], .flag u.flag none)
  | .assigned argument => assign u.flag argument
  | .letters text => unpack flags u.flag text

end ArcSelection.CommandLine
