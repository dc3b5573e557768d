import ArcSelection.Value.Display

/-!
# Values as JSON

A value is written over several lines, indented by two spaces for each level, in ASCII.
Texts escape quotes, backslashes and control characters; a character outside ASCII is
written by its UTF-16 units.  Floats have their shortest form, and the ones that are no
finite numbers are written by name.  Anything that JSON has no form for becomes a text.
-/

namespace ArcSelection.Json

/-- An escape by a 16-bit unit. -/
def unitEscape (n : Nat) : List Char := '\\' :: 'u' :: Text.hexDigits 4 n

/-- The UTF-16 units of a character. -/
def units (c : Char) : List Nat :=
  let n := c.toNat
  if n < 0x10000 then [n]
  else [0xD800 + (n - 0x10000) / 0x400, 0xDC00 + (n - 0x10000) % 0x400]

/-- A character inside a text. -/
def escaped (c : Char) : List Char :=
  if c = '"' || c = '\\' then ['\\', c]
  else if c = '\n' then ['\\', 'n']
  else if c = '\r' then ['\\', 'r']
  else if c = '\t' then ['\\', 't']
  else if c = '\x08' then ['\\', 'b']
  else if c = '\x0c' then ['\\', 'f']
  else if ' ' ≤ c && c ≤ '~' then [c]
  else (units c).flatMap unitEscape

/-- A text between quotes. -/
def quoted (s : String) : String :=
  "\"" ++ String.ofList (s.toList.flatMap escaped) ++ "\""

/-- A float: its shortest form, or its name. -/
def number (x : Float) : String :=
  if x.isNaN then "NaN"
  else if x.isInf then (if x < 0.0 then "-Infinity" else "Infinity")
  else Decimal.plain x

/-- A line break with the indentation of a level. -/
def newline (level : Nat) : String := "\n" ++ String.ofList (List.replicate (2 * level) ' ')

/-- The members of a list or an object between brackets, each on a line of its own. -/
def bracketed (first last : String) (level : Nat) (members : List String) : String :=
  if members.isEmpty then first ++ last
  else
    first ++ newline (level + 1) ++ String.intercalate ("," ++ newline (level + 1)) members ++
      newline level ++ last

mutual

/-- The text of a value at a level. -/
def ofValue (level : Nat) : Value -> String
  | .null => "null"
  | .bool b => if b then "true" else "false"
  | .int n => toString n
  | .float x => number x
  | .list items | .tuple items => bracketed "[" "]" level (ofItems (level + 1) items)
  | .map entries => bracketed "\x7b" "\x7d" level (ofEntries (level + 1) entries)
  | v => quoted v.plainText

/-- The texts of the items of a list. -/
def ofItems (level : Nat) : List Value -> List String
  | [] => []
  | v :: rest => ofValue level v :: ofItems level rest

/-- The texts of the entries of an object. -/
def ofEntries (level : Nat) : List (Value × Value) -> List String
  | [] => []
  | (k, v) :: rest =>
      (quoted k.plainText ++ ": " ++ ofValue level v) :: ofEntries level rest

end

end ArcSelection.Json
