import ArcSelection.Fault

/-!
# Places in a document

A cursor is a place in the text of a document: what is left of it, and the index, line and
column of the place.  The end of the text is seen as a null character, which no document
may hold.
-/

namespace ArcSelection.Yaml

/-- The reading of a part of a document; a part that breaks a rule is a fault. -/
abbrev Reading (β : Type) := Except Fault β

/-- The failure of a document that breaks a rule. -/
def malformed {β : Type} : Reading β := .error .invalidDocument

/-- The character that stands for the end. -/
def endChar : Char := '\x00'

/-- The characters that break a line. -/
def isBreak (c : Char) : Bool :=
  c == '\n' || c == '\r' || c.toNat == 0x85 || c.toNat == 0x2028 || c.toNat == 0x2029

/-- Whether a line ends here. -/
def isLineEnd (c : Char) : Bool := c == endChar || isBreak c

/-- Whether a word ends here: at a space, a tab or the end of a line. -/
def isGap (c : Char) : Bool := isLineEnd c || c == ' ' || c == '\t'

/-- A place in a text. -/
structure Cursor where
  rest : List Char
  index : Nat
  line : Nat
  column : Nat

namespace Cursor

/-- The start of a text. -/
def start (cs : List Char) : Cursor := ⟨cs, 0, 0, 0⟩

/-- The character some way ahead. -/
def peekAt (c : Cursor) (k : Nat) : Char := (c.rest[k]?).getD endChar

/-- The character here. -/
def peek (c : Cursor) : Char := c.peekAt 0

/-- Whether a text stands here. -/
def sees (c : Cursor) (s : String) : Bool := s.toList.isPrefixOf c.rest

/-- One character on.  A return followed by a newline does not end the line yet. -/
def advance (c : Cursor) : Cursor :=
  match c.rest with
  | [] => c
  | ch :: rest =>
      if isBreak ch && !(ch == '\r' && rest.head? == some '\n') then
        ⟨rest, c.index + 1, c.line + 1, 0⟩
      else if ch.toNat = 0xFEFF then ⟨rest, c.index + 1, c.line, c.column⟩
      else ⟨rest, c.index + 1, c.line, c.column + 1⟩

/-- Some characters on. -/
def advanceBy (c : Cursor) : (count : Nat) -> Cursor
  | 0 => c
  | count + 1 => c.advance.advanceBy count

/-- The characters from here on that pass a test, and the place after them. -/
def takeWhile (c : Cursor) (test : Char -> Bool) : List Char × Cursor :=
  let run := c.rest.takeWhile test
  (run, c.advanceBy run.length)

/-- The place after the characters that pass a test. -/
def skipWhile (c : Cursor) (test : Char -> Bool) : Cursor := (c.takeWhile test).2

/-- The place after the spaces. -/
def skipSpaces (c : Cursor) : Cursor := c.skipWhile (· == ' ')

/-- The place after at most so many spaces that a column is reached. -/
def indentTo (c : Cursor) (column : Nat) : Cursor :=
  let spaces := (c.rest.takeWhile (· == ' ')).length
  c.advanceBy (min spaces (column - c.column))

/-- The line break here as it counts in a text, nothing if there is none, and the place
after it. -/
def takeBreak (c : Cursor) : List Char × Cursor :=
  let ch := c.peek
  if ch == '\r' && c.peekAt 1 == '\n' then (['\n'], c.advanceBy 2)
  else if ch.toNat = 0x2028 || ch.toNat = 0x2029 then ([ch], c.advance)
  else if isBreak ch then (['\n'], c.advance)
  else ([], c)

/-- Whether the mark of the start or end of a document stands here. -/
def atMark (c : Cursor) : Bool := (c.sees "---" || c.sees "...") && isGap (c.peekAt 3)

/-- The place after the spaces and the comment of a line, and after its break; nothing
else may stand in the line. -/
def finishLine (c : Cursor) : Reading Cursor :=
  let c := c.skipSpaces
  let c := if c.peek == '#' then c.skipWhile fun ch => !isLineEnd ch else c
  if isLineEnd c.peek then .ok c.takeBreak.2 else malformed

end Cursor

/-- What a broken line becomes when lines are joined: a single break is a space, and more
breaks are all but the first. -/
def joinLines (first others : List Char) : List Char :=
  (if first != ['\n'] then first else if others.isEmpty then [' '] else []) ++ others

end ArcSelection.Yaml
