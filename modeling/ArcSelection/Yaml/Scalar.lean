import ArcSelection.Yaml.Cursor

/-!
# The text of scalars

A scalar is written plainly, between quotes, or as a block of indented lines.  Each of the
readers below starts at the scalar and returns its text and the place after it.  Readers
that go through several lines are cut off at a number of steps, which is never reached
because every step passes over a character.
-/

namespace ArcSelection.Yaml

/-! ## Quoted scalars -/

/-- The character a short escape stands for. -/
def escapeOf? : Char -> Option Char
  | '0' => some '\x00'
  | 'a' => some '\x07'
  | 'b' => some '\x08'
  | 't' => some '\t'
  | '\t' => some '\t'
  | 'n' => some '\n'
  | 'v' => some '\x0b'
  | 'f' => some '\x0c'
  | 'r' => some '\r'
  | 'e' => some '\x1b'
  | ' ' => some ' '
  | '"' => some '"'
  | '\\' => some '\\'
  | '/' => some '/'
  | 'N' => some (Char.ofNat 0x85)
  | '_' => some (Char.ofNat 0xA0)
  | 'L' => some (Char.ofNat 0x2028)
  | 'P' => some (Char.ofNat 0x2029)
  | _ => none

/-- The number of hexadecimal digits of an escape by code point. -/
def escapeWidth? : Char -> Option Nat
  | 'x' => some 2
  | 'u' => some 4
  | 'U' => some 8
  | _ => none

/-- The value of a hexadecimal digit. -/
def hexValue? (c : Char) : Option Nat :=
  if '0' ≤ c && c ≤ '9' then some (c.toNat - '0'.toNat)
  else if 'a' ≤ c && c ≤ 'f' then some (c.toNat - 'a'.toNat + 10)
  else if 'A' ≤ c && c ≤ 'F' then some (c.toNat - 'A'.toNat + 10)
  else none

/-- The character written by a number of hexadecimal digits. -/
def coded (width : Nat) (cs : List Char) : Reading Char :=
  match (cs.take width).mapM hexValue? with
  | some ds =>
      if ds.length < width then malformed
      else
        let code := ds.foldl (fun n d => 16 * n + d) 0
        if code ≥ Nat.pow 2 31 then .error .tooLarge
        else if code > 0x10FFFF then .error .noSuchCharacter
        else if code.isValidChar then .ok (Char.ofNat code)
        else .ok (Char.ofNat 0xFFFD)
  | none => malformed

/-- The line breaks that go on in a quoted scalar, without the blanks around them. -/
def quotedBreaks : (fuel : Nat) -> Cursor -> Reading (List Char × Cursor)
  | 0, _ => malformed
  | fuel + 1, c =>
      if c.atMark then malformed
      else
        let c := c.skipWhile fun ch => ch == ' ' || ch == '\t'
        if isBreak c.peek then do
          let (first, c) := c.takeBreak
          let (others, c) <- quotedBreaks fuel c
          return (first ++ others, c)
        else .ok ([], c)

/-- What the blanks inside a quoted scalar stand for. -/
def quotedGap (fuel : Nat) (c : Cursor) : Reading (List Char × Cursor) := do
  let (blanks, c) := c.takeWhile fun ch => ch == ' ' || ch == '\t'
  if c.peek == endChar then malformed
  else if isBreak c.peek then
    let (first, c) := c.takeBreak
    let (others, c) <- quotedBreaks fuel c
    return (joinLines first others, c)
  else return (blanks, c)

/-- Whether a character has no meaning of its own between quotes. -/
def isOrdinary (ch : Char) : Bool := !(ch == '\'' || ch == '"' || ch == '\\' || isGap ch)

/-- The text of a quoted scalar up to a blank or the closing quote. -/
def quotedRun (double : Bool) : (fuel : Nat) -> Cursor -> Reading (List Char × Cursor)
  | 0, _ => malformed
  | fuel + 1, c =>
      let (run, c) := c.takeWhile isOrdinary
      let goOn := fun (text : List Char) (c : Cursor) => do
        let (more, c) <- quotedRun double fuel c
        return (run ++ text ++ more, c)
      let ch := c.peek
      if double then
        if ch == '\'' then goOn ['\''] c.advance
        else if ch == '\\' then do
          let c := c.advance
          match escapeOf? c.peek, escapeWidth? c.peek with
          | some e, _ => goOn [e] c.advance
          | none, some width =>
              let e <- coded width c.advance.rest
              goOn [e] (c.advanceBy (width + 1))
          | none, none =>
              if isBreak c.peek then
                let (breaks, c) <- quotedBreaks (c.rest.length + 1) c.takeBreak.2
                goOn breaks c
              else malformed
        else .ok (run, c)
      else if ch == '\'' && c.peekAt 1 == '\'' then goOn ['\''] (c.advanceBy 2)
      else if ch == '"' || ch == '\\' then goOn [ch] c.advance
      else .ok (run, c)

/-- The text of a quoted scalar up to its closing quote, and the place after that. -/
def quotedRest (double : Bool) : (fuel : Nat) -> Cursor -> Reading (List Char × Cursor)
  | 0, _ => malformed
  | fuel + 1, c => do
      let (run, c) <- quotedRun double (c.rest.length + 1) c
      if c.peek == (if double then '"' else '\'') then return (run, c.advance)
      else
        let (gap, c) <- quotedGap (c.rest.length + 1) c
        let (more, c) <- quotedRest double fuel c
        return (run ++ gap ++ more, c)

/-- A quoted scalar. -/
def quotedScalar (double : Bool) (c : Cursor) : Reading (String × Cursor) := do
  let (text, c) <- quotedRest double (c.rest.length + 1) c.advance
  return (String.ofList text, c)

/-! ## Plain scalars -/

/-- Whether a plain scalar stops before a character that is followed by another. -/
def stopsPlain (inFlow : Bool) (ch next : Char) : Bool :=
  isGap ch || (ch == ':' && (isGap next || (inFlow && ",[]\x7b\x7d".toList.contains next))) ||
    (inFlow && ",?[]\x7b\x7d".toList.contains ch)

/-- The longest part of a line that belongs to a plain scalar and holds no blank. -/
def plainRun (inFlow : Bool) : List Char -> List Char
  | [] => []
  | ch :: rest =>
      if stopsPlain inFlow ch (rest.head?.getD endChar) then []
      else ch :: plainRun inFlow rest

/-- The line breaks that go on in a plain scalar; nothing if the document ends there. -/
def plainBreaks : (fuel : Nat) -> Cursor -> Option (List Char) × Cursor
  | 0, c => (none, c)
  | fuel + 1, c =>
      if c.peek == ' ' then plainBreaks fuel c.advance
      else if isBreak c.peek then
        let (first, c) := c.takeBreak
        if c.atMark then (none, c)
        else
          let (others, c) := plainBreaks fuel c
          (others.map (first ++ ·), c)
      else (some [], c)

/-- What the blanks after a part of a plain scalar stand for, whether there was a line
break, and the place after them. -/
def plainGap (c : Cursor) : List Char × Bool × Cursor :=
  let (blanks, c) := c.takeWhile (· == ' ')
  if isBreak c.peek then
    let (first, c) := c.takeBreak
    if c.atMark then ([], true, c)
    else
      match plainBreaks (c.rest.length + 1) c with
      | (some others, c) => (joinLines first others, true, c)
      | (none, c) => ([], true, c)
  else (blanks, false, c)

/-- A plain scalar in pieces: its text, whether the last gap had a line break, and the
place after it.  It goes on after a gap unless the next line is indented too little. -/
def plainRest (inFlow : Bool) (indent : Int) :
    (fuel : Nat) -> (gap : List Char) -> (broke : Bool) -> Cursor ->
      List Char × Bool × Cursor
  | 0, _, broke, c => ([], broke, c)
  | fuel + 1, gap, broke, c =>
      let run := if c.peek == '#' then [] else plainRun inFlow c.rest
      if run.isEmpty then ([], broke, c)
      else
        let (next, broke, c) := plainGap (c.advanceBy run.length)
        if next.isEmpty || c.peek == '#' || (!inFlow && (c.column : Int) < indent) then
          (gap ++ run, broke, c)
        else
          let (more, broke, c) := plainRest inFlow indent fuel next broke c
          (gap ++ run ++ more, broke, c)

/-- A plain scalar, whether a line break follows it, and the place after it. -/
def plainScalar (inFlow : Bool) (indent : Int) (c : Cursor) : String × Bool × Cursor :=
  let (text, broke, c) := plainRest inFlow (indent + 1) (c.rest.length + 1) [] false c
  (String.ofList text, broke, c)

/-! ## Block scalars -/

/-- What happens to the line breaks at the end of a block: all go, one stays, or all
stay. -/
inductive Chomping where
  | strip
  | clip
  | keep
deriving DecidableEq

/-- The header of a block: its chomping and its indentation, if they are given. -/
def blockHeader (c : Cursor) : Reading (Option Chomping × Option Nat × Cursor) := do
  let chomping? (ch : Char) : Option Chomping :=
    if ch == '+' then some .keep else if ch == '-' then some .strip else none
  let digit? (ch : Char) : Option Nat :=
    if ch.isDigit then some (ch.toNat - '0'.toNat) else none
  let (chomping, indent, c) := match chomping? c.peek, digit? c.peek with
    | some k, _ =>
        match digit? c.advance.peek with
        | some d => (some k, some d, c.advanceBy 2)
        | none => (some k, none, c.advance)
    | none, some d =>
        match chomping? c.advance.peek with
        | some k => (some k, some d, c.advanceBy 2)
        | none => (none, some d, c.advance)
    | none, none => (none, none, c)
  if indent == some 0 then malformed
  else if isLineEnd c.peek || c.peek == ' ' then return (chomping, indent, c)
  else malformed

/-- The empty lines in front of a block, and the greatest indentation among them and the
first line that is not empty. -/
def blockIndentation : (fuel : Nat) -> (most : Nat) -> Cursor -> List Char × Nat × Cursor
  | 0, most, c => ([], most, c)
  | fuel + 1, most, c =>
      if c.peek == ' ' then
        let c := c.advance
        blockIndentation fuel (max most c.column) c
      else if isBreak c.peek then
        let (first, c) := c.takeBreak
        let (others, most, c) := blockIndentation fuel most c
        (first ++ others, most, c)
      else ([], most, c)

/-- The empty lines inside a block of a known indentation. -/
def blockBreaks (indent : Nat) : (fuel : Nat) -> Cursor -> List Char × Cursor
  | 0, c => ([], c)
  | fuel + 1, c =>
      let c := c.indentTo indent
      if isBreak c.peek then
        let (first, c) := c.takeBreak
        let (others, c) := blockBreaks indent fuel c
        (first ++ others, c)
      else ([], c)

/-- The lines of a block after some empty lines: its text, its last line break, the empty
lines after it, and the place after those. -/
def blockLines (folded : Bool) (indent : Nat) :
    (fuel : Nat) -> (breaks last : List Char) -> Cursor ->
      List Char × List Char × List Char × Cursor
  | 0, breaks, last, c => ([], last, breaks, c)
  | fuel + 1, breaks, last, c =>
      if c.column = indent && c.peek != endChar then
        let isBlank (ch : Char) : Bool := ch == ' ' || ch == '\t'
        let flush := !isBlank c.peek
        let (run, c) := c.takeWhile fun ch => !isLineEnd ch
        let (ending, c) := c.takeBreak
        let (next, c) := blockBreaks indent (c.rest.length + 1) c
        if c.column = indent && c.peek != endChar then
          let joined :=
            if folded && ending == ['\n'] && flush && !isBlank c.peek then
              if next.isEmpty then [' '] else []
            else ending
          let (more, last, after, c) := blockLines folded indent fuel next ending c
          (breaks ++ run ++ joined ++ more, last, after, c)
        else (breaks ++ run, ending, next, c)
      else ([], last, breaks, c)

/-- A block scalar inside a level of indentation. -/
def blockScalar (folded : Bool) (level : Int) (c : Cursor) : Reading (String × Cursor) := do
  let (chomping, increment, c) <- blockHeader c.advance
  let c <- c.finishLine
  let least := (max (level + 1) 1).toNat
  let (breaks, indent, c) := match increment with
    | none =>
        let (breaks, most, c) := blockIndentation (c.rest.length + 1) 0 c
        (breaks, max least most, c)
    | some increment =>
        let indent := least + increment - 1
        let (breaks, c) := blockBreaks indent (c.rest.length + 1) c
        (breaks, indent, c)
  let (text, last, after, c) := blockLines folded indent (c.rest.length + 1) breaks [] c
  let ending := match chomping with
    | some .strip => []
    | none | some .clip => last
    | some .keep => last ++ after
  return (String.ofList (text ++ ending), c)

end ArcSelection.Yaml
