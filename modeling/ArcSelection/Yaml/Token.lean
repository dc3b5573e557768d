import ArcSelection.Yaml.Scalar

/-!
# Tokens of a document

A document is cut into tokens.  Outside brackets the indentation of lines opens and closes
blocks.  A colon makes a key of the scalar or collection in front of it, so the scanner
remembers where the latest possible key of each bracket level began, and puts the key
token there when the colon comes.
-/

namespace ArcSelection.Yaml

/-- A line of instructions in front of a document. -/
inductive Directive where
  | version (major : Nat)
  | tagHandle (handle meaning : String)
  | other

/-- A piece of a document. -/
inductive Token where
  | directive (d : Directive)
  | documentStart
  | documentEnd
  | blockSequenceStart
  | blockMappingStart
  | blockEnd
  | flowSequenceStart
  | flowSequenceEnd
  | flowMappingStart
  | flowMappingEnd
  | blockEntry
  | flowEntry
  | key
  | value
  | alias (name : String)
  | anchor (name : String)
  | tag (handle : Option String) (rest : String)
  | scalar (text : String) (isPlain : Bool)

/-- The characters of names of anchors, handles and directives. -/
def isWordChar (c : Char) : Bool := c.isAlphanum || c == '-' || c == '_'

/-- The characters of tags besides letters and digits. -/
def isTagChar (c : Char) : Bool :=
  c.isAlphanum || "-;/?:@&=+$,_.!~*'()[]%".toList.contains c

/-- The bytes written by percent signs at the front of a text, and the rest. -/
def percentBytes : List Char -> Option (List UInt8 × List Char)
  | '%' :: a :: b :: rest => do
      let byte := 16 * (<- hexValue? a) + (<- hexValue? b)
      let (bytes, rest) <- percentBytes rest
      return (byte.toUInt8 :: bytes, rest)
  | '%' :: _ => none
  | rest => some ([], rest)

/-- A text with its percent signs replaced by the characters they encode. -/
def decodePercent : (fuel : Nat) -> List Char -> Option (List Char)
  | 0, _ => none
  | _, [] => some []
  | fuel + 1, '%' :: rest => do
      let (bytes, rest) <- percentBytes ('%' :: rest)
      let text <- String.fromUTF8? ⟨bytes.toArray⟩
      return text.toList ++ (<- decodePercent fuel rest)
  | fuel + 1, c :: rest => (decodePercent fuel rest).map (c :: ·)

/-- A tag text, which may not be empty. -/
def scanTagText (c : Cursor) : Reading (String × Cursor) :=
  let (raw, c) := c.takeWhile isTagChar
  match raw.isEmpty, decodePercent (raw.length + 1) raw with
  | false, some text => .ok (String.ofList text, c)
  | _, _ => malformed

/-- The handle of a tag: an exclamation mark, or a word between two. -/
def scanTagHandle (c : Cursor) : Reading (String × Cursor) :=
  if c.peek != '!' then malformed
  else
    let (word, after) := c.advance.takeWhile isWordChar
    if after.peek == '!' then .ok ("!" ++ String.ofList word ++ "!", after.advance)
    else if c.peekAt 1 == ' ' then .ok ("!", c.advance)
    else malformed

/-- The name of an anchor or alias. -/
def scanAnchor (c : Cursor) : Reading (String × Cursor) :=
  let (name, c) := c.advance.takeWhile isWordChar
  if name.isEmpty then malformed
  else if isGap c.peek || "?:,]\x7d%@\x60".toList.contains c.peek then
    .ok (String.ofList name, c)
  else malformed

/-- The handle and the rest of a tag. -/
def scanTag (c : Cursor) : Reading (Token × Cursor) := do
  let (token, c) <-
    if c.peekAt 1 == '<' then do
      let (text, c) <- scanTagText (c.advanceBy 2)
      if c.peek == '>' then pure (Token.tag none text, c.advance) else malformed
    else if isGap (c.peekAt 1) then pure (Token.tag none "!", c.advance)
    else do
      let word := c.advance.rest.takeWhile fun ch => !(isLineEnd ch || ch == ' ')
      let (handle, c) <- if word.contains '!' then scanTagHandle c else pure ("!", c.advance)
      let (text, c) <- scanTagText c
      pure (Token.tag (some handle) text, c)
  if isLineEnd c.peek || c.peek == ' ' then return (token, c) else malformed

/-- A number of a version. -/
def scanNumber (c : Cursor) : Reading (Nat × Cursor) :=
  let (digits, c) := c.takeWhile Char.isDigit
  if digits.isEmpty then malformed
  else .ok (digits.foldl (fun n d => 10 * n + (d.toNat - '0'.toNat)) 0, c)

/-- A directive line. -/
def scanDirective (c : Cursor) : Reading (Token × Cursor) := do
  let (name, c) := c.advance.takeWhile isWordChar
  let ends (c : Cursor) : Bool := isLineEnd c.peek || c.peek == ' '
  if name.isEmpty || !ends c then malformed
  else
    let (directive, c) <- match String.ofList name with
      | "YAML" => do
          let (major, c) <- scanNumber c.skipSpaces
          if c.peek != '.' then malformed
          else
            let (_, c) <- scanNumber c.advance
            if ends c then pure (Directive.version major, c) else malformed
      | "TAG" => do
          let (handle, c) <- scanTagHandle c.skipSpaces
          if c.peek != ' ' then malformed
          else
            let (meaning, c) <- scanTagText c.skipSpaces
            if ends c then pure (Directive.tagHandle handle meaning, c) else malformed
      | _ => pure (Directive.other, c.skipWhile fun ch => !isLineEnd ch)
    return (.directive directive, <- c.finishLine)

/-- The beginning of something that may turn out to be a key. -/
structure PossibleKey where
  /-- The number of tokens in front of it. -/
  position : Nat
  /-- Whether the block it stands in would be malformed if it were no key. -/
  isRequired : Bool
  index : Nat
  line : Nat
  column : Nat

/-- The state of the scanner. -/
structure Scanner where
  cursor : Cursor
  /-- How many brackets are open. -/
  flowLevel : Nat
  /-- The column of the innermost block, and those of the blocks around it. -/
  indent : Int
  indents : List Int
  /-- Whether a key may begin here. -/
  allowsKey : Bool
  /-- The possible keys by bracket level. -/
  keys : List (Nat × PossibleKey)
  /-- The tokens so far, the last one first. -/
  tokens : List Token

namespace Scanner

/-- The start of a document. -/
def start (cs : List Char) : Scanner := ⟨.start cs, 0, -1, [], true, [], []⟩

/-- Adds a token. -/
def push (s : Scanner) (t : Token) : Scanner := { s with tokens := t :: s.tokens }

/-- Puts tokens behind the first `position` ones. -/
def insertAt (s : Scanner) (position : Nat) (ts : List Token) : Scanner :=
  let later := s.tokens.length - position
  { s with tokens := s.tokens.take later ++ ts.reverse ++ s.tokens.drop later }

/-- Moves on to a place. -/
def goTo (s : Scanner) (c : Cursor) : Scanner := { s with cursor := c }

/-- Says whether a key may begin from here on. -/
def allow (s : Scanner) (b : Bool) : Scanner := { s with allowsKey := b }

/-- Whether brackets are open. -/
def inFlow (s : Scanner) : Bool := s.flowLevel != 0

/-- Gives up the possible key of this level, which must not be a required one. -/
def dropKey (s : Scanner) : Reading Scanner :=
  match s.keys.lookup s.flowLevel with
  | some k =>
      if k.isRequired then malformed
      else .ok { s with keys := s.keys.filter fun e => e.1 != s.flowLevel }
  | none => .ok s

/-- Remembers that a key may begin here. -/
def saveKey (s : Scanner) : Reading Scanner := do
  let c := s.cursor
  if s.allowsKey then
    let s <- s.dropKey
    let isRequired := !s.inFlow && s.indent == c.column
    let k : PossibleKey := ⟨s.tokens.length, isRequired, c.index, c.line, c.column⟩
    return { s with keys := (s.flowLevel, k) :: s.keys }
  else return s

/-- The longest key that needs no mark of its own. -/
def maxKeyLength : Nat := 1024

/-- Gives up the possible keys that began too far back; a key stays within its line. -/
def dropStaleKeys (s : Scanner) : Reading Scanner :=
  let isStale (k : PossibleKey) : Bool :=
    k.line != s.cursor.line || s.cursor.index - k.index > maxKeyLength
  if s.keys.any fun e => isStale e.2 && e.2.isRequired then malformed
  else .ok { s with keys := s.keys.filter fun e => !isStale e.2 }

/-- Closes the blocks that begin to the right of a column. -/
def closeBlocks (s : Scanner) (column : Int) : Scanner :=
  if s.inFlow then s
  else
    let blocks := (s.indent :: s.indents).dropWhile (· > column)
    let closed := s.indents.length + 1 - blocks.length
    { s with
      indent := blocks.headD (-1)
      indents := blocks.tail
      tokens := List.replicate closed Token.blockEnd ++ s.tokens }

/-- Opens a block at a column, unless one is open there. -/
def openBlock? (s : Scanner) (column : Nat) : Option Scanner :=
  if s.indent < column then
    some { s with indent := column, indents := s.indent :: s.indents }
  else none

/-- Opens a block at a column with a token, unless one is open there. -/
def openWith (s : Scanner) (column : Nat) (t : Token) : Scanner :=
  match s.openBlock? column with
  | some s => s.push t
  | none => s

/-- Passes over blanks, comments and line breaks.  After a line break outside brackets a
key may begin. -/
def skipToToken : (fuel : Nat) -> Scanner -> Scanner
  | 0, s => s
  | fuel + 1, s =>
      let c := s.cursor.skipSpaces
      let c := if c.peek == '#' then c.skipWhile fun ch => !isLineEnd ch else c
      if isBreak c.peek then
        skipToToken fuel ((s.goTo c.takeBreak.2).allow (s.allowsKey || !s.inFlow))
      else s.goTo c

/-- Scans a line or mark that belongs to no document. -/
def outside (s : Scanner) (scan : Cursor -> Reading (Token × Cursor)) : Reading Scanner := do
  let s <- (s.closeBlocks (-1)).dropKey
  let (t, c) <- scan s.cursor
  return ((s.push t).goTo c).allow false

/-- Opens a bracket. -/
def openFlow (s : Scanner) (t : Token) : Reading Scanner := do
  let s <- s.saveKey
  return { ((s.push t).goTo s.cursor.advance).allow true with flowLevel := s.flowLevel + 1 }

/-- Closes a bracket; one must be open. -/
def closeFlow (s : Scanner) (t : Token) : Reading Scanner := do
  if !s.inFlow then malformed
  else
    let s <- s.dropKey
    return { ((s.push t).goTo s.cursor.advance).allow false with flowLevel := s.flowLevel - 1 }

/-- Scans one mark, after which a key may begin or not. -/
def mark (s : Scanner) (t : Token) (allowsKey : Bool) : Reading Scanner := do
  let s <- (s.allow allowsKey).dropKey
  return (s.push t).goTo s.cursor.advance

/-- Scans the mark of an entry. -/
def entry (s : Scanner) : Reading Scanner :=
  if s.inFlow then s.mark .blockEntry true
  else if !s.allowsKey then malformed
  else (s.openWith s.cursor.column .blockSequenceStart).mark .blockEntry true

/-- Scans the mark of a key. -/
def explicitKey (s : Scanner) : Reading Scanner :=
  if s.inFlow then s.mark .key false
  else if !s.allowsKey then malformed
  else (s.openWith s.cursor.column .blockMappingStart).mark .key true

/-- Scans the mark of a value.  If something that may be a key stands in front of it, that
becomes the key. -/
def valueMark (s : Scanner) : Reading Scanner :=
  match s.keys.lookup s.flowLevel with
  | some k =>
      let s := { s with keys := s.keys.filter fun e => e.1 != s.flowLevel }
      let s := s.insertAt k.position [.key]
      let s := if s.inFlow then s else
        match s.openBlock? k.column with
        | some s => s.insertAt k.position [.blockMappingStart]
        | none => s
      .ok ((s.allow false).push .value |>.goTo s.cursor.advance)
  | none =>
      if s.inFlow then s.mark .value false
      else if !s.allowsKey then malformed
      else (s.openWith s.cursor.column .blockMappingStart).mark .value true

/-- Scans something that may be part of a key. -/
def keyPart (s : Scanner) (scan : Cursor -> Reading (Token × Cursor)) : Reading Scanner := do
  let s <- s.saveKey
  let (t, c) <- scan s.cursor
  return ((s.push t).goTo c).allow false

/-- Scans a quoted scalar. -/
def quoted (s : Scanner) (double : Bool) : Reading Scanner :=
  s.keyPart fun c => do
    let (text, c) <- quotedScalar double c
    return (.scalar text false, c)

/-- Scans a plain scalar. -/
def plain (s : Scanner) : Reading Scanner := do
  let s <- s.saveKey
  let (text, broke, c) := plainScalar s.inFlow s.indent s.cursor
  return ((s.push (.scalar text true)).goTo c).allow broke

/-- Scans a block scalar. -/
def block (s : Scanner) (folded : Bool) : Reading Scanner := do
  let s <- (s.allow true).dropKey
  let (text, c) <- blockScalar folded s.indent s.cursor
  return (s.push (.scalar text false)).goTo c

/-- The characters that start no plain scalar. -/
def isIndicator (ch : Char) : Bool := "-?:,[]\x7b\x7d#&*!|>'\"%@\x60".toList.contains ch

/-- Whether a plain scalar starts here. -/
def startsPlain (s : Scanner) : Bool :=
  let ch := s.cursor.peek
  !(isGap ch || isIndicator ch) ||
    (!isGap (s.cursor.peekAt 1) && (ch == '-' || (!s.inFlow && (ch == '?' || ch == ':'))))

/-- Scans the next token that begins with a character. -/
def scanAt (s : Scanner) (ch : Char) : Reading Scanner :=
  let c := s.cursor
  let separate := isGap (c.peekAt 1)
  let three (t : Token) (c : Cursor) : Reading (Token × Cursor) := .ok (t, c.advanceBy 3)
  if ch == '%' && c.column == 0 then s.outside scanDirective
  else if c.column == 0 && c.atMark then
    s.outside (three (if ch == '-' then .documentStart else .documentEnd))
  else if ch == '[' then s.openFlow .flowSequenceStart
  else if ch == '\x7b' then s.openFlow .flowMappingStart
  else if ch == ']' then s.closeFlow .flowSequenceEnd
  else if ch == '\x7d' then s.closeFlow .flowMappingEnd
  else if ch == ',' then s.mark .flowEntry true
  else if ch == '-' && separate then s.entry
  else if ch == '?' && (s.inFlow || separate) then s.explicitKey
  else if ch == ':' && (s.inFlow || separate) then s.valueMark
  else if ch == '*' then
    s.keyPart fun c => do
      let (name, c) <- scanAnchor c
      return (.alias name, c)
  else if ch == '&' then
    s.keyPart fun c => do
      let (name, c) <- scanAnchor c
      return (.anchor name, c)
  else if ch == '!' then s.keyPart scanTag
  else if ch == '|' && !s.inFlow then s.block false
  else if ch == '>' && !s.inFlow then s.block true
  else if ch == '\'' then s.quoted false
  else if ch == '"' then s.quoted true
  else if s.startsPlain then s.plain
  else malformed

/-- Scans tokens to the end of the text. -/
def run : (fuel : Nat) -> Scanner -> Reading (List Token)
  | 0, _ => malformed
  | fuel + 1, s => do
      let s <- (skipToToken (s.cursor.rest.length + 1) s).dropStaleKeys
      let s := s.closeBlocks s.cursor.column
      if s.cursor.rest.isEmpty then
        let s <- (s.closeBlocks (-1)).dropKey
        return s.tokens.reverse
      else run fuel (<- s.scanAt s.cursor.peek)

end Scanner

/-- Whether a document may hold a character. -/
def isAllowed (c : Char) : Bool :=
  let n := c.toNat
  c == '\t' || c == '\n' || c == '\r' || (0x20 ≤ n && n ≤ 0x7E) || n == 0x85 ||
    (0xA0 ≤ n && n ≤ 0xFFFD) || 0x10000 ≤ n

/-- The tokens of a text. -/
def tokens (text : String) : Reading (List Token) :=
  let cs := text.toList
  if !cs.all isAllowed then malformed
  else
    let s := Scanner.start cs
    let s := if s.cursor.peek.toNat = 0xFEFF then s.goTo s.cursor.advance else s
    s.run (cs.length + 2)

end ArcSelection.Yaml
