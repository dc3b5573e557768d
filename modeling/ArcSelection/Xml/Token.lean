/-!
# Tokens of a document

The text of a document is cut into tags and character data.  Comments and processing
instructions are checked and dropped, references are replaced by what they stand for, and
line ends are a single newline.  A text that breaks a rule has no tokens.
-/

namespace ArcSelection.Xml

/-- A piece of a document. -/
inductive Token where
  | opening (name : String) (attributes : List (String × String)) (isEmpty : Bool)
  | closing (name : String)
  /-- Character data; `isLiteral` if it was written without references. -/
  | data (text : List Char) (isLiteral : Bool)

/-- The blanks of the format. -/
def isSpace (c : Char) : Bool := c == ' ' || c == '\t' || c == '\n' || c == '\r'

/-- The characters a document may hold. -/
def isCharacter (c : Char) : Bool :=
  c.toNat ≥ 0x20 && c.toNat != 0xFFFE && c.toNat != 0xFFFF || c == '\t' || c == '\n' ||
    c == '\r'

/-- The ranges of characters beyond ASCII that may start a name. -/
def nameStartRanges : List (Nat × Nat) :=
  [(0xC0, 0xD6), (0xD8, 0xF6), (0xF8, 0x2FF), (0x370, 0x37D), (0x37F, 0x1FFF),
   (0x200C, 0x200D), (0x2070, 0x218F), (0x2C00, 0x2FEF), (0x3001, 0xD7FF),
   (0xF900, 0xFDCF), (0xFDF0, 0xFFFD), (0x10000, 0xEFFFF)]

/-- Whether a character may start a name. -/
def isNameStart (c : Char) : Bool :=
  c.isAlpha || c == '_' || c == ':' ||
    nameStartRanges.any fun r => r.1 ≤ c.toNat && c.toNat ≤ r.2

/-- Whether a character may go on in a name. -/
def isNameChar (c : Char) : Bool :=
  isNameStart c || c.isDigit || c == '-' || c == '.' || c.toNat == 0xB7 ||
    (0x300 ≤ c.toNat && c.toNat ≤ 0x36F) || (0x203F ≤ c.toNat && c.toNat ≤ 0x2040)

/-- A name at the front, and the rest. -/
def takeName? (cs : List Char) : Option (String × List Char) :=
  match cs with
  | c :: _ =>
      if isNameStart c then
        some (String.ofList (cs.takeWhile isNameChar), cs.dropWhile isNameChar)
      else none
  | [] => none

/-- The text after a beginning, if it is there. -/
def after? : (beginning : List Char) -> List Char -> Option (List Char)
  | [], cs => some cs
  | b :: bs, c :: cs => if b = c then after? bs cs else none
  | _ :: _, [] => none

/-- The texts before and after the first place where `stop` stands. -/
def cutAt? (stop : List Char) : List Char -> Option (List Char × List Char)
  | [] => if stop.isEmpty then some ([], []) else none
  | c :: cs =>
      match after? stop (c :: cs) with
      | some rest => some ([], rest)
      | none => (cutAt? stop cs).map fun p => (c :: p.1, p.2)

/-- The pieces of a text between the places where a character stands. -/
def pieces (separator : Char) : List Char -> List (List Char)
  | [] => [[]]
  | c :: cs =>
      if c = separator then [] :: pieces separator cs
      else
        match pieces separator cs with
        | piece :: rest => (c :: piece) :: rest
        | [] => [[c]]

/-- The value of a hexadecimal digit. -/
def hexValue? (c : Char) : Option Nat :=
  if '0' ≤ c && c ≤ '9' then some (c.toNat - '0'.toNat)
  else if 'a' ≤ c && c ≤ 'f' then some (c.toNat - 'a'.toNat + 10)
  else if 'A' ≤ c && c ≤ 'F' then some (c.toNat - 'A'.toNat + 10)
  else none

/-- The number written by digits of a base. -/
def digitsIn? (base : Nat) (cs : List Char) : Option Nat :=
  if cs.isEmpty then none
  else
    cs.foldlM
      (fun n c => do
        let d <- hexValue? c
        if d < base then some (base * n + d) else none)
      0

/-- The character a numeric reference stands for. -/
def numbered? (n : Option Nat) : Option (List Char) := do
  let n <- n
  if h : n.isValidChar then
    let c := Char.ofNatAux n h
    if isCharacter c then some [c] else none
  else none

/-- The entities declared by every document. -/
def knownEntities : List (String × List Char) :=
  [("amp", ['&']), ("lt", ['<']), ("gt", ['>']), ("quot", ['"']), ("apos", ['\''])]

/-- Texts of declared entities by name. -/
abbrev Entities := List (String × List Char)

mutual

/-- Replaces the references in a text.  Entities may refer to entities, up to `depth`. -/
def expand? (entities : Entities) : (depth : Nat) -> List Char -> Option (List Char)
  | depth, cs =>
      match pieces '&' cs with
      | [] => some []
      | first :: rest => do
          let parts <- rest.mapM fun piece => do
            let (name, after) <- cutAt? [';'] piece
            return (<- reference? entities depth name) ++ after
          return first ++ parts.flatten
termination_by depth => 2 * depth + 1

/-- What the reference with a name stands for. -/
def reference? (entities : Entities) : (depth : Nat) -> List Char -> Option (List Char)
  | _, '#' :: 'x' :: ds => numbered? (digitsIn? 16 ds)
  | _, '#' :: ds => numbered? (digitsIn? 10 ds)
  | depth, cs =>
      let name := String.ofList cs
      match knownEntities.lookup name with
      | some text => some text
      | none =>
          match depth, entities.lookup name with
          | depth + 1, some text => expand? entities depth text
          | _, _ => none
termination_by depth => 2 * depth

end

/-- Replaces the references in a text by what they stand for. -/
def expandAll? (entities : Entities) (cs : List Char) : Option (List Char) :=
  expand? entities (entities.length + 1) cs

/-- The value between the quotes of an attribute: no tag starts in it, and blanks are plain
spaces. -/
def attributeValue? (entities : Entities) (cs : List Char) : Option String := do
  if cs.contains '<' then none
  else
    let plain := cs.map fun c => if isSpace c then ' ' else c
    return String.ofList (<- expandAll? entities plain)

/-- A quoted value at the front, with the references in it replaced, and the rest. -/
def takeValue? (entities : Entities) : List Char -> Option (String × List Char)
  | quote :: cs =>
      if quote = '"' || quote = '\'' then do
        let (raw, rest) <- cutAt? [quote] cs
        return (<- attributeValue? entities raw, rest)
      else none
  | [] => none

/-- An attribute at the front, and the rest. -/
def takeAttribute? (entities : Entities) (cs : List Char) :
    Option ((String × String) × List Char) := do
  let (name, cs) <- takeName? cs
  match cs.dropWhile isSpace with
  | '=' :: cs => do
      let (value, rest) <- takeValue? entities (cs.dropWhile isSpace)
      return ((name, value), rest)
  | _ => none

/-- The attributes of a tag, whether the tag ends as an empty one, and the text after it.
Each attribute has a blank in front.  At most `fuel` attributes are read. -/
def takeAttributes? (entities : Entities) :
    (fuel : Nat) -> List Char -> Option (List (String × String) × Bool × List Char)
  | 0, _ => none
  | fuel + 1, cs =>
      match cs.dropWhile isSpace with
      | '>' :: rest => some ([], false, rest)
      | '/' :: '>' :: rest => some ([], true, rest)
      | next =>
          if next.length = cs.length then none
          else do
            let (first, rest) <- takeAttribute? entities next
            let (others, isEmpty, rest) <- takeAttributes? entities fuel rest
            return (first :: others, isEmpty, rest)

/-- What a document type declares of an attribute. -/
structure AttributeRule where
  /-- The tag of the elements that it concerns. -/
  element : String
  name : String
  /-- Whether the values are any texts; else they are words with single spaces between them. -/
  isText : Bool
  /-- The value of elements that are written without the attribute. -/
  value : Option String

/-- What a document type declares; of two declarations of one thing the first counts. -/
structure Declarations where
  entities : Entities
  rules : List AttributeRule

/-- The words of a value with single spaces between them. -/
def wordsOf (value : String) : String :=
  String.intercalate " " (((pieces ' ' value.toList).filter fun w => !w.isEmpty).map String.ofList)

namespace Declarations

/-- Nothing is declared. -/
def empty : Declarations := ⟨[], []⟩

/-- The rules for the elements with a tag, the first one for each attribute. -/
def rulesFor (d : Declarations) (tag : String) : List AttributeRule :=
  (d.rules.filter fun r => r.element == tag).foldl
    (fun found r => if found.any fun f => f.name == r.name then found else found ++ [r]) []

/-- The attributes of an element as its rules have them, with the values that are not written. -/
def complete (d : Declarations) (tag : String) (written : List (String × String)) :
    List (String × String) :=
  let rules := d.rulesFor tag
  let ruled := written.map fun a =>
    if rules.any fun r => r.name == a.1 && !r.isText then (a.1, wordsOf a.2) else a
  ruled ++ rules.filterMap fun r =>
    if written.any fun a => a.1 == r.name then none else r.value.map fun v => (r.name, v)

end Declarations

/-- The text after a comment whose start has been read; it holds no two dashes. -/
def afterComment? (cs : List Char) : Option (List Char) := do
  match <- cutAt? ['-', '-'] cs with
  | (_, '>' :: rest) => some rest
  | _ => none

/-- The text after a processing instruction whose start has been read.  Its target is a
name other than the one of the declaration. -/
def afterInstruction? (cs : List Char) : Option (List Char) := do
  let (name, rest) <- takeName? cs
  if name.toLower == "xml" then none
  else
    let (body, rest) <- cutAt? ['?', '>'] rest
    match body with
    | [] => some rest
    | c :: _ => if isSpace c then some rest else none

/-- The tokens of a text inside the root, cut off at `fuel` pieces. -/
def tokensWith? (declared : Declarations) : (fuel : Nat) -> List Char -> Option (List Token)
  | _, [] => some []
  | 0, _ => none
  | fuel + 1, '<' :: '!' :: '-' :: '-' :: cs => do
      tokensWith? declared fuel (<- afterComment? cs)
  | fuel + 1, '<' :: '?' :: cs => do
      tokensWith? declared fuel (<- afterInstruction? cs)
  | fuel + 1, '<' :: '!' :: cs => do
      let cs <- after? "[CDATA[".toList cs
      let (text, rest) <- cutAt? "]]>".toList cs
      return .data text false :: (<- tokensWith? declared fuel rest)
  | fuel + 1, '<' :: '/' :: cs => do
      let (name, rest) <- takeName? cs
      match rest.dropWhile isSpace with
      | '>' :: rest => return .closing name :: (<- tokensWith? declared fuel rest)
      | _ => none
  | fuel + 1, '<' :: cs => do
      let (name, rest) <- takeName? cs
      let (attributes, isEmpty, rest) <- takeAttributes? declared.entities (rest.length + 1) rest
      return .opening name (declared.complete name attributes) isEmpty ::
        (<- tokensWith? declared fuel rest)
  | fuel + 1, cs => do
      let raw := cs.takeWhile (· != '<')
      if (cutAt? "]]>".toList raw).isSome then none
      else
        let text <- expandAll? declared.entities raw
        let rest <- tokensWith? declared fuel (cs.dropWhile (· != '<'))
        return .data text (!raw.contains '&') :: rest

/-- The tokens of a text. -/
def tokens? (declared : Declarations) (cs : List Char) : Option (List Token) :=
  tokensWith? declared (cs.length + 1) cs

end ArcSelection.Xml
