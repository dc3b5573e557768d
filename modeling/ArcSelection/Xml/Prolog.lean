import ArcSelection.Xml.Token

/-!
# What precedes the root

A document may open with a declaration of its encoding and with a document type.  Of the
document type the declared entities and attributes matter; everything else in it is passed over.
-/

namespace ArcSelection.Xml

/-- What is known when the root begins: what is declared and the text from the root on. -/
structure Prolog where
  declared : Declarations
  rest : List Char

/-- What can be done with an encoding, by its name. -/
inductive EncodingSupport where
  | utf8
  | latin1
  /-- One byte for each character; read as far as it agrees with ASCII. -/
  | singleByte
  /-- Several bytes for a character, which is not read. -/
  | manyBytes
  /-- Not the encoding of a text whose declaration could be read. -/
  | contradicted
  | unknown
deriving DecidableEq

/-- The beginnings of the names of encodings with one byte for each character. -/
def singleByteNames : List String :=
  ["us_ascii", "ascii", "utf8", "cp125", "windows_125", "cp437", "cp85", "cp86", "iso8859",
   "iso_8859", "latin", "koi8", "mac_"]

/-- The beginnings of the names of encodings with several bytes for a character. -/
def manyByteNames : List String :=
  ["utf_7", "utf_32", "utf7", "utf32", "gb", "big5", "shift_jis", "sjis", "euc_", "cp9",
   "iso2022_kr", "johab"]

/-- What can be done with a declared encoding. -/
def encodingSupport (name : String) : EncodingSupport :=
  let name := name.toLower.map fun c => if c = '-' then '_' else c
  if name == "utf_8" then .utf8
  else if ["iso_8859_1", "iso8859_1", "latin_1", "latin1"].contains name then .latin1
  else if "utf_16".isPrefixOf name then .contradicted
  else if singleByteNames.any fun n => n.isPrefixOf name then .singleByte
  else if manyByteNames.any fun n => n.isPrefixOf name then .manyBytes
  else .unknown

/-- The characters of a text whose bytes were meant in another encoding. -/
def recode? (encoding : String) (cs : List Char) : Option (List Char) :=
  match encodingSupport encoding with
  | .utf8 => some cs
  | .latin1 => some ((String.ofList cs).toUTF8.toList.map fun b => Char.ofNat b.toNat)
  | .singleByte => if cs.all fun c => c.toNat < 0x80 then some cs else none
  | .manyBytes | .contradicted | .unknown => none

/-- Checks the attributes of a declaration and returns the encoding. -/
def declaredEncoding? : List (String × String) -> Option String
  | [("version", _)] => some "utf-8"
  | [("version", _), ("encoding", e)] => some e
  | [("version", _), ("standalone", s)] =>
      if s == "yes" || s == "no" then some "utf-8" else none
  | [("version", _), ("encoding", e), ("standalone", s)] =>
      if s == "yes" || s == "no" then some e else none
  | _ => none

/-- The encoding that a text declares, and the text after the declaration; nothing if the
declaration is malformed. -/
def takeDeclaration? (cs : List Char) : Option (String × List Char) :=
  match after? "<?xml".toList cs with
  | some (c :: rest) =>
      if isSpace c then do
        let (body, rest) <- cutAt? ['?', '>'] (c :: rest)
        let (attributes, _, _) <- takeAttributes? [] (body.length + 1) (body ++ ['>'])
        return (<- declaredEncoding? attributes, rest)
      else some ("utf-8", cs)
  | _ => some ("utf-8", cs)

/-- The text from the first stopping character on that stands outside quotes. -/
def outsideQuotes? (stop : Char -> Bool) : (quote : Option Char) -> List Char ->
    Option (List Char)
  | _, [] => none
  | some quote, c :: cs =>
      outsideQuotes? stop (if c = quote then none else some quote) cs
  | none, c :: cs =>
      if stop c then some (c :: cs)
      else outsideQuotes? stop (if c = '"' || c = '\'' then some c else none) cs

/-- An entity declared by a literal text, from the text after the keyword. -/
def literalEntity? (cs : List Char) : Option (String × List Char) := do
  let (name, cs) <- takeName? (cs.dropWhile isSpace)
  match cs.dropWhile isSpace with
  | quote :: cs =>
      if quote = '"' || quote = '\'' then
        let (text, _) <- cutAt? [quote] cs
        if text.contains '<' then none else some (name, text)
      else none
  | [] => none

/-- The words that begin the declarations of an internal subset. -/
def declarationWords : List String := ["ENTITY", "ELEMENT", "ATTLIST", "NOTATION"]

/-- The text after a declaration's word and a blank, if the declaration begins with the word. -/
def afterWord? (word : String) (cs : List Char) : Option (List Char) := do
  let rest <- after? word.toList cs
  guard (rest.head?.any isSpace)
  return rest

/-- Whether a declaration begins with one of its words. -/
def isDeclaration (cs : List Char) : Bool :=
  declarationWords.any fun w => (afterWord? w cs).isSome

/-- Whether the type of an attribute at the front allows any text, and what follows the type. -/
def takeAttributeType? (cs : List Char) : Option (Bool × List Char) :=
  match cs with
  | '(' :: cs => do return (false, (<- cutAt? [')'] cs).2)
  | cs => do
      let (word, rest) <- takeName? cs
      if word == "NOTATION" then return (false, (<- cutAt? [')'] rest).2)
      else return (word == "CDATA", rest)

/-- The value for elements that are written without an attribute, if there is one, and the
rest. -/
def takeDefault? (entities : Entities) (cs : List Char) : Option (Option String × List Char) :=
  match cs with
  | '#' :: cs => do
      let (word, rest) <- takeName? cs
      if word == "FIXED" then
        let (value, rest) <- takeValue? entities (rest.dropWhile isSpace)
        return (some value, rest)
      else return (none, rest)
  | cs => do
      let (value, rest) <- takeValue? entities cs
      return (some value, rest)

/-- The rules for the attributes of an element, up to the end of their declaration, of which at
most `fuel` are read. -/
def takeRules? (entities : Entities) (element : String) :
    (fuel : Nat) -> List Char -> Option (List AttributeRule)
  | 0, _ => none
  | fuel + 1, cs =>
      match cs.dropWhile isSpace with
      | '>' :: _ => some []
      | cs => do
          let (name, cs) <- takeName? cs
          let (isText, cs) <- takeAttributeType? (cs.dropWhile isSpace)
          let (value, cs) <- takeDefault? entities (cs.dropWhile isSpace)
          let value := if isText then value else value.map wordsOf
          return ⟨element, name, isText, value⟩ :: (<- takeRules? entities element fuel cs)

/-- The rules of a declaration of attributes, from the text after the keyword. -/
def attributeRules? (entities : Entities) (cs : List Char) : Option (List AttributeRule) := do
  let (element, cs) <- takeName? (cs.dropWhile isSpace)
  takeRules? entities element (cs.length + 1) cs

/-- Adds what a declaration declares, from its word on. -/
def Declarations.enter? (d : Declarations) (cs : List Char) : Option Declarations :=
  match afterWord? "ATTLIST" cs with
  | some body => do return { d with rules := d.rules ++ (<- attributeRules? d.entities body) }
  | none =>
      let entity := (afterWord? "ENTITY" cs).bind literalEntity?
      some { d with entities := d.entities ++ entity.toList }

/-- What an internal subset declares and the text after it. -/
def takeSubset? : (fuel : Nat) -> Declarations -> List Char -> Option Prolog
  | 0, _, _ => none
  | fuel + 1, declared, cs =>
      match cs.dropWhile isSpace with
      | ']' :: rest => some ⟨declared, rest⟩
      | '%' :: rest => do takeSubset? fuel declared (<- cutAt? [';'] rest).2
      | '<' :: '?' :: rest => do takeSubset? fuel declared (<- afterInstruction? rest)
      | '<' :: '!' :: '-' :: '-' :: rest => do
          takeSubset? fuel declared (<- afterComment? rest)
      | '<' :: '!' :: rest => do
          guard (isDeclaration rest)
          let declared <- declared.enter? rest
          let after <- outsideQuotes? (· == '>') none rest
          takeSubset? fuel declared (after.drop 1)
      | _ => none

/-- Whether a document type goes on in order after its name: with the place of its
declarations, with the declarations, or not at all. -/
def isTypeBody (cs : List Char) : Bool :=
  ["SYSTEM", "PUBLIC", "[", ">"].any fun w => w.toList.isPrefixOf (cs.dropWhile isSpace)

/-- What a document type declares and the text after it. -/
def takeDocumentType? (cs : List Char) : Option Prolog := do
  guard (cs.head?.any isSpace)
  let (_, cs) <- takeName? (cs.dropWhile isSpace)
  guard (isTypeBody cs)
  match <- outsideQuotes? (fun c => c == '[' || c == '>') none cs with
  | '[' :: cs => do
      let p <- takeSubset? (cs.length + 1) .empty cs
      match p.rest.dropWhile isSpace with
      | '>' :: rest => some ⟨p.declared, rest⟩
      | _ => none
  | '>' :: rest => some ⟨.empty, rest⟩
  | _ => none

/-- Passes over blanks, comments, instructions and one document type. -/
def takeProlog? : (fuel : Nat) -> Option Declarations -> List Char -> Option Prolog
  | 0, _, _ => none
  | fuel + 1, declared, cs =>
      match cs.dropWhile isSpace with
      | '<' :: '?' :: rest => do takeProlog? fuel declared (<- afterInstruction? rest)
      | '<' :: '!' :: '-' :: '-' :: rest => do
          takeProlog? fuel declared (<- afterComment? rest)
      | '<' :: '!' :: rest => do
          if declared.isSome then none
          else
            let p <- takeDocumentType? (<- after? "DOCTYPE".toList rest)
            takeProlog? fuel (some p.declared) p.rest
      | rest => some ⟨declared.getD .empty, rest⟩

/-- Makes every line end a single newline. -/
def unifyLines : List Char -> List Char
  | '\r' :: '\n' :: cs => '\n' :: unifyLines cs
  | '\r' :: cs => '\n' :: unifyLines cs
  | c :: cs => c :: unifyLines cs
  | [] => []

/-- The characters of a document without a byte order mark, with unified line ends. -/
def contentOf (characters : List Char) : List Char :=
  unifyLines (match characters with
    | c :: cs => if c.toNat = 0xFEFF then cs else c :: cs
    | [] => [])

/-- The encoding that a document declares, if its declaration is well formed. -/
def declaredSupport? (content : List Char) : Option EncodingSupport :=
  (takeDeclaration? content).map fun d => encodingSupport d.1

/-- The tokens of a document from its root on. -/
def documentTokens? (content : List Char) : Option (List Token) := do
  let (encoding, cs) <- takeDeclaration? content
  let cs <- recode? encoding cs
  if !cs.all isCharacter then none
  else
    let p <- takeProlog? (cs.length + 1) none cs
    tokens? p.declared p.rest

end ArcSelection.Xml
