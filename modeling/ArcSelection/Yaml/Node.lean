import ArcSelection.Yaml.Token

/-!
# The nodes of a document

The tokens of a document are grouped into a tree of scalars, sequences and mappings.  An
alias is replaced by the node with its anchor, which must be complete, and no anchor is
given twice.  There is one document, or none.
-/

namespace ArcSelection.Yaml

/-- A node.  A plain scalar gets its type from its text, every other node has a tag. -/
inductive Node where
  | plain (text : String)
  | tagged (tag text : String)
  | sequence (tag : String) (items : List Node)
  | mapping (tag : String) (entries : List (Node × Node))
deriving Inhabited

/-- The space of the standard tags. -/
def tagSpace : String := "tag:yaml.org,2002:"

/-- A standard tag. -/
def standardTag (name : String) : String := tagSpace ++ name

/-- What has been read of a document. -/
structure Composer where
  tokens : List Token
  /-- The anchors given so far; those of unfinished nodes have none yet. -/
  anchors : List (String × Option Node)
  handles : List (String × String)

/-- A step in reading a document. -/
abbrev Composing := StateT Composer (Except Fault)

namespace Composer

/-- The next token. -/
def peek? : Composing (Option Token) := do return (<- get).tokens.head?

/-- Passes over a token. -/
def skip : Composing Unit := modify fun s => { s with tokens := s.tokens.tail }

/-- Passes over a token if it passes a test. -/
def accept (test : Token -> Bool) : Composing Bool := do
  match <- peek? with
  | some t => if test t then skip; return true else return false
  | none => return false

/-- The failure of a document that breaks a rule. -/
def refuse {β : Type} : Composing β := throw .invalidDocument

/-- The anchor here, if there is one. -/
def takeAnchor : Composing (Option String) := do
  match <- peek? with
  | some (.anchor name) => skip; return some name
  | _ => return none

/-- The tag here with its handle replaced by what it means, if there is one. -/
def takeTag : Composing (Option String) := do
  match <- peek? with
  | some (.tag handle rest) =>
      skip
      match handle with
      | none => return some rest
      | some handle =>
          match (<- get).handles.lookup handle with
          | some meaning => return some (meaning ++ rest)
          | none => refuse
  | _ => return none

/-- The anchor and the tag here, in either order. -/
def takeProperties : Composing (Option String × Option String) := do
  match <- takeAnchor with
  | some name => return (some name, <- takeTag)
  | none =>
      let tag <- takeTag
      return (<- takeAnchor, tag)

/-- A scalar with a tag or without: one that is plain gets its type from its text. -/
def scalarOf (tag : Option String) (text : String) (isPlain : Bool) : Node :=
  match tag with
  | none => if isPlain then .plain text else .tagged (standardTag "str") text
  | some "!" => .plain text
  | some tag => .tagged tag text

/-- The tag of a collection. -/
def collectionTag (tag : Option String) (standard : String) : String :=
  match tag with
  | none | some "!" => standardTag standard
  | some tag => tag

/-- The scalar that stands where nothing is written. -/
def nothing : Node := .plain ""

/-- Whether nothing is written before the next of some tokens. -/
def isAbsent (stops : Token -> Bool) : Composing Bool := do
  match <- peek? with
  | some t => return stops t
  | none => return true

mutual

/-- Reads a node: in a block or inside brackets, and with entries at the column of their
key or not. -/
def readNode (inBlock indentless : Bool) : (fuel : Nat) -> Composing Node
  | 0 => refuse
  | fuel + 1 => do
      match <- peek? with
      | some (.alias name) =>
          skip
          match (<- get).anchors.lookup name with
          | some (some n) => return n
          | _ => refuse
      | _ =>
          let (anchor, tag) <- takeProperties
          if let some name := anchor then
            if ((<- get).anchors.lookup name).isSome then refuse
            modify fun s => { s with anchors := (name, none) :: s.anchors }
          let n <- readContent inBlock indentless anchor tag fuel
          if let some name := anchor then
            modify fun s => { s with anchors := (name, some n) :: s.anchors }
          return n

/-- Reads a node after its anchor and tag. -/
def readContent (inBlock indentless : Bool) (anchor tag : Option String) :
    (fuel : Nat) -> Composing Node
  | 0 => refuse
  | fuel + 1 => do
      let sequenceTag := collectionTag tag "seq"
      let mappingTag := collectionTag tag "map"
      match <- peek? with
      | some (.scalar text isPlain) => skip; return scalarOf tag text isPlain
      | some .flowSequenceStart =>
          skip
          return .sequence sequenceTag (<- readFlowSequence true fuel)
      | some .flowMappingStart =>
          skip
          return .mapping mappingTag (<- readFlowMapping true fuel)
      | t =>
          match t, inBlock, indentless with
          | some .blockEntry, _, true =>
              return .sequence sequenceTag (<- readEntries true fuel)
          | some .blockSequenceStart, true, _ =>
              skip
              return .sequence sequenceTag (<- readEntries false fuel)
          | some .blockMappingStart, true, _ =>
              skip
              return .mapping mappingTag (<- readMapping fuel)
          | _, _, _ =>
              if anchor.isSome || tag.isSome then return scalarOf tag "" true else refuse

/-- Reads the entries of a sequence in a block.  Those at the column of their key end with
the mapping around them, others with a token of their own. -/
def readEntries (indentless : Bool) : (fuel : Nat) -> Composing (List Node)
  | 0 => refuse
  | fuel + 1 => do
      if <- accept (· matches .blockEntry) then
        let absent <- isAbsent fun t => match t with
          | .blockEntry | .blockEnd => true
          | .key | .value => indentless
          | _ => false
        let n <- if absent then pure nothing else readNode true false fuel
        return n :: (<- readEntries indentless fuel)
      else if indentless then return []
      else if <- accept (· matches .blockEnd) then return []
      else refuse

/-- Reads the entries of a mapping in a block. -/
def readMapping : (fuel : Nat) -> Composing (List (Node × Node))
  | 0 => refuse
  | fuel + 1 => do
      let stops := fun t : Token => t matches .key | .value | .blockEnd
      if <- accept (· matches .key) then
        let k <- if <- isAbsent stops then pure nothing else readNode true true fuel
        let v <-
          if <- accept (· matches .value) then
            if <- isAbsent stops then pure nothing else readNode true true fuel
          else pure nothing
        return (k, v) :: (<- readMapping fuel)
      else if <- accept (· matches .blockEnd) then return []
      else refuse

/-- Reads the rest of a sequence in brackets.  An entry may be a single pair. -/
def readFlowSequence (isFirst : Bool) : (fuel : Nat) -> Composing (List Node)
  | 0 => refuse
  | fuel + 1 => do
      if <- accept (· matches .flowSequenceEnd) then return []
      if !isFirst then
        if !(<- accept (· matches .flowEntry)) then refuse
      if <- accept (· matches .flowSequenceEnd) then return []
      if <- accept (· matches .key) then
        let stops := fun t : Token => t matches .flowEntry | .flowSequenceEnd
        let absent <- isAbsent fun t => stops t || t matches .value
        let k <- if absent then pure nothing else readNode false false fuel
        let v <-
          if <- accept (· matches .value) then
            if <- isAbsent stops then pure nothing else readNode false false fuel
          else pure nothing
        let pair : Node := .mapping (standardTag "map") [(k, v)]
        return pair :: (<- readFlowSequence false fuel)
      else
        let n <- readNode false false fuel
        return n :: (<- readFlowSequence false fuel)

/-- Reads the rest of a mapping in braces.  An entry may be a key alone. -/
def readFlowMapping (isFirst : Bool) : (fuel : Nat) -> Composing (List (Node × Node))
  | 0 => refuse
  | fuel + 1 => do
      if <- accept (· matches .flowMappingEnd) then return []
      if !isFirst then
        if !(<- accept (· matches .flowEntry)) then refuse
      if <- accept (· matches .flowMappingEnd) then return []
      if <- accept (· matches .key) then
        let stops := fun t : Token => t matches .flowEntry | .flowMappingEnd
        let absent <- isAbsent fun t => stops t || t matches .value
        let k <- if absent then pure nothing else readNode false false fuel
        let v <-
          if <- accept (· matches .value) then
            if <- isAbsent stops then pure nothing else readNode false false fuel
          else pure nothing
        return (k, v) :: (<- readFlowMapping false fuel)
      else
        let k <- readNode false false fuel
        return (k, nothing) :: (<- readFlowMapping false fuel)

end

/-- The handles that need no directive. -/
def knownHandles : List (String × String) := [("!", "!"), ("!!", tagSpace)]

/-- Reads the directives in front of a document; `hasVersion` if one gave a version. -/
def readDirectives : (fuel : Nat) -> (hasVersion : Bool) -> Composing Unit
  | 0, _ => refuse
  | fuel + 1, hasVersion => do
      match <- peek? with
      | some (.directive d) =>
          skip
          match d with
          | .version major =>
              if hasVersion || major != 1 then refuse
              readDirectives fuel true
          | .tagHandle handle meaning =>
              if ((<- get).handles.lookup handle).isSome then refuse
              modify fun s => { s with handles := s.handles ++ [(handle, meaning)] }
              readDirectives fuel hasVersion
          | .other => readDirectives fuel hasVersion
      | _ => return

/-- Reads the only document. -/
def readStream : Composing (Option Node) := do
  let fuel := 4 * (<- get).tokens.length + 4
  match <- peek? with
  | none => return none
  | some first =>
      let isExplicit := first matches .directive _ | .documentStart
      if isExplicit then
        readDirectives fuel false
        if !(<- accept (· matches .documentStart)) then refuse
      modify fun s => { s with handles := s.handles ++ knownHandles }
      let absent <- isAbsent fun t =>
        isExplicit && t matches .directive _ | .documentStart | .documentEnd
      let n <- if absent then pure nothing else readNode true false fuel
      modify fun s => { s with tokens := s.tokens.dropWhile (· matches .documentEnd) }
      if (<- peek?).isSome then refuse
      return some n

end Composer

/-- The root of the document in a text, if it holds one. -/
def readRoot (text : String) : Reading (Option Node) := do
  return (<- Composer.readStream.run ⟨<- tokens text, [], []⟩).1

end ArcSelection.Yaml
