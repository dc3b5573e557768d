import ArcSelection.Decimal.Reading
import ArcSelection.Value.Display

/-!
# Causes of failure

Every operation that can fail does so with one of the causes below.  A cause carries
what was wrong; its wording is `Fault.message` and its class is `Fault.kind`.
-/

namespace ArcSelection

/-- The things that are numbered by explicit ids. -/
inductive Item where
  | node
  | arc
deriving DecidableEq

namespace Item

/-- The word for the kind of item. -/
def word : Item -> String
  | .node => "node"
  | .arc => "arc"

end Item

/-- Why an operation failed. -/
inductive Fault where
  -- keywords and keys
  | unknownKeyword (family text : String) (valid : List String)
  | unknownShape (text : String) (valid : List String)
  | duplicateKey (name : String)
  -- graphs
  | badId (item : Item) (value : Value)
  | badOverlayId (item : Item) (value : Value)
  | nodeInUse (n : Node)
  | arcInUse (a : Arc)
  | noTail (n : Node)
  | noHead (n : Node)
  | foreignNode (n : Node)
  | foreignArc (a : Arc)
  | badNodeCount (value : Value)
  | tooManyNodes (count : Int)
  | readOnlyView
  | noDrawsLeft
  -- matchings and paths
  | notInBase (a : Arc)
  | loopInMatching (a : Arc)
  | alreadyMatched (n : Node) (other : Arc)
  | pathsUndefined
  -- integer programs
  | notLinear (value : Value)
  | boundsCrossed (key lower upper : Value)
  | foreignVariable (key : Value)
  | unknownColumn
  | pointTooShort
  -- selection tasks
  | notRepresentable (name : String) (value : Value)
  | boundIsNaN (name : String)
  | notBound (name : String) (value : Value)
  | nodeBoundIsNaN (side : String) (n : Node)
  | minimumNotFinite
  | notCount (name : String) (value : Value)
  | countTooLarge (name : String) (value : Value)
  | countsCrossed (minimum maximum : Value)
  | notCostFunction (value : Value)
  | costNotCallable
  | weightNotFinite (value : Value)
  | badThreshold (value : Value)
  | costNotFinite (a : Arc) (value : Value)
  -- solver options and outcomes
  | unknownOptions (names : List String)
  | badLimit (name : String) (value : Value)
  | badNodeLimit (value : Value)
  | notSwitch (name : String) (value : Value)
  | rejectedProblem (reason : String)
  | unclassified (status : Value) (reason : Value)
  | backend (text : String)
  -- exchange of graphs
  | notMultigraph (typeName : String)
  | shapeOfUnknownNode (n : Node)
  | notShape (text : String)
  | malformedGraph
  | invalidGraphFile (name : String)
  | unknownAttributeType
  | unknownEncoding
  | manyByteEncoding
  | absentName
  -- problem files
  | invalidDocument
  | notTopLevelMapping
  | notMapping (what : String)
  | unknownKeys (extra : List String) (place : String) (allowed : List String)
  | degreeNotNumber (key : String)
  | defaultNotNumber (key : String) (value : Value)
  | boundOfUnknownNode (key name : String)
  | entryNotNumber (key name : String) (value : Value)
  | numberTooLarge (what : String) (value : Value)
  | countNotInteger (key : String) (value : Value)
  | countOutOfRange (key : String) (value : Value)
  | attributesNotMapping (name : String)
  | badNodeName (value : Value)
  | duplicateNode (value : Value)
  | badNodes
  | badArcs
  | arcNotMapping
  | arcWithoutEnds
  | directedNotBoolean (value : Value)
  | badArcCost (value : Value)
  | relaxedNotBoolean (value : Value)
  | thresholdNotNumber (value : Value)
  -- costs of matchings
  | noAttribute (a : Arc) (name : String)
  | attributeNotNumber (name : String) (a : Arc) (value : Value)
  -- numbers in general
  | unreadableFloat (text : String)
  | unreadableInteger (base : Nat) (text : String)
  | unreadableReal (text : String)
  | noDigits
  | notInCalendar (reason : CalendarFault)
  | noSuchCharacter
  | notFormattable
  | integerTooLong
  | integerTooLongForFile
  | wrongType
  | badLayout (text : String)
  | unsupported
  | tooLarge
  -- files
  | fileNotFound (path : String)
  | isDirectory (path : String)
  | notDirectory (path : String)
  | nameTooLong (path : String)
  | nullInPath
deriving Inhabited

/-- The classes of failure a caller can tell apart. -/
inductive FaultKind where
  /-- A value or a configuration that is not acceptable. -/
  | invalid
  /-- A value that an underlying format cannot read or write as what it should be. -/
  | unreadable
  /-- A value of a kind the operation is not defined on. -/
  | wrongType
  /-- An integer beyond the range of floats. -/
  | tooLarge
  /-- A solver that produced no classified outcome. -/
  | solver
  /-- A name that a table does not hold. -/
  | missing
  /-- A name that stands for nothing known. -/
  | unknownName
  /-- A place beyond the end of a text or a list. -/
  | beyondEnd
  /-- A file that does not exist. -/
  | noFile
  /-- A directory in the place of a file. -/
  | isDirectory
  /-- A file in the place of a directory. -/
  | notDirectory
  /-- Any other trouble with a file. -/
  | fileTrouble
  /-- An operation that this kind of graph does not have. -/
  | unsupported
  /-- A text that is no graph file, for those who read it. -/
  | malformed
deriving DecidableEq

namespace FaultKind

/-- The word a report uses for a class of failure. -/
def label : FaultKind -> String
  | .invalid | .unreadable => "ValueError"
  | .wrongType => "TypeError"
  | .tooLarge => "OverflowError"
  | .solver => "SolverError"
  | .missing => "KeyError"
  | .unknownName => "LookupError"
  | .beyondEnd => "IndexError"
  | .noFile => "FileNotFoundError"
  | .isDirectory => "IsADirectoryError"
  | .notDirectory => "NotADirectoryError"
  | .fileTrouble => "OSError"
  | .unsupported => "AttributeError"
  | .malformed => "NetworkXError"

end FaultKind

namespace Fault

/-- The class of a cause. -/
def kind : Fault -> FaultKind
  | .readOnlyView | .notLinear _ | .notMultigraph _ | .wrongType => .wrongType
  | .tooLarge => .tooLarge
  | .rejectedProblem _ | .unclassified _ _ | .backend _ => .solver
  | .unknownColumn | .unknownAttributeType | .noDrawsLeft => .missing
  | .unreadableInteger _ _ | .unreadableReal _ | .notInCalendar _ | .noSuchCharacter
  | .integerTooLongForFile | .badLayout _ | .notShape _ | .absentName | .nullInPath
  | .manyByteEncoding => .unreadable
  | .unknownEncoding => .unknownName
  | .noDigits | .pointTooShort => .beyondEnd
  | .fileNotFound _ => .noFile
  | .isDirectory _ => .isDirectory
  | .notDirectory _ => .notDirectory
  | .nameTooLong _ => .fileTrouble
  | .unsupported => .unsupported
  | .malformedGraph => .malformed
  | _ => .invalid

/-- Names separated by commas. -/
def commaList (names : List String) : String := String.intercalate ", " names

/-- The largest number of branch-and-bound nodes that can be asked for. -/
def maxNodeLimit : Nat := Nat.pow 2 31 - 1

/-- The largest finite arc count; every integer up to it is exact as a float. -/
def maxArcCount : Nat := Nat.pow 2 53

/-- The wording for an integer with too many digits, whose number may be told. -/
def digitsMessage (count : String) : String :=
  "Exceeds the limit (" ++ toString Decimal.maxIntegerDigits ++
    " digits) for integer string conversion" ++ count ++
    "; use sys.set_int_max_str_digits() to increase the limit"

/-- The wording for an integer that cannot be read: it is too long, or it is none.  A long
text is cut off. -/
def integerMessage (base : Nat) (text : String) : String :=
  let digits := (text.toList.filter Char.isDigit).length
  if base = 10 && digits > Decimal.maxIntegerDigits then
    digitsMessage (": value has " ++ toString digits ++ " digits")
  else
    "invalid literal for int() with base " ++ toString base ++ ": " ++
      String.ofList ((Text.quoted text).toList.take 200)

/-- The wording of a cause. -/
def message : Fault -> String
  | .unknownKeyword family text valid =>
      "Invalid " ++ family ++ " '" ++ text ++ "'. Valid values are: " ++ commaList valid
  | .unknownShape text valid =>
      "Unknown node shape '" ++ text ++ "'. Valid shapes are: " ++ commaList valid
  | .duplicateKey name => "Duplicate key '" ++ name ++ "' after normalization"
  | .badId item value =>
      "Invalid " ++ item.word ++ " id: " ++ value.display ++ " (must be a positive integer)."
  | .badOverlayId item value => "Invalid " ++ item.word ++ " id: " ++ value.display
  | .nodeInUse n => n.display ++ " already exists in this graph."
  | .arcInUse a => a.display ++ " already exists in this graph."
  | .noTail n => "Tail node " ++ n.display ++ " does not exist."
  | .noHead n => "Head node " ++ n.display ++ " does not exist."
  | .foreignNode n => n.display ++ " does not belong to this graph."
  | .foreignArc a => a.display ++ " does not belong to this graph."
  | .badNodeCount value => "Invalid node count: " ++ value.display
  | .tooManyNodes count => "Too many nodes: " ++ toString count
  | .readOnlyView => "Subgraph is read-only apart from enable()."
  | .noDrawsLeft => "no random id is left to draw"
  | .notInBase a => a.display ++ " does not belong to the base graph."
  | .loopInMatching a => "Loop " ++ a.display ++ " cannot be part of a matching."
  | .alreadyMatched n other => n.display ++ " is already matched by " ++ other.display ++ "."
  | .pathsUndefined => "Shortest paths are undefined: negative cycle found."
  | .notLinear value => "Cannot build a linear expression from " ++ value.display
  | .boundsCrossed key lower upper =>
      "Variable " ++ key.display ++ ": lower bound " ++ lower.plainText ++
        " exceeds upper bound " ++ upper.plainText
  | .foreignVariable key => "Variable(" ++ key.display ++ ") does not belong to this problem."
  | .unknownColumn => "the problem has no such variable"
  | .pointTooShort => "the point has too few coordinates"
  | .notRepresentable name value =>
      name ++ " must be a representable number, got " ++ value.display
  | .boundIsNaN name => name ++ " must not be NaN"
  | .notBound name value =>
      name ++ " must be a number or a function of the node, got " ++ value.display
  | .nodeBoundIsNaN side n => side ++ " degree bound of " ++ n.display ++ " is NaN"
  | .minimumNotFinite => "min_arc_count must be finite"
  | .notCount name value => name ++ " must be a non-negative integer, got " ++ value.display
  | .countTooLarge name value =>
      name ++ " must not exceed " ++ toString maxArcCount ++ ", got " ++ value.plainText
  | .countsCrossed minimum maximum =>
      "min_arc_count (" ++ minimum.plainText ++ ") exceeds max_arc_count (" ++
        maximum.plainText ++ ")"
  | .notCostFunction value => "Expected a CostFunction, got " ++ value.display
  | .costNotCallable => "CostFunction.cost must be callable"
  | .weightNotFinite value => "Objective weight must be finite, got " ++ value.plainText
  | .badThreshold value => "selection_threshold must be in (0, 1], got " ++ value.plainText
  | .costNotFinite a value =>
      "Cost of " ++ a.display ++ " must be finite, got " ++ value.plainText
  | .unknownOptions names => "Unrecognized solver option(s): " ++ commaList names
  | .badLimit name value => name ++ " must be a non-negative number, got " ++ value.display
  | .badNodeLimit value =>
      "node_limit must be an integer in [0, " ++ toString maxNodeLimit ++ "], got " ++
        value.display
  | .notSwitch name value => name ++ " must be a boolean, got " ++ value.display
  | .rejectedProblem reason => "HiGHS rejected the problem: " ++ reason
  | .unclassified status reason =>
      "HiGHS failed (status " ++ status.plainText ++ "): " ++ reason.plainText
  | .backend text => text
  | .notMultigraph typeName =>
      "Expected NetworkX graph (DiGraph, MultiDiGraph, Graph, MultiGraph), got " ++ typeName
  | .shapeOfUnknownNode n => "Cannot assign a shape to unknown node " ++ n.display
  | .notShape text => Text.quoted text ++ " is not a valid NodeShape"
  | .malformedGraph => "not a graph file"
  | .invalidGraphFile name => "Invalid GraphML file " ++ name
  | .unknownAttributeType => "unknown attribute type"
  | .unknownEncoding => "unknown encoding"
  | .manyByteEncoding => "multi-byte encodings are not supported"
  | .absentName => "None cannot be a node"
  | .invalidDocument => "Invalid YAML"
  | .notTopLevelMapping => "The provided YAML must map to a dictionary at top-level."
  | .notMapping what => "'" ++ what ++ "' must be a mapping"
  | .unknownKeys extra place allowed =>
      "Unrecognized key(s) in " ++ place ++ ": " ++ commaList extra ++ ". Allowed keys are " ++
        Value.display (.list (allowed.map Value.text))
  | .degreeNotNumber key =>
      "'" ++ key ++ "' must be a number or a mapping of node names to numbers"
  | .defaultNotNumber key value =>
      "'" ++ key ++ ".default' must be a number, got " ++ value.display
  | .boundOfUnknownNode key name =>
      "'" ++ key ++ "' refers to unknown node '" ++ name ++ "'"
  | .entryNotNumber key name value =>
      "'" ++ key ++ "." ++ name ++ "' must be a number, got " ++ value.display
  | .numberTooLarge what value => "'" ++ what ++ "' is too large: " ++ value.plainText
  | .countNotInteger key value => "'" ++ key ++ "' must be an integer, got " ++ value.display
  | .countOutOfRange key value =>
      "'" ++ key ++ "' must be between 0 and " ++ toString maxArcCount ++ ", got " ++
        value.plainText
  | .attributesNotMapping name => "Attributes of node '" ++ name ++ "' must be a mapping"
  | .badNodeName value => "Invalid node name " ++ value.display
  | .duplicateNode value => "Duplicate node '" ++ value.plainText ++ "'"
  | .badNodes => "'nodes' must be a list or a mapping"
  | .badArcs => "'arcs' must be a list"
  | .arcNotMapping => "Each arc definition must be a mapping with 'source' and 'target'"
  | .arcWithoutEnds => "Each arc definition must include 'source' and 'target'"
  | .directedNotBoolean value => "'directed' must be a boolean, got " ++ value.display
  | .badArcCost value => "Arc cost must be a finite number, got " ++ value.display
  | .relaxedNotBoolean value => "'relaxed' must be a boolean, got " ++ value.display
  | .thresholdNotNumber value =>
      "'selection_threshold' must be a number, got " ++ value.display
  | .noAttribute a name => a.display ++ " has no '" ++ name ++ "' attribute"
  | .attributeNotNumber name a value =>
      "'" ++ name ++ "' of " ++ a.display ++ " is not a number: " ++ value.display
  | .unreadableFloat text => "could not convert string to float: " ++ Text.quoted text
  | .unreadableInteger base text => integerMessage base text
  | .unreadableReal text => "could not convert string to float: " ++ Text.quoted text
  | .noDigits => "a number has no digits"
  | .notInCalendar reason => reason.message
  | .noSuchCharacter => "chr() arg not in range(0x110000)"
  | .notFormattable => "Unknown format code 'g' for object of type 'str'"
  | .integerTooLong | .integerTooLongForFile => digitsMessage ""
  | .badLayout text => "Invalid format '" ++ text ++ "' for '%' style"
  | .wrongType => "a value of another kind was expected"
  | .unsupported => "this kind of graph has no such operation"
  | .tooLarge => "int too large to convert to float"
  | .fileNotFound path => "File not found: " ++ path
  | .isDirectory path => "[Errno 21] Is a directory: " ++ Text.quoted path
  | .notDirectory path => "[Errno 20] Not a directory: " ++ Text.quoted path
  | .nameTooLong path => "[Errno 36] File name too long: " ++ Text.quoted path
  | .nullInPath => "embedded null byte"

/-- The complaint about a value, which it quotes; a value that cannot be written is not quoted,
and the failure is that one. -/
def quoting (v : Value) (complaint : Fault) : Fault :=
  if v.isWritable then complaint else .integerTooLong

end Fault

end ArcSelection
