import ArcSelection.Log.Record
import ArcSelection.ProblemFile.Basic
import ArcSelection.Yaml.Document

/-!
# Reading problem files

A file is a mapping with at most six sections, which are read in a fixed order: nodes,
arcs, constraints, then how to solve.  Names are compared as texts.  Nodes that only
appear as ends of arcs are added in the order in which they appear.
-/

namespace ArcSelection.ProblemFile

/-- The sections of a file, sorted. -/
def sections : List String :=
  ["arcs", "constraints", "nodes", "relaxed", "selection_threshold", "solver"]

/-- The keys of an arc that are no properties of their own. -/
def arcKeys : List String := ["source", "target", "directed", costProperty]

/-- The constraints a file may give, sorted. -/
def constraintKeys : List String :=
  ["max_arc_count", "max_degree", "max_in_degree", "max_out_degree", "min_arc_count",
   "min_degree", "min_in_degree", "min_out_degree"]

/-- Refuses keys that are not allowed. -/
def checkKeys (data : Properties) (allowed : List String) (place : String) :
    Except Fault Unit :=
  let extra := data.filterMap fun e => match e.1 with
    | .text s => if allowed.contains s then none else some s
    | k => some k.plainText
  if extra.isEmpty then .ok ()
  else .error (.unknownKeys (extra.mergeSort fun a b => decide (a ≤ b)) place allowed)

/-- The value of a section, nothing if it is missing or counts as false. -/
def content? (data : Properties) (key : String) : Option Value :=
  (Properties.value? data key).filter Value.isTruthy

/-- A section that is a mapping, empty if it is missing or counts as false. -/
def mapping (data : Properties) (key : String) : Except Fault Properties :=
  match content? data key with
  | none => .ok []
  | some (.map entries) => .ok entries
  | some _ => .error (.notMapping key)

/-- A number as a float; one that is too large is refused under a name. -/
def bounded (v : Value) (name : String) : Except Fault Float :=
  match v.numericFloat with
  | .ok x => .ok x
  | .error .tooLarge => .error (.numberTooLarge name v)
  | .error fault => .error fault

/-- A graph in the making with the names of its nodes. -/
structure Naming where
  graph : StoredGraph
  names : NodeNames

namespace Naming

/-- No nodes yet. -/
def start : Naming := ⟨.empty, .empty⟩

/-- Whether a name has a node. -/
def knows (s : Naming) (name : String) : Bool := s.names.nodes.contains (.text name)

/-- The node with a name, which is added if there is none. -/
def nodeFor (s : Naming) (name : String) : Node × Naming :=
  match s.names.nodes.get? (.text name) with
  | some n => (n, s)
  | none =>
      let (n, graph) := s.graph.pushNode none
      (n, ⟨graph, s.names.put (.text name) n⟩)

/-- Attaches properties to a node unless there are none. -/
def describe (s : Naming) (n : Node) (properties : Properties) : Naming :=
  match Properties.unlessEmpty properties with
  | some p =>
      { s with graph := { s.graph with properties := s.graph.properties.setNode n (some p) } }
  | none => s

/-- Adds a node from a mapping of names to properties. -/
def addDescribed (s : Naming) (e : String × Value) : Except Fault Naming :=
  match e.2 with
  | .null => .ok (s.nodeFor e.1).2
  | .map properties =>
      let (n, s) := s.nodeFor e.1
      .ok (s.describe n properties)
  | _ => .error (.attributesNotMapping e.1)

/-- Adds a node from a list of names. -/
def addListed (s : Naming) (v : Value) : Except Fault Naming :=
  match v with
  | .map _ | .list _ => .error (.badNodeName v)
  | _ => do
      let name <- v.toName
      if s.knows name then throw (.duplicateNode v) else return (s.nodeFor name).2

/-- Adds the nodes of the first section. -/
def addNodes (s : Naming) : Option Value -> Except Fault Naming
  | none => .ok s
  | some (.map entries) => do (<- Properties.normalize entries).entries.foldlM addDescribed s
  | some (.list items) => items.foldlM addListed s
  | some _ => .error .badNodes

/-- The cost of an arc entry, zero if it gives none. -/
def readCost (entry : Properties) : Except Fault Float := do
  let v := (Properties.value? entry costProperty).getD (.float 0.0)
  if !v.isNumber then throw (.badArcCost v)
  let x <- bounded v costProperty
  if x.isFinite then return x else throw (.badArcCost v)

/-- Whether an arc entry is directed, as it is if it does not say. -/
def readDirected (entry : Properties) : Except Fault Bool :=
  match Properties.value? entry "directed" with
  | none => .ok true
  | some (.bool b) => .ok b
  | some v => .error (.directedNotBoolean v)

/-- The properties of an arc entry: its other keys, and its cost last. -/
def arcProperties (entry : Properties) (cost : Float) : Properties :=
  let others := entry.filter fun e => match e.1 with
    | .text s => !arcKeys.contains s
    | _ => true
  others ++ [(.text costProperty, .float cost)]

/-- Adds an arc. -/
def addArc (s : Naming) (v : Value) : Except Fault Naming :=
  match v with
  | .map entry =>
      match Properties.value? entry "source", Properties.value? entry "target" with
      | some source, some target => do
          let directed <- readDirected entry
          let cost <- readCost entry
          let (u, s) := s.nodeFor (<- source.toName)
          let (v, s) := s.nodeFor (<- target.toName)
          let (_, graph) :=
            s.graph.pushArc ⟨u, v, !directed⟩ (some (arcProperties entry cost))
          return { s with graph }
      | _, _ => .error .arcWithoutEnds
  | _ => .error .arcNotMapping

/-- Adds the arcs of the second section. -/
def addArcs (s : Naming) : Option Value -> Except Fault Naming
  | none => .ok s
  | some (.list items) => items.foldlM addArc s
  | some _ => .error .badArcs

end Naming

/-- The key of a mapping of bounds that is no name. -/
def defaultKey : String := "default"

/-- The bound for a name, which must be known. -/
def readNamedBound (names : NodeNames) (key : String) (m : OrderedMap Node Float)
    (e : String × Value) : Except Fault (OrderedMap Node Float) :=
  match names.nodes.get? (.text e.1) with
  | none => .error (.boundOfUnknownNode key e.1)
  | some n =>
      if !e.2.isNumber then .error (.entryNotNumber key e.1 e.2)
      else do return m.insert n (<- bounded e.2 (key ++ "." ++ e.1))

/-- A bound on a degree. -/
def readDegree (names : NodeNames) (k : DegreeKey) (v : Value) : Except Fault DegreeEntry :=
  match v with
  | .map entries => do
      let byName <- Properties.normalize entries
      let others <- match byName.get? defaultKey with
        | none | some .null => pure k.vacuous
        | some d => if d.isNumber then pure d else throw (.defaultNotNumber k.word d)
      let bounds <- (byName.erase defaultKey).entries.foldlM
        (readNamedBound names k.word) .empty
      return .perNode bounds (<- bounded others (k.word ++ "." ++ defaultKey))
  | _ =>
      if v.isNumber then .constant <$> bounded v k.word else .error (.degreeNotNumber k.word)

/-- The bounds on degrees that are given. -/
def readDegrees (names : NodeNames) (constraints : Properties) :
    Except Fault (List (DegreeKey × DegreeEntry)) := do
  let found <- DegreeKey.all.mapM fun k =>
    match Properties.value? constraints k.word with
    | none | some .null => .ok []
    | some v => do return [(k, <- readDegree names k v)]
  return found.flatten

/-- An arc count: infinity, or an integer up to the greatest count. -/
def readCount (constraints : Properties) (key : String) (absent : Option Nat) :
    Except Fault (Option Nat) :=
  match Properties.value? constraints key with
  | none | some .null => .ok absent
  | some v =>
      if SelectionTask.isTop v then .ok none
      else
        match v with
        | .int n =>
            if 0 ≤ n && n ≤ Fault.maxArcCount then .ok (some n.toNat)
            else .error (.countOutOfRange key v)
        | _ => .error (.countNotInteger key v)

/-- Whether arcs may be selected in part. -/
def readRelaxed (data : Properties) : Except Fault Bool :=
  match Properties.value? data "relaxed" with
  | none => .ok false
  | some (.bool b) => .ok b
  | some v => .error (.relaxedNotBoolean v)

/-- The threshold of selection, if one is given. -/
def readThreshold (data : Properties) : Except Fault (Option Value) :=
  match Properties.value? data "selection_threshold" with
  | none | some .null => .ok none
  | some v => if v.isNumber then .ok (some v) else .error (.thresholdNotNumber v)

/-- The top of a document: a mapping, or null for an empty one. -/
def top : Value -> Except Fault Properties
  | .null => .ok []
  | .map entries => .ok entries
  | _ => .error .notTopLevelMapping

/-- The problem described by a document. -/
def ofDocument (document : Value) : Except Fault ProblemFile := do
  let data <- top document
  checkKeys data sections "problem"
  let s <- Naming.start.addNodes (content? data "nodes")
  let s <- s.addArcs (content? data "arcs")
  let constraints <- mapping data "constraints"
  checkKeys constraints constraintKeys "constraints"
  let bounds <- readDegrees s.names constraints
  let relaxed <- readRelaxed data
  let threshold <- readThreshold data
  let solver <- mapping data "solver"
  let minimum <- readCount constraints "min_arc_count" (some 0)
  let maximum <- readCount constraints "max_arc_count" none
  let options <- SolverOptions.ofMap solver
  return {
    graph := s.graph, names := s.names, bounds, minimum, maximum, relaxed, threshold, options
    mentioned := constraints.map fun e => e.1.plainText }

/-- The problem described by the text of a file. -/
def read (text : String) : Except Fault ProblemFile := do
  ofDocument (<- Yaml.readDocument text)

/-- The report on a file that was read. -/
def loadedReport (p : ProblemFile) : LogRecord :=
  let constraints := p.mentioned.mergeSort fun a b => decide (a ≤ b)
  ⟨.debug, .problemFile,
    "Loaded problem: nodes=" ++ toString p.graph.nodes.size ++ ", arcs=" ++
      toString p.graph.arcs.size ++ ", constraints=" ++
      (if constraints.isEmpty then "none" else Fault.commaList constraints)⟩

end ArcSelection.ProblemFile
