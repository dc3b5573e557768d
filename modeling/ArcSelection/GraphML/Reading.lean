import ArcSelection.GraphML.Vocabulary
import ArcSelection.Exchange.NamedGraph
import ArcSelection.Xml.Document

/-!
# A reader of graph files

A file is well formed and holds at least one graph, of which the first counts.  Keys are
read before graphs, and in a graph nodes before edges.  What is not a graph file in this sense
is malformed; data of a wrong type fail in other ways.
-/

namespace ArcSelection.GraphML

open ArcSelection.Xml (Element)

/-- A declared key. -/
structure DataKey where
  name : String
  type : DataType

/-- The declared keys by their ids, which may be missing. -/
abbrev DataKeys := List (Option String × DataKey)

/-- Reads a key declaration.  Its default is read too, but not applied to anything. -/
def readKey (e : Element) : Except Fault (Option String × DataKey) := do
  let (name, word) := match e.value? "yfiles.type" with
    | some extension => (some extension, "yfiles")
    | none => (e.value? "attr.name", (e.value? "attr.type").getD "string")
  match name, DataType.ofWord? word with
  | none, _ => throw .malformedGraph
  | _, none => throw .unknownAttributeType
  | some name, some type =>
      match e.first? (named "default") with
      | none => pure ()
      | some d =>
          let _ <- if d.text.isEmpty then type.readMissing else type.read d.text
      return (e.value? "id", ⟨name, type⟩)

/-- Reads the keys of a file; of two with one id the later counts. -/
def readKeys (root : Element) : Except Fault DataKeys := do
  return (<- (root.named (named "key")).mapM readKey).reverse

/-- A text attribute with the value of an attribute of an element, or null. -/
def copied (key : String) (e : Element) (tag : String) : Value × Value :=
  (.text key, ((e.value? tag).map Value.text).getD .null)

/-- The label an element holds, null if it has no text. -/
def labelled (e : Element) : Value × Value :=
  (.text "label", if e.text.isEmpty then .null else .text e.text)

/-- The kinds of drawn nodes in the diagram extension. -/
def drawnNodes : List String := ["GenericNode", "ShapeNode", "SVGNode", "ImageNode"]

/-- The kinds of drawn edges in the diagram extension. -/
def drawnEdges : List String :=
  ["PolyLineEdge", "SplineEdge", "QuadCurveEdge", "BezierEdge", "ArcEdge"]

/-- What the diagram extension tells about a node or an edge. -/
def diagramData (e : Element) : Properties :=
  let inner (kind part : String) := e.second? (diagramNamed kind) (diagramNamed part)
  let configured := (e.first? (diagramNamed "GenericNode")).toList.map fun g =>
    copied "shape_type" g "configuration"
  let drawn := drawnNodes.flatMap fun kind =>
    (((inner kind "Geometry").toList.flatMap fun g => [copied "x" g "x", copied "y" g "y"]) ++
      (inner kind "Shape").toList.map fun s => copied "shape_type" s "type")
  let nodeLabel := drawnNodes.findSome? fun kind => inner kind "NodeLabel"
  let edgeLabel := drawnEdges.findSome? fun kind => inner kind "EdgeLabel"
  configured ++ drawn ++ nodeLabel.toList.map labelled ++ edgeLabel.toList.map labelled

/-- Reads one data element. -/
def readDatum (keys : DataKeys) (e : Element) : Except Fault Properties :=
  match keys.lookup (e.value? "key") with
  | none => .error .malformedGraph
  | some key =>
      if !e.children.isEmpty then .ok (diagramData e)
      else if e.text.isEmpty then .ok [(.text key.name, .text "")]
      else do return [(.text key.name, <- key.type.read e.text)]

/-- The attributes of an element. -/
def readData (keys : DataKeys) (e : Element) : Except Fault Properties := do
  let data <- (e.named (named "data")).mapM (readDatum keys)
  return Properties.update [] data.flatten

/-- The name an attribute of an element gives; without it the name is a fixed word. -/
def nameIn (e : Element) (tag : String) : Value := .text ((e.value? tag).getD "None")

/-- The key of an edge: its id, which is a number if it can be read as one, else its
attribute of that name. -/
def edgeKey (e : Element) (data : Properties) : Option Value :=
  match e.value? "id" with
  | none | some "" => Properties.value? data "key"
  | some id =>
      match Decimal.readInt? id with
      | some n => some (.int n)
      | none => some (.text id)

/-- Reads an edge.  It must not contradict the direction of the graph. -/
def readEdge (keys : DataKeys) (g : NamedGraph) (e : Element) :
    Except Fault NamedGraph := do
  let against := if g.directed then "false" else "true"
  if e.value? "directed" == some against then throw .malformedGraph
  let data <- readData keys e
  g.addEdge (nameIn e "source") (nameIn e "target") (edgeKey e data) data

mutual

/-- Reads the contents of a graph element.  Groups of the diagram extension hold graphs,
whose contents belong to the graph around them; they are followed to a depth. -/
def readContents (keys : DataKeys) :
    (depth : Nat) -> Element -> NamedGraph -> Except Fault NamedGraph
  | depth, e, g => do
      if (e.first? (named "hyperedge")).isSome then throw .malformedGraph
      let g <- (e.named (named "node")).foldlM (readNode keys depth) g
      let g <- (e.named (named "edge")).foldlM (readEdge keys) g
      let _ <- readData keys e
      return g
termination_by depth => 2 * depth + 1

/-- Reads a node. -/
def readNode (keys : DataKeys) :
    (depth : Nat) -> NamedGraph -> Element -> Except Fault NamedGraph
  | depth, g, e => do
      let data <- readData keys e
      if !isNodeAttributes data then throw .wrongType
      let (_, g) <- g.addNode (nameIn e "id") data
      if e.value? "yfiles.foldertype" == some "group" then
        match depth, e.first? (named "graph") with
        | depth + 1, some inner => readContents keys depth inner g
        | _, _ => throw .unsupported
      else return g
termination_by depth => 2 * depth

end

/-- Reads a graph element. -/
def readGraph (keys : DataKeys) (depth : Nat) (e : Element) :
    Except Fault NamedGraph :=
  readContents keys depth e
    (.empty (e.value? "edgedefault" == some "directed") true)

/-- Reads every graph in the characters of a file, following groups to a depth. -/
def readCharacters (depth : Nat) (content : List Char) :
    Except Fault (List NamedGraph) :=
  match Xml.declaredSupport? content, Xml.readDocument? content with
  | some .unknown, _ => .error .unknownEncoding
  | some .manyBytes, _ => .error .manyByteEncoding
  | _, none => .error .malformedGraph
  | _, some root => do
      let keys <- readKeys root
      (root.named (named "graph")).mapM (readGraph keys depth)

/-- Reads every graph of a file. -/
def readGraphs (text : String) : Except Fault (List NamedGraph) :=
  readCharacters text.length (Xml.contentOf text.toList)

/-- The text with the namespace put into every root tag that is written without one. -/
def withNamespace (text : String) : String :=
  text.replace "<graphml>" ("<graphml xmlns=\"" ++ space ++ "\">")

/-- The first graph of a file.  If the file has none, it is read once more with the
namespace supplied. -/
def readFirst (text : String) : Except Fault NamedGraph := do
  match <- readGraphs text with
  | g :: _ => return g
  | [] =>
      match <- readGraphs (withNamespace text) with
      | g :: _ => return g
      | [] => throw .malformedGraph

end ArcSelection.GraphML
