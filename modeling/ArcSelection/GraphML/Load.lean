import ArcSelection.Exchange.Import
import ArcSelection.GraphML.Vocabulary
import ArcSelection.Keyword
import ArcSelection.Log.Record

/-!
# Loading graph files

A graph file is read as a graph with names, by any reader of the format.  The shape attribute
of nodes is moved into a table of its own before the graph is made.
-/

namespace ArcSelection.GraphML

/-- A reader of graph files.  It fails with `Fault.malformedGraph` on a text that is none. -/
abbrev Reader := String -> Except Fault NamedGraph

/-- A graph read from a file. -/
structure Loaded where
  graph : StoredGraph
  names : NodeNames
  shapes : OrderedMap Node NodeShape

/-- The shapes that nodes have by their attribute, by position. -/
def readShapes (g : NamedGraph) : Except Fault (List (Nat × NodeShape)) := do
  let found <- g.nodes.zipIdx.mapM fun (n, i) =>
    match Properties.value? n.2 shapeAttribute with
    | some v => do return [(i, <- NodeShape.read v.plainText)]
    | none => .ok []
  return found.flatten

/-- A graph whose nodes have lost their shape attribute. -/
def withoutShapes (g : NamedGraph) : NamedGraph :=
  { g with nodes := g.nodes.map fun n => (n.1, Properties.without n.2 shapeAttribute) }

/-- The failure to load a file whose reading failed: the name of a malformed file is told. -/
def loadFault (file : String) : Fault -> Fault
  | .malformedGraph => .invalidGraphFile file
  | fault => fault

/-- Loads a graph file. -/
def load (read : Reader) (file text : String) : Except Fault Loaded := do
  let g <- (read text).mapError (loadFault file)
  let shapes <- readShapes g
  let made <- (withoutShapes g).toImport
  return {
    graph := made.graph
    names := made.names
    shapes := .ofList (shapes.map fun s => (made.nodeAt s.1, s.2)) }

/-- The report on a file that was read. -/
def loadedReport (path : String) (l : Loaded) : LogRecord :=
  ⟨.debug, .graphFile,
    "Loaded GraphML from " ++ path ++ ": " ++ toString l.graph.nodes.size ++ " nodes, " ++
      toString l.graph.arcs.size ++ " arcs"⟩

end ArcSelection.GraphML
