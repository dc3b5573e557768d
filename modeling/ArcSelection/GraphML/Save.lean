import ArcSelection.Exchange.Export
import ArcSelection.GraphML.Vocabulary

/-!
# Saving graphs to files

A graph is exported as a directed multigraph whose edges tell by an attribute whether they
are directed.  Attributes without a value are dropped, and values that are not scalars become
their texts.  Any writer of the format may write what comes out.
-/

namespace ArcSelection.GraphML

/-- A writer of graph files. -/
abbrev Writer := NamedGraph -> Except Fault String

/-- A value as a file can hold it. -/
def scalar : Value -> Except Fault Value
  | .bool b => .ok (.bool b)
  | .int n => .ok (.int n)
  | .float x => .ok (.float x)
  | v => return .text (<- v.toName)

/-- An attribute as a file can hold it.  One without a value is dropped. -/
def sanitizeEntry (e : Value × Value) : Except Fault (Option (Value × Value)) :=
  match e.2 with
  | .null => .ok none
  | v => return some (.text (<- e.1.toName), <- scalar v)

/-- The attributes as a file can hold them. -/
def sanitize (p : Properties) : Except Fault Properties :=
  return Properties.update [] ((<- p.mapM sanitizeEntry).filterMap id)

/-- Sanitizes the attributes of every node and edge. -/
def sanitizeGraph (g : NamedGraph) : Except Fault NamedGraph := do
  let nodes <- g.nodes.mapM fun n => return (n.1, <- sanitize n.2)
  let edges <- g.edges.mapM fun e => return { e with attributes := <- sanitize e.attributes }
  return { g with nodes, edges }

/-- Gives a node its shape.  The node must belong to the graph. -/
def enterShape (g : Graph) (e : Export) (n : NamedGraph) (s : Node × NodeShape) :
    Except Fault NamedGraph :=
  match g.hasNode s.1, e.placed.lookup s.1 with
  | true, some i => .ok (n.mergeNode i [(.text shapeAttribute, .text s.2.word)])
  | _, _ => .error (.shapeOfUnknownNode s.1)

/-- Gives nodes their shapes. -/
def addShapes (g : Graph) (e : Export) (shapes : OrderedMap Node NodeShape) :
    Except Fault NamedGraph := do
  shapes.entries.foldlM (enterShape g e) (<- sanitizeGraph e.graph)

/-- The text of a graph file. -/
def save (write : Writer) (g : Graph) (names : Option NodeNames)
    (shapes : OrderedMap Node NodeShape) : Except Fault String := do
  write (<- addShapes g (<- g.toExport names) shapes)

end ArcSelection.GraphML
