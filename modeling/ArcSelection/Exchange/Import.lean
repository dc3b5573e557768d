import ArcSelection.Exchange.NamedGraph
import ArcSelection.Exchange.NodeNames

/-!
# From a graph with names

Nodes are created in the order of the texts of their names, names with one text in the
order they came in.  Arcs follow the order of the edges.  The edges of an undirected graph
become edges; those of a directed graph become directed arcs unless their attribute
`directed` says no.
-/

namespace ArcSelection

/-- The attribute that tells directed arcs from edges. -/
def directedAttribute : String := "directed"

/-- A graph made from a graph with names, and the tables that connect the two. -/
structure Import where
  graph : StoredGraph
  names : NodeNames
  refs : ArcRefs
  /-- The node made for each position. -/
  placed : List (Nat × Node)

namespace Import

/-- Nothing has been made yet. -/
def start : Import := ⟨.empty, .empty, .empty, []⟩

/-- The node made for a position. -/
def nodeAt (s : Import) (i : Nat) : Node := (s.placed.lookup i).getD .absent

/-- Makes the node for a position. -/
def enterNode (s : Import) (n : (Value × Properties) × Nat) : Import :=
  let (node, graph) := s.graph.pushNode (Properties.unlessEmpty n.1.2)
  { s with graph, names := s.names.put n.1.1 node, placed := (n.2, node) :: s.placed }

/-- Whether an edge of a directed graph stands for a directed arc. -/
def isDirected (attributes : Properties) : Bool :=
  match Properties.value? attributes directedAttribute with
  | some v => v.isTruthy
  | none => true

/-- Makes the arc for an edge. -/
def enterEdge (directed : Bool) (s : Import) (e : NamedEdge) : Import :=
  let attributes :=
    if directed then Properties.without e.attributes directedAttribute else e.attributes
  let record : ArcRecord :=
    ⟨s.nodeAt e.source, s.nodeAt e.target, !(directed && isDirected e.attributes)⟩
  let (a, graph) := s.graph.pushArc record (Properties.unlessEmpty attributes)
  { s with graph, refs := s.refs.put a ⟨e.sourceName, e.targetName, e.key⟩ }

end Import

namespace NamedGraph

/-- The nodes with their positions, in the order of the texts of their names.  A name with an
integer that is too long to be written has no text to be sorted by. -/
def nodesByText (g : NamedGraph) : Except Fault (List ((Value × Properties) × Nat)) := do
  let texts <- g.nodes.zipIdx.mapM fun n => return (<- n.1.1.toName, n)
  return (texts.mergeSort fun a b => decide (a.1 ≤ b.1)).map (·.2)

/-- The graph, its names and its references made from a graph with names. -/
def toImport (g : NamedGraph) : Except Fault Import := do
  let nodes := (<- g.nodesByText).foldl Import.enterNode .start
  return g.edgesInOrder.foldl (Import.enterEdge g.directed) nodes

end NamedGraph

/-- Refuses a value that is no graph, telling what it is instead. -/
def notGraph (v : Value) : Fault :=
  .notMultigraph <| match v with
    | .null => "NoneType"
    | .bool _ => "bool"
    | .int _ => "int"
    | .float _ => "float"
    | .text _ => "str"
    | .date _ => "date"
    | .moment _ => "datetime"
    | .list _ => "list"
    | .tuple _ => "tuple"
    | .map _ => "dict"
    | .node _ => "Node"
    | .arc _ => "Arc"

end ArcSelection
