import ArcSelection.Exchange.Import
import ArcSelection.Graph.Query

/-!
# To a graph with names

Every graph can be written as a directed graph with names and parallel edges.  Nodes are
named through a table, or by their ids; nodes that come to share a name are merged.  The
key of an edge is the id of its arc, and its attribute `directed` tells whether the arc is
directed.
-/

namespace ArcSelection

/-- The name of a node: from the table if there is one, else its id. -/
def exportName (names : Option NodeNames) (n : Node) : Value :=
  match names with
  | some m => m.name n
  | none => .int n.id

/-- A graph with names in the making, and where each node went. -/
structure Export where
  graph : NamedGraph
  placed : List (Node × Nat)

namespace Export

/-- Writes a node, or merges its attributes if it was written before. -/
def enterNode (g : Graph) (names : Option NodeNames) (s : Export) (n : Node) :
    Except Fault Export := do
  let attributes := (g.nodeProperties n).getD []
  if !isNodeAttributes attributes then throw .wrongType
  match s.placed.lookup n with
  | some i => return { s with graph := s.graph.mergeNode i attributes }
  | none => do
      let (i, graph) <- s.graph.addNode (exportName names n) attributes
      return ⟨graph, (n, i) :: s.placed⟩

/-- The position of a node, which is written now if it was not before. -/
def place (names : Option NodeNames) (s : Export) (n : Node) : Except Fault (Nat × Export) :=
  match s.placed.lookup n with
  | some i => .ok (i, s)
  | none => do
      let (i, graph) <- s.graph.addNode (exportName names n) []
      return (i, ⟨graph, (n, i) :: s.placed⟩)

/-- Writes an arc. -/
def enterArc (g : Graph) (names : Option NodeNames) (s : Export) (a : Arc) :
    Except Fault Export := do
  let attributes :=
    Properties.put ((g.arcProperties a).getD []) directedAttribute (.bool !(g.isEdge a))
  let (i, s) <- s.place names (g.tail a)
  let (j, s) <- s.place names (g.head a)
  let edge : NamedEdge :=
    ⟨i, j, exportName names (g.tail a), exportName names (g.head a), .int a.id, attributes⟩
  return { s with graph := s.graph.putEdge edge }

end Export

/-- A graph written as a graph with names, and where each node went. -/
def Graph.toExport (g : Graph) (names : Option NodeNames) : Except Fault Export := do
  let nodes <- g.nodes.foldlM (Export.enterNode g names) ⟨.empty true true, []⟩
  (g.arcs .all).foldlM (Export.enterArc g names) nodes

/-- A graph written as a graph with names. -/
def Graph.toNamed (g : Graph) (names : Option NodeNames) : Except Fault NamedGraph := do
  return (<- g.toExport names).graph

end ArcSelection
