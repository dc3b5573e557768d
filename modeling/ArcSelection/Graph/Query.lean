import ArcSelection.Keyword
import ArcSelection.OrderedMap

/-!
# The queries every graph answers

A graph is known through its queries.  Every arc has a tail and a head, and behaves either
as a directed arc or as an edge.  Queries about nodes or arcs that do not belong to the
graph answer with the absent node, `false`, nothing or an empty list.

The record below carries no laws: stored graphs, complete graphs and views each build one
from their own data, and what the queries of one graph have in common is stated about the
graphs that are built.
-/

namespace ArcSelection

/-- The ends of the arcs of a graph and whether each behaves as an edge. -/
structure Ends where
  tail : Arc -> Node
  head : Arc -> Node
  isEdge : Arc -> Bool

namespace Ends

/-- Whether an arc, seen from a node, passes a filter. -/
def passes (e : Ends) (a : Arc) (n : Node) (f : ArcFilter) : Bool :=
  match f with
  | .all => true
  | .edge => e.isEdge a
  | .forward => e.isEdge a || e.tail a == n
  | .backward => e.isEdge a || e.head a == n

/-- The end of an arc opposite to a node. -/
def other (e : Ends) (a : Arc) (n : Node) : Node :=
  if e.tail a = n then e.head a else e.tail a

/-- Whether a node is an end of an arc. -/
def touches (e : Ends) (a : Arc) (n : Node) : Bool := e.tail a == n || e.head a == n

/-- Whether an arc joins two nodes in one of the two directions. -/
def joins (e : Ends) (a : Arc) (u v : Node) : Bool :=
  (e.tail a == u && e.head a == v) || (e.tail a == v && e.head a == u)

end Ends

/-- The queries of a graph. -/
structure Graph extends Ends where
  hasNode : Node -> Bool
  hasArc : Arc -> Bool
  /-- The nodes in order, listed on demand. -/
  listNodes : Unit -> List Node
  /-- Whether every node passes a test; the first that does not settles it. -/
  allNodes : (Node -> Bool) -> Bool
  /-- The arcs in order; `edge` keeps the edges, the other filters keep every arc. -/
  arcs : ArcFilter -> List Arc
  /-- The arcs at a node that pass a filter there, a loop once. -/
  incidentArcs : Node -> ArcFilter -> List Arc
  /-- The arcs that join two nodes and pass a filter seen from the first. -/
  arcsBetween : Node -> Node -> ArcFilter -> List Arc
  nodeCount : Nat
  arcCount : ArcFilter -> Nat
  incidentArcCount : Node -> ArcFilter -> Nat
  arcCountBetween : Node -> Node -> ArcFilter -> Nat
  /-- The property map of a node; nothing if none was ever set. -/
  nodeProperties : Node -> Option Properties
  /-- The property map of an arc; nothing if none was ever set. -/
  arcProperties : Arc -> Option Properties

namespace Graph

/-- The nodes in order. -/
def nodes (g : Graph) : List Node := g.listNodes ()

/-- The node count, the arc count and the edge count. -/
def sizes (g : Graph) : Nat × Nat × Nat := (g.nodeCount, g.arcCount .all, g.arcCount .edge)

end Graph

/-- Property maps by node and by arc. -/
structure PropertyStore where
  nodes : OrderedMap Node Properties
  arcs : OrderedMap Arc Properties

namespace PropertyStore

/-- No properties at all. -/
def empty : PropertyStore := ⟨.empty, .empty⟩

/-- Attaches a map to a node, or detaches the one it has. -/
def setNode (p : PropertyStore) (n : Node) : Option Properties -> PropertyStore
  | some properties => { p with nodes := p.nodes.insert n properties }
  | none => { p with nodes := p.nodes.erase n }

/-- Attaches a map to an arc, or detaches the one it has. -/
def setArc (p : PropertyStore) (a : Arc) : Option Properties -> PropertyStore
  | some properties => { p with arcs := p.arcs.insert a properties }
  | none => { p with arcs := p.arcs.erase a }

/-- Attaches a map to a node if one is given. -/
def attachNode (p : PropertyStore) (n : Node) : Option Properties -> PropertyStore
  | some properties => p.setNode n (some properties)
  | none => p

/-- Attaches a map to an arc if one is given. -/
def attachArc (p : PropertyStore) (a : Arc) : Option Properties -> PropertyStore
  | some properties => p.setArc a (some properties)
  | none => p

end PropertyStore

end ArcSelection
