import ArcSelection.Fault
import ArcSelection.OrderedMap

/-!
# Names of nodes and references of arcs

Two tables connect a graph with the names it was made from: one between names and nodes,
and one between arcs and the edges they stand for.  Either can be read in both directions.
-/

namespace ArcSelection

/-- A table between names and nodes. -/
structure NodeNames where
  nodes : OrderedMap Value Node
  names : OrderedMap Node Value

namespace NodeNames

/-- The empty table. -/
def empty : NodeNames := ⟨.empty, .empty⟩

/-- Enters a name for a node.  Each direction keeps what was entered last. -/
def put (m : NodeNames) (name : Value) (n : Node) : NodeNames :=
  ⟨m.nodes.insert name n, m.names.insert n name⟩

/-- Enters a name that is hashable. -/
def add (m : NodeNames) (name : Value) (n : Node) : Except Fault NodeNames :=
  if name.isHashable then .ok (m.put name n) else .error .wrongType

/-- The name of a node: the id of the node itself if none was entered. -/
def name (m : NodeNames) (n : Node) : Value := (m.names.get? n).getD (.int n.id)

/-- The number of names. -/
def size (m : NodeNames) : Nat := m.nodes.size

end NodeNames

/-- How an edge is referred to: the names of its ends, and its key. -/
structure EdgeRef where
  source : Value
  target : Value
  key : Value

namespace EdgeRef

instance : BEq EdgeRef :=
  ⟨fun a b => a.source == b.source && a.target == b.target && a.key == b.key⟩

end EdgeRef

/-- A table between arcs and edges. -/
structure ArcRefs where
  refs : OrderedMap Arc EdgeRef
  arcs : OrderedMap EdgeRef Arc

namespace ArcRefs

/-- The empty table. -/
def empty : ArcRefs := ⟨.empty, .empty⟩

/-- Enters the edge of an arc. -/
def put (m : ArcRefs) (a : Arc) (r : EdgeRef) : ArcRefs :=
  ⟨m.refs.insert a r, m.arcs.insert r a⟩

/-- The number of arcs. -/
def size (m : ArcRefs) : Nat := m.refs.size

end ArcRefs

end ArcSelection
