import ArcSelection.Graph.Stored
import ArcSelection.Value.Properties

/-!
# Graphs with names

A graph as other programs exchange it: nodes are known by names of any hashable kind, and
an edge is known by its two ends and a key.  Nodes keep the order in which they were first
mentioned, and mentioning a node or an edge again merges its attributes.

A node is referred to by its position in the list of nodes.  An edge also remembers how
its ends were spelled, because equal names may be spelled differently, such as one and
true.
-/

namespace ArcSelection

/-- The attribute names that cannot be given to a node. -/
def reservedNodeAttributes : List String := ["self", "node_for_adding"]

/-- Whether every key is a text and none is reserved. -/
def isNodeAttributes (p : Properties) : Bool :=
  p.all fun e => match e.1 with
    | .text s => !reservedNodeAttributes.contains s
    | _ => false

/-- An edge between two positions, with the spelling of its ends. -/
structure NamedEdge where
  source : Nat
  target : Nat
  sourceName : Value
  targetName : Value
  key : Value
  attributes : Properties

namespace NamedEdge

/-- The edge seen from its other end. -/
def turned (e : NamedEdge) : NamedEdge :=
  { e with
    source := e.target
    target := e.source
    sourceName := e.targetName
    targetName := e.sourceName }

end NamedEdge

/-- A graph with named nodes and keyed edges. -/
structure NamedGraph where
  /-- Whether the edges have a direction. -/
  directed : Bool
  /-- Whether two nodes may be joined by several edges. -/
  parallel : Bool
  nodes : List (Value × Properties)
  edges : List NamedEdge

namespace NamedGraph

/-- The graph without nodes. -/
def empty (directed parallel : Bool) : NamedGraph := ⟨directed, parallel, [], []⟩

/-- The position of a name. -/
def position? (g : NamedGraph) (name : Value) : Option Nat :=
  g.nodes.findIdx? fun n => n.1 == name

/-- Merges attributes into the node at a position. -/
def mergeNode (g : NamedGraph) (i : Nat) (attributes : Properties) : NamedGraph :=
  { g with nodes := g.nodes.modify i fun n => (n.1, Properties.update n.2 attributes) }

/-- Adds a node, or merges attributes into the node that has the name.  A name must be
hashable and not null. -/
def addNode (g : NamedGraph) (name : Value) (attributes : Properties) :
    Except Fault (Nat × NamedGraph) :=
  if !name.isHashable then .error .wrongType
  else
    match g.position? name with
    | some i => .ok (i, g.mergeNode i attributes)
    | none =>
        if name matches .null then .error .absentName
        else .ok (g.nodes.length, { g with nodes := g.nodes ++ [(name, attributes)] })

/-- Whether an edge joins two positions, in this order if the graph is directed. -/
def joins (g : NamedGraph) (i j : Nat) (e : NamedEdge) : Bool :=
  (e.source == i && e.target == j) || (!g.directed && e.source == j && e.target == i)

/-- The least number from the count of parallel edges on that is no key of theirs. -/
def freeKey (g : NamedGraph) (i j : Nat) : Value :=
  let keys := (g.edges.filter (g.joins i j)).map (·.key)
  .int (leastFree (fun n => keys.any fun k => k == .int n) (keys.length + 1) keys.length)

/-- Adds an edge between two positions, or merges attributes into the edge that has the
same ends and key. -/
def putEdge (g : NamedGraph) (e : NamedEdge) : NamedGraph :=
  let same := fun f => g.joins e.source e.target f && f.key == e.key
  if g.edges.any same then
    { g with
      edges := g.edges.map fun f =>
        if same f then { f with attributes := Properties.update f.attributes e.attributes }
        else f }
  else { g with edges := g.edges ++ [e] }

/-- Adds an edge between two names, which become nodes if they are not.  Without a key the
edge gets a free one; where parallel edges are not allowed the key is always zero. -/
def addEdge (g : NamedGraph) (u v : Value) (key : Option Value) (attributes : Properties) :
    Except Fault NamedGraph := do
  let (i, g) <- g.addNode u []
  let (j, g) <- g.addNode v []
  let key := if g.parallel then key.getD (g.freeKey i j) else .int 0
  if !key.isHashable then throw .wrongType
  return g.putEdge ⟨i, j, u, v, key, attributes⟩

/-- The edges at a position, each turned to leave it.  An undirected edge is seen only from
the end that comes first. -/
def edgesFrom (g : NamedGraph) (i : Nat) : List NamedEdge :=
  if g.directed then g.edges.filter fun e => e.source == i
  else
    (g.edges.filterMap fun e =>
      if e.source = i then some e else if e.target = i then some e.turned else none).filter
      fun e => i ≤ e.target

/-- The edges at a position grouped by neighbour, the neighbours in the order in which they
became one and spelled as they were then. -/
def groupedFrom (g : NamedGraph) (i : Nat) (name : Value) : List NamedEdge :=
  let around := g.edgesFrom i
  (around.map (·.target)).eraseDups.flatMap fun j =>
    let shared := around.filter fun e => e.target == j
    let spelled := (shared.head?.map (·.targetName)).getD .null
    shared.map fun e => { e with sourceName := name, targetName := spelled }

/-- Every edge once: node by node, then by neighbour, then in the order of insertion. -/
def edgesInOrder (g : NamedGraph) : List NamedEdge :=
  g.nodes.zipIdx.flatMap fun (n, i) => g.groupedFrom i n.1

end NamedGraph

end ArcSelection
