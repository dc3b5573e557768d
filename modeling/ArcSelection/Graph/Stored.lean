import ArcSelection.Attempt
import ArcSelection.Graph.Query

/-!
# Stored graphs

A mutable multigraph that mixes directed arcs and edges.  For every node it keeps the
arcs leaving it by head and the arcs entering it by tail; a neighbour keeps its place
until the last parallel arc in that direction is deleted.  An index maps every arc to its
ends, and automatic ids come from two counters that never go back.

An addition is attempted in the order of its checks and writes: the ids and ends are checked
first, then the counter is moved, then the graph is written.
-/

namespace ArcSelection

/-- The ends of one arc and whether it behaves as an edge. -/
structure ArcRecord where
  tail : Node
  head : Node
  isEdge : Bool
deriving DecidableEq, Inhabited

/-- The arcs of one node: those leaving it by head, and those entering it by tail. -/
structure Neighbours where
  leaving : OrderedMap Node (List Arc)
  entering : OrderedMap Node (List Arc)

namespace Neighbours

/-- No neighbours. -/
def empty : Neighbours := ⟨.empty, .empty⟩

end Neighbours

/-- The arcs of a neighbour in one direction. -/
def bucket (m : OrderedMap Node (List Arc)) (n : Node) : List Arc := (m.get? n).getD []

/-- Puts an arc last among the parallel arcs of a neighbour. -/
def addToBucket (m : OrderedMap Node (List Arc)) (n : Node) (a : Arc) :
    OrderedMap Node (List Arc) :=
  m.insert n (bucket m n ++ [a])

/-- Removes an arc from the parallel arcs of a neighbour, and the neighbour with its last. -/
def removeFromBucket (m : OrderedMap Node (List Arc)) (n : Node) (a : Arc) :
    OrderedMap Node (List Arc) :=
  match (bucket m n).filter (· != a) with
  | [] => m.erase n
  | rest => m.insert n rest

/-- A graph held in memory. -/
structure StoredGraph where
  nodes : OrderedMap Node Neighbours
  arcs : OrderedMap Arc ArcRecord
  edges : OrderedSet Arc
  properties : PropertyStore
  nextNode : Nat
  nextArc : Nat

/-- The least number from `n` on that is not taken, looking at `fuel` numbers at most. -/
def leastFree (taken : Nat -> Bool) : (fuel : Nat) -> Nat -> Nat
  | 0, n => n
  | fuel + 1, n => if taken n then leastFree taken fuel (n + 1) else n

/-- An explicit id: a positive integer. -/
def positiveId? : Value -> Option Int
  | .int n => if n > 0 then some n else none
  | _ => none

namespace StoredGraph

/-- The graph without nodes. -/
def empty : StoredGraph := ⟨.empty, .empty, .empty, .empty, 1, 1⟩

instance : Inhabited StoredGraph := ⟨empty⟩

/-- The ends of the stored arcs. -/
def ends (g : StoredGraph) : Ends where
  tail a := match g.arcs.get? a with
    | some r => r.tail
    | none => .absent
  head a := match g.arcs.get? a with
    | some r => r.head
    | none => .absent
  isEdge a := g.edges.contains a

/-- The arcs at a node: leaving arcs by neighbour, then entering arcs without loops. -/
def incidentArcs (g : StoredGraph) (n : Node) (f : ArcFilter) : List Arc :=
  match g.nodes.get? n with
  | none => []
  | some around =>
      let leaving := around.leaving.values.flatten
      let entering := (around.entering.entries.filter fun e => e.1 != n).flatMap (·.2)
      (leaving ++ entering).filter fun a => g.ends.passes a n f

/-- The arcs leaving one node for another. -/
def arcsFrom (g : StoredGraph) (u v : Node) : List Arc :=
  match g.nodes.get? u with
  | none => []
  | some around => bucket around.leaving v

/-- The arcs between two nodes: those from the first, then those from the second. -/
def arcsBetween (g : StoredGraph) (u v : Node) (f : ArcFilter) : List Arc :=
  if g.nodes.contains u && g.nodes.contains v then
    (g.arcsFrom u v ++ (if u = v then [] else g.arcsFrom v u)).filter fun a =>
      g.ends.passes a u f
  else []

/-- The queries of a stored graph. -/
def graph (g : StoredGraph) : Graph where
  toEnds := g.ends
  hasNode n := g.nodes.contains n
  hasArc a := g.arcs.contains a
  listNodes _ := g.nodes.keys
  allNodes test := g.nodes.keys.all test
  arcs f := if f = .edge then g.edges.keys else g.arcs.keys
  incidentArcs := g.incidentArcs
  arcsBetween := g.arcsBetween
  nodeCount := g.nodes.size
  arcCount f := if f = .edge then g.edges.size else g.arcs.size
  incidentArcCount n f := (g.incidentArcs n f).length
  arcCountBetween u v f := (g.arcsBetween u v f).length
  nodeProperties n := g.properties.nodes.get? n
  arcProperties a := g.properties.arcs.get? a

/-- The node an automatic allocation returns. -/
def freshNode (g : StoredGraph) : Nat :=
  leastFree (fun n => g.nodes.contains ⟨n⟩) (g.nodes.size + 1) g.nextNode

/-- The arc an automatic allocation returns. -/
def freshArc (g : StoredGraph) : Nat :=
  leastFree (fun n => g.arcs.contains ⟨n⟩) (g.arcs.size + 1) g.nextArc

/-- Adds a node under a free id. -/
def putNode (g : StoredGraph) (n : Node) (properties : Option Properties) : StoredGraph :=
  { g with
    nodes := g.nodes.insert n .empty
    properties := g.properties.attachNode n properties }

/-- Adds a node under an automatic id. -/
def pushNode (g : StoredGraph) (properties : Option Properties) : Node × StoredGraph :=
  let n := g.freshNode
  (⟨n⟩, { g.putNode ⟨n⟩ properties with nextNode := n + 1 })

/-- Takes the next automatic id of a node; the counter goes past it. -/
def takeNode : Attempt StoredGraph Node := do
  let g <- get
  let n := g.freshNode
  set { g with nextNode := n + 1 }
  return ⟨n⟩

/-- Takes an explicit id of a node, which must be free. -/
def claimNode (value : Value) : Attempt StoredGraph Node :=
  match positiveId? value with
  | none => throw (.badId .node value)
  | some n => do
      if (<- get).nodes.contains ⟨n⟩ then throw (.nodeInUse ⟨n⟩)
      return ⟨n⟩

/-- Attempts to add a node, under the given id if there is one. -/
def tryAddNode (id : Option Value) (properties : Option Properties) :
    Attempt StoredGraph Node := do
  let n <- match id with
    | none => takeNode
    | some value => claimNode value
  modify fun g => g.putNode n properties
  return n

/-- Adds a node, under the given id if there is one. -/
def addNode (g : StoredGraph) (id : Option Value) (properties : Option Properties) :
    Except Fault (Node × StoredGraph) :=
  (tryAddNode id properties).outcome g

/-- Adds an arc under a free id between two nodes of the graph. -/
def putArc (g : StoredGraph) (a : Arc) (r : ArcRecord) (properties : Option Properties) :
    StoredGraph :=
  { g with
    nodes :=
      (g.nodes.modify r.tail fun around =>
        { around with leaving := addToBucket around.leaving r.head a }).modify r.head
        fun around => { around with entering := addToBucket around.entering r.tail a }
    arcs := g.arcs.insert a r
    edges := if r.isEdge then g.edges.insert a () else g.edges
    properties := g.properties.attachArc a properties }

/-- Adds an arc between two nodes of the graph under an automatic id. -/
def pushArc (g : StoredGraph) (r : ArcRecord) (properties : Option Properties) :
    Arc × StoredGraph :=
  let a := g.freshArc
  (⟨a⟩, { g.putArc ⟨a⟩ r properties with nextArc := a + 1 })

/-- Takes the next automatic id of an arc; the counter goes past it. -/
def takeArc : Attempt StoredGraph Arc := do
  let g <- get
  let a := g.freshArc
  set { g with nextArc := a + 1 }
  return ⟨a⟩

/-- Takes an explicit id of an arc, which must be free. -/
def claimArc (value : Value) : Attempt StoredGraph Arc :=
  match positiveId? value with
  | none => throw (.badId .arc value)
  | some a => do
      if (<- get).arcs.contains ⟨a⟩ then throw (.arcInUse ⟨a⟩)
      return ⟨a⟩

/-- Attempts to add an arc, under the given id if there is one.  The tail is checked before the
head, and both before the id. -/
def tryAddArc (u v : Node) (direction : Directedness) (id : Option Value)
    (properties : Option Properties) : Attempt StoredGraph Arc := do
  if !(<- get).nodes.contains u then throw (.noTail u)
  if !(<- get).nodes.contains v then throw (.noHead v)
  let a <- match id with
    | none => takeArc
    | some value => claimArc value
  modify fun g => g.putArc a ⟨u, v, direction == .undirected⟩ properties
  return a

/-- Adds an arc, under the given id if there is one. -/
def addArc (g : StoredGraph) (u v : Node) (direction : Directedness) (id : Option Value)
    (properties : Option Properties) : Except Fault (Arc × StoredGraph) :=
  (tryAddArc u v direction id properties).outcome g

/-- Removes an arc, and tells whether it was there. -/
def deleteArc (g : StoredGraph) (a : Arc) : Bool × StoredGraph :=
  match g.arcs.get? a with
  | none => (false, g)
  | some r =>
      (true,
        { g with
          nodes :=
            (g.nodes.modify r.tail fun around =>
              { around with leaving := removeFromBucket around.leaving r.head a }).modify
              r.head fun around =>
                { around with entering := removeFromBucket around.entering r.tail a }
          arcs := g.arcs.erase a
          edges := g.edges.erase a
          properties := g.properties.setArc a none })

/-- Removes a node with every arc at it, and tells whether it was there. -/
def deleteNode (g : StoredGraph) (n : Node) : Bool × StoredGraph :=
  if g.nodes.contains n then
    let bare := (g.incidentArcs n .all).foldl (fun h a => (h.deleteArc a).2) g
    (true,
      { bare with
        nodes := bare.nodes.erase n
        properties := bare.properties.setNode n none })
  else (false, g)

/-- Removes every node and arc; the counters stay. -/
def clear (g : StoredGraph) : StoredGraph :=
  { empty with nextNode := g.nextNode, nextArc := g.nextArc }

end StoredGraph

end ArcSelection
