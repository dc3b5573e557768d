import ArcSelection.Graph.Query

/-!
# Complete graphs

A complete graph on the nodes `1 .. n` is computed, not stored.  The arc from the node
with index `x` to the node with index `y` has the id `1 + y * n + x`; without direction
the smaller index is the tail.  There are no loops.
-/

namespace ArcSelection

/-- The largest id; ids stay within signed 64-bit integers. -/
def maxId : Int := Nat.pow 2 63 - 1

/-- A complete graph, with arcs in both directions or with edges. -/
structure CompleteGraph where
  size : Nat
  directed : Bool
  /-- Properties can be attached although nothing else is stored. -/
  properties : PropertyStore

namespace CompleteGraph

/-- The complete graph on a number of nodes; the number must be positive, and its square
must be an id. -/
def create (count : Value) (direction : Directedness) : Except Fault CompleteGraph :=
  match count with
  | .int n =>
      if n ≤ 0 then .error (.badNodeCount count)
      else if n * n > maxId then .error (.tooManyNodes n)
      else .ok ⟨n.toNat, direction == .directed, .empty⟩
  | _ => .error (.badNodeCount count)

/-- The node with an index counted from zero. -/
def nodeAt (index : Int) : Node := ⟨1 + index⟩

/-- The index of a node, counted from zero. -/
def indexOf (n : Node) : Int := n.id - 1

/-- The nodes are those with ids up to the size. -/
def hasNode (g : CompleteGraph) (n : Node) : Bool := 1 ≤ n.id && n.id ≤ (g.size : Int)

/-- The index of the tail of an arc id. -/
def tailIndex (g : CompleteGraph) (a : Arc) : Int := (a.id - 1).fmod g.size

/-- The index of the head of an arc id. -/
def headIndex (g : CompleteGraph) (a : Arc) : Int := (a.id - 1).fdiv g.size

/-- The arc ids: those of two distinct nodes, in increasing order if there is no direction. -/
def hasArc (g : CompleteGraph) (a : Arc) : Bool :=
  let n : Int := g.size
  if 1 ≤ a.id && a.id ≤ n * n then
    if g.directed then g.tailIndex a != g.headIndex a else g.tailIndex a < g.headIndex a
  else false

/-- The arc from an index to another. -/
def arcAt (g : CompleteGraph) (x y : Int) : Arc := ⟨1 + y * g.size + x⟩

/-- The arc from one node to another; absent for equal or foreign nodes. -/
def getArc (g : CompleteGraph) (u v : Node) : Arc :=
  if u = v || !g.hasNode u || !g.hasNode v then .absent
  else
    let x := indexOf u
    let y := indexOf v
    if !g.directed && x > y then g.arcAt y x else g.arcAt x y

/-- The nodes in increasing order. -/
def nodes (g : CompleteGraph) : List Node := (List.range g.size).map fun i => nodeAt (i : Nat)

/-- Every arc, by tail and then by head. -/
def allArcs (g : CompleteGraph) : List Arc :=
  (List.range g.size).flatMap fun i =>
    ((List.range g.size).filter fun j => if g.directed then i != j else i < j).map
      fun j => g.arcAt (i : Nat) (j : Nat)

/-- The arcs that pass a filter of the whole graph. -/
def arcs (g : CompleteGraph) (f : ArcFilter) : List Arc :=
  if g.directed && f = .edge then [] else g.allArcs

/-- The nodes other than one. -/
def others (g : CompleteGraph) (n : Node) : List Node := g.nodes.filter (· != n)

/-- The arcs at a node: with direction the entering ones, then the leaving ones. -/
def incidentArcs (g : CompleteGraph) (n : Node) (f : ArcFilter) : List Arc :=
  if !g.hasNode n then []
  else if g.directed then
    if f = .edge then []
    else
      (if f = .forward then [] else (g.others n).map fun w => g.getArc w n) ++
        (if f = .backward then [] else (g.others n).map fun w => g.getArc n w)
  else (g.others n).map fun w => g.getArc n w

/-- The arcs between two nodes: with direction the one back, then the one forth. -/
def arcsBetween (g : CompleteGraph) (u v : Node) (f : ArcFilter) : List Arc :=
  if u = v || !g.hasNode u || !g.hasNode v then []
  else if g.directed then
    if f = .edge then []
    else
      (if f = .forward then [] else [g.getArc v u]) ++
        (if f = .backward then [] else [g.getArc u v])
  else [g.getArc u v]

/-- The number of arcs that pass a filter of the whole graph. -/
def arcCount (g : CompleteGraph) (f : ArcFilter) : Nat :=
  if g.directed then (if f = .edge then 0 else g.size * (g.size - 1))
  else g.size * (g.size - 1) / 2

/-- The number of arcs at a node that pass a filter there. -/
def incidentArcCount (g : CompleteGraph) (n : Node) (f : ArcFilter) : Nat :=
  if !g.hasNode n then 0
  else if !g.directed then g.size - 1
  else
    match f with
    | .all => 2 * (g.size - 1)
    | .edge => 0
    | .forward | .backward => g.size - 1

/-- The number of arcs between two nodes that pass a filter seen from the first. -/
def arcCountBetween (g : CompleteGraph) (u v : Node) (f : ArcFilter) : Nat :=
  if u = v || !g.hasNode u || !g.hasNode v then 0
  else if !g.directed then 1
  else
    match f with
    | .all => 2
    | .edge => 0
    | .forward | .backward => 1

/-- The queries of a complete graph. -/
def graph (g : CompleteGraph) : Graph where
  tail a := if g.hasArc a then nodeAt (g.tailIndex a) else .absent
  head a := if g.hasArc a then nodeAt (g.headIndex a) else .absent
  isEdge _ := !g.directed
  hasNode := g.hasNode
  hasArc := g.hasArc
  listNodes _ := g.nodes
  allNodes test := Nat.all g.size fun i _ => test (nodeAt (i : Nat))
  arcs := g.arcs
  incidentArcs := g.incidentArcs
  arcsBetween := g.arcsBetween
  nodeCount := g.size
  arcCount := g.arcCount
  incidentArcCount := g.incidentArcCount
  arcCountBetween := g.arcCountBetween
  nodeProperties n := g.properties.nodes.get? n
  arcProperties a := g.properties.arcs.get? a

end CompleteGraph

end ArcSelection
