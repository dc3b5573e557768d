import ArcSelection.Arithmetic
import ArcSelection.Graph.Query

/-!
# Shortest paths with costs of either sign

Distances from a set of sources are lowered pass by pass.  A pass goes through the nodes
reached so far, in the order they were first reached, and lowers the neighbours of each
over the arcs that lead forward from it; a node first reached during a pass is expanded
from the next pass on.  If distances still fall after as many passes as the graph has
nodes, the arcs that led to the last lowered node run into a cycle of negative cost.
-/

namespace ArcSelection

/-- What is known of a reached node: its distance, and the arc that gave it; a source has
no such arc until its own distance falls. -/
structure PathLabel (α : Type) where
  distance : α
  arc : Option Arc

/-- The labels of the reached nodes, in the order they were first reached. -/
abbrev PathLabels (α : Type) := OrderedMap Node (PathLabel α)

/-- The labels during a pass, and the node lowered last in it. -/
structure Sweep (α : Type) where
  labels : PathLabels α
  lowered : Option Node

/-- The outcome of a search: the final labels and, if one was found, a negative cycle. -/
structure ShortestPaths (α : Type) where
  labels : PathLabels α
  cycle : Option (List Arc)

namespace ShortestPaths

variable {α : Type} [Arithmetic α]

/-- The distance of a node, infinite if it was not reached. -/
def distanceIn (labels : PathLabels α) (n : Node) : α :=
  match labels.get? n with
  | some label => label.distance
  | none => Arithmetic.top

/-- The sources that belong to the graph, at distance zero. -/
def sourceLabels (g : Graph) (sources : List Node) : PathLabels α :=
  sources.foldl
    (fun labels n =>
      if g.hasNode n then labels.insert n ⟨Arithmetic.origin, none⟩ else labels)
    .empty

/-- Lowers the far end of an arc, seen from a node at the given distance. -/
def relax (g : Graph) (cost : Arc -> Except Fault α) (n : Node) (distance : α)
    (s : Sweep α) (a : Arc) : Except Fault (Sweep α) := do
  let far := g.other a n
  let candidate <- Arithmetic.add distance (<- cost a)
  if <- Arithmetic.less candidate (distanceIn s.labels far) then
    return ⟨s.labels.insert far ⟨candidate, some a⟩, some far⟩
  else return s

/-- Lowers every neighbour of a node. -/
def expand (g : Graph) (cost : Arc -> Except Fault α) (s : Sweep α) (n : Node) :
    Except Fault (Sweep α) :=
  (g.incidentArcs n .forward).foldlM (relax g cost n (distanceIn s.labels n)) s

/-- Expands every node that is reached when the pass starts. -/
def sweep (g : Graph) (cost : Arc -> Except Fault α) (labels : PathLabels α) :
    Except Fault (Sweep α) :=
  labels.keys.foldlM (expand g cost) ⟨labels, none⟩

/-- Makes up to `passes` passes, ending early after one that lowers nothing. -/
def settle (g : Graph) (cost : Arc -> Except Fault α) :
    (passes : Nat) -> Sweep α -> Except Fault (Sweep α)
  | 0, s => .ok s
  | passes + 1, s => do
      let next <- sweep g cost s.labels
      if next.lowered.isNone then return next else settle g cost passes next

/-- Goes back over the arcs that gave the labels, a number of steps; nothing if a source
is met. -/
def stepBack (g : Graph) (labels : PathLabels α) : (steps : Nat) -> Node -> Option Node
  | 0, n => some n
  | steps + 1, n => do
      let label <- labels.get? n
      let a <- label.arc
      stepBack g labels steps (g.other a n)

/-- The arcs that gave the labels from a node back to a goal, last arc first. -/
def arcsBackTo (g : Graph) (labels : PathLabels α) (goal : Node) :
    (fuel : Nat) -> Node -> Option (List Arc)
  | 0, _ => none
  | fuel + 1, n => do
      let label <- labels.get? n
      let a <- label.arc
      let next := g.other a n
      if next = goal then some [a]
      else (arcsBackTo g labels goal fuel next).map (a :: ·)

/-- The cycle that the labels run into behind a node, in the direction of travel. -/
def cycleBehind (g : Graph) (labels : PathLabels α) (n : Node) : Option (List Arc) := do
  let start <- stepBack g labels g.nodeCount n
  let backwards <- arcsBackTo g labels start (labels.size + 1) start
  return backwards.reverse

/-- Computes the distances of all nodes from a set of sources. -/
def search (g : Graph) (cost : Arc -> Except Fault α) (sources : List Node) :
    Except Fault (ShortestPaths α) := do
  let final <- settle g cost g.nodeCount ⟨sourceLabels g sources, none⟩
  match final.lowered with
  | none => return ⟨final.labels, none⟩
  | some n => return ⟨final.labels, cycleBehind g final.labels n⟩

/-- Whether a node was reached. -/
def reached (p : ShortestPaths α) (n : Node) : Bool := p.labels.contains n

/-- The distance of a node, infinite if it was not reached. -/
def distance (p : ShortestPaths α) (n : Node) : α := distanceIn p.labels n

/-- The last arc on the way to a node; nothing for sources and unreached nodes. -/
def lastArc? (p : ShortestPaths α) (n : Node) : Option Arc :=
  (p.labels.get? n).bind (·.arc)

/-- The arcs on the way to a node, last arc first. -/
def arcsBack (g : Graph) (labels : PathLabels α) : (fuel : Nat) -> Node -> List Arc
  | 0, _ => []
  | fuel + 1, n =>
      match (labels.get? n).bind (·.arc) with
      | none => []
      | some a => a :: arcsBack g labels fuel (g.other a n)

/-- The arcs of a shortest way from a source to a node, in the direction of travel; nothing
if the node was not reached. -/
def path (p : ShortestPaths α) (g : Graph) (n : Node) : Except Fault (Option (List Arc)) :=
  if p.cycle.isSome then .error .pathsUndefined
  else if p.reached n then .ok (some (arcsBack g p.labels (p.labels.size + 1) n).reverse)
  else .ok none

end ShortestPaths

end ArcSelection
