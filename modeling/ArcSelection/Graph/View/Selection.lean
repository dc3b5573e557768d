import ArcSelection.Graph.Query

/-!
# Arc selections

A selection keeps every node of its base and the arcs that were switched on.  An arc is
visible while it is switched on and still belongs to the base; its ends and properties
are those of the base, which the selection cannot change.
-/

namespace ArcSelection

/-- The data of a selection: the arcs switched on, in the order they were. -/
structure Selection where
  enabled : OrderedSet Arc

namespace Selection

/-- The selection of no arcs. -/
def empty : Selection := ⟨.empty⟩

/-- Switches an arc on or off; one that is on keeps its place. -/
def enable (s : Selection) (a : Arc) (on : Bool) : Selection :=
  ⟨if on then s.enabled.insert a () else s.enabled.erase a⟩

/-- Whether an arc is switched on, in the base or not. -/
def isEnabled (s : Selection) (a : Arc) : Bool := s.enabled.contains a

/-- The visible arcs, in the order they were switched on. -/
def arcs (s : Selection) (base : Graph) (f : ArcFilter) : List Arc :=
  s.enabled.keys.filter fun a => base.hasArc a && (f != .edge || base.isEdge a)

/-- The visible arcs at a node that pass a filter there. -/
def incidentArcs (s : Selection) (base : Graph) (n : Node) (f : ArcFilter) : List Arc :=
  (s.arcs base .all).filter fun a => base.touches a n && base.passes a n f

/-- The visible arcs between two nodes that pass a filter seen from the first. -/
def arcsBetween (s : Selection) (base : Graph) (u v : Node) (f : ArcFilter) : List Arc :=
  (s.arcs base .all).filter fun a => base.joins a u v && base.passes a u f

/-- The queries of the selection over a base. -/
def graphOver (s : Selection) (base : Graph) : Graph where
  toEnds := base.toEnds
  hasNode := base.hasNode
  hasArc a := s.enabled.contains a && base.hasArc a
  listNodes := base.listNodes
  allNodes := base.allNodes
  arcs := s.arcs base
  incidentArcs := s.incidentArcs base
  arcsBetween := s.arcsBetween base
  nodeCount := base.nodeCount
  arcCount f := (s.arcs base f).length
  incidentArcCount n f := (s.incidentArcs base n f).length
  arcCountBetween u v f := (s.arcsBetween base u v f).length
  nodeProperties := base.nodeProperties
  arcProperties := base.arcProperties

end Selection

end ArcSelection
