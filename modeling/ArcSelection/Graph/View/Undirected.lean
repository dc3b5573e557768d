import ArcSelection.Graph.Query

/-!
# The undirected view

Presents every arc of a base graph as an edge, so that no filter hides an arc.  Property
maps set on the view come before those of the base.
-/

namespace ArcSelection

/-- The data of an undirected view: its own property maps. -/
structure UndirectedView where
  properties : PropertyStore

namespace UndirectedView

/-- A view without properties of its own. -/
def fresh : UndirectedView := ⟨.empty⟩

/-- The queries of the view over a base. -/
def graphOver (view : UndirectedView) (base : Graph) : Graph where
  tail := base.tail
  head := base.head
  isEdge _ := true
  hasNode := base.hasNode
  hasArc := base.hasArc
  listNodes := base.listNodes
  allNodes := base.allNodes
  arcs _ := base.arcs .all
  incidentArcs n _ := base.incidentArcs n .all
  arcsBetween u v _ := base.arcsBetween u v .all
  nodeCount := base.nodeCount
  arcCount _ := base.arcCount .all
  incidentArcCount n _ := base.incidentArcCount n .all
  arcCountBetween u v _ := base.arcCountBetween u v .all
  nodeProperties n := (view.properties.nodes.get? n).or (base.nodeProperties n)
  arcProperties a := (view.properties.arcs.get? a).or (base.arcProperties a)

end UndirectedView

end ArcSelection
