import ArcSelection.Graph.View.Selection
import ArcSelection.Graph.View.Undirected
import ArcSelection.Proofs.Graph.Lawful

/-!
# Views that add nothing

The undirected view and the selection own no nodes and no arcs. Over a lawful base they
are lawful, whatever their own data is.
-/

namespace ArcSelection

variable {base : Graph}

/-- Every arc of an undirected view passes every filter. -/
theorem UndirectedView.passes_eq (view : UndirectedView) (a : Arc) (n : Node) (f : ArcFilter) :
    (view.graphOver base).passes a n f = true := by
  cases f <;> simp [Ends.passes, graphOver]

/-- An undirected view of a lawful graph is lawful. -/
theorem UndirectedView.lawful (view : UndirectedView) (lawful : base.Lawful) :
    (view.graphOver base).Lawful where
  nodup := lawful.nodup
  tail_mem := lawful.tail_mem
  head_mem := lawful.head_mem
  nodes_nodup := lawful.nodes_nodup
  mem_nodes := lawful.mem_nodes
  mem_arcs := lawful.mem_arcs
  arcs_edge := (List.filter_eq_self.mpr fun _ _ => rfl).symm
  arcs_forward := rfl
  arcs_backward := rfl
  incidentArcs_nodup n _ := lawful.incidentArcs_nodup n .all
  mem_incidentArcs n f a := by
    rw [view.passes_eq]
    exact lawful.mem_incidentArcs n .all a
  arcsBetween_nodup u v _ := lawful.arcsBetween_nodup u v .all
  mem_arcsBetween u v f a := by
    rw [view.passes_eq]
    exact lawful.mem_arcsBetween u v .all a

namespace Selection

variable {s : Selection} {a : Arc}

/-- The visible arcs are those of the base that are switched on. -/
theorem mem_arcs : a ∈ s.arcs base .all ↔ s.isEnabled a = true ∧ base.hasArc a = true := by
  simp [arcs, isEnabled, OrderedMap.mem_keys_iff]

theorem nodup_arcs (f : ArcFilter) : (s.arcs base f).Nodup := (OrderedMap.nodup_keys _).filter _

/-- A selection of a lawful graph is lawful. -/
theorem lawful (s : Selection) (lawful : base.Lawful) : (s.graphOver base).Lawful where
  nodup := nodup_arcs .all
  tail_mem a listed := lawful.tail_mem a ((lawful.mem_arcs a).mpr (mem_arcs.mp listed).2)
  head_mem a listed := lawful.head_mem a ((lawful.mem_arcs a).mpr (mem_arcs.mp listed).2)
  nodes_nodup := lawful.nodes_nodup
  mem_nodes := lawful.mem_nodes
  mem_arcs a := by
    rw [graphOver, Bool.and_eq_true]
    exact mem_arcs
  arcs_edge := by
    change s.arcs base .edge = (s.arcs base .all).filter base.isEdge
    rw [arcs, arcs, List.filter_filter]
    refine List.filter_congr fun a _ => ?_
    cases base.hasArc a <;> cases base.isEdge a <;> rfl
  arcs_forward := rfl
  arcs_backward := rfl
  incidentArcs_nodup _ _ := (nodup_arcs .all).filter _
  mem_incidentArcs n f a := by
    rw [← Bool.and_eq_true]
    exact List.mem_filter
  arcsBetween_nodup _ _ _ := (nodup_arcs .all).filter _
  mem_arcsBetween u v f a := by
    rw [← Bool.and_eq_true]
    exact List.mem_filter

end Selection

end ArcSelection
