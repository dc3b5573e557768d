import ArcSelection.Graph.Stored
import ArcSelection.Proofs.OrderedMap

/-!
# What the queries of a graph have in common

A graph is lawful when its queries describe one set of nodes and one set of arcs: the
lists hold the items that belong to the graph, each once, and the queries about a node or
about two nodes pick their arcs from the list of all arcs. The order within a list is
left open, except that the edges are listed in the order of the arcs.
-/

namespace ArcSelection

theorem Ends.touches_iff {e : Ends} {a : Arc} {n : Node} :
    e.touches a n = true ↔ e.tail a = n ∨ e.head a = n := by
  simp [touches]

/-- An arc that joins two nodes touches both of them. -/
theorem Ends.touches_of_joins {e : Ends} {a : Arc} {u v : Node} (joined : e.joins a u v = true) :
    e.touches a u = true ∧ e.touches a v = true := by
  simp only [Ends.joins, Bool.or_eq_true, Bool.and_eq_true, beq_iff_eq] at joined
  rcases joined with ⟨rfl, rfl⟩ | ⟨rfl, rfl⟩ <;> simp [Ends.touches]

namespace Graph

/-- The graph lists each arc once, between nodes it lists. -/
structure ListsArcs (g : Graph) : Prop where
  nodup : (g.arcs .all).Nodup
  tail_mem : ∀ a ∈ g.arcs .all, g.tail a ∈ g.nodes
  head_mem : ∀ a ∈ g.arcs .all, g.head a ∈ g.nodes

/-- An arc touches nodes of the graph only. -/
theorem ListsArcs.mem_nodes_of_touches {g : Graph} (lists : g.ListsArcs) {a : Arc}
    (listed : a ∈ g.arcs .all) {n : Node} (touched : g.touches a n = true) : n ∈ g.nodes := by
  simp only [Ends.touches, Bool.or_eq_true, beq_iff_eq] at touched
  rcases touched with rfl | rfl
  · exact lists.tail_mem a listed
  · exact lists.head_mem a listed

/-- The queries of the graph agree with each other. -/
structure Lawful (g : Graph) : Prop extends ListsArcs g where
  nodes_nodup : g.nodes.Nodup
  mem_nodes : ∀ n, n ∈ g.nodes ↔ g.hasNode n = true
  mem_arcs : ∀ a, a ∈ g.arcs .all ↔ g.hasArc a = true
  arcs_edge : g.arcs .edge = (g.arcs .all).filter g.isEdge
  arcs_forward : g.arcs .forward = g.arcs .all
  arcs_backward : g.arcs .backward = g.arcs .all
  incidentArcs_nodup : ∀ n f, (g.incidentArcs n f).Nodup
  mem_incidentArcs : ∀ n f a,
    a ∈ g.incidentArcs n f ↔ a ∈ g.arcs .all ∧ g.touches a n = true ∧ g.passes a n f = true
  arcsBetween_nodup : ∀ u v f, (g.arcsBetween u v f).Nodup
  mem_arcsBetween : ∀ u v f a,
    a ∈ g.arcsBetween u v f ↔ a ∈ g.arcs .all ∧ g.joins a u v = true ∧ g.passes a u f = true

/-- An arc that is listed touches nodes that are there. -/
theorem Lawful.hasNode_of_touches {g : Graph} (lawful : g.Lawful) {a : Arc}
    (listed : a ∈ g.arcs .all) {n : Node} (touched : g.touches a n = true) :
    g.hasNode n = true :=
  (lawful.mem_nodes n).mp (lawful.mem_nodes_of_touches listed touched)

end Graph

/-- Two nodes with a directed arc and an edge between them, and a loop at the first. -/
def mixedPair : StoredGraph :=
  let twoNodes := ((StoredGraph.empty.pushNode none).2.pushNode none).2
  let oneArc := (twoNodes.pushArc ⟨⟨1⟩, ⟨2⟩, false⟩ none).2
  let twoArcs := (oneArc.pushArc ⟨⟨1⟩, ⟨2⟩, true⟩ none).2
  (twoArcs.pushArc ⟨⟨1⟩, ⟨1⟩, false⟩ none).2

theorem listsArcs_mixedPair : mixedPair.graph.ListsArcs := ⟨by decide, by decide, by decide⟩

/-- The arcs at a node of the pair are those that touch it and pass. -/
private theorem perm_incidentArcs_mixedPair (n : Node) (f : ArcFilter) :
    (mixedPair.graph.incidentArcs n f).Perm ((mixedPair.graph.arcs .all).filter fun a =>
      mixedPair.graph.touches a n && mixedPair.graph.passes a n f) := by
  by_cases inside : n ∈ mixedPair.graph.nodes
  · have here : ∀ n ∈ mixedPair.graph.nodes, (mixedPair.graph.incidentArcs n f).Perm
        ((mixedPair.graph.arcs .all).filter fun a =>
          mixedPair.graph.touches a n && mixedPair.graph.passes a n f) := by
      cases f <;> decide
    exact here n inside
  · have absent : mixedPair.nodes.get? n = none := by
      rw [OrderedMap.get?_eq_none_iff, ← Bool.not_eq_true, ← OrderedMap.mem_keys_iff]
      exact inside
    have nothing : mixedPair.graph.incidentArcs n f = [] := by
      change mixedPair.incidentArcs n f = []
      simp only [StoredGraph.incidentArcs, absent]
    rw [nothing, List.filter_eq_nil_iff.mpr]
    intro a listed shown
    have touched := (Bool.and_eq_true_iff.mp shown).1
    exact inside (listsArcs_mixedPair.mem_nodes_of_touches listed touched)

/-- The arcs between nodes of the pair are those that join them and pass. -/
private theorem perm_arcsBetween_mixedPair (u v : Node) (f : ArcFilter) :
    (mixedPair.graph.arcsBetween u v f).Perm ((mixedPair.graph.arcs .all).filter fun a =>
      mixedPair.graph.joins a u v && mixedPair.graph.passes a u f) := by
  by_cases inside : u ∈ mixedPair.graph.nodes ∧ v ∈ mixedPair.graph.nodes
  · have here : ∀ u ∈ mixedPair.graph.nodes, ∀ v ∈ mixedPair.graph.nodes,
        (mixedPair.graph.arcsBetween u v f).Perm ((mixedPair.graph.arcs .all).filter fun a =>
          mixedPair.graph.joins a u v && mixedPair.graph.passes a u f) := by
      cases f <;> decide
    exact here u inside.1 v inside.2
  · have nothing : mixedPair.graph.arcsBetween u v f = [] := by
      refine if_neg fun both => inside ?_
      rw [Bool.and_eq_true, ← OrderedMap.mem_keys_iff, ← OrderedMap.mem_keys_iff] at both
      exact both
    rw [nothing, List.filter_eq_nil_iff.mpr]
    intro a listed shown
    have joined := (Bool.and_eq_true_iff.mp shown).1
    obtain ⟨atFirst, atSecond⟩ := Ends.touches_of_joins joined
    exact inside ⟨listsArcs_mixedPair.mem_nodes_of_touches listed atFirst,
      listsArcs_mixedPair.mem_nodes_of_touches listed atSecond⟩

/-- The pair is lawful. -/
theorem lawful_mixedPair : mixedPair.graph.Lawful where
  toListsArcs := listsArcs_mixedPair
  nodes_nodup := by decide
  mem_nodes := OrderedMap.mem_keys_iff _
  mem_arcs := OrderedMap.mem_keys_iff _
  arcs_edge := by decide
  arcs_forward := rfl
  arcs_backward := rfl
  incidentArcs_nodup n f :=
    (perm_incidentArcs_mixedPair n f).nodup_iff.mpr (listsArcs_mixedPair.nodup.filter _)
  mem_incidentArcs n f a := by
    rw [(perm_incidentArcs_mixedPair n f).mem_iff, List.mem_filter, Bool.and_eq_true]
  arcsBetween_nodup u v f :=
    (perm_arcsBetween_mixedPair u v f).nodup_iff.mpr (listsArcs_mixedPair.nodup.filter _)
  mem_arcsBetween u v f a := by
    rw [(perm_arcsBetween_mixedPair u v f).mem_iff, List.mem_filter, Bool.and_eq_true]

end ArcSelection
