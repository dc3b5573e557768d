import ArcSelection.Proofs.Exchange.Imported

/-!
# The graph that is made, in closed form

What is made of a graph with names is the graph that grows from two lists: the property maps
of the nodes in the order of the texts of their names, and the arcs that stand for the edges
as they are listed. `NamedGraph.nodeOf` and `NamedGraph.arcOf` say which node and which arc.
-/

namespace ArcSelection

namespace NamedGraph

variable {g : NamedGraph} {i : Nat}

/-- The positions in the order in which their nodes are made. -/
def order (g : NamedGraph) : List Nat := g.sortedNodes.map (·.2)

/-- The order of reading has every position once. -/
theorem order_perm : g.order.Perm (List.range g.nodes.length) := by
  rw [List.range_eq_range', ← List.zipIdx_map_snd]
  exact (List.mergeSort_perm _ _).map _

theorem nodup_order : g.order.Nodup := order_perm.nodup_iff.mpr List.nodup_range

/-- The positions are those of nodes. -/
theorem mem_order : i ∈ g.order ↔ i < g.nodes.length := by
  rw [order_perm.mem_iff, List.mem_range]

/-- The node that is made for a position. -/
def nodeOf (g : NamedGraph) (i : Nat) : Node := .nth (g.order.idxOf i)

/-- The arc that is made for an edge. -/
def arcOf (g : NamedGraph) (e : NamedEdge) : ArcRecord × Option Properties :=
  (⟨g.nodeOf e.source, g.nodeOf e.target, !(g.directed && Import.isDirected e.attributes)⟩,
    Properties.unlessEmpty
      (if g.directed then Properties.without e.attributes directedAttribute else e.attributes))

/-- The property maps of the nodes in the order in which they are made. -/
def madeNodes (g : NamedGraph) : List (Option Properties) :=
  g.sortedNodes.map fun n => Properties.unlessEmpty n.1.2

/-- The arcs in the order in which they are made. -/
def madeArcs (g : NamedGraph) : List (ArcRecord × Option Properties) := g.edgesInOrder.map g.arcOf

/-- Every node is made once. -/
theorem length_madeNodes : g.madeNodes.length = g.nodes.length := by
  simp [madeNodes, sortedNodes]

/-- The nodes made so far, and where they went. -/
private structure NodesMade (done : List ((Value × Properties) × Nat)) (s : Import) : Prop where
  graph : s.graph = .grown (done.map fun n => Properties.unlessEmpty n.1.2) []
  placed : ∀ i ∈ done.map (·.2), s.nodeAt i = .nth ((done.map (·.2)).idxOf i)

/-- A node that is entered is made last. -/
private theorem NodesMade.enterNode {done : List ((Value × Properties) × Nat)} {s : Import}
    (made : NodesMade done s) {n : (Value × Properties) × Nat} (new : n.2 ∉ done.map (·.2)) :
    NodesMade (done ++ [n]) (s.enterNode n) := by
  have node : (s.graph.pushNode (Properties.unlessEmpty n.1.2)).1 = .nth done.length := by
    rw [made.graph, (StoredGraph.lists_grown_nodes _).pushNode_fst, List.length_map]
  refine ⟨?_, fun i member => ?_⟩
  · rw [List.map_append, List.map_singleton, StoredGraph.grown_append_node, ← made.graph]
    rfl
  · have lookup : (s.enterNode n).nodeAt i =
        if i = n.2 then .nth done.length else s.nodeAt i := by
      rw [← node]
      simp only [Import.nodeAt, Import.enterNode, List.lookup_cons]
      by_cases same : i = n.2
      · simp [same]
      · rw [if_neg same, beq_eq_false_iff_ne.mpr same]
    rw [lookup, List.map_append, List.map_singleton]
    split
    · rename_i isLast
      rw [isLast, List.idxOf_append_of_notMem new, List.idxOf_cons_self, Nat.add_zero,
        List.length_map]
    · rename_i other
      have early : i ∈ done.map (·.2) := by simpa [other] using member
      rw [made.placed i early, List.idxOf_append_of_mem early]

/-- The graph that is made of a graph with names. -/
theorem WellFormed.imported_graph (wellFormed : g.WellFormed) :
    g.imported.graph = .grown g.madeNodes g.madeArcs := by
  have nodes : NodesMade g.sortedNodes (g.sortedNodes.foldl Import.enterNode .start) := by
    refine foldl_invariant NodesMade ⟨rfl, nofun⟩ fun done n rest s split made => ?_
    refine made.enterNode fun early => ?_
    have nodup := nodup_order (g := g)
    rw [order, split, List.map_append, List.map_cons] at nodup
    exact (List.nodup_append.mp nodup).2.2 n.2 early n.2 List.mem_cons_self rfl
  -- Edges leave the nodes where they are.
  have arcs : g.imported.graph = .grown g.madeNodes (g.edgesInOrder.map g.arcOf) ∧
      ∀ i < g.nodes.length, g.imported.nodeAt i = g.nodeOf i := by
    refine foldl_invariant (fun done (s : Import) =>
      s.graph = .grown g.madeNodes (done.map g.arcOf) ∧
      ∀ i < g.nodes.length, s.nodeAt i = g.nodeOf i)
      ⟨nodes.graph, fun i inside => nodes.placed i (mem_order.mpr inside)⟩ ?_
    rintro done e rest s split ⟨graph, placed⟩
    obtain ⟨source, target⟩ := wellFormed.edgesInOrder (e := e) (by simp [split])
    rw [names, List.length_map] at source target
    refine ⟨?_, placed⟩
    rw [List.map_append, List.map_singleton, StoredGraph.grown_append_arc, ← graph, arcOf,
      ← placed _ source, ← placed _ target]
    rfl
  exact arcs.1

/-- The arcs that are made lie between nodes that are made. -/
theorem WellFormed.within_madeArcs (wellFormed : g.WellFormed) :
    ∀ a ∈ g.madeArcs, a.1.Within g.madeNodes.length := by
  intro a member
  obtain ⟨e, listed, rfl⟩ := List.mem_map.mp member
  obtain ⟨source, target⟩ := wellFormed.edgesInOrder listed
  rw [names, List.length_map] at source target
  have position : ∀ i < g.nodes.length, g.order.idxOf i < g.madeNodes.length := by
    intro i inside
    rw [length_madeNodes, ← List.length_range (n := g.nodes.length), ← order_perm.length_eq]
    exact List.idxOf_lt_length_iff.mpr (mem_order.mpr inside)
  exact ⟨⟨_, position _ source, rfl⟩, ⟨_, position _ target, rfl⟩⟩

/-- What is made lists the nodes in the order of their texts, and the arcs as they come. -/
theorem WellFormed.lists_made (wellFormed : g.WellFormed) :
    g.imported.graph.Lists g.madeNodes g.madeArcs :=
  wellFormed.imported_graph ▸ StoredGraph.lists_grown wellFormed.within_madeArcs

end NamedGraph

end ArcSelection
