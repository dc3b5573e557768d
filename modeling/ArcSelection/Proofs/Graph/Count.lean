import ArcSelection.Proofs.Graph.Complete
import ArcSelection.Proofs.Graph.Store
import Mathlib.Algebra.BigOperators.Intervals

/-!
# Counts are the lengths of the lists

A graph is counted when each of its counts is the length of the list it counts. Stored
graphs keep sizes, complete graphs have closed forms, and views add to the counts of their
base; nothing is asked of the nodes and of what the graphs hold, so that every graph of
every store is counted.
-/

namespace ArcSelection

/-- Every count is the length of the list of the same query, for all nodes and filters. -/
structure Graph.Counted (g : Graph) : Prop where
  nodeCount : g.nodeCount = g.nodes.length
  arcCount : ∀ f, g.arcCount f = (g.arcs f).length
  incidentArcCount : ∀ n f, g.incidentArcCount n f = (g.incidentArcs n f).length
  arcCountBetween : ∀ u v f, g.arcCountBetween u v f = (g.arcsBetween u v f).length

/-- A stored graph counts what it lists. -/
theorem StoredGraph.counted (g : StoredGraph) : g.graph.Counted where
  nodeCount := g.nodes.length_keys.symm
  arcCount f := by
    change (if f = .edge then g.edges.size else g.arcs.size) =
      (if f = .edge then g.edges.keys else g.arcs.keys).length
    split
    · exact g.edges.length_keys.symm
    · exact g.arcs.length_keys.symm
  incidentArcCount _ _ := rfl
  arcCountBetween _ _ _ := rfl

namespace CompleteGraph

variable {g : CompleteGraph} {n u v : Node} {f : ArcFilter}

/-- One index is left out. -/
private theorem length_filter_ne {i size : Nat} (inRange : i < size) :
    ((List.range size).filter fun j => i != j).length = size - 1 := by
  have erased : ((List.range size).filter fun j => i != j) = (List.range size).erase i := by
    rw [List.nodup_range.erase_eq_filter]
    exact List.filter_congr fun j _ => bne_comm
  rw [erased, List.length_erase_of_mem (List.mem_range.mpr inRange), List.length_range]

/-- The indices above a given one are counted. -/
private theorem length_filter_lt (i size : Nat) :
    ((List.range size).filter fun j => i < j).length = size - (i + 1) := by
  induction size with
  | zero => simp
  | succ size ih =>
      rw [List.range_succ, List.filter_append, List.length_append, ih]
      by_cases less : i < size
      · simp only [List.filter_cons, less, decide_true, if_true, List.filter_nil, List.length_cons,
          List.length_nil]
        omega
      · simp only [List.filter_cons, less, decide_false, Bool.false_eq_true, if_false,
          List.filter_nil, List.length_nil]
        omega

/-- The numbers of later indices add up to the number of pairs. -/
private theorem sum_range_sub (size : Nat) :
    ((List.range size).map fun i => size - (i + 1)).sum = size * (size - 1) / 2 := by
  have reflected := Finset.sum_range_reflect (fun i => i) size
  rw [Finset.sum_range_id] at reflected
  rw [← reflected]
  change _ = ((List.range size).map fun i => size - 1 - i).sum
  refine congrArg List.sum (List.map_congr_left fun i _ => ?_)
  omega

/-- Each of the nodes is the tail of an arc to each other one, or to each later one. -/
theorem length_allArcs : g.allArcs.length =
    if g.directed then g.size * (g.size - 1) else g.size * (g.size - 1) / 2 := by
  rw [allArcs, List.length_flatMap]
  cases g.directed with
  | true =>
      have row : ∀ i ∈ List.range g.size, (((List.range g.size).filter fun j =>
          if true then i != j else i < j).map fun j => g.arcAt (i : Nat) (j : Nat)).length =
            g.size - 1 := by
        intro i listed
        rw [List.length_map]
        exact length_filter_ne (List.mem_range.mp listed)
      rw [List.map_congr_left row, if_pos rfl, List.map_const', List.length_range,
        List.sum_replicate_nat]
  | false =>
      have row : ∀ i ∈ List.range g.size, (((List.range g.size).filter fun j =>
          if false then i != j else i < j).map fun j => g.arcAt (i : Nat) (j : Nat)).length =
            g.size - (i + 1) := by
        intro i _
        rw [List.length_map]
        exact length_filter_lt i g.size
      rw [List.map_congr_left row, if_neg Bool.false_ne_true, sum_range_sub]

/-- The number of arcs is told by the size. -/
theorem arcCount_eq (f : ArcFilter) : g.arcCount f = (g.arcs f).length := by
  have listed := length_allArcs (g := g)
  unfold arcCount arcs
  cases directed : g.directed with
  | true =>
      rw [directed] at listed
      cases f <;> simp [listed]
  | false =>
      rw [directed] at listed
      simp [listed]

/-- Every other node is counted. -/
theorem length_others (has : g.hasNode n = true) : (g.others n).length = g.size - 1 := by
  have listed : n ∈ g.nodes := mem_nodes_iff.mpr (hasNode_iff.mp has)
  have erased : g.others n = g.nodes.erase n := (nodup_nodes.erase_eq_filter n).symm
  rw [erased, List.length_erase_of_mem listed, nodes, List.length_map, List.length_range]

/-- The arcs at a node are counted by its others. -/
theorem incidentArcCount_eq (n : Node) (f : ArcFilter) :
    g.incidentArcCount n f = (g.incidentArcs n f).length := by
  unfold incidentArcCount incidentArcs
  cases has : g.hasNode n with
  | false => rfl
  | true =>
      have length := length_others has
      cases directed : g.directed with
      | true => cases f <;> simp [length, two_mul]
      | false => simp [length]

/-- There is one arc between two nodes for each direction. -/
theorem arcCountBetween_eq (u v : Node) (f : ArcFilter) :
    g.arcCountBetween u v f = (g.arcsBetween u v f).length := by
  unfold arcCountBetween arcsBetween
  split
  · rfl
  · cases g.directed with
    | true => cases f <;> rfl
    | false => rfl

/-- A complete graph counts what it lists. -/
theorem counted (g : CompleteGraph) : g.graph.Counted where
  nodeCount := by
    change g.size = g.nodes.length
    rw [nodes, List.length_map, List.length_range]
  arcCount := arcCount_eq
  incidentArcCount := incidentArcCount_eq
  arcCountBetween := arcCountBetween_eq

end CompleteGraph

namespace Graph.Counted

variable {base : Graph} (counted : base.Counted)

include counted

/-- The undirected view counts as its base does without a filter. -/
theorem undirected (view : UndirectedView) : (view.graphOver base).Counted where
  nodeCount := counted.nodeCount
  arcCount _ := counted.arcCount .all
  incidentArcCount n _ := counted.incidentArcCount n .all
  arcCountBetween u v _ := counted.arcCountBetween u v .all

/-- The overlay adds what it owns and does not hide. -/
theorem overlay (o : Overlay) : (o.graphOver base).Counted where
  nodeCount := by
    change base.nodeCount + o.nodes.size = (base.nodes ++ o.nodes.keys).length
    rw [List.length_append, counted.nodeCount, OrderedMap.length_keys]
  arcCount f := by
    change base.arcCount f + _ = (base.arcs f ++ o.ownArcs base f).length
    rw [List.length_append, counted.arcCount]
  incidentArcCount _ _ := rfl
  arcCountBetween _ _ _ := rfl

/-- The selection has the nodes of its base, and counts its own arcs. -/
theorem selection (s : Selection) : (s.graphOver base).Counted where
  nodeCount := counted.nodeCount
  arcCount _ := rfl
  incidentArcCount _ _ := rfl
  arcCountBetween _ _ _ := rfl

/-- The matching counts the one arc that its index finds at a node. -/
theorem matching (m : Matching) : (m.graphOver base).Counted where
  nodeCount := counted.nodeCount
  arcCount _ := rfl
  incidentArcCount _ _ := rfl
  arcCountBetween _ _ _ := rfl

/-- Every layer is counted if the graph it looks at is. -/
theorem layer (l : Layer) : (l.graph base).Counted := by
  cases l with
  | stored g => exact g.counted
  | complete g => exact g.counted
  | undirected view _ => exact counted.undirected view
  | overlay view _ => exact counted.overlay view
  | selection view _ => exact counted.selection view
  | matching view _ => exact counted.matching view

end Graph.Counted

namespace Store

/-- Every graph of a store is counted, by induction on how far up it stands. -/
theorem counted (s : Store) (i : Nat) : (s.graph i).Counted := by
  induction i using Nat.strong_induction_on with
  | _ i below =>
      unfold graph
      split
      · exact StoredGraph.empty.counted
      · split
        · exact StoredGraph.empty.counted.layer _
        · split
          · exact (below _ ‹_›).layer _
          · exact StoredGraph.empty.counted

/-- After every history of a store each of its graphs is counted: stacks of any views, over
stored graphs and over complete graphs of every size. -/
theorem counted_afterAll (events : List Event) (i : Nat) :
    ((empty.afterAll events).graph i).Counted :=
  counted _ i

end Store

end ArcSelection
