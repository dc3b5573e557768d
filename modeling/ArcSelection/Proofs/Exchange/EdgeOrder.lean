import ArcSelection.Exchange.NamedGraph
import ArcSelection.Proofs.Listing

/-!
# The edges of a graph with names

The edges are listed node by node and neighbour by neighbour, and the ends of an edge are
spelled as the node and the neighbour are.  Where every edge spells its ends as its nodes
do, this lists the edges of a directed graph as they are, each once.
-/

namespace ArcSelection

namespace NamedGraph

/-- Every edge lies between two nodes and spells its ends as they are named. -/
structure Spelled (g : NamedGraph) : Prop where
  directed : g.directed = true
  source : ∀ e ∈ g.edges, ∃ n, g.nodes[e.source]? = some n ∧ n.1 = e.sourceName
  target : ∀ e ∈ g.edges, ∃ n, g.nodes[e.target]? = some n ∧ n.1 = e.targetName

/-- An edge spells its source as the node is named, and its target as the only one there. -/
theorem Spelled.names {g : NamedGraph} (spelled : g.Spelled) {n m : Value × Properties}
    {e : NamedEdge} (isEdge : e ∈ g.edges) (isSource : g.nodes[e.source]? = some n)
    (isTarget : g.nodes[e.target]? = some m) : e.sourceName = n.1 ∧ e.targetName = m.1 := by
  obtain ⟨n', isSource', sourceName⟩ := spelled.source e isEdge
  obtain ⟨m', isTarget', targetName⟩ := spelled.target e isEdge
  cases isSource.symm.trans isSource'
  cases isTarget.symm.trans isTarget'
  exact ⟨sourceName.symm, targetName.symm⟩

/-- Edges between two nodes stay as they are when their ends are spelled as the first of them
spells them. -/
theorem Spelled.respell_eq {g : NamedGraph} (spelled : g.Spelled) {i j : Nat}
    {n : Value × Properties} (found : g.nodes[i]? = some n) {parallel : List NamedEdge}
    (between : ∀ e ∈ parallel, e ∈ g.edges ∧ e.source = i ∧ e.target = j) :
    (parallel.map fun e =>
      { e with
        sourceName := n.1
        targetName := (parallel.head?.map (·.targetName)).getD .null }) = parallel := by
  cases parallel with
  | nil => rfl
  | cons first rest =>
      obtain ⟨isFirst, _, reaches⟩ := between first List.mem_cons_self
      obtain ⟨m, isTarget, firstName⟩ := spelled.target first isFirst
      conv_rhs => rw [← List.map_id (first :: rest)]
      refine List.map_congr_left fun e member => ?_
      obtain ⟨isEdge, rfl, same⟩ := between e member
      obtain ⟨sourceName, targetName⟩ :=
        spelled.names isEdge found ((same.trans reaches.symm) ▸ isTarget)
      simp [← sourceName, ← firstName, ← targetName]

/-- The edges that leave a node are grouped by neighbour and stay as they are. -/
theorem Spelled.groupedFrom_eq {g : NamedGraph} (spelled : g.Spelled) {i : Nat}
    {n : Value × Properties} (found : g.nodes[i]? = some n) :
    g.groupedFrom i n.1 =
      clustered NamedEdge.target (g.edges.filter fun e => e.source == i) := by
  have around : g.edgesFrom i = g.edges.filter fun e => e.source == i := by
    rw [edgesFrom, if_pos spelled.directed]
  rw [groupedFrom, around]
  have between : ∀ j, ∀ e ∈ (g.edges.filter fun e => e.source == i).filter fun e => e.target == j,
      e ∈ g.edges ∧ e.source = i ∧ e.target = j := by
    simp +contextual
  have keep := fun j => spelled.respell_eq found (between j)
  simp only [keep]
  rfl

/-- Spelled edges are listed by source, and then by target. -/
theorem Spelled.edgesInOrder_eq {g : NamedGraph} (spelled : g.Spelled) :
    g.edgesInOrder =
      nodeByNode (List.range g.nodes.length) NamedEdge.source NamedEdge.target g.edges := by
  have eachNode : g.edgesInOrder = g.nodes.zipIdx.flatMap fun e =>
      clustered NamedEdge.target (g.edges.filter fun f => f.source == e.2) :=
    List.flatMap_congr fun e member =>
      spelled.groupedFrom_eq (List.mem_zipIdx_iff_getElem?.mp member)
  rw [eachNode, nodeByNode, List.range_eq_range', ← List.zipIdx_map_snd, List.flatMap_map]

/-- Listing the edges in order loses none. -/
theorem Spelled.edgesInOrder_perm {g : NamedGraph} (spelled : g.Spelled) :
    g.edgesInOrder.Perm g.edges := by
  rw [spelled.edgesInOrder_eq]
  refine nodeByNode_perm List.nodup_range fun e member => ?_
  obtain ⟨n, found, _⟩ := spelled.source e member
  exact List.mem_range.mpr (List.getElem?_eq_some_iff.mp found).1

end NamedGraph

end ArcSelection
