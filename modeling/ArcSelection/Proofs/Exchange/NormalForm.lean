import ArcSelection.Proofs.Exchange.Made
import ArcSelection.Proofs.Exchange.RoundTrip

/-!
# Reading back reaches a normal form

What is made of a graph with names has its nodes in the order of the texts of their names.
Written and read again, the nodes stay in this order, even those whose names have one text,
because sorting leaves a sorted list alone. The arcs are listed node by node and neighbour by
neighbour, and the attribute `directed` is used up; to do either twice changes nothing. So
the second graph that is read is the first one.
-/

namespace ArcSelection

open StoredGraph

/-- The attribute `directed` of an arc is used up. -/
def unmarked (a : ArcRecord × Option Properties) : ArcRecord × Option Properties :=
  (a.1, Properties.unlessEmpty (Properties.without (a.2.getD []) directedAttribute))

/-- The mark is taken from an arc once. -/
theorem unmarked_unmarked (a : ArcRecord × Option Properties) :
    unmarked (unmarked a) = unmarked a := by
  simp [unmarked, Properties.without_without]

/-- The arcs as they are read back, for a number of nodes. -/
def settledArcs (count : Nat) (arcs : List (ArcRecord × Option Properties)) :
    List (ArcRecord × Option Properties) :=
  nodeByNode ((List.range count).map Node.nth) (·.1.tail) (·.1.head) (arcs.map unmarked)

/-- Settled arcs are settled. -/
theorem settledArcs_settledArcs (count : Nat) (arcs : List (ArcRecord × Option Properties)) :
    settledArcs count (settledArcs count arcs) = settledArcs count arcs := by
  have same : (settledArcs count arcs).map unmarked = settledArcs count arcs := by
    refine (List.map_congr_left fun a member => ?_).trans (List.map_id _)
    obtain ⟨former, _, rfl⟩ := List.mem_map.mp (mem_nodeByNode.mp member).1
    exact unmarked_unmarked former
  rw [settledArcs, same, settledArcs, nodeByNode_nodeByNode]
  exact List.nodup_range.map Node.nth_injective

/-- The names, the property maps of the nodes and the arcs of a graph as it is made of a graph
with names. -/
structure Arranged (names : List Value) (nodes : List (Option Properties))
    (arcs : List (ArcRecord × Option Properties)) : Prop where
  length : nodes.length = names.length
  sorted : names.Pairwise fun a b => a.plainText ≤ b.plainText
  hashable : ∀ name ∈ names, name.isHashable = true
  present : ∀ name ∈ names, name ≠ .null
  apart : names.Pairwise fun a b => (a == b) = false ∧ (b == a) = false
  nodeProperties : ∀ p, some p ∈ nodes → p ≠ [] ∧ Properties.Keyed reservedNodeAttributes p
  within : ∀ a ∈ arcs, a.1.Within nodes.length
  arcProperties : ∀ a ∈ arcs, (a.2.getD []).Distinct

/-- Arcs that are settled are arranged. -/
theorem Arranged.settled {names : List Value} {nodes : List (Option Properties)}
    {arcs : List (ArcRecord × Option Properties)} (arranged : Arranged names nodes arcs) :
    Arranged names nodes (settledArcs nodes.length arcs) := by
  refine { arranged with within := fun a member => ?_, arcProperties := fun a member => ?_ }
  · obtain ⟨former, listed, rfl⟩ := List.mem_map.mp (mem_nodeByNode.mp member).1
    exact arranged.within former listed
  · obtain ⟨former, listed, rfl⟩ := List.mem_map.mp (mem_nodeByNode.mp member).1
    simpa [unmarked] using (arranged.arcProperties former listed).without directedAttribute

/-- A graph with names is made into an arranged graph. -/
theorem NamedGraph.WellFormed.arranged {N : NamedGraph} (wellFormed : N.WellFormed)
    (attributes : ∀ n ∈ N.nodes, Properties.Keyed reservedNodeAttributes n.2)
    (edgeAttributes : ∀ e ∈ N.edges, e.attributes.Distinct) :
    Arranged N.namesByText N.madeNodes N.madeArcs where
  length := by simp [NamedGraph.madeNodes, NamedGraph.namesByText]
  sorted := by
    have sorted : N.sortedNodes.Pairwise fun a b =>
        decide (a.1.1.plainText ≤ b.1.1.plainText) = true := by
      refine List.pairwise_mergeSort (fun a b c first second => ?_) (fun a b => ?_) _
      · exact decide_eq_true (String.le_trans (of_decide_eq_true first) (of_decide_eq_true second))
      · simpa using String.le_total a.1.1.plainText b.1.1.plainText
    exact List.pairwise_map.mpr (sorted.imp of_decide_eq_true)
  hashable name listed := wellFormed.hashable name (NamedGraph.namesByText_perm.mem_iff.mp listed)
  present name listed := wellFormed.present name (NamedGraph.namesByText_perm.mem_iff.mp listed)
  apart := wellFormed.apart_namesByText
  nodeProperties p member := by
    obtain ⟨n, listed, isMap⟩ := List.mem_map.mp member
    have source : n ∈ N.nodes.zipIdx := (List.mergeSort_perm _ _).mem_iff.mp listed
    have keyed := attributes n.1 (List.fst_mem_of_mem_zipIdx source)
    unfold Properties.unlessEmpty at isMap
    split at isMap
    · cases isMap
    · rename_i nonempty
      cases isMap
      exact ⟨by simpa using nonempty, keyed⟩
  within := wellFormed.within_madeArcs
  arcProperties a member := by
    obtain ⟨e, listed, rfl⟩ := List.mem_map.mp member
    obtain ⟨f, isEdge, same, _⟩ := NamedGraph.exists_edge_of_listed listed
    have distinct : e.attributes.Distinct := same ▸ edgeAttributes f isEdge
    rw [NamedGraph.arcOf, Properties.getD_unlessEmpty]
    split
    · exact distinct.without directedAttribute
    · exact distinct

/-! ### Writing an arranged graph -/

section Written

variable {g : StoredGraph} {m : NodeNames} {names : List Value} {nodes : List (Option Properties)}
  {arcs : List (ArcRecord × Option Properties)}

/-- The nodes are those with the first positions. -/
theorem mem_nodes_iff_of_lists (lists : g.Lists nodes arcs) {n : Node} :
    n ∈ g.graph.nodes ↔ ∃ i < nodes.length, n = .nth i := by
  simp only [lists.graph_nodes, List.mem_map, List.mem_range, eq_comm]

/-- A graph that is arranged can be named. -/
theorem Arranged.nameable (arranged : Arranged names nodes arcs) (lists : g.Lists nodes arcs)
    (numbered : Numbered Node.nth m.nodes m.names names) : Nameable g.graph (some m) := by
  have named : ∀ n ∈ g.graph.nodes, ∃ i, ∃ inside : i < names.length,
      n = .nth i ∧ exportName (some m) n = names[i] := by
    intro n listed
    obtain ⟨i, inside, rfl⟩ := (mem_nodes_iff_of_lists lists).mp listed
    rw [arranged.length] at inside
    exact ⟨i, inside, rfl, NodeNames.name_nth numbered inside⟩
  refine ⟨lists.consistent.lawful.toListsArcs, fun n listed => ?_, fun n listed => ?_,
    fun n listed n' listed' different => ?_, fun n listed p found => ?_⟩
  · obtain ⟨i, inside, rfl, name⟩ := named n listed
    exact name ▸ arranged.hashable _ (List.getElem_mem inside)
  · obtain ⟨i, inside, rfl, name⟩ := named n listed
    exact name ▸ arranged.present _ (List.getElem_mem inside)
  · obtain ⟨i, inside, rfl, name⟩ := named n listed
    obtain ⟨j, inside', rfl, name'⟩ := named n' listed'
    have apart := List.pairwise_iff_getElem.mp arranged.apart
    rw [name, name']
    rcases Nat.lt_or_gt_of_ne fun same => different (congrArg Node.nth same) with less | more
    · exact (apart i j inside inside' less).1
    · exact (apart j i inside' inside more).2
  · obtain ⟨i, inside, rfl⟩ := (mem_nodes_iff_of_lists lists).mp listed
    have known : nodes[i]?.join = some p := (lists.nodeProperties i).symm.trans found
    exact (arranged.nodeProperties p (List.mem_of_getElem? (Option.join_eq_some_iff.mp known))).2

/-- The nodes are written in the order of the list. -/
theorem writtenNodes_of_lists (lists : g.Lists nodes arcs) :
    writtenNodes g.graph = (List.range nodes.length).map Node.nth := by
  rw [writtenNodes, lists.graph_nodes]
  exact eraseDups_of_nodup (List.nodup_range.map Node.nth_injective)

/-- A node is written at its position. -/
theorem idxOf_writtenNodes (lists : g.Lists nodes arcs) {i : Nat} (inside : i < nodes.length) :
    (writtenNodes g.graph).idxOf (.nth i) = i := by
  have bound : i < ((List.range nodes.length).map Node.nth).length := by simpa using inside
  have nodup : ((List.range nodes.length).map Node.nth).Nodup :=
    List.nodup_range.map Node.nth_injective
  have position := nodup.idxOf_getElem i bound
  rw [writtenNodes_of_lists lists]
  simpa using position

/-- The nodes of an arranged graph are made in the order in which they are written. -/
theorem Arranged.sortedNodes_written (arranged : Arranged names nodes arcs)
    (lists : g.Lists nodes arcs) (numbered : Numbered Node.nth m.nodes m.names names) :
    (written g.graph (some m)).sortedNodes =
      (List.range nodes.length).map fun i => (writtenNode g.graph (some m) (.nth i), i) := by
  have sorted : readOrder g.graph (some m) = writtenNodes g.graph := by
    refine List.mergeSort_of_pairwise ?_
    rw [writtenNodes_of_lists lists, List.pairwise_map, List.pairwise_iff_getElem]
    intro i j inside inside' less
    rw [List.length_range, arranged.length] at inside inside'
    have ordered := List.pairwise_iff_getElem.mp arranged.sorted i j inside inside' less
    rw [List.getElem_range, List.getElem_range, exportName, exportName,
      NodeNames.name_nth numbered inside, NodeNames.name_nth numbered inside']
    exact decide_eq_true ordered
  rw [ArcSelection.sortedNodes_written, sorted, writtenNodes_of_lists lists, List.map_map]
  refine List.map_congr_left fun i member => ?_
  have position := idxOf_writtenNodes lists (List.mem_range.mp member)
  rw [writtenNodes_of_lists lists] at position
  rw [Function.comp_apply, position]

/-- The names come back in their order. -/
theorem Arranged.namesByText_written (arranged : Arranged names nodes arcs)
    (lists : g.Lists nodes arcs) (numbered : Numbered Node.nth m.nodes m.names names) :
    (written g.graph (some m)).namesByText = names := by
  rw [NamedGraph.namesByText, arranged.sortedNodes_written lists numbered, List.map_map]
  refine List.ext_getElem (by simp [arranged.length]) fun i _ inside => ?_
  simpa [writtenNode, exportName] using NodeNames.name_nth numbered inside

/-- The nodes come back as they are. -/
theorem Arranged.madeNodes_written (arranged : Arranged names nodes arcs)
    (lists : g.Lists nodes arcs) (numbered : Numbered Node.nth m.nodes m.names names) :
    (written g.graph (some m)).madeNodes = nodes := by
  rw [NamedGraph.madeNodes, arranged.sortedNodes_written lists numbered, List.map_map]
  refine List.ext_getElem (by simp) fun i _ inside => ?_
  have known : g.graph.nodeProperties (.nth i) = nodes[i] := by
    have found := lists.nodeProperties i
    rw [List.getElem?_eq_getElem inside] at found
    exact found
  have kept := Properties.unlessEmpty_getD fun p isMap =>
    (arranged.nodeProperties p (isMap ▸ List.getElem_mem inside)).1
  simpa [writtenNode, known] using kept

/-- Every node comes back at its position. -/
theorem Arranged.nodeOf_written (arranged : Arranged names nodes arcs)
    (lists : g.Lists nodes arcs) (numbered : Numbered Node.nth m.nodes m.names names) {i : Nat}
    (inside : i < nodes.length) : (written g.graph (some m)).nodeOf i = .nth i := by
  have order : (written g.graph (some m)).order = List.range nodes.length := by
    rw [NamedGraph.order, arranged.sortedNodes_written lists numbered, List.map_map]
    exact List.map_id _
  have bound : i < (List.range nodes.length).length := by simpa using inside
  have position := List.nodup_range.idxOf_getElem i bound
  rw [List.getElem_range] at position
  rw [NamedGraph.nodeOf, order, position]

/-- The ends of a written arc are read back as the ends of the arc. -/
theorem Arranged.ends_written (arranged : Arranged names nodes arcs)
    (lists : g.Lists nodes arcs) (numbered : Numbered Node.nth m.nodes m.names names) {k : Nat}
    {r : ArcRecord} {p : Option Properties} (found : arcs[k]? = some (r, p)) :
    Node.nth (writtenArc g.graph (some m) (.nth k)).source = r.tail ∧
      Node.nth (writtenArc g.graph (some m) (.nth k)).target = r.head ∧
      (written g.graph (some m)).nodeOf (writtenArc g.graph (some m) (.nth k)).source = r.tail ∧
      (written g.graph (some m)).nodeOf (writtenArc g.graph (some m) (.nth k)).target = r.head := by
  obtain ⟨⟨i, tailInside, tail⟩, ⟨j, headInside, head⟩⟩ :=
    arranged.within _ (List.mem_of_getElem? found)
  obtain ⟨isTail, isHead, _, _⟩ := lists.graph_record found
  dsimp only at tail head
  have source : (writtenArc g.graph (some m) (.nth k)).source = i := by
    rw [writtenArc, isTail, tail]
    exact idxOf_writtenNodes lists tailInside
  have target : (writtenArc g.graph (some m) (.nth k)).target = j := by
    rw [writtenArc, isHead, head]
    exact idxOf_writtenNodes lists headInside
  rw [source, target, tail, head]
  exact ⟨rfl, rfl, arranged.nodeOf_written lists numbered tailInside,
    arranged.nodeOf_written lists numbered headInside⟩

/-- An arc is read back between the same nodes, and with its properties but for the mark. -/
theorem Arranged.arcOf_written (arranged : Arranged names nodes arcs)
    (lists : g.Lists nodes arcs) (numbered : Numbered Node.nth m.nodes m.names names) {k : Nat}
    {a : ArcRecord × Option Properties} (found : arcs[k]? = some a) :
    (written g.graph (some m)).arcOf (writtenArc g.graph (some m) (.nth k)) = unmarked a := by
  obtain ⟨r, p⟩ := a
  have distinct : (p.getD []).Distinct := arranged.arcProperties _ (List.mem_of_getElem? found)
  obtain ⟨_, _, tail, head⟩ := arranged.ends_written lists numbered found
  obtain ⟨_, _, isEdge, properties⟩ := lists.graph_record found
  have attributes : (writtenArc g.graph (some m) (.nth k)).attributes =
      Properties.put (p.getD []) directedAttribute (.bool !r.isEdge) := by
    rw [writtenArc, properties, isEdge]
  have isDirected : Import.isDirected (writtenArc g.graph (some m) (.nth k)).attributes =
      !r.isEdge := by
    rw [Import.isDirected, attributes, distinct.value?_put]
    rfl
  have directed : (written g.graph (some m)).directed = true := rfl
  rw [NamedGraph.arcOf, tail, head, isDirected, directed, if_pos rfl, attributes,
    distinct.without_put, Bool.true_and, Bool.not_not]
  rfl

/-- The arcs come back as they are settled. -/
theorem Arranged.madeArcs_written (arranged : Arranged names nodes arcs)
    (lists : g.Lists nodes arcs) (numbered : Numbered Node.nth m.nodes m.names names) :
    (written g.graph (some m)).madeArcs = settledArcs nodes.length arcs := by
  have edges : (written g.graph (some m)).edges =
      (List.range arcs.length).map fun k => writtenArc g.graph (some m) (.nth k) := by
    rw [written, lists.graph_arcs, List.map_map]
    rfl
  have made : (written g.graph (some m)).edges.map (written g.graph (some m)).arcOf =
      arcs.map unmarked := by
    rw [edges, List.map_map]
    refine List.ext_getElem (by simp) fun k _ inside => ?_
    rw [List.length_map] at inside
    simpa using arranged.arcOf_written lists numbered (List.getElem?_eq_getElem inside)
  have sources : (written g.graph (some m)).nodes.length = nodes.length := by
    simp [written, writtenNodes_of_lists lists]
  have spelled := (arranged.nameable lists numbered).spelled
  have ends : ∀ e ∈ (written g.graph (some m)).edges,
      ((written g.graph (some m)).arcOf e).1.tail = .nth e.source ∧
        ((written g.graph (some m)).arcOf e).1.head = .nth e.target := by
    intro e member
    rw [edges] at member
    obtain ⟨k, inRange, rfl⟩ := List.mem_map.mp member
    have found := List.getElem?_eq_getElem (List.mem_range.mp inRange)
    obtain ⟨source, target, tail, head⟩ := arranged.ends_written lists numbered found
    exact ⟨tail.trans source.symm, head.trans target.symm⟩
  rw [NamedGraph.madeArcs, spelled.edgesInOrder_eq, settledArcs, ← made, sources]
  symm
  refine nodeByNode_map Node.nth_injective ?_ ?_
  · exact fun e member => (ends e member).1
  · exact fun e member => (ends e member).2

end Written

/-- What is written node for node is well-formed. -/
theorem Nameable.wellFormed {g : Graph} {names : Option NodeNames} (nameable : Nameable g names) :
    (written g names).WellFormed := by
  have listed : ∀ name ∈ (written g names).names, ∃ n ∈ g.nodes, name = exportName names n := by
    intro name member
    obtain ⟨node, isNode, rfl⟩ := List.mem_map.mp member
    obtain ⟨n, isWritten, rfl⟩ := List.mem_map.mp isNode
    exact ⟨n, mem_writtenNodes.mp isWritten, rfl⟩
  have length : (written g names).names.length = (writtenNodes g).length := by
    simp [NamedGraph.names, written]
  refine ⟨fun name member => ?_, fun name member => ?_, ?_, fun e member => ?_⟩
  · obtain ⟨n, isNode, rfl⟩ := listed name member
    exact nameable.hashable n isNode
  · obtain ⟨n, isNode, rfl⟩ := listed name member
    exact nameable.present n isNode
  · rw [NamedGraph.names, written, List.map_map, List.pairwise_map]
    exact nodup_writtenNodes.imp_of_mem fun {n n'} isNode isNode' different =>
      nameable.apart n (mem_writtenNodes.mp isNode) n' (mem_writtenNodes.mp isNode') different
  · obtain ⟨a, isArc, rfl⟩ := List.mem_map.mp member
    rw [length]
    exact ⟨List.idxOf_lt_length_iff.mpr (mem_writtenNodes.mpr (nameable.lists.tail_mem a isArc)),
      List.idxOf_lt_length_iff.mpr (mem_writtenNodes.mpr (nameable.lists.head_mem a isArc))⟩

/-- An arranged graph is written and read back with its arcs settled, under the same names. -/
theorem Arranged.readAgain {g : StoredGraph} {m : NodeNames} {names : List Value}
    {nodes : List (Option Properties)} {arcs : List (ArcRecord × Option Properties)}
    (arranged : Arranged names nodes arcs) (lists : g.Lists nodes arcs)
    (numbered : Numbered Node.nth m.nodes m.names names)
    (spelled : ∀ name ∈ names, name.isWritable = true) :
    ∃ N s, g.graph.toNamed (some m) = .ok N ∧ N.toImport = .ok s ∧
      s.graph = grown nodes (settledArcs nodes.length arcs) ∧ s.names = m := by
  have nameable := arranged.nameable lists numbered
  have same := arranged.namesByText_written lists numbered
  have spellable : (written g.graph (some m)).Spellable :=
    NamedGraph.spellable_iff.mpr (same ▸ spelled)
  refine ⟨_, _, nameable.toNamed_eq, spellable.toImport_eq, ?_, ?_⟩
  · rw [nameable.wellFormed.imported_graph, arranged.madeNodes_written lists numbered,
      arranged.madeArcs_written lists numbered]
  · have again := nameable.wellFormed.imported.names
    rw [NamedGraph.namesByText] at same
    rw [same] at again
    obtain ⟨there, back⟩ := again.unique numbered
    exact congrArg₂ NodeNames.mk there back

/-- **Written and read again, a graph that was made of a graph with names is in normal form.**
The first time, arcs are put in order and the attribute `directed` is used up; every later time
gives the same graph, with the same ids and properties. The names are the same all along.  A
graph with a name that has no text, because of an integer too long for it, is refused the first
time. -/
theorem NamedGraph.WellFormed.readAgain_normal {N : NamedGraph} (wellFormed : N.WellFormed)
    (attributes : ∀ n ∈ N.nodes, Properties.Keyed reservedNodeAttributes n.2)
    (edgeAttributes : ∀ e ∈ N.edges, e.attributes.Distinct) :
    (N.Spellable → ∃ s N₁ s₁ N₂ s₂, N.toImport = .ok s ∧
      s.graph.graph.toNamed (some s.names) = .ok N₁ ∧ N₁.toImport = .ok s₁ ∧
      s₁.graph.graph.toNamed (some s₁.names) = .ok N₂ ∧ N₂.toImport = .ok s₂ ∧
      s₁.names = s.names ∧ s₂.names = s.names ∧ s₂.graph = s₁.graph) ∧
    (¬ N.Spellable → N.toImport = .error .integerTooLong) := by
  refine ⟨fun spellable => ?_, toImport_of_not_spellable⟩
  have spelled := NamedGraph.spellable_iff.mp spellable
  have arranged := wellFormed.arranged attributes edgeAttributes
  have numbered := wellFormed.imported.names
  obtain ⟨N₁, s₁, written₁, read₁, graph₁, names₁⟩ :=
    arranged.readAgain wellFormed.lists_made numbered spelled
  have settled := arranged.settled
  obtain ⟨N₂, s₂, written₂, read₂, graph₂, names₂⟩ :=
    settled.readAgain (lists_grown settled.within) numbered spelled
  refine ⟨N.imported, N₁, s₁, N₂, s₂, spellable.toImport_eq, written₁, read₁, ?_, read₂,
    names₁, names₂, ?_⟩
  · rw [graph₁, names₁]
    exact written₂
  · rw [graph₂, graph₁, settledArcs_settledArcs]

namespace NamedGraph

/-- Undirected roads between two nodes whose names have one text, one of them with an attribute
`directed`. -/
def twinRoads : NamedGraph :=
  ⟨false, true, [(.text "1", []), (.int 1, [])],
    [⟨0, 1, .text "1", .int 1, .int 0, [(.text "directed", .bool true), (.text "cost", .int 3)]⟩,
      ⟨1, 0, .int 1, .text "1", .int 1, []⟩]⟩

theorem wellFormed_twinRoads : twinRoads.WellFormed := by
  have names : twinRoads.names = [.text "1", .int 1] := rfl
  refine ⟨?_, ?_, ?_, by decide⟩ <;> rw [names]
  · simp [Value.isHashable]
  · simp
  · refine List.pairwise_pair.mpr ?_
    rw [← Bool.not_eq_true, Value.text_beq_iff]
    simp

/-- Two roads between places with equal texts are in normal form after one step. -/
theorem readAgain_normal_twinRoads :
    twinRoads.WellFormed ∧
      (∀ n ∈ twinRoads.nodes, Properties.Keyed reservedNodeAttributes n.2) ∧
      (∀ e ∈ twinRoads.edges, e.attributes.Distinct) ∧
      ∃ s N₁ s₁ N₂ s₂, twinRoads.toImport = .ok s ∧
        s.graph.graph.toNamed (some s.names) = .ok N₁ ∧ N₁.toImport = .ok s₁ ∧
        s₁.graph.graph.toNamed (some s₁.names) = .ok N₂ ∧ N₂.toImport = .ok s₂ ∧
        s₁.names = s.names ∧ s₂.names = s.names ∧ s₂.graph = s₁.graph := by
  have attributes : ∀ n ∈ twinRoads.nodes, Properties.Keyed reservedNodeAttributes n.2 := by
    intro n member
    have bare : n.2 = [] := by
      simp only [twinRoads, List.mem_cons, List.not_mem_nil, or_false] at member
      rcases member with rfl | rfl <;> rfl
    exact bare ▸ ⟨nofun, .nil⟩
  have edgeAttributes : ∀ e ∈ twinRoads.edges, e.attributes.Distinct := by
    simp only [twinRoads, List.forall_mem_cons, List.not_mem_nil, false_implies, implies_true,
      and_true]
    refine ⟨List.pairwise_pair.mpr ?_, .nil⟩
    rw [← Bool.not_eq_true, Value.text_beq_iff]
    simp
  have spellable : twinRoads.Spellable := by
    intro name listed
    have known : name = .text "1" ∨ name = .int 1 := by
      simpa [names, twinRoads] using listed
    rcases known with rfl | rfl <;> rfl
  exact ⟨wellFormed_twinRoads, attributes, edgeAttributes,
    (wellFormed_twinRoads.readAgain_normal attributes edgeAttributes).1 spellable⟩

/-- An undirected graph with one node, whose name is the least integer too long for a text. -/
def namedLong : NamedGraph :=
  ⟨false, false, [(.int (10 ^ Decimal.maxIntegerDigits), [])], []⟩

/-- The graph with the long name has no import to start from. -/
theorem toImport_namedLong :
    namedLong.WellFormed ∧ (∀ n ∈ namedLong.nodes, Properties.Keyed reservedNodeAttributes n.2) ∧
      namedLong.toImport = .error .integerTooLong := by
  have wellFormed : namedLong.WellFormed :=
    ⟨by simp [names, namedLong, Value.isHashable], by simp [names, namedLong],
      List.pairwise_singleton _ _, List.forall_mem_nil _⟩
  have attributes : ∀ n ∈ namedLong.nodes, Properties.Keyed reservedNodeAttributes n.2 := by
    intro n member
    cases List.mem_singleton.mp member
    exact ⟨List.forall_mem_nil _, .nil⟩
  refine ⟨wellFormed, attributes, toImport_of_not_spellable fun spellable => ?_⟩
  cases Value.isWritable_long.symm.trans (spellable _ (List.mem_singleton_self _))

end NamedGraph

end ArcSelection
