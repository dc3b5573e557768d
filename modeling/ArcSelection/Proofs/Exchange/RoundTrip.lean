import ArcSelection.Proofs.Exchange.Export
import ArcSelection.Proofs.Exchange.Imported

/-!
# Reading back a graph with names

A graph that was written under names that can be told apart is read back as the same graph
with other ids.  Nodes are numbered by the texts of their names, and arcs as the edges come,
node by node; neither order is that of the graph, so both are kept as lists of the items of
the graph and nothing but their membership is used.
-/

namespace ArcSelection

variable {g : Graph} {names : Option NodeNames}

/-- The nodes in the order in which they are read back. -/
def readOrder (g : Graph) (names : Option NodeNames) : List Node :=
  (writtenNodes g).mergeSort fun n m =>
    decide ((exportName names n).plainText ≤ (exportName names m).plainText)

theorem readOrder_perm : (readOrder g names).Perm (writtenNodes g) := List.mergeSort_perm _ _

theorem nodup_readOrder : (readOrder g names).Nodup :=
  readOrder_perm.nodup_iff.mpr nodup_writtenNodes

theorem mem_readOrder {n : Node} : n ∈ readOrder g names ↔ n ∈ g.nodes := by
  rw [readOrder_perm.mem_iff, mem_writtenNodes]

/-- The nodes are read in the order of their texts. -/
theorem sortedNodes_written : (written g names).sortedNodes =
    (readOrder g names).map fun n => (writtenNode g names n, (writtenNodes g).idxOf n) := by
  have positions : (written g names).nodes.zipIdx =
      (writtenNodes g).map fun n => (writtenNode g names n, (writtenNodes g).idxOf n) := by
    change ((writtenNodes g).map (writtenNode g names)).zipIdx = _
    rw [List.zipIdx_map, zipIdx_eq_map_idxOf nodup_writtenNodes, List.map_map]
    rfl
  rw [NamedGraph.sortedNodes, positions, readOrder, List.map_mergeSort]
  intro n _ m _
  rfl

/-- The node that a node is read back as. -/
def readNode (g : Graph) (names : Option NodeNames) (n : Node) : Node :=
  .nth ((readOrder g names).idxOf n)

/-- The record that an arc is read back with. -/
def readRecord (g : Graph) (names : Option NodeNames) (a : Arc) : ArcRecord :=
  ⟨readNode g names (g.tail a), readNode g names (g.head a), g.isEdge a⟩

/-- How an arc is referred to once it is written. -/
def writtenRef (g : Graph) (names : Option NodeNames) (a : Arc) : EdgeRef :=
  ⟨exportName names (g.tail a), exportName names (g.head a), .int a.id⟩

/-- The nodes and the arcs that have been read back so far. -/
structure ReadSoFar (g : Graph) (names : Option NodeNames) (nodes : List Node) (arcs : List Arc)
    (s : Import) : Prop where
  graph : s.graph.Lists (nodes.map g.nodeProperties)
    (arcs.map fun a => (readRecord g names a, g.arcProperties a))
  nameTable : Numbered Node.nth s.names.nodes s.names.names (nodes.map (exportName names))
  refTable : Numbered Arc.nth s.refs.arcs s.refs.refs (arcs.map (writtenRef g names))
  placed : ∀ n ∈ nodes, s.nodeAt ((writtenNodes g).idxOf n) = readNode g names n

theorem readSoFar_start : ReadSoFar g names [] [] .start :=
  ⟨.empty, .empty, .empty, fun _ member => absurd member List.not_mem_nil⟩

namespace Exchangeable

/-- A new name gets the next node. -/
theorem readSoFar_enterNode (exchangeable : Exchangeable g names) {done rest : List Node}
    {n : Node} {s : Import} (split : readOrder g names = done ++ n :: rest)
    (read : ReadSoFar g names done [] s) :
    ReadSoFar g names (done ++ [n]) []
      (s.enterNode (writtenNode g names n, (writtenNodes g).idxOf n)) := by
  have ordered : ∀ m ∈ done ++ [n], m ∈ readOrder g names := by
    intro m member
    rw [split]
    exact List.mem_append.mpr ((List.mem_append.mp member).imp_right fun isLast =>
      List.mem_cons.mpr (.inl (List.mem_singleton.mp isLast)))
  have listed : n ∈ g.nodes := mem_readOrder.mp (ordered n (by simp))
  have new : n ∉ done := Fallible.not_mem_done nodup_readOrder split
  have node : (s.graph.pushNode (Properties.unlessEmpty ((g.nodeProperties n).getD []))).1 =
      .nth done.length := by
    rw [read.graph.pushNode_fst, List.length_map]
  have last : readNode g names n = .nth done.length := by
    rw [readNode, split, List.idxOf_append_of_notMem new, List.idxOf_cons_self, Nat.add_zero]
  have properties : Properties.unlessEmpty ((g.nodeProperties n).getD []) = g.nodeProperties n :=
    Properties.unlessEmpty_getD fun p found => (exchangeable.nodeProperties n listed p found).1
  refine ⟨?_, ?_, read.refTable, fun m member => ?_⟩
  · have grown := read.graph.pushNode (g.nodeProperties n)
    rw [← properties] at grown
    simpa [Import.enterNode, writtenNode, properties] using grown
  · have apart : ∀ name ∈ done.map (exportName names), (name == exportName names n) = false := by
      intro name member
      obtain ⟨m, early, rfl⟩ := List.mem_map.mp member
      exact exchangeable.apart m (mem_readOrder.mp (ordered m (by simp [early]))) n listed
        fun same => new (same ▸ early)
    have grown := read.nameTable.insert Node.nth_injective apart
    rw [List.length_map, ← node] at grown
    simpa [Import.enterNode, NodeNames.put, writtenNode] using grown
  · have placed : (s.enterNode (writtenNode g names n, (writtenNodes g).idxOf n)).placed =
        ((writtenNodes g).idxOf n, .nth done.length) :: s.placed := by
      rw [← node]
      rfl
    rw [Import.nodeAt, placed, List.lookup_cons]
    -- Positions among the written nodes tell the new node from those placed before.
    by_cases same : m = n
    · subst same
      simp [last]
    · have early : m ∈ done := by simpa [same] using member
      have written : m ∈ writtenNodes g := mem_writtenNodes.mpr (mem_readOrder.mp (ordered m member))
      have elsewhere : ((writtenNodes g).idxOf m == (writtenNodes g).idxOf n) = false := by
        rw [beq_eq_false_iff_ne, ne_eq, List.idxOf_inj written]
        exact same
      rw [elsewhere]
      exact read.placed m early

/-- The mark of direction that was set is found and taken out again. -/
theorem attributes_writtenArc (exchangeable : Exchangeable g names) {a : Arc}
    (listed : a ∈ g.arcs .all) :
    Properties.unlessEmpty
        (Properties.without (writtenArc g names a).attributes directedAttribute) =
      g.arcProperties a ∧
    Import.isDirected (writtenArc g names a).attributes = !(g.isEdge a) := by
  have keyed := exchangeable.arcAttributes_keyed listed
  have isReserved : directedAttribute ∈ [directedAttribute] := List.mem_singleton_self _
  have attributes : Properties.without (writtenArc g names a).attributes directedAttribute =
      (g.arcProperties a).getD [] := keyed.without_put isReserved _
  have value : Properties.value? (writtenArc g names a).attributes directedAttribute =
      some (.bool !(g.isEdge a)) := Properties.Distinct.value?_put keyed.distinct _ _
  constructor
  · rw [attributes]
    exact Properties.unlessEmpty_getD fun p found =>
      (exchangeable.arcProperties a listed p found).1
  · rw [Import.isDirected, value]
    rfl

/-- An edge that was written is read as an arc between the nodes that its ends are read as. -/
theorem enterEdge_writtenArc (exchangeable : Exchangeable g names) {done : List Arc} {a : Arc}
    {s : Import} (listed : a ∈ g.arcs .all)
    (read : ReadSoFar g names (readOrder g names) done s) :
    s.enterEdge true (writtenArc g names a) =
      { s with
        graph := (s.graph.pushArc (readRecord g names a) (g.arcProperties a)).2
        refs := s.refs.put (.nth done.length) (writtenRef g names a) } := by
  obtain ⟨properties, isDirected⟩ := exchangeable.attributes_writtenArc listed
  have place : ∀ n ∈ g.nodes, s.nodeAt ((writtenNodes g).idxOf n) = readNode g names n :=
    fun n member => read.placed n (mem_readOrder.mpr member)
  have arc : (s.graph.pushArc (readRecord g names a) (g.arcProperties a)).1 =
      .nth done.length := by
    rw [read.graph.pushArc_fst, List.length_map]
  have record : (⟨s.nodeAt (writtenArc g names a).source, s.nodeAt (writtenArc g names a).target,
      !(true && Import.isDirected (writtenArc g names a).attributes)⟩ : ArcRecord) =
      readRecord g names a := by
    rw [isDirected, Bool.true_and, Bool.not_not, readRecord,
      ← place _ (exchangeable.lists.tail_mem a listed),
      ← place _ (exchangeable.lists.head_mem a listed)]
    rfl
  rw [Import.enterEdge, record, if_pos rfl, properties, ← arc]
  rfl

/-- A new edge gets the next arc. -/
theorem readSoFar_enterEdge (exchangeable : Exchangeable g names) {done : List Arc} {a : Arc}
    {s : Import} (listed : a ∈ g.arcs .all) (new : a ∉ done)
    (read : ReadSoFar g names (readOrder g names) done s) :
    ReadSoFar g names (readOrder g names) (done ++ [a])
      (s.enterEdge true (writtenArc g names a)) := by
  have contains : ∀ n ∈ g.nodes, s.graph.nodes.contains (readNode g names n) = true := by
    intro n member
    rw [readNode, read.graph.contains_nodes, List.length_map]
    exact List.idxOf_lt_length_iff.mpr (mem_readOrder.mpr member)
  have tail := contains _ (exchangeable.lists.tail_mem a listed)
  have head := contains _ (exchangeable.lists.head_mem a listed)
  rw [exchangeable.enterEdge_writtenArc listed read]
  refine ⟨?_, read.nameTable, ?_, read.placed⟩
  · simpa using read.graph.pushArc tail head (g.arcProperties a)
  · have apart : ∀ r ∈ done.map (writtenRef g names), (r == writtenRef g names a) = false := by
      intro r member
      obtain ⟨b, early, rfl⟩ := List.mem_map.mp member
      rw [← Bool.not_eq_true]
      intro same
      -- Parallel arcs share the names of their ends and differ in the key alone.
      have keys := (Bool.and_eq_true_iff.mp same).2
      obtain rfl : b = a := congrArg Arc.mk (Value.int_beq_iff.mp keys)
      exact new early
    have grown := read.refTable.insert Arc.nth_injective apart
    rw [List.length_map] at grown
    simpa [ArcRefs.put] using grown

/-- All is read back, the arcs in some order. -/
theorem readSoFar_imported (exchangeable : Exchangeable g names) :
    ∃ arcs : List Arc, arcs.Perm (g.arcs .all) ∧
      ReadSoFar g names (readOrder g names) arcs (written g names).imported := by
  obtain ⟨arcs, perm, edges⟩ := exists_perm_of_perm_map exchangeable.nameable.spelled.edgesInOrder_perm
  refine ⟨arcs, perm, ?_⟩
  have nodesRead : ReadSoFar g names (readOrder g names) []
      ((written g names).sortedNodes.foldl Import.enterNode .start) := by
    rw [sortedNodes_written, List.foldl_map]
    exact foldl_invariant (ReadSoFar g names · []) readSoFar_start
      fun done n rest s split read => exchangeable.readSoFar_enterNode split read
  rw [NamedGraph.imported, edges, List.foldl_map]
  refine foldl_invariant (ReadSoFar g names (readOrder g names)) nodesRead
    fun done a rest s split read => ?_
  have listed : a ∈ g.arcs .all := perm.mem_iff.mp (by simp [split])
  have new := Fallible.not_mem_done (perm.nodup_iff.mpr exchangeable.lists.nodup) split
  exact exchangeable.readSoFar_enterEdge listed new read

end Exchangeable

/-- What was read back is the graph with other ids, and the tables tell which id stands for
which. -/
structure ReadBack (g : Graph) (names : Option NodeNames) (s : Import) (node : Node → Node)
    (arc : Arc → Arc) : Prop where
  nodes : Set.BijOn node {n | n ∈ g.nodes} {n | n ∈ s.graph.graph.nodes}
  nodeProperties : ∀ n ∈ g.nodes, s.graph.graph.nodeProperties (node n) = g.nodeProperties n
  nodeNames : Pairs g.nodes (exportName names) node s.names.nodes s.names.names
  arcs : Set.BijOn arc {a | a ∈ g.arcs .all} {a | a ∈ s.graph.graph.arcs .all}
  tail : ∀ a ∈ g.arcs .all, s.graph.graph.tail (arc a) = node (g.tail a)
  head : ∀ a ∈ g.arcs .all, s.graph.graph.head (arc a) = node (g.head a)
  isEdge : ∀ a ∈ g.arcs .all, s.graph.graph.isEdge (arc a) = g.isEdge a
  arcProperties : ∀ a ∈ g.arcs .all, s.graph.graph.arcProperties (arc a) = g.arcProperties a
  arcRefs : Pairs (g.arcs .all) (writtenRef g names) arc s.refs.arcs s.refs.refs

namespace ReadSoFar

variable {arcs : List Arc} {s : Import}

/-- Every node is read as one node. -/
theorem bijOn_nodes (read : ReadSoFar g names (readOrder g names) arcs s) :
    Set.BijOn (readNode g names) {n | n ∈ g.nodes} {n | n ∈ s.graph.graph.nodes} := by
  have numbered : Set.BijOn (readNode g names) {n | n ∈ readOrder g names} _ :=
    bijOn_idxOf nodup_readOrder Node.nth_injective
  rw [read.graph.graph_nodes, List.length_map]
  simpa only [mem_readOrder] using numbered

/-- Every arc is read as one arc. -/
theorem bijOn_arcs (read : ReadSoFar g names (readOrder g names) arcs s) (nodup : arcs.Nodup) :
    Set.BijOn (fun a => Arc.nth (arcs.idxOf a)) {a | a ∈ arcs}
      {a | a ∈ s.graph.graph.arcs .all} := by
  rw [read.graph.graph_arcs, List.length_map]
  exact bijOn_idxOf nodup Arc.nth_injective

/-- A node is read with its properties. -/
theorem nodeProperties (read : ReadSoFar g names (readOrder g names) arcs s) {n : Node}
    (listed : n ∈ g.nodes) :
    s.graph.graph.nodeProperties (readNode g names n) = g.nodeProperties n := by
  refine (read.graph.nodeProperties _).trans ?_
  rw [List.getElem?_map, List.getElem?_idxOf (mem_readOrder.mpr listed)]
  rfl

/-- An arc is read with its ends, its kind and its properties. -/
theorem record (read : ReadSoFar g names (readOrder g names) arcs s) {a : Arc} (member : a ∈ arcs) :
    s.graph.graph.tail (.nth (arcs.idxOf a)) = readNode g names (g.tail a) ∧
      s.graph.graph.head (.nth (arcs.idxOf a)) = readNode g names (g.head a) ∧
      s.graph.graph.isEdge (.nth (arcs.idxOf a)) = g.isEdge a ∧
      s.graph.graph.arcProperties (.nth (arcs.idxOf a)) = g.arcProperties a := by
  refine read.graph.graph_record (r := readRecord g names a) ?_
  rw [List.getElem?_map, List.getElem?_idxOf member, Option.map_some]

end ReadSoFar

/-- What is read of a graph that was written is the graph with other ids. -/
theorem Exchangeable.readBack_imported (exchangeable : Exchangeable g names) :
    ∃ node arc, ReadBack g names (written g names).imported node arc := by
  obtain ⟨arcs, perm, read⟩ := exchangeable.readSoFar_imported
  have listed : ∀ a, a ∈ arcs ↔ a ∈ g.arcs .all := fun a => perm.mem_iff
  have nodup : arcs.Nodup := perm.nodup_iff.mpr exchangeable.lists.nodup
  refine ⟨readNode g names, fun a => .nth (arcs.idxOf a), ?_⟩
  exact {
    nodes := read.bijOn_nodes
    nodeProperties n := read.nodeProperties
    nodeNames := read.nameTable.pairs nodup_readOrder fun n => mem_readOrder
    arcs := by simpa only [listed] using read.bijOn_arcs nodup
    tail a member := (read.record ((listed a).mpr member)).1
    head a member := (read.record ((listed a).mpr member)).2.1
    isEdge a member := (read.record ((listed a).mpr member)).2.2.1
    arcProperties a member := (read.record ((listed a).mpr member)).2.2.2
    arcRefs := read.refTable.pairs nodup listed }

/-- The names that are written are those of the nodes. -/
theorem spellable_written_iff : (written g names).Spellable ↔
    ∀ n ∈ g.nodes, (exportName names n).isWritable = true := by
  have listed : ∀ name, name ∈ (written g names).names ↔
      ∃ n ∈ g.nodes, exportName names n = name := by
    simp only [NamedGraph.names, written, List.map_map, List.mem_map, mem_writtenNodes]
    exact fun name => Iff.rfl
  simp only [NamedGraph.Spellable, listed, forall_exists_index, and_imp,
    forall_apply_eq_imp_iff₂]

/-- **A graph is read back as it was written**, if the names of its nodes have texts to be sorted
by.  With an integer among them that is too long for a text, the graph is written and refused
when it is read. -/
theorem Graph.readBack_of_exchangeable (exchangeable : Exchangeable g names) :
    ∃ N, g.toNamed names = .ok N ∧
      ((∀ n ∈ g.nodes, (exportName names n).isWritable = true) →
        ∃ s, N.toImport = .ok s ∧ ∃ node arc, ReadBack g names s node arc) ∧
      ((∃ n ∈ g.nodes, (exportName names n).isWritable = false) →
        N.toImport = .error .integerTooLong) := by
  refine ⟨written g names, exchangeable.nameable.toNamed_eq, fun spelled => ?_, ?_⟩
  · have spellable : (written g names).Spellable := spellable_written_iff.mpr spelled
    exact ⟨_, spellable.toImport_eq, exchangeable.readBack_imported⟩
  · rintro ⟨n, isNode, unspelled⟩
    refine NamedGraph.toImport_of_not_spellable fun spellable => ?_
    cases unspelled.symm.trans (spellable_written_iff.mp spellable n isNode)

/-- A depot and a customer, an edge with a cost between them and a loop at the depot. -/
def delivery : StoredGraph :=
  let depot := (StoredGraph.empty.pushNode (some [(.text "kind", .text "depot")])).2
  let both := (depot.pushNode none).2
  let joined := (both.pushArc ⟨⟨1⟩, ⟨2⟩, true⟩ (some [(.text "cost", .int 3)])).2
  (joined.pushArc ⟨⟨1⟩, ⟨1⟩, false⟩ none).2

/-- Names that come in another order than the nodes. -/
def deliveryNames : NodeNames := (NodeNames.empty.put (.text "b") ⟨1⟩).put (.text "a") ⟨2⟩

/-- The delivery can be exchanged. -/
theorem exchangeable_delivery : Exchangeable delivery.graph (some deliveryNames) := by
  have nodes : delivery.graph.nodes = [⟨1⟩, ⟨2⟩] := by decide
  have arcs : delivery.graph.arcs .all = [⟨1⟩, ⟨2⟩] := by decide
  have first : exportName (some deliveryNames) ⟨1⟩ = .text "b" := rfl
  have second : exportName (some deliveryNames) ⟨2⟩ = .text "a" := rfl
  have single : ∀ reserved : List String, ∀ key v, key ∉ reserved →
      Properties.Keyed reserved [(.text key, v)] := by
    refine fun reserved key v free => ⟨fun e member => ⟨key, ?_, free⟩, List.pairwise_singleton _ _⟩
    rw [List.mem_singleton.mp member]
  refine ⟨⟨by decide, by decide, by decide⟩, ?_, ?_, ?_, ?_, ?_⟩ <;>
    simp only [nodes, arcs, List.forall_mem_cons, List.not_mem_nil, false_implies, implies_true,
      and_true, first, second]
  · simp [Value.isHashable]
  · simp
  · refine ⟨⟨fun h => absurd rfl h, fun _ => ?_⟩, fun _ => ?_, fun h => absurd rfl h⟩ <;>
      rw [← Bool.not_eq_true, Value.text_beq_iff] <;> simp
  · refine ⟨fun p found => ?_, fun p found => ?_⟩
    · cases found
      exact ⟨List.cons_ne_nil _ _, single _ _ _ (by decide)⟩
    · cases found
  · refine ⟨fun p found => ?_, fun p found => ?_⟩
    · cases found
      exact ⟨List.cons_ne_nil _ _, single _ _ _ (by decide)⟩
    · cases found

/-- The delivery is read back as it was written. -/
theorem Graph.readBack_of_exchangeable_delivery :
    Exchangeable delivery.graph (some deliveryNames) ∧
      ∃ N s, delivery.graph.toNamed (some deliveryNames) = .ok N ∧ N.toImport = .ok s ∧
        ∃ node arc, ReadBack delivery.graph (some deliveryNames) s node arc := by
  obtain ⟨N, toNamed, read, _⟩ := Graph.readBack_of_exchangeable exchangeable_delivery
  obtain ⟨s, toImport, back⟩ := read (by decide)
  exact ⟨exchangeable_delivery, N, s, toNamed, toImport, back⟩

/-- A graph with one node. -/
def singleNode : StoredGraph := (StoredGraph.empty.pushNode none).2

/-- The name of the node is the least integer that is too long for a text. -/
def longName : NodeNames := NodeNames.empty.put (.int (10 ^ Decimal.maxIntegerDigits)) ⟨1⟩

/-- The graph with the long name can be written, and not read. -/
theorem Graph.toImport_singleNode_longName :
    Exchangeable singleNode.graph (some longName) ∧
      ∃ N, singleNode.graph.toNamed (some longName) = .ok N ∧
        N.toImport = .error .integerTooLong := by
  have single : ∀ n ∈ singleNode.graph.nodes, n = ⟨1⟩ := by decide
  have name : exportName (some longName) ⟨1⟩ = .int (10 ^ Decimal.maxIntegerDigits) := rfl
  have exchangeable : Exchangeable singleNode.graph (some longName) :=
    { lists := ⟨by decide, by decide, by decide⟩
      hashable := fun n listed => single n listed ▸ rfl
      present := fun n listed => single n listed ▸ nofun
      apart := fun n listed m listed' different =>
        absurd ((single n listed).trans (single m listed').symm) different
      nodeProperties := fun n listed p found => by
        cases single n listed
        cases found
      arcProperties := nofun }
  refine ⟨exchangeable, _, exchangeable.nameable.toNamed_eq,
    NamedGraph.toImport_of_not_spellable fun spellable => ?_⟩
  have spelled := spellable_written_iff.mp spellable ⟨1⟩ (by decide)
  cases Value.isWritable_long.symm.trans (name ▸ spelled)

end ArcSelection
