import ArcSelection.Proofs.Graph.StoredChange
import ArcSelection.Proofs.Listing

/-!
# Graphs that grow

A stored graph to which nodes and arcs are only added by automatic allocation numbers both
from one on, in the order in which they come.  Its state is then told by two lists: the
property maps of the nodes, and the records of the arcs with their property maps.
-/

namespace ArcSelection

/-- The node at a position of the order of allocation. -/
def Node.nth (i : Nat) : Node := ⟨(i + 1 : Nat)⟩

/-- The arc at a position of the order of allocation. -/
def Arc.nth (i : Nat) : Arc := ⟨(i + 1 : Nat)⟩

theorem Node.nth_injective : Function.Injective Node.nth := by
  intro i j same
  simpa [Node.nth] using same

theorem Arc.nth_injective : Function.Injective Arc.nth := by
  intro i j same
  simpa [Arc.nth] using same

/-- Attached properties are those of the node, and the others stay. -/
theorem PropertyStore.get?_attachNode (p : PropertyStore) (n : Node)
    (properties : Option Properties) (k : Node) :
    (p.attachNode n properties).nodes.get? k =
      if n = k then properties.or (p.nodes.get? k) else p.nodes.get? k := by
  cases properties with
  | none => simp [attachNode]
  | some properties => simp [attachNode, setNode, OrderedMap.get?_insert]

/-- Attached properties are those of the arc, and the others stay. -/
theorem PropertyStore.get?_attachArc (p : PropertyStore) (a : Arc)
    (properties : Option Properties) (b : Arc) :
    (p.attachArc a properties).arcs.get? b =
      if a = b then properties.or (p.arcs.get? b) else p.arcs.get? b := by
  cases properties with
  | none => simp [attachArc]
  | some properties => simp [attachArc, setArc, OrderedMap.get?_insert]

namespace StoredGraph

/-- The graph holds the listed nodes and arcs, numbered in the order of the lists. -/
structure Lists (g : StoredGraph) (nodes : List (Option Properties))
    (arcs : List (ArcRecord × Option Properties)) : Prop where
  keys : g.nodes.keys = (List.range nodes.length).map Node.nth
  entries : g.arcs.entries = arcs.zipIdx.map fun e => (Arc.nth e.2, e.1.1)
  nodeProperties : ∀ i, g.properties.nodes.get? (Node.nth i) = nodes[i]?.join
  arcProperties : ∀ i, g.properties.arcs.get? (Arc.nth i) = arcs[i]?.bind (·.2)
  nextNode : g.nextNode = nodes.length + 1
  nextArc : g.nextArc = arcs.length + 1
  consistent : g.Consistent

namespace Lists

variable {g : StoredGraph} {nodes : List (Option Properties)}
  {arcs : List (ArcRecord × Option Properties)} {i : Nat}

theorem empty : StoredGraph.empty.Lists [] [] :=
  ⟨rfl, rfl, fun _ => rfl, fun _ => rfl, rfl, rfl, consistent_empty⟩

/-- The nodes are those with the first positions. -/
theorem contains_nodes (lists : g.Lists nodes arcs) :
    g.nodes.contains (.nth i) = true ↔ i < nodes.length := by
  rw [← OrderedMap.mem_keys_iff, lists.keys, List.mem_map_of_injective Node.nth_injective,
    List.mem_range]

/-- The record of an arc is the one at its position. -/
theorem get?_arcs (lists : g.Lists nodes arcs) :
    g.arcs.get? (.nth i) = arcs[i]?.map (·.1) := by
  refine Option.ext fun r => ?_
  rw [← OrderedMap.mem_entries_iff, lists.entries]
  simp only [List.mem_map, Prod.exists, List.mem_zipIdx_iff_getElem?, Prod.mk.injEq,
    Option.map_eq_some_iff]
  constructor
  · rintro ⟨r, p, j, found, same, rfl⟩
    obtain rfl := Arc.nth_injective same
    exact ⟨r, p, found, rfl⟩
  · rintro ⟨r, p, found, rfl⟩
    exact ⟨r, p, i, found, rfl, rfl⟩

/-- The arcs are those with the first positions. -/
theorem contains_arcs (lists : g.Lists nodes arcs) :
    g.arcs.contains (.nth i) = true ↔ i < arcs.length := by
  rw [OrderedMap.contains_eq_isSome, lists.get?_arcs, Option.isSome_map, isSome_getElem?]

/-- Nothing has been numbered ahead, so the next number is free. -/
theorem freshNode (lists : g.Lists nodes arcs) : g.freshNode = nodes.length + 1 := by
  obtain ⟨_, later, least⟩ := g.freshNode_spec
  rw [lists.nextNode] at later least
  by_contra different
  have taken := least (nodes.length + 1) le_rfl (by omega)
  exact lt_irrefl _ (lists.contains_nodes.mp taken)

/-- The next id for an arc is the one after all. -/
theorem freshArc (lists : g.Lists nodes arcs) : g.freshArc = arcs.length + 1 := by
  obtain ⟨_, later, least⟩ := g.freshArc_spec
  rw [lists.nextArc] at later least
  by_contra different
  have taken := least (arcs.length + 1) le_rfl (by omega)
  exact lt_irrefl _ (lists.contains_arcs.mp taken)

/-- A new node gets the next position. -/
theorem pushNode_fst (lists : g.Lists nodes arcs) (properties : Option Properties) :
    (g.pushNode properties).1 = .nth nodes.length := by
  rw [StoredGraph.pushNode, lists.freshNode]
  rfl

/-- A new arc gets the next position. -/
theorem pushArc_fst (lists : g.Lists nodes arcs) (r : ArcRecord) (properties : Option Properties) :
    (g.pushArc r properties).1 = .nth arcs.length := by
  rw [StoredGraph.pushArc, lists.freshArc]
  rfl

/-- A new node is listed last. -/
theorem pushNode (lists : g.Lists nodes arcs) (properties : Option Properties) :
    (g.pushNode properties).2.Lists (nodes ++ [properties]) arcs := by
  have absent : g.nodes.contains (.nth nodes.length) = false := by
    rw [← Bool.not_eq_true, lists.contains_nodes]
    exact lt_irrefl _
  have state : (g.pushNode properties).2 =
      { g.putNode (.nth nodes.length) properties with nextNode := nodes.length + 1 + 1 } := by
    rw [StoredGraph.pushNode, lists.freshNode]
    rfl
  have consistent : (g.pushNode properties).2.Consistent :=
    lists.consistent.addNode (show g.addNode none properties = .ok _ from rfl)
  refine ⟨?_, ?_, fun i => ?_, fun i => ?_, ?_, ?_, consistent⟩
  · rw [state]
    simp only [putNode, OrderedMap.keys_insert, absent, lists.keys, Bool.false_eq_true, if_false,
      List.length_append, List.length_singleton, List.range_succ, List.map_append, List.map_singleton]
  · rw [state]
    exact lists.entries
  · have old := lists.nodeProperties i
    rw [state]
    simp only [putNode, PropertyStore.get?_attachNode, Node.nth_injective.eq_iff,
      getElem?_append_singleton, old]
    split
    · rename_i last
      simp [List.getElem?_eq_none last.le]
    · rfl
  · rw [state]
    simpa [putNode] using lists.arcProperties i
  · simp [state]
  · rw [state]
    exact lists.nextArc

/-- A new arc between nodes is listed last. -/
theorem pushArc (lists : g.Lists nodes arcs) {r : ArcRecord}
    (tail : g.nodes.contains r.tail = true) (head : g.nodes.contains r.head = true)
    (properties : Option Properties) :
    (g.pushArc r properties).2.Lists nodes (arcs ++ [(r, properties)]) := by
  have absent : g.arcs.contains (.nth arcs.length) = false := by
    rw [← Bool.not_eq_true, lists.contains_arcs]
    exact lt_irrefl _
  have state : (g.pushArc r properties).2 =
      { g.putArc (.nth arcs.length) r properties with nextArc := arcs.length + 1 + 1 } := by
    rw [StoredGraph.pushArc, lists.freshArc]
    rfl
  have consistent : (g.pushArc r properties).2.Consistent := by
    rw [state]
    exact (lists.consistent.putArc absent (by simp [Arc.nth]) tail head properties).withCounters
      ⟨lists.consistent.counters.1, Nat.succ_pos _⟩
  refine ⟨?_, ?_, fun i => ?_, fun i => ?_, ?_, ?_, consistent⟩
  · rw [state]
    simpa [putArc] using lists.keys
  · rw [state]
    simp [putArc, OrderedMap.entries_insert_of_absent absent, lists.entries, List.zipIdx_append]
  · rw [state]
    simpa [putArc] using lists.nodeProperties i
  · have old := lists.arcProperties i
    rw [state]
    simp only [putArc, PropertyStore.get?_attachArc, Arc.nth_injective.eq_iff,
      getElem?_append_singleton, old]
    split
    · rename_i last
      simp [List.getElem?_eq_none last.le]
    · rfl
  · rw [state]
    exact lists.nextNode
  · simp [state]

/-! ### What the queries tell -/

/-- The nodes are queried in the order of the list. -/
theorem graph_nodes (lists : g.Lists nodes arcs) :
    g.graph.nodes = (List.range nodes.length).map Node.nth := lists.keys

/-- The arcs are queried in the order of the list. -/
theorem graph_arcs (lists : g.Lists nodes arcs) :
    g.graph.arcs .all = (List.range arcs.length).map Arc.nth := by
  change g.arcs.keys = _
  rw [OrderedMap.keys, lists.entries, List.map_map]
  calc arcs.zipIdx.map (fun e => Arc.nth e.2) = (arcs.zipIdx.map Prod.snd).map Arc.nth :=
        by rw [List.map_map]; rfl
    _ = (List.range arcs.length).map Arc.nth := by rw [List.zipIdx_map_snd, List.range_eq_range']

/-- An arc is queried as it is listed. -/
theorem graph_record (lists : g.Lists nodes arcs) {r : ArcRecord} {properties : Option Properties}
    (found : arcs[i]? = some (r, properties)) :
    g.graph.tail (.nth i) = r.tail ∧ g.graph.head (.nth i) = r.head ∧
      g.graph.isEdge (.nth i) = r.isEdge ∧ g.graph.arcProperties (.nth i) = properties := by
  have recorded : g.arcs.get? (.nth i) = some r := by rw [lists.get?_arcs, found, Option.map_some]
  obtain ⟨tail, head⟩ := ends_of_get? recorded
  refine ⟨tail, head, ?_, ?_⟩
  · exact (lists.consistent.isEdge_eq).trans (by rw [recorded, Option.any_some])
  · exact (lists.arcProperties i).trans (by rw [found, Option.bind_some])

end Lists

/-- The graph to which first the nodes and then the arcs of two lists are added. -/
def grown (nodes : List (Option Properties)) (arcs : List (ArcRecord × Option Properties)) :
    StoredGraph :=
  arcs.foldl (fun g a => (g.pushArc a.1 a.2).2)
    (nodes.foldl (fun g p => (g.pushNode p).2) .empty)

variable {nodes : List (Option Properties)} {arcs : List (ArcRecord × Option Properties)}

/-- Growing one more node adds it last. -/
theorem grown_append_node (p : Option Properties) :
    grown (nodes ++ [p]) [] = ((grown nodes []).pushNode p).2 := by
  simp [grown]

/-- Growing one more arc adds it last. -/
theorem grown_append_arc (a : ArcRecord × Option Properties) :
    grown nodes (arcs ++ [a]) = ((grown nodes arcs).pushArc a.1 a.2).2 := by
  simp [grown]

end StoredGraph

/-- The record joins two of the first nodes. -/
structure ArcRecord.Within (r : ArcRecord) (count : Nat) : Prop where
  tail : ∃ i < count, r.tail = .nth i
  head : ∃ i < count, r.head = .nth i

namespace StoredGraph

variable {nodes : List (Option Properties)} {arcs : List (ArcRecord × Option Properties)}

/-- A graph that is grown has the nodes it is grown from. -/
theorem lists_grown_nodes (nodes : List (Option Properties)) : (grown nodes []).Lists nodes [] :=
  foldl_invariant (fun nodes g => Lists g nodes []) .empty
    fun _ _ _ _ _ lists => lists.pushNode _

/-- A graph that grows holds what is added, if every arc joins nodes. -/
theorem lists_grown (within : ∀ a ∈ arcs, a.1.Within nodes.length) :
    (grown nodes arcs).Lists nodes arcs := by
  refine foldl_invariant (fun arcs g => Lists g nodes arcs) (lists_grown_nodes nodes)
    fun done a rest g split lists => ?_
  obtain ⟨⟨i, tailInside, tail⟩, ⟨j, headInside, head⟩⟩ := within a (by simp [split])
  refine lists.pushArc ?_ ?_ a.2
  · rw [tail, lists.contains_nodes]
    exact tailInside
  · rw [head, lists.contains_nodes]
    exact headInside

end StoredGraph

end ArcSelection
