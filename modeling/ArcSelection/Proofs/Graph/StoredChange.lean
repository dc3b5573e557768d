import ArcSelection.Proofs.Graph.Attempt
import ArcSelection.Proofs.Graph.Stored

/-!
# Changes of a stored graph

Every change keeps the parts of a stored graph in agreement.
-/

namespace ArcSelection

namespace PropertyStore

variable {p : PropertyStore} {n k : Node} {a b : Arc} {properties : Option Properties}

@[simp] theorem arcs_setNode : (p.setNode n properties).arcs = p.arcs := by
  cases properties <;> rfl

@[simp] theorem nodes_setArc : (p.setArc a properties).nodes = p.nodes := by
  cases properties <;> rfl

@[simp] theorem arcs_attachNode : (p.attachNode n properties).arcs = p.arcs := by
  cases properties <;> rfl

@[simp] theorem nodes_attachArc : (p.attachArc a properties).nodes = p.nodes := by
  cases properties <;> rfl

theorem contains_setNode (has : (p.setNode n properties).nodes.contains k = true) :
    n = k ∨ p.nodes.contains k = true := by
  cases properties with
  | none => exact .inr (Bool.and_eq_true_iff.mp (OrderedMap.contains_erase _ n k ▸ has)).2
  | some properties => simpa [setNode, OrderedMap.contains_insert] using has

theorem contains_setArc (has : (p.setArc a properties).arcs.contains b = true) :
    a = b ∨ p.arcs.contains b = true := by
  cases properties with
  | none => exact .inr (Bool.and_eq_true_iff.mp (OrderedMap.contains_erase _ a b ▸ has)).2
  | some properties => simpa [setArc, OrderedMap.contains_insert] using has

theorem contains_attachNode (has : (p.attachNode n properties).nodes.contains k = true) :
    n = k ∨ p.nodes.contains k = true := by
  cases properties with
  | none => exact .inr has
  | some properties => exact contains_setNode has

theorem contains_attachArc (has : (p.attachArc a properties).arcs.contains b = true) :
    a = b ∨ p.arcs.contains b = true := by
  cases properties with
  | none => exact .inr has
  | some properties => exact contains_setArc has

end PropertyStore

namespace StoredGraph

variable {g : StoredGraph} {n : Node} {a : Arc} {r : ArcRecord}

/-- Setting the counters forward keeps the parts as they are. -/
theorem Consistent.withCounters (consistent : g.Consistent) {nextNode nextArc : Nat}
    (counters : 0 < nextNode ∧ 0 < nextArc) :
    { g with nextNode := nextNode, nextArc := nextArc : StoredGraph }.Consistent :=
  { consistent with counters := counters }

/-- Adding a new node keeps a graph consistent. -/
theorem Consistent.putNode (consistent : g.Consistent) (absent : g.nodes.contains n = false)
    (positive : 0 < n.id) (properties : Option Properties) :
    (g.putNode n properties).Consistent where
  ends a r found := by
    obtain ⟨tail, head⟩ := consistent.ends a r found
    simp [StoredGraph.putNode, OrderedMap.contains_insert, tail, head]
  leaving u around found v := by
    simp only [StoredGraph.putNode, OrderedMap.get?_insert] at found ⊢
    split at found
    · cases found
      obtain rfl := beq_iff_eq.mp ‹_›
      exact (consistent.keysWhere_runs_eq_nil (.inl absent)).symm
    · exact consistent.leaving u around found v
  entering v around found u := by
    simp only [StoredGraph.putNode, OrderedMap.get?_insert] at found ⊢
    split at found
    · cases found
      obtain rfl := beq_iff_eq.mp ‹_›
      exact (consistent.keysWhere_runs_eq_nil (.inr absent)).symm
    · exact consistent.entering v around found u
  noneEmpty k around found := by
    simp only [StoredGraph.putNode, OrderedMap.get?_insert] at found
    split at found
    · cases found
      exact ⟨nofun, nofun⟩
    · exact consistent.noneEmpty k around found
  edges := consistent.edges
  nodeProperties k has := by
    rw [StoredGraph.putNode, OrderedMap.contains_insert, Bool.or_eq_true, beq_iff_eq]
    exact (PropertyStore.contains_attachNode has).imp_right (consistent.nodeProperties k)
  arcProperties b has := by
    rw [StoredGraph.putNode, PropertyStore.arcs_attachNode] at has
    exact consistent.arcProperties b has
  nodeIds k has := by
    simp only [StoredGraph.putNode, OrderedMap.contains_insert, Bool.or_eq_true,
      beq_iff_eq] at has
    rcases has with rfl | has
    · exact positive
    · exact consistent.nodeIds k has
  arcIds := consistent.arcIds
  counters := consistent.counters

/-- A new arc enters the bucket of its head at the tail, and that of its tail at the head. -/
theorem get?_nodes_putArc (properties : Option Properties) :
    (g.putArc a r properties).nodes.get? n = (g.nodes.get? n).map fun around =>
      ⟨if n = r.tail then addToBucket around.leaving r.head a else around.leaving,
        if n = r.head then addToBucket around.entering r.tail a else around.entering⟩ := by
  simp only [putArc, OrderedMap.get?_modify, Option.map_map, Function.comp_def, beq_iff_eq]
  refine congrArg (Option.map · _) (funext fun around => ?_)
  split_ifs <;> rfl

@[simp] theorem contains_nodes_putArc (properties : Option Properties) :
    (g.putArc a r properties).nodes.contains n = g.nodes.contains n := by
  simp [putArc]

/-- A bucket that gains an arc where the record of the arc says so keeps to the records. -/
theorem bucket_grown {m : OrderedMap Node (List Arc)} {own : Prop} [Decidable own]
    {k k' : Node} {test : ArcRecord → Bool} (absent : g.arcs.contains a = false)
    (told : test r = true ↔ own ∧ k' = k) (kept : bucket m k = g.arcs.keysWhere test) :
    bucket (if own then addToBucket m k' a else m) k = (g.arcs.insert a r).keysWhere test := by
  rw [OrderedMap.keysWhere_insert absent, ← kept]
  by_cases here : own
  · simp [told, here, bucket_addToBucket]
  · simp [told, here]

/-- Adding a new arc between nodes keeps a graph consistent. -/
theorem Consistent.putArc (consistent : g.Consistent) (absent : g.arcs.contains a = false)
    (positive : 0 < a.id) (tail : g.nodes.contains r.tail = true)
    (head : g.nodes.contains r.head = true) (properties : Option Properties) :
    (g.putArc a r properties).Consistent where
  ends b q found := by
    simp only [contains_nodes_putArc]
    simp only [StoredGraph.putArc, OrderedMap.get?_insert] at found
    split at found
    · cases found
      exact ⟨tail, head⟩
    · exact consistent.ends b q found
  leaving u around found v := by
    rw [get?_nodes_putArc] at found
    obtain ⟨before, foundBefore, rfl⟩ := Option.map_eq_some_iff.mp found
    refine bucket_grown absent ?_ (consistent.leaving u before foundBefore v)
    rw [ArcRecord.runs_iff, eq_comm]
  entering v around found u := by
    rw [get?_nodes_putArc] at found
    obtain ⟨before, foundBefore, rfl⟩ := Option.map_eq_some_iff.mp found
    refine bucket_grown absent ?_ (consistent.entering v before foundBefore u)
    rw [ArcRecord.runs_iff, and_comm, eq_comm]
  noneEmpty k around found := by
    rw [get?_nodes_putArc] at found
    obtain ⟨before, foundBefore, rfl⟩ := Option.map_eq_some_iff.mp found
    obtain ⟨leaving, entering⟩ := consistent.noneEmpty k before foundBefore
    constructor
    · dsimp only
      split
      · exact leaving.addToBucket
      · exact leaving
    · dsimp only
      split
      · exact entering.addToBucket
      · exact entering
  edges := OrderedMap.keys_insert_eq_keysWhere consistent.edges absent r
  nodeProperties k has := by
    rw [contains_nodes_putArc]
    rw [StoredGraph.putArc, PropertyStore.nodes_attachArc] at has
    exact consistent.nodeProperties k has
  arcProperties b has := by
    rw [StoredGraph.putArc, OrderedMap.contains_insert, Bool.or_eq_true, beq_iff_eq]
    exact (PropertyStore.contains_attachArc has).imp_right (consistent.arcProperties b)
  nodeIds k has := consistent.nodeIds k (contains_nodes_putArc properties ▸ has)
  arcIds b has := by
    simp only [StoredGraph.putArc, OrderedMap.contains_insert, Bool.or_eq_true,
      beq_iff_eq] at has
    rcases has with rfl | has
    · exact positive
    · exact consistent.arcIds b has
  counters := consistent.counters

/-- Deleting an arc that is not there changes nothing. -/
theorem deleteArc_of_none (found : g.arcs.get? a = none) : (g.deleteArc a).2 = g := by
  simp [StoredGraph.deleteArc, found]

/-- A deleted arc leaves the bucket of its head at the tail, and that of its tail at the head. -/
theorem get?_nodes_deleteArc (found : g.arcs.get? a = some r) :
    (g.deleteArc a).2.nodes.get? n = (g.nodes.get? n).map fun around =>
      ⟨if n = r.tail then removeFromBucket around.leaving r.head a else around.leaving,
        if n = r.head then removeFromBucket around.entering r.tail a else around.entering⟩ := by
  simp only [deleteArc, found, OrderedMap.get?_modify, Option.map_map, Function.comp_def,
    beq_iff_eq]
  refine congrArg (Option.map · _) (funext fun around => ?_)
  split_ifs <;> rfl

@[simp] theorem contains_nodes_deleteArc :
    (g.deleteArc a).2.nodes.contains n = g.nodes.contains n := by
  cases found : g.arcs.get? a with
  | none => rw [deleteArc_of_none found]
  | some r => simp [deleteArc, found]

/-- Deleting an arc leaves the records of all others. -/
theorem get?_arcs_deleteArc (b : Arc) :
    (g.deleteArc a).2.arcs.get? b = if a = b then none else g.arcs.get? b := by
  cases found : g.arcs.get? a with
  | none =>
      rw [deleteArc_of_none found]
      split
      · rwa [← ‹a = b›]
      · rfl
  | some r => simp [deleteArc, found, OrderedMap.get?_erase]

/-- A bucket that loses an arc where the record of the arc says so keeps to the records. -/
theorem bucket_shrunk {m : OrderedMap Node (List Arc)} {own : Prop} [Decidable own]
    {k k' : Node} {test : ArcRecord → Bool} (recorded : g.arcs.get? a = some r)
    (told : test r = true ↔ own ∧ k' = k) (kept : bucket m k = g.arcs.keysWhere test) :
    bucket (if own then removeFromBucket m k' a else m) k = (g.arcs.erase a).keysWhere test := by
  by_cases ends : own ∧ k' = k
  · rw [if_pos ends.1, bucket_removeFromBucket, if_pos ends.2, kept, OrderedMap.keysWhere_erase]
  · have fails : test r = false := Bool.eq_false_iff.mpr (ends ∘ told.mp)
    rw [OrderedMap.keysWhere_erase_of_fails recorded fails, ← kept]
    split
    · rename_i here
      rw [bucket_removeFromBucket, if_neg fun same => ends ⟨here, same⟩]
    · rfl

/-- Deleting an arc keeps a graph consistent. -/
theorem Consistent.deleteArc (consistent : g.Consistent) (a : Arc) :
    (g.deleteArc a).2.Consistent := by
  cases recorded : g.arcs.get? a with
  | none => rwa [deleteArc_of_none recorded]
  | some r =>
      have arcsEq : (g.deleteArc a).2.arcs = g.arcs.erase a := by
        simp [StoredGraph.deleteArc, recorded]
      have edgesEq : (g.deleteArc a).2.edges = g.edges.erase a := by
        simp [StoredGraph.deleteArc, recorded]
      have propertiesEq : (g.deleteArc a).2.properties = g.properties.setArc a none := by
        simp [StoredGraph.deleteArc, recorded]
      refine ⟨fun b q found => ?_, fun u around found v => ?_, fun v around found u => ?_,
        fun k around found => ?_, ?_, fun k has => ?_, fun b has => ?_, fun k has => ?_,
        fun b has => ?_, ?_⟩
      · rw [get?_arcs_deleteArc] at found
        split at found
        · cases found
        · simpa using consistent.ends b q found
      · rw [get?_nodes_deleteArc recorded] at found
        obtain ⟨before, foundBefore, rfl⟩ := Option.map_eq_some_iff.mp found
        rw [arcsEq]
        refine bucket_shrunk recorded ?_ (consistent.leaving u before foundBefore v)
        rw [ArcRecord.runs_iff, eq_comm]
      · rw [get?_nodes_deleteArc recorded] at found
        obtain ⟨before, foundBefore, rfl⟩ := Option.map_eq_some_iff.mp found
        rw [arcsEq]
        refine bucket_shrunk recorded ?_ (consistent.entering v before foundBefore u)
        rw [ArcRecord.runs_iff, and_comm, eq_comm]
      · rw [get?_nodes_deleteArc recorded] at found
        obtain ⟨before, foundBefore, rfl⟩ := Option.map_eq_some_iff.mp found
        obtain ⟨leaving, entering⟩ := consistent.noneEmpty k before foundBefore
        constructor
        · dsimp only
          split
          · exact leaving.removeFromBucket
          · exact leaving
        · dsimp only
          split
          · exact entering.removeFromBucket
          · exact entering
      · rw [arcsEq, edgesEq, OrderedMap.keys_erase, OrderedMap.keysWhere_erase, consistent.edges]
      · rw [propertiesEq, PropertyStore.nodes_setArc] at has
        simpa using consistent.nodeProperties k has
      · rw [propertiesEq, PropertyStore.setArc, OrderedMap.contains_erase,
          Bool.and_eq_true] at has
        rw [arcsEq, OrderedMap.contains_erase, Bool.and_eq_true]
        exact has.imp_right (consistent.arcProperties b)
      · exact consistent.nodeIds k (by simpa using has)
      · rw [arcsEq, OrderedMap.contains_erase, Bool.and_eq_true] at has
        exact consistent.arcIds b has.2
      · simpa [StoredGraph.deleteArc, recorded] using consistent.counters

section DeleteArcs

variable (as : List Arc)

/-- Deleting arcs one after the other keeps a graph consistent. -/
theorem Consistent.deleteArcs (consistent : g.Consistent) :
    (as.foldl (fun h a => (h.deleteArc a).2) g).Consistent := by
  induction as generalizing g with
  | nil => exact consistent
  | cons a as ih => exact ih (consistent.deleteArc a)

/-- Deleting arcs leaves the records of all others. -/
theorem get?_arcs_deleteArcs (b : Arc) :
    (as.foldl (fun h a => (h.deleteArc a).2) g).arcs.get? b =
      if b ∈ as then none else g.arcs.get? b := by
  induction as generalizing g with
  | nil => simp
  | cons a as ih =>
      rw [List.foldl_cons, ih, get?_arcs_deleteArc]
      by_cases same : a = b
      · simp [same]
      · simp [same, Ne.symm same]

end DeleteArcs

/-- A node without arcs can be erased. -/
theorem Consistent.eraseNode (consistent : g.Consistent)
    (bare : ∀ a r, g.arcs.get? a = some r → r.tail ≠ n ∧ r.head ≠ n) :
    { g with
      nodes := g.nodes.erase n
      properties := g.properties.setNode n none : StoredGraph }.Consistent where
  ends a r found := by
    obtain ⟨tail, head⟩ := consistent.ends a r found
    obtain ⟨notTail, notHead⟩ := bare a r found
    simp [OrderedMap.contains_erase, tail, head, notTail.symm, notHead.symm]
  leaving u around found := by
    rw [OrderedMap.get?_erase] at found
    split at found
    · cases found
    · exact consistent.leaving u around found
  entering v around found := by
    rw [OrderedMap.get?_erase] at found
    split at found
    · cases found
    · exact consistent.entering v around found
  noneEmpty k around found := by
    rw [OrderedMap.get?_erase] at found
    split at found
    · cases found
    · exact consistent.noneEmpty k around found
  edges := consistent.edges
  nodeProperties k has := by
    rw [PropertyStore.setNode, OrderedMap.contains_erase, Bool.and_eq_true] at has
    rw [OrderedMap.contains_erase, Bool.and_eq_true]
    exact has.imp_right (consistent.nodeProperties k)
  arcProperties := consistent.arcProperties
  nodeIds k has := by
    rw [OrderedMap.contains_erase, Bool.and_eq_true] at has
    exact consistent.nodeIds k has.2
  arcIds := consistent.arcIds
  counters := consistent.counters

/-- Deleting a node keeps a graph consistent. -/
theorem Consistent.deleteNode (consistent : g.Consistent) (n : Node) :
    (g.deleteNode n).2.Consistent := by
  unfold StoredGraph.deleteNode
  split
  · refine (consistent.deleteArcs _).eraseNode fun a r found => ?_
    rw [get?_arcs_deleteArcs] at found
    split at found
    · cases found
    · rename_i kept
      rw [consistent.mem_incidentArcs] at kept
      exact ⟨fun tail => kept ⟨r, found, .inl tail, rfl⟩,
        fun head => kept ⟨r, found, .inr head, rfl⟩⟩
  · exact consistent

/-- A cleared graph is consistent. -/
theorem Consistent.clear (consistent : g.Consistent) : g.clear.Consistent :=
  consistent_empty.withCounters consistent.counters

/-- Setting the properties of a node keeps a graph consistent. -/
theorem Consistent.setNodeProperties (consistent : g.Consistent)
    (present : g.nodes.contains n = true) (properties : Option Properties) :
    { g with properties := g.properties.setNode n properties : StoredGraph }.Consistent :=
  { consistent with
    nodeProperties := fun k has => by
      rcases PropertyStore.contains_setNode has with rfl | had
      · exact present
      · exact consistent.nodeProperties k had
    arcProperties := fun a has => consistent.arcProperties a (by simpa using has) }

/-- Setting the properties of an arc keeps a graph consistent. -/
theorem Consistent.setArcProperties (consistent : g.Consistent)
    (present : g.arcs.contains a = true) (properties : Option Properties) :
    { g with properties := g.properties.setArc a properties : StoredGraph }.Consistent :=
  { consistent with
    nodeProperties := fun n has => consistent.nodeProperties n (by simpa using has)
    arcProperties := fun b has => by
      rcases PropertyStore.contains_setArc has with rfl | had
      · exact present
      · exact consistent.arcProperties b had }

/-- Counting up finds the least number that is free, if one is near enough. -/
theorem leastFree_spec (taken : Nat → Bool) {fuel start : Nat}
    (near : ∃ i < fuel, taken (start + i) = false) :
    taken (leastFree taken fuel start) = false ∧ start ≤ leastFree taken fuel start ∧
      ∀ i, start ≤ i → i < leastFree taken fuel start → taken i = true := by
  induction fuel generalizing start with
  | zero =>
      obtain ⟨i, inRange, _⟩ := near
      cases inRange
  | succ fuel ih =>
      unfold leastFree
      split
      · rename_i here
        obtain ⟨i, inRange, free⟩ := near
        have notHere : i ≠ 0 := by
          rintro rfl
          rw [Nat.add_zero, here] at free
          cases free
        have nearer : ∃ i < fuel, taken (start + 1 + i) = false :=
          ⟨i - 1, by omega, by rwa [show start + 1 + (i - 1) = start + i by omega]⟩
        obtain ⟨freeThere, later, least⟩ := ih nearer
        refine ⟨freeThere, Nat.le_of_succ_le later, fun j from_start less => ?_⟩
        rcases Nat.eq_or_lt_of_le from_start with rfl | more
        · exact here
        · exact least j more less
      · rename_i free
        exact ⟨Bool.not_eq_true _ ▸ free, le_rfl, fun j from_start less => absurd less (by omega)⟩

/-- The node of an automatic allocation is new. -/
theorem freshNode_spec (g : StoredGraph) :
    g.nodes.contains ⟨g.freshNode⟩ = false ∧ g.nextNode ≤ g.freshNode ∧
      ∀ i : Nat, g.nextNode ≤ i → i < g.freshNode → g.nodes.contains ⟨i⟩ = true := by
  have distinct : Function.Injective fun i : Nat => (Node.mk (g.nextNode + i : Nat)) := by
    intro i j same
    simpa using same
  exact leastFree_spec (fun i => g.nodes.contains ⟨i⟩) (g.nodes.exists_absent distinct)

/-- The arc of an automatic allocation is new. -/
theorem freshArc_spec (g : StoredGraph) :
    g.arcs.contains ⟨g.freshArc⟩ = false ∧ g.nextArc ≤ g.freshArc ∧
      ∀ i : Nat, g.nextArc ≤ i → i < g.freshArc → g.arcs.contains ⟨i⟩ = true := by
  have distinct : Function.Injective fun i : Nat => (Arc.mk (g.nextArc + i : Nat)) := by
    intro i j same
    simpa using same
  exact leastFree_spec (fun i => g.arcs.contains ⟨i⟩) (g.arcs.exists_absent distinct)

/-- An id that is accepted is positive. -/
theorem pos_of_positiveId? {value : Value} {id : Int} (read : positiveId? value = some id) :
    0 < id := by
  cases value <;> simp only [positiveId?, reduceCtorEq] at read
  split at read
  · cases read
    assumption
  · cases read

variable {id : Option Value} {properties : Option Properties} {g' : StoredGraph}

/-- A node is added under an id that is free and positive. -/
theorem addNode_cases (added : g.addNode id properties = .ok (n, g')) :
    g.nodes.contains n = false ∧
      (id = none ∧ n = ⟨g.freshNode⟩ ∧
          g' = { g.putNode n properties with nextNode := g.freshNode + 1 } ∨
        0 < n.id ∧ g' = g.putNode n properties) := by
  cases id with
  | none =>
      cases added
      exact ⟨g.freshNode_spec.1, .inl ⟨rfl, rfl, rfl⟩⟩
  | some value =>
      simp only [addNode_eq] at added
      split at added
      · cases added
      · rename_i m read
        split at added
        · cases added
        · rename_i free
          cases added
          exact ⟨Bool.not_eq_true _ ▸ free, .inr ⟨pos_of_positiveId? read, rfl⟩⟩

/-- An arc is added between two nodes of the graph under an id that is free and positive. -/
theorem addArc_cases {u v : Node} {direction : Directedness}
    (added : g.addArc u v direction id properties = .ok (a, g')) :
    g.nodes.contains u = true ∧ g.nodes.contains v = true ∧ g.arcs.contains a = false ∧
      (id = none ∧ a = ⟨g.freshArc⟩ ∧
          g' = { g.putArc a ⟨u, v, direction == .undirected⟩ properties with
            nextArc := g.freshArc + 1 } ∨
        0 < a.id ∧ g' = g.putArc a ⟨u, v, direction == .undirected⟩ properties) := by
  rw [addArc_eq] at added
  split at added
  · cases added
  · rename_i tail
    split at added
    · cases added
    · rename_i head
      refine ⟨by simpa using tail, by simpa using head, ?_⟩
      cases id with
      | none =>
          cases added
          exact ⟨g.freshArc_spec.1, .inl ⟨rfl, rfl, rfl⟩⟩
      | some value =>
          dsimp only at added
          split at added
          · cases added
          · rename_i b read
            split at added
            · cases added
            · rename_i free
              cases added
              exact ⟨Bool.not_eq_true _ ▸ free, .inr ⟨pos_of_positiveId? read, rfl⟩⟩

/-- An added node keeps a graph consistent. -/
theorem Consistent.addNode (consistent : g.Consistent)
    (added : g.addNode id properties = .ok (n, g')) : g'.Consistent := by
  obtain ⟨absent, ⟨_, rfl, rfl⟩ | ⟨positive, rfl⟩⟩ := addNode_cases added
  · have positive : (0 : Int) < g.freshNode := by
      have := g.freshNode_spec.2.1
      have := consistent.counters.1
      omega
    exact (consistent.putNode absent positive properties).withCounters
      ⟨Nat.succ_pos _, consistent.counters.2⟩
  · exact consistent.putNode absent positive properties

/-- An added arc keeps a graph consistent. -/
theorem Consistent.addArc (consistent : g.Consistent) {u v : Node} {direction : Directedness}
    (added : g.addArc u v direction id properties = .ok (a, g')) : g'.Consistent := by
  obtain ⟨tail, head, absent, ⟨_, rfl, rfl⟩ | ⟨positive, rfl⟩⟩ := addArc_cases added
  · have positive : (0 : Int) < g.freshArc := by
      have := g.freshArc_spec.2.1
      have := consistent.counters.2
      omega
    exact (consistent.putArc absent positive tail head properties).withCounters
      ⟨consistent.counters.1, Nat.succ_pos _⟩
  · exact consistent.putArc absent positive tail head properties

end StoredGraph

end ArcSelection
