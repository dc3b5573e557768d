import ArcSelection.Proofs.Graph.Lawful

/-!
# What the parts of a stored graph have in common

The arc records are the authority. The arcs a node keeps by neighbour are those recorded
between the two, in the order of the records and in both directions of looking; the edges
are those recorded as edges; no neighbour is kept without arcs, and properties only for
what is present. Every change of a stored graph keeps this.
-/

namespace ArcSelection

/-- Whether the arc is recorded from one node to another. -/
def ArcRecord.runs (r : ArcRecord) (u v : Node) : Bool := r.tail == u && r.head == v

theorem ArcRecord.runs_iff {r : ArcRecord} {u v : Node} :
    r.runs u v = true ↔ r.tail = u ∧ r.head = v := by
  simp [runs]

section Buckets

variable {m : OrderedMap Node (List Arc)} {n k : Node} {a : Arc}

/-- An arc that is added to a bucket is last in it. -/
theorem bucket_addToBucket :
    bucket (addToBucket m n a) k = bucket m k ++ if n = k then [a] else [] := by
  by_cases same : n = k
  · subst same
    simp [bucket, addToBucket]
  · simp [bucket, addToBucket, OrderedMap.get?_insert_of_ne _ same, same]

/-- The last parallel arc takes its neighbour with it. -/
theorem removeFromBucket_cases :
    (bucket m n).filter (· != a) = [] ∧ removeFromBucket m n a = m.erase n ∨
      (bucket m n).filter (· != a) ≠ [] ∧
        removeFromBucket m n a = m.insert n ((bucket m n).filter (· != a)) := by
  unfold removeFromBucket
  cases (bucket m n).filter (· != a) with
  | nil => exact .inl ⟨rfl, rfl⟩
  | cons b bs => exact .inr ⟨List.cons_ne_nil b bs, rfl⟩

/-- An arc that is removed from a bucket is no longer in it, and the other buckets stay. -/
theorem bucket_removeFromBucket :
    bucket (removeFromBucket m n a) k =
      if n = k then (bucket m k).filter (· != a) else bucket m k := by
  by_cases same : n = k
  · subst same
    rcases removeFromBucket_cases (m := m) (n := n) (a := a) with ⟨none, eq⟩ | ⟨_, eq⟩
    · rw [eq, if_pos rfl, none, bucket, OrderedMap.get?_erase_self, Option.getD_none]
    · rw [eq, if_pos rfl, bucket, OrderedMap.get?_insert_self, Option.getD_some]
  · rcases removeFromBucket_cases (m := m) (n := n) (a := a) with ⟨_, eq⟩ | ⟨_, eq⟩
    · rw [eq, if_neg same, bucket, OrderedMap.get?_erase_of_ne _ same, bucket]
    · rw [eq, if_neg same, bucket, OrderedMap.get?_insert_of_ne _ same, bucket]

/-- No neighbour is kept without arcs. -/
def NoneEmpty (m : OrderedMap Node (List Arc)) : Prop := ∀ n, m.get? n ≠ some []

/-- Adding to a bucket leaves none empty. -/
theorem NoneEmpty.addToBucket (noneEmpty : NoneEmpty m) : NoneEmpty (addToBucket m n a) := by
  intro k
  rw [ArcSelection.addToBucket, OrderedMap.get?_insert]
  split
  · simp
  · exact noneEmpty k

/-- Removing from a bucket leaves none empty. -/
theorem NoneEmpty.removeFromBucket (noneEmpty : NoneEmpty m) :
    NoneEmpty (removeFromBucket m n a) := by
  intro k
  rcases removeFromBucket_cases (m := m) (n := n) (a := a) with ⟨_, eq⟩ | ⟨some, eq⟩
  · rw [eq, OrderedMap.get?_erase]
    split
    · exact nofun
    · exact noneEmpty k
  · rw [eq, OrderedMap.get?_insert]
    split
    · exact fun same => some (Option.some.inj same)
    · exact noneEmpty k

/-- An arc is in some bucket exactly if it is found under some node. -/
theorem mem_flatten_values : a ∈ m.values.flatten ↔ ∃ k, a ∈ bucket m k := by
  rw [List.mem_flatten]
  constructor
  · rintro ⟨as, listed, member⟩
    obtain ⟨⟨k, as⟩, entry, rfl⟩ := List.mem_map.mp listed
    have found := (OrderedMap.mem_entries_iff m k as).mp entry
    exact ⟨k, by rwa [bucket, found]⟩
  · rintro ⟨k, member⟩
    cases found : m.get? k with
    | none => simp [bucket, found] at member
    | some as =>
        refine ⟨as, ?_, by simpa [bucket, found] using member⟩
        exact List.mem_map.mpr ⟨(k, as), (OrderedMap.mem_entries_iff m k as).mpr found, rfl⟩

/-- Arcs that are kept for one neighbour only are listed once. -/
theorem nodup_flatten_values (each : ∀ k, (bucket m k).Nodup)
    (apart : ∀ k k' a, a ∈ bucket m k → a ∈ bucket m k' → k = k') : m.values.flatten.Nodup := by
  have bucketEq : ∀ e ∈ m.entries, bucket m e.1 = e.2 := by
    intro e member
    rw [bucket, (OrderedMap.mem_entries_iff m e.1 e.2).mp member, Option.getD_some]
  rw [List.nodup_flatten, OrderedMap.values, List.pairwise_map]
  refine ⟨fun as listed => ?_, m.distinct.imp_of_mem fun {e e'} member member' different => ?_⟩
  · obtain ⟨e, member, rfl⟩ := List.mem_map.mp listed
    exact bucketEq e member ▸ each e.1
  · intro a here there
    rw [← bucketEq e member] at here
    rw [← bucketEq e' member'] at there
    simp [apart e.1 e'.1 a here there] at different

/-- Filtering by the node keeps whole buckets. -/
theorem bucket_filter (keep : Node → Bool) :
    bucket (m.filter fun k _ => keep k) k = if keep k then bucket m k else [] := by
  rw [bucket, OrderedMap.get?_filter, bucket]
  cases m.get? k <;> by_cases kept : keep k <;> simp [Option.filter, kept]

end Buckets

namespace StoredGraph

/-- The parts of a stored graph agree with its arc records. -/
structure Consistent (g : StoredGraph) : Prop where
  /-- Both ends of a recorded arc are present. -/
  ends : ∀ a r, g.arcs.get? a = some r →
    g.nodes.contains r.tail = true ∧ g.nodes.contains r.head = true
  /-- A node keeps the arcs recorded from it to another, in the order of the records. -/
  leaving : ∀ u around, g.nodes.get? u = some around →
    ∀ v, bucket around.leaving v = g.arcs.keysWhere (·.runs u v)
  /-- The same arcs are kept, in the same order, by the node they are recorded to. -/
  entering : ∀ v around, g.nodes.get? v = some around →
    ∀ u, bucket around.entering u = g.arcs.keysWhere (·.runs u v)
  noneEmpty : ∀ n around, g.nodes.get? n = some around →
    NoneEmpty around.leaving ∧ NoneEmpty around.entering
  /-- The edges are the arcs recorded as such, in the order of the records. -/
  edges : g.edges.keys = g.arcs.keysWhere (·.isEdge)
  nodeProperties : ∀ n, g.properties.nodes.contains n = true → g.nodes.contains n = true
  arcProperties : ∀ a, g.properties.arcs.contains a = true → g.arcs.contains a = true
  nodeIds : ∀ n, g.nodes.contains n = true → 0 < n.id
  arcIds : ∀ a, g.arcs.contains a = true → 0 < a.id
  /-- The ids of automatic allocations are positive. -/
  counters : 0 < g.nextNode ∧ 0 < g.nextArc

theorem consistent_empty : empty.Consistent where
  ends := nofun
  leaving := nofun
  entering := nofun
  noneEmpty := nofun
  edges := rfl
  nodeProperties := nofun
  arcProperties := nofun
  nodeIds := nofun
  arcIds := nofun
  counters := ⟨Nat.one_pos, Nat.one_pos⟩

variable {g : StoredGraph} {n : Node} {a : Arc} {r : ArcRecord}

/-- No arc is recorded at a node that is absent. -/
theorem Consistent.keysWhere_runs_eq_nil (consistent : g.Consistent) {u v : Node}
    (absent : g.nodes.contains u = false ∨ g.nodes.contains v = false) :
    g.arcs.keysWhere (·.runs u v) = [] := by
  refine List.eq_nil_iff_forall_not_mem.mpr fun a listed => ?_
  obtain ⟨r, found, runs⟩ := OrderedMap.mem_keysWhere.mp listed
  obtain ⟨rfl, rfl⟩ := ArcRecord.runs_iff.mp runs
  obtain ⟨tail, head⟩ := consistent.ends a r found
  rcases absent with noTail | noHead
  · rw [tail] at noTail
    cases noTail
  · rw [head] at noHead
    cases noHead

/-- The ends of a recorded arc. -/
theorem ends_of_get? (found : g.arcs.get? a = some r) :
    g.ends.tail a = r.tail ∧ g.ends.head a = r.head := by
  simp [StoredGraph.ends, found]

/-- A recorded arc touches its tail and its head. -/
theorem touches_iff (found : g.arcs.get? a = some r) :
    g.ends.touches a n = true ↔ r.tail = n ∨ r.head = n := by
  obtain ⟨tail, head⟩ := ends_of_get? found
  simp [Ends.touches, tail, head]

/-- A recorded arc joins its ends in either direction. -/
theorem joins_iff (found : g.arcs.get? a = some r) {u v : Node} :
    g.ends.joins a u v = true ↔ r.runs u v = true ∨ r.runs v u = true := by
  obtain ⟨tail, head⟩ := ends_of_get? found
  simp [Ends.joins, ArcRecord.runs, tail, head]

/-- An arc is recorded between one pair of nodes only. -/
theorem ends_unique {u v u' v' : Node} (here : a ∈ g.arcs.keysWhere (·.runs u v))
    (there : a ∈ g.arcs.keysWhere (·.runs u' v')) : u = u' ∧ v = v' := by
  obtain ⟨r, recorded, runs⟩ := OrderedMap.mem_keysWhere.mp here
  obtain ⟨r', recorded', runs'⟩ := OrderedMap.mem_keysWhere.mp there
  cases recorded.symm.trans recorded'
  obtain ⟨rfl, rfl⟩ := ArcRecord.runs_iff.mp runs
  exact ArcRecord.runs_iff.mp runs'

namespace Consistent

variable (consistent : g.Consistent) {f : ArcFilter} {u v : Node}

include consistent

theorem isEdge_eq : g.ends.isEdge a = (g.arcs.get? a).any (·.isEdge) :=
  OrderedMap.contains_eq_any consistent.edges a

/-- The arcs from a node to another are found by their records. -/
theorem arcsFrom_eq : g.arcsFrom u v = g.arcs.keysWhere (·.runs u v) := by
  cases found : g.nodes.get? u with
  | none =>
      have absent := (OrderedMap.get?_eq_none_iff _ _).mp found
      rw [consistent.keysWhere_runs_eq_nil (.inl absent)]
      simp [arcsFrom, found]
  | some around => simpa [arcsFrom, found] using consistent.leaving u around found v

omit consistent in
/-- The arcs at a node are those that leave it and then those that only enter it. -/
theorem incidentArcs_eq {around : Neighbours} (found : g.nodes.get? n = some around) :
    g.incidentArcs n f = (around.leaving.values.flatten ++
      (around.entering.filter fun k _ => k != n).values.flatten).filter
        fun a => g.ends.passes a n f := by
  rw [incidentArcs, found]
  rfl

/-- The buckets of leaving arcs have the arcs with this tail. -/
theorem mem_leaving {around : Neighbours} (found : g.nodes.get? n = some around) :
    a ∈ around.leaving.values.flatten ↔ ∃ r, g.arcs.get? a = some r ∧ r.tail = n := by
  rw [mem_flatten_values]
  simp only [consistent.leaving n around found, OrderedMap.mem_keysWhere, ArcRecord.runs_iff]
  constructor
  · rintro ⟨_, r, recorded, tail, _⟩
    exact ⟨r, recorded, tail⟩
  · rintro ⟨r, recorded, tail⟩
    exact ⟨r.head, r, recorded, tail, rfl⟩

/-- The buckets of entering arcs have the other arcs with this head. -/
theorem mem_entering {around : Neighbours} (found : g.nodes.get? n = some around) :
    a ∈ (around.entering.filter fun k _ => k != n).values.flatten ↔
      ∃ r, g.arcs.get? a = some r ∧ r.head = n ∧ r.tail ≠ n := by
  rw [mem_flatten_values]
  simp only [bucket_filter fun k => k != n, consistent.entering n around found]
  constructor
  · rintro ⟨u, listed⟩
    split at listed
    · obtain ⟨r, recorded, runs⟩ := OrderedMap.mem_keysWhere.mp listed
      obtain ⟨rfl, head⟩ := ArcRecord.runs_iff.mp runs
      exact ⟨r, recorded, head, bne_iff_ne.mp ‹_›⟩
    · cases listed
  · rintro ⟨r, recorded, head, different⟩
    refine ⟨r.tail, ?_⟩
    rw [if_pos (bne_iff_ne.mpr different)]
    exact OrderedMap.mem_keysWhere.mpr ⟨r, recorded, ArcRecord.runs_iff.mpr ⟨rfl, head⟩⟩

/-- The arcs at a node are those recorded with the node as an end. -/
theorem mem_incidentArcs :
    a ∈ g.incidentArcs n f ↔
      ∃ r, g.arcs.get? a = some r ∧ (r.tail = n ∨ r.head = n) ∧ g.ends.passes a n f = true := by
  cases found : g.nodes.get? n with
  | none =>
      have absent := (OrderedMap.get?_eq_none_iff _ _).mp found
      refine iff_of_false (by simp [incidentArcs, found]) ?_
      rintro ⟨r, recorded, touched, _⟩
      obtain ⟨tail, head⟩ := consistent.ends a r recorded
      rcases touched with rfl | rfl <;> simp_all
  | some around =>
      rw [incidentArcs_eq found, List.mem_filter, List.mem_append, consistent.mem_leaving found,
        consistent.mem_entering found]
      constructor
      · rintro ⟨⟨r, recorded, tail⟩ | ⟨r, recorded, head, _⟩, passes⟩
        · exact ⟨r, recorded, .inl tail, passes⟩
        · exact ⟨r, recorded, .inr head, passes⟩
      · rintro ⟨r, recorded, touched, passes⟩
        by_cases tail : r.tail = n
        · exact ⟨.inl ⟨r, recorded, tail⟩, passes⟩
        · exact ⟨.inr ⟨r, recorded, touched.resolve_left tail, tail⟩, passes⟩

/-- Every arc at a node is listed once. -/
theorem nodup_incidentArcs : (g.incidentArcs n f).Nodup := by
  cases found : g.nodes.get? n with
  | none => simp [incidentArcs, found]
  | some around =>
      rw [incidentArcs_eq found]
      refine (List.nodup_append.mpr ⟨?_, ?_, fun a leaves b enters same => ?_⟩).filter _
      · refine nodup_flatten_values (fun v => ?_) fun v v' a here there => ?_
        · exact consistent.leaving n around found v ▸ OrderedMap.nodup_keysWhere _ _
        · rw [consistent.leaving n around found] at here there
          exact (ends_unique here there).2
      · refine nodup_flatten_values (fun u => ?_) fun u u' a here there => ?_
        · rw [bucket_filter fun k => k != n, consistent.entering n around found]
          split
          · exact OrderedMap.nodup_keysWhere _ _
          · exact List.nodup_nil
        · rw [bucket_filter fun k => k != n, consistent.entering n around found,
            List.mem_ite_nil_right] at here there
          exact (ends_unique here.2 there.2).1
      · subst same
        obtain ⟨r, recorded, tail⟩ := (consistent.mem_leaving found).mp leaves
        obtain ⟨r', recorded', _, notTail⟩ := (consistent.mem_entering found).mp enters
        cases recorded.symm.trans recorded'
        exact notTail tail

/-- The arcs between two nodes are those recorded from one to the other. -/
theorem mem_arcsBetween :
    a ∈ g.arcsBetween u v f ↔
      ∃ r, g.arcs.get? a = some r ∧ (r.runs u v = true ∨ r.runs v u = true) ∧
        g.ends.passes a u f = true := by
  have joined : a ∈ g.arcsBetween u v f ↔ (a ∈ g.arcs.keysWhere (·.runs u v) ∨
      a ∈ g.arcs.keysWhere (·.runs v u)) ∧ g.ends.passes a u f = true := by
    unfold arcsBetween
    split
    · by_cases same : u = v
      · simp [same, consistent.arcsFrom_eq]
      · simp [same, consistent.arcsFrom_eq, or_and_right]
    · rename_i absent
      have absent : g.nodes.contains u = false ∨ g.nodes.contains v = false := by
        simpa [Decidable.or_iff_not_imp_left] using absent
      simp [consistent.keysWhere_runs_eq_nil absent, consistent.keysWhere_runs_eq_nil absent.symm]
  rw [joined]
  simp only [OrderedMap.mem_keysWhere]
  constructor
  · rintro ⟨⟨r, recorded, runs⟩ | ⟨r, recorded, runs⟩, passes⟩
    · exact ⟨r, recorded, .inl runs, passes⟩
    · exact ⟨r, recorded, .inr runs, passes⟩
  · rintro ⟨r, recorded, runs | runs, passes⟩
    · exact ⟨.inl ⟨r, recorded, runs⟩, passes⟩
    · exact ⟨.inr ⟨r, recorded, runs⟩, passes⟩

/-- Every arc between nodes is listed once. -/
theorem nodup_arcsBetween : (g.arcsBetween u v f).Nodup := by
  unfold arcsBetween
  split
  · refine List.Nodup.filter _ ?_
    rw [consistent.arcsFrom_eq, consistent.arcsFrom_eq]
    by_cases same : u = v
    · simpa [same] using OrderedMap.nodup_keysWhere _ _
    · rw [if_neg same]
      refine List.nodup_append.mpr ⟨OrderedMap.nodup_keysWhere _ _,
        OrderedMap.nodup_keysWhere _ _, fun a forth b back equal => ?_⟩
      exact same (ends_unique forth (equal ▸ back)).1
  · exact List.nodup_nil

/-- The queries of a stored graph agree with each other. -/
theorem lawful : g.graph.Lawful where
  nodup := OrderedMap.nodup_keys _
  tail_mem a listed := by
    obtain ⟨r, recorded⟩ := (OrderedMap.mem_keys_iff_get? _ _).mp listed
    change g.ends.tail a ∈ g.nodes.keys
    rw [(ends_of_get? recorded).1, OrderedMap.mem_keys_iff]
    exact (consistent.ends a r recorded).1
  head_mem a listed := by
    obtain ⟨r, recorded⟩ := (OrderedMap.mem_keys_iff_get? _ _).mp listed
    change g.ends.head a ∈ g.nodes.keys
    rw [(ends_of_get? recorded).2, OrderedMap.mem_keys_iff]
    exact (consistent.ends a r recorded).2
  nodes_nodup := OrderedMap.nodup_keys _
  mem_nodes := OrderedMap.mem_keys_iff _
  mem_arcs := OrderedMap.mem_keys_iff _
  arcs_edge := by
    change g.edges.keys = g.arcs.keys.filter g.ends.isEdge
    rw [consistent.edges, OrderedMap.keysWhere_eq_filter]
    exact List.filter_congr fun a _ => consistent.isEdge_eq.symm
  arcs_forward := rfl
  arcs_backward := rfl
  incidentArcs_nodup _ _ := consistent.nodup_incidentArcs
  mem_incidentArcs n f a := by
    change a ∈ g.incidentArcs n f ↔
      a ∈ g.arcs.keys ∧ g.ends.touches a n = true ∧ g.ends.passes a n f = true
    rw [consistent.mem_incidentArcs, OrderedMap.mem_keys_iff_get?]
    constructor
    · rintro ⟨r, recorded, touched, passes⟩
      exact ⟨⟨r, recorded⟩, (touches_iff recorded).mpr touched, passes⟩
    · rintro ⟨⟨r, recorded⟩, touched, passes⟩
      exact ⟨r, recorded, (touches_iff recorded).mp touched, passes⟩
  arcsBetween_nodup _ _ _ := consistent.nodup_arcsBetween
  mem_arcsBetween u v f a := by
    change a ∈ g.arcsBetween u v f ↔
      a ∈ g.arcs.keys ∧ g.ends.joins a u v = true ∧ g.ends.passes a u f = true
    rw [consistent.mem_arcsBetween, OrderedMap.mem_keys_iff_get?]
    constructor
    · rintro ⟨r, recorded, runs, passes⟩
      exact ⟨⟨r, recorded⟩, (joins_iff recorded).mpr runs, passes⟩
    · rintro ⟨⟨r, recorded⟩, joined, passes⟩
      exact ⟨r, recorded, (joins_iff recorded).mp joined, passes⟩

end Consistent

end StoredGraph

end ArcSelection
