import ArcSelection.Proofs.Graph.OverlayChange

/-!
# Deleting a node of a stored graph

A node is deleted arc by arc, and every arc changes the tables of both its ends. What comes
out can be said at once: `StoredGraph.without` drops the node, the arcs at it and their
property maps, and filters every table that is kept. It forgets whatever was done at the
node, so it can be taken before or after an arc at the node is added or deleted; both the
closed form of the deletion and its undoing of additions follow from that.
-/

namespace ArcSelection

/-- The call is to add an arc with the node as an end. -/
def Change.AddsArcAt (n : Node) : Change → Prop
  | .addArc u v _ _ _ => u = n ∨ v = n
  | _ => False

/-- The queries of one graph are those of another without a node, the arcs at it, and the
property maps of both; the order of what is left is the same. -/
structure Graph.LosesNode (g next : Graph) (n : Node) : Prop where
  nodes : next.nodes = g.nodes.filter (· != n)
  hasNode : ∀ m, next.hasNode m = (m != n && g.hasNode m)
  arcs : ∀ f, next.arcs f = (g.arcs f).filter fun a => !g.touches a n
  hasArc : ∀ a, next.hasArc a = (g.hasArc a && !g.touches a n)
  ends : ∀ a, g.touches a n = false →
    next.tail a = g.tail a ∧ next.head a = g.head a ∧ next.isEdge a = g.isEdge a
  incidentArcs : ∀ m f, next.incidentArcs m f =
    if m = n then [] else (g.incidentArcs m f).filter fun a => !g.touches a n
  arcsBetween : ∀ u v f, next.arcsBetween u v f =
    if u = n ∨ v = n then [] else g.arcsBetween u v f
  nodeProperties : ∀ m, next.nodeProperties m = if m = n then none else g.nodeProperties m
  arcProperties : ∀ a, next.arcProperties a = if g.touches a n then none else g.arcProperties a

/-- Whether an arc stays when a node goes: it is not recorded at the node. -/
def stays (arcs : OrderedMap Arc ArcRecord) (n : Node) (a : Arc) : Bool :=
  !(arcs.get? a).any (·.touches n)

/-- The entries of the arcs that stay when a node goes. -/
def staying {ν : Type} (arcs : OrderedMap Arc ArcRecord) (n : Node) (m : OrderedMap Arc ν) :
    OrderedMap Arc ν :=
  m.filter fun a _ => stays arcs n a

section Staying

variable {ν : Type} {arcs : OrderedMap Arc ArcRecord} {m : OrderedMap Arc ν} {n : Node} {a b : Arc}
  {r : ArcRecord}

/-- A recorded arc stays exactly if it does not touch the node. -/
theorem stays_of_get? (found : arcs.get? a = some r) : stays arcs n a = !r.touches n := by
  rw [stays, found, Option.any_some]

theorem stays_of_none (absent : arcs.get? a = none) : stays arcs n a = true := by
  rw [stays, absent, Option.any_none, Bool.not_false]

/-- An arc at the node that is deleted goes either way. -/
theorem staying_erase (found : arcs.get? a = some r) (touched : r.touches n = true) :
    staying (arcs.erase a) n (m.erase a) = staying arcs n m := by
  rw [staying, staying, OrderedMap.erase, OrderedMap.filter_filter]
  refine OrderedMap.filter_congr fun e _ => ?_
  by_cases same : e.1 = a
  · rw [same, stays_of_get? found, touched]
    simp
  · simp [stays, same, OrderedMap.get?_erase_of_ne _ (Ne.symm same)]

/-- An arc that is recorded at the node goes as an arc does that is erased. -/
theorem staying_insert_record (touched : r.touches n = true) :
    staying (arcs.insert a r) n m = staying arcs n (m.erase a) := by
  rw [staying, staying, OrderedMap.erase, OrderedMap.filter_filter]
  refine OrderedMap.filter_congr fun e _ => ?_
  by_cases same : e.1 = a
  · simp [same, stays_of_get? (OrderedMap.get?_insert_self _ _ _), touched]
  · simp [stays, same, OrderedMap.get?_insert_of_ne _ (Ne.symm same)]

/-- A new arc at the node goes with it. -/
theorem staying_insert (absent : m.contains a = false) (touched : r.touches n = true) (v : ν) :
    staying (arcs.insert a r) n (m.insert a v) = staying arcs n m := by
  rw [staying_insert_record touched, OrderedMap.erase_insert_self,
    OrderedMap.erase_eq_self absent]

/-- Nothing goes where no arc is recorded at the node. -/
theorem staying_eq_self (bare : ∀ a r, arcs.get? a = some r → r.touches n = false) :
    staying arcs n m = m := by
  refine OrderedMap.filter_eq_self fun e _ => ?_
  cases found : arcs.get? e.1 with
  | none => exact stays_of_none found
  | some r => rw [stays_of_get? found, bare e.1 r found, Bool.not_false]

/-- A new arc at the node goes with it, also from the edges. -/
theorem staying_edges {edges : OrderedSet Arc} (absent : edges.contains a = false)
    (touched : r.touches n = true) :
    staying (arcs.insert a r) n (if r.isEdge then edges.insert a () else edges) =
      staying arcs n edges := by
  split
  · exact staying_insert absent touched ()
  · rw [staying_insert_record touched, OrderedMap.erase_eq_self absent]

/-- The map of an arc at the node goes with it, and one that was there under its id. -/
theorem staying_attachArc (p : PropertyStore) (touched : r.touches n = true)
    (properties : Option Properties) :
    staying (arcs.insert a r) n (p.attachArc a properties).arcs =
      staying arcs n (p.arcs.erase a) := by
  rw [staying_insert_record touched]
  cases properties with
  | none => rfl
  | some map => exact congrArg (staying arcs n) (OrderedMap.erase_insert_self map)

/-- The arcs that stay keep what they have. -/
theorem get?_staying : (staying arcs n m).get? a = if stays arcs n a then m.get? a else none := by
  rw [staying, OrderedMap.get?_filter]
  cases m.get? a <;> cases stays arcs n a <;> rfl

theorem contains_staying :
    (staying arcs n m).contains a = (m.contains a && stays arcs n a) := by
  rw [OrderedMap.contains_eq_isSome, get?_staying, OrderedMap.contains_eq_isSome]
  cases stays arcs n a <;> simp

/-- The arcs that stay keep their order. -/
theorem keys_staying : (staying arcs n m).keys = m.keys.filter (stays arcs n) := by
  simp only [staying, OrderedMap.keys, OrderedMap.filter, List.filter_map, Function.comp_def]

end Staying

section Deletions

variable {n : Node} {as : List Arc} {arcs arcs' : OrderedMap Arc ArcRecord}

/-- What forgets the deletion of an arc at the node forgets a run of such deletions. -/
theorem foldl_forgets {σ ρ : Type} {delete : σ → Arc → σ} {records : σ → OrderedMap Arc ArcRecord}
    (view : σ → ρ)
    (drops : ∀ s a b, (records (delete s a)).get? b = if a = b then none else (records s).get? b)
    (forgets : ∀ s a, (∀ r, (records s).get? a = some r → r.touches n = true) →
      view (delete s a) = view s)
    {s : σ} (touched : ∀ a ∈ as, ∀ r, (records s).get? a = some r → r.touches n = true) :
    view (as.foldl delete s) = view s := by
  induction as generalizing s with
  | nil => rfl
  | cons a as ih =>
      rw [List.foldl_cons, ih, forgets s a (touched a List.mem_cons_self)]
      intro b later r recorded
      rw [drops] at recorded
      split at recorded
      · cases recorded
      · exact touched b (List.mem_cons_of_mem a later) r recorded

variable (listed : ∀ a, a ∈ as ↔ ∃ r, arcs.get? a = some r ∧ r.touches n = true)

include listed

/-- An arc that is listed at a node touches it. -/
theorem touches_of_listed : ∀ a ∈ as, ∀ r, arcs.get? a = some r → r.touches n = true := by
  intro a member r recorded
  obtain ⟨r', recorded', touched⟩ := (listed a).mp member
  cases recorded.symm.trans recorded'
  exact touched

/-- Where all arcs at the node are deleted, none is left. -/
theorem bare_of_listed (left : ∀ a, arcs'.get? a = if a ∈ as then none else arcs.get? a) :
    ∀ a r, arcs'.get? a = some r → r.touches n = false := by
  intro a r recorded
  rw [left] at recorded
  split at recorded
  · cases recorded
  · rename_i notListed
    refine Bool.eq_false_of_not_eq_true fun touched => notListed ?_
    exact (listed a).mpr ⟨r, recorded, touched⟩

end Deletions

/-- It makes no difference to the other nodes' maps whether one is attached. -/
theorem PropertyStore.erase_attachNode (p : PropertyStore) (n : Node)
    (properties : Option Properties) :
    (p.attachNode n properties).nodes.erase n = p.nodes.erase n := by
  cases properties with
  | none => rfl
  | some map => exact OrderedMap.erase_insert_self map

section Buckets

variable {m : OrderedMap Node (List Arc)} {n : Node} {a : Arc}

/-- A neighbour is kept with its arcs only. -/
theorem NoneEmpty.contains_eq_false (noneEmpty : NoneEmpty m) (none : bucket m n = []) :
    m.contains n = false := by
  rw [← OrderedMap.get?_eq_none_iff]
  cases found : m.get? n with
  | none => rfl
  | some as =>
      rw [bucket, found, Option.getD_some] at none
      exact absurd (none ▸ found) (noneEmpty n)

/-- What is added to a bucket is erased with it. -/
theorem erase_addToBucket : (addToBucket m n a).erase n = m.erase n :=
  OrderedMap.erase_insert_self _

/-- What is removed from a bucket need not be erased. -/
theorem erase_removeFromBucket : (removeFromBucket m n a).erase n = m.erase n := by
  rcases removeFromBucket_cases (m := m) (n := n) (a := a) with ⟨_, eq⟩ | ⟨_, eq⟩
  · rw [eq]
    exact OrderedMap.erase_eq_self (by simp [OrderedMap.contains_erase])
  · rw [eq]
    exact OrderedMap.erase_insert_self _

/-- Whole neighbours are dropped if each arc goes with its neighbour. -/
theorem flatten_values_erase {test : Arc → Bool}
    (agree : ∀ k, ∀ a ∈ bucket m k, test a = (k != n)) :
    (m.erase n).values.flatten = m.values.flatten.filter test := by
  have each : ∀ e ∈ m.entries, ∀ a ∈ e.2, test a = (e.1 != n) := by
    intro e member a listed
    refine agree e.1 a ?_
    rwa [bucket, (OrderedMap.mem_entries_iff m e.1 e.2).mp member]
  simp only [OrderedMap.erase, OrderedMap.filter, OrderedMap.values]
  generalize m.entries = entries at each
  induction entries with
  | nil => rfl
  | cons e rest ih =>
      obtain ⟨here, later⟩ := List.forall_mem_cons.mp each
      rw [List.map_cons, List.flatten_cons, List.filter_append, ← ih later, List.filter_cons]
      by_cases goes : e.1 = n
      · have none : e.2.filter test = [] :=
          List.filter_eq_nil_iff.mpr fun a listed => by simp [here a listed, goes]
        simp [goes, none]
      · have all : e.2.filter test = e.2 :=
          List.filter_eq_self.mpr fun a listed => by simp [here a listed, goes]
        simp [goes, all]

end Buckets

/-- What a node keeps when another node goes. -/
def Neighbours.without (around : Neighbours) (n : Node) : Neighbours :=
  ⟨around.leaving.erase n, around.entering.erase n⟩

namespace StoredGraph

/-- The graph without a node, the arcs at it, and their properties. -/
def without (g : StoredGraph) (n : Node) : StoredGraph where
  nodes := (g.nodes.erase n).mapValues fun _ around => around.without n
  arcs := staying g.arcs n g.arcs
  edges := staying g.arcs n g.edges
  properties := ⟨g.properties.nodes.erase n, staying g.arcs n g.properties.arcs⟩
  nextNode := g.nextNode
  nextArc := g.nextArc

variable {g : StoredGraph} {n : Node} {a : Arc} {r : ArcRecord}

/-- A change at the node itself, or of what the others keep of it, is forgotten. -/
private theorem without_modify {nodes : OrderedMap Node Neighbours} {k : Node}
    {change : Neighbours → Neighbours}
    (forgotten : k = n ∨ ∀ around, (change around).without n = around.without n) :
    ((nodes.modify k change).erase n).mapValues (fun _ around => around.without n) =
      (nodes.erase n).mapValues fun _ around => around.without n := by
  rcases forgotten with rfl | unseen
  · rw [OrderedMap.erase_modify_self]
  · rw [OrderedMap.mapValues_erase fun around => Neighbours.without around n,
      OrderedMap.mapValues_modify _ unseen, OrderedMap.mapValues_erase]

/-- It makes no difference whether an arc at the node is deleted before. -/
theorem without_deleteArc (g : StoredGraph) (a : Arc)
    (touched : ∀ r, g.arcs.get? a = some r → r.touches n = true) :
    (g.deleteArc a).2.without n = g.without n := by
  cases recorded : g.arcs.get? a with
  | none => rw [deleteArc_of_none recorded]
  | some r =>
      have touched := touched r recorded
      have ends := ArcRecord.touches_iff.mp touched
      simp only [deleteArc, recorded, without, PropertyStore.setArc,
        staying_erase recorded touched]
      rw [without_modify, without_modify]
      · refine ends.imp_right ?_
        rintro rfl around
        rw [Neighbours.without, erase_removeFromBucket]
        rfl
      · refine ends.symm.imp_right ?_
        rintro rfl around
        rw [Neighbours.without, erase_removeFromBucket]
        rfl

section Consistent

variable (consistent : g.Consistent)

include consistent

/-- It makes no difference whether an arc at the node is added before. -/
theorem Consistent.without_putArc (absent : g.arcs.contains a = false)
    (touched : r.touches n = true) (properties : Option Properties) :
    (g.putArc a r properties).without n = g.without n := by
  have ends := ArcRecord.touches_iff.mp touched
  have notEdge : g.edges.contains a = false := by
    rw [OrderedMap.contains_eq_any consistent.edges, (OrderedMap.get?_eq_none_iff _ _).mpr absent,
      Option.any_none]
  have noMap : g.properties.arcs.contains a = false := by
    by_contra has
    rw [consistent.arcProperties a (by simpa using has)] at absent
    cases absent
  simp only [StoredGraph.putArc, without, staying_insert absent touched,
    staying_edges notEdge touched, staying_attachArc _ touched, OrderedMap.erase_eq_self noMap,
    PropertyStore.nodes_attachArc]
  rw [without_modify, without_modify]
  · refine ends.imp_right ?_
    rintro rfl around
    rw [Neighbours.without, erase_addToBucket]
    rfl
  · refine ends.symm.imp_right ?_
    rintro rfl around
    rw [Neighbours.without, erase_addToBucket]
    rfl

/-- A node without arcs is all that goes. -/
theorem Consistent.without_of_bare
    (bare : ∀ a r, g.arcs.get? a = some r → r.touches n = false) :
    g.without n =
      { g with
        nodes := g.nodes.erase n
        properties := g.properties.setNode n none } := by
  have none : ∀ u v, u = n ∨ v = n → g.arcs.keysWhere (·.runs u v) = [] := by
    intro u v atNode
    refine List.eq_nil_iff_forall_not_mem.mpr fun a listed => ?_
    obtain ⟨r, recorded, runs⟩ := OrderedMap.mem_keysWhere.mp listed
    obtain ⟨rfl, rfl⟩ := ArcRecord.runs_iff.mp runs
    have touched := ArcRecord.touches_iff.mpr atNode
    rw [bare a r recorded] at touched
    cases touched
  have kept : ∀ e ∈ (g.nodes.erase n).entries, e.2.without n = e.2 := by
    intro e member
    have found := (OrderedMap.mem_entries_iff _ _ _).mp (List.mem_filter.mp member).1
    obtain ⟨leaving, entering⟩ := consistent.noneEmpty e.1 e.2 found
    have noHead := (consistent.leaving e.1 e.2 found n).trans (none _ _ (.inr rfl))
    have noTail := (consistent.entering e.1 e.2 found n).trans (none _ _ (.inl rfl))
    rw [Neighbours.without, OrderedMap.erase_eq_self (leaving.contains_eq_false noHead),
      OrderedMap.erase_eq_self (entering.contains_eq_false noTail)]
  rw [without, OrderedMap.mapValues_eq_self kept]
  simp only [staying_eq_self bare, PropertyStore.setNode]

/-- Deleting a node of the graph, arc by arc, removes what is at it and nothing else. -/
theorem Consistent.deleteNode_eq (present : g.nodes.contains n = true) :
    g.deleteNode n = (true, g.without n) := by
  have listed : ∀ a, a ∈ g.incidentArcs n .all ↔
      ∃ r, g.arcs.get? a = some r ∧ r.touches n = true := by
    intro a
    simp only [consistent.mem_incidentArcs, ArcRecord.touches_iff, Ends.passes, and_true]
  have bare := bare_of_listed listed (get?_arcs_deleteArcs (g.incidentArcs n .all))
  have forgets : ((g.incidentArcs n .all).foldl (fun h a => (h.deleteArc a).2) g).without n =
      g.without n :=
    foldl_forgets (StoredGraph.without · n) (fun _ _ => get?_arcs_deleteArc) without_deleteArc
      (touches_of_listed listed)
  rw [StoredGraph.deleteNode, if_pos present]
  exact congrArg (Prod.mk true)
    (((consistent.deleteArcs _).without_of_bare bare).symm.trans forgets)

/-- Nothing goes with a node that is not there. -/
theorem Consistent.without_of_absent (absent : g.nodes.contains n = false) : g.without n = g := by
  have bare : ∀ a r, g.arcs.get? a = some r → r.touches n = false := by
    intro a r recorded
    obtain ⟨tail, head⟩ := consistent.ends a r recorded
    by_contra touched
    rcases ArcRecord.touches_iff.mp (by simpa using touched) with rfl | rfl
    · rw [tail] at absent
      cases absent
    · rw [head] at absent
      cases absent
  have noMap : g.properties.nodes.contains n = false := by
    by_contra has
    rw [consistent.nodeProperties n (by simpa using has)] at absent
    cases absent
  rw [consistent.without_of_bare bare, PropertyStore.setNode, OrderedMap.erase_eq_self absent,
    OrderedMap.erase_eq_self noMap]

end Consistent

/-- It makes no difference whether the node is added before. -/
theorem without_putNode (g : StoredGraph) (n : Node) (properties : Option Properties) :
    (g.putNode n properties).without n = g.without n := by
  simp only [without, putNode, OrderedMap.erase_insert_self, PropertyStore.erase_attachNode,
    PropertyStore.arcs_attachNode]

section Queries

variable (consistent : g.Consistent) (present : g.nodes.contains n = true)

include consistent present in
/-- The arcs that stay are those that do not touch the node. -/
theorem Consistent.stays_eq (a : Arc) : stays g.arcs n a = !g.ends.touches a n := by
  cases recorded : g.arcs.get? a with
  | some r =>
      obtain ⟨tail, head⟩ := ends_of_get? recorded
      rw [stays_of_get? recorded, Ends.touches, tail, head, ArcRecord.touches]
  | none =>
      -- The absent node stands for both ends, and is not the one that goes.
      have positive := consistent.nodeIds n present
      have different : Node.absent ≠ n := by
        rintro rfl
        exact absurd positive (by decide)
      simp [stays_of_none recorded, Ends.touches, StoredGraph.ends, recorded, different]

/-- An arc that stays keeps its ends and its kind. -/
theorem ends_without (kept : stays g.arcs n a = true) :
    (g.without n).ends.tail a = g.ends.tail a ∧ (g.without n).ends.head a = g.ends.head a ∧
      (g.without n).ends.isEdge a = g.ends.isEdge a := by
  simp [StoredGraph.ends, without, get?_staying, contains_staying, kept]

/-- An arc that stays passes the same filters. -/
theorem passes_without (kept : stays g.arcs n a = true) (m : Node) (f : ArcFilter) :
    (g.without n).ends.passes a m f = g.ends.passes a m f := by
  obtain ⟨tail, head, isEdge⟩ := ends_without kept
  cases f <;> simp only [Ends.passes, tail, head, isEdge]

/-- The buckets of other nodes lose the node. -/
theorem get?_nodes_without {m : Node} (other : m ≠ n) :
    (g.without n).nodes.get? m = (g.nodes.get? m).map fun around => around.without n := by
  rw [without, OrderedMap.get?_mapValues fun around => Neighbours.without around n,
    OrderedMap.get?_erase_of_ne _ other.symm]

include consistent in
/-- The arcs at another node keep their order. -/
theorem Consistent.incidentArcs_without {m : Node} (other : m ≠ n) (f : ArcFilter) :
    (g.without n).incidentArcs m f = (g.incidentArcs m f).filter (stays g.arcs n) := by
  cases found : g.nodes.get? m with
  | none => simp [StoredGraph.incidentArcs, get?_nodes_without other, found]
  | some around =>
      have leaving : ∀ k, ∀ a ∈ bucket around.leaving k, stays g.arcs n a = (k != n) := by
        intro k a listed
        rw [consistent.leaving m around found] at listed
        obtain ⟨r, recorded, runs⟩ := OrderedMap.mem_keysWhere.mp listed
        obtain ⟨rfl, rfl⟩ := ArcRecord.runs_iff.mp runs
        simp [stays_of_get? recorded, ArcRecord.touches, other, bne]
      have entering : ∀ k, ∀ a ∈ bucket (around.entering.filter fun k _ => k != m) k,
          stays g.arcs n a = (k != n) := by
        intro k a listed
        rw [bucket_filter fun k => k != m, consistent.entering m around found,
          List.mem_ite_nil_right] at listed
        obtain ⟨r, recorded, runs⟩ := OrderedMap.mem_keysWhere.mp listed.2
        obtain ⟨rfl, rfl⟩ := ArcRecord.runs_iff.mp runs
        simp [stays_of_get? recorded, ArcRecord.touches, other, bne]
      have found' : (g.without n).nodes.get? m = some (around.without n) := by
        rw [get?_nodes_without other, found, Option.map_some]
      have swap : (around.entering.erase n).filter (fun k _ => k != m) =
          (around.entering.filter fun k _ => k != m).erase n := by
        rw [OrderedMap.erase, OrderedMap.erase, OrderedMap.filter_filter,
          OrderedMap.filter_filter]
        exact OrderedMap.filter_congr fun _ _ => Bool.and_comm _ _
      rw [Consistent.incidentArcs_eq found, Consistent.incidentArcs_eq found', Neighbours.without,
        swap, flatten_values_erase leaving, flatten_values_erase entering, ← List.filter_append,
        List.filter_filter, List.filter_filter]
      refine List.filter_congr fun a _ => ?_
      cases kept : stays g.arcs n a with
      | false => rw [Bool.and_false, Bool.false_and]
      | true => rw [passes_without kept, Bool.and_comm]

include consistent in
/-- What joins two other nodes is left alone. -/
theorem Consistent.arcsBetween_without {u v : Node} (otherTail : u ≠ n) (otherHead : v ≠ n)
    (f : ArcFilter) : (g.without n).arcsBetween u v f = g.arcsBetween u v f := by
  have contains : ∀ {m}, m ≠ n → (g.without n).nodes.contains m = g.nodes.contains m := by
    intro m other
    rw [OrderedMap.contains_eq_isSome, get?_nodes_without other, Option.isSome_map,
      OrderedMap.contains_eq_isSome]
  have arcsFrom : ∀ {u v}, u ≠ n → v ≠ n → (g.without n).arcsFrom u v = g.arcsFrom u v := by
    intro u v otherTail otherHead
    rw [StoredGraph.arcsFrom, get?_nodes_without otherTail, StoredGraph.arcsFrom]
    cases g.nodes.get? u with
    | none => rfl
    | some around =>
        simp only [Option.map_some, Neighbours.without, bucket,
          OrderedMap.get?_erase_of_ne _ otherHead.symm]
  have kept : ∀ {u v}, u ≠ n → v ≠ n → ∀ a ∈ g.arcsFrom u v, stays g.arcs n a = true := by
    intro u v otherTail otherHead a listed
    rw [consistent.arcsFrom_eq] at listed
    obtain ⟨r, recorded, runs⟩ := OrderedMap.mem_keysWhere.mp listed
    obtain ⟨rfl, rfl⟩ := ArcRecord.runs_iff.mp runs
    simp [stays_of_get? recorded, ArcRecord.touches, otherTail, otherHead]
  rw [StoredGraph.arcsBetween, StoredGraph.arcsBetween, contains otherTail, contains otherHead,
    arcsFrom otherTail otherHead, arcsFrom otherHead otherTail]
  refine if_congr Iff.rfl (List.filter_congr fun a listed => passes_without ?_ u f) rfl
  rcases List.mem_append.mp listed with forth | back
  · exact kept otherTail otherHead a forth
  · rw [List.mem_ite_nil_left] at back
    exact kept otherHead otherTail a back.2

include consistent present in
/-- The closed form of the deletion, told by its queries. -/
theorem Consistent.losesNode : g.graph.LosesNode (g.without n).graph n := by
  have stay : stays g.arcs n = fun a => !g.graph.touches a n :=
    funext (consistent.stays_eq present)
  have gone : (g.without n).nodes.contains n = false := by
    simp [without, OrderedMap.contains_erase]
  refine ⟨?_, fun m => ?_, fun f => ?_, fun a => ?_, fun a untouched => ?_, fun m f => ?_,
    fun u v f => ?_, fun m => ?_, fun a => ?_⟩
  · change (g.without n).nodes.keys = g.nodes.keys.filter (· != n)
    rw [without, OrderedMap.keys_mapValues, OrderedMap.keys_erase]
  · change (g.without n).nodes.contains m = (m != n && g.nodes.contains m)
    rw [without, OrderedMap.contains_mapValues fun around => Neighbours.without around n,
      OrderedMap.contains_erase, bne_comm, bne]
  · rw [← stay]
    change (if f = .edge then (g.without n).edges.keys else (g.without n).arcs.keys) =
      (if f = .edge then g.edges.keys else g.arcs.keys).filter (stays g.arcs n)
    split
    · exact keys_staying
    · exact keys_staying
  · have here := congrFun stay a
    exact here ▸ contains_staying
  · refine ends_without ((congrFun stay a).trans ?_)
    exact congrArg not untouched
  · split
    · rename_i same
      subst same
      change (g.without m).incidentArcs m f = []
      rw [incidentArcs, (OrderedMap.get?_eq_none_iff _ _).mpr gone]
    · rw [← stay]
      exact consistent.incidentArcs_without ‹_› f
  · split
    · rename_i atNode
      change (g.without n).arcsBetween u v f = []
      refine if_neg fun both => ?_
      obtain ⟨tail, head⟩ := Bool.and_eq_true_iff.mp both
      rcases atNode with rfl | rfl
      · cases gone.symm.trans tail
      · cases gone.symm.trans head
    · rename_i elsewhere
      obtain ⟨otherTail, otherHead⟩ := not_or.mp elsewhere
      exact consistent.arcsBetween_without otherTail otherHead f
  · change (g.properties.nodes.erase n).get? m = _
    rw [OrderedMap.get?_erase]
    exact if_congr (by rw [beq_iff_eq, eq_comm]) rfl rfl
  · change (staying g.arcs n g.properties.arcs).get? a = _
    have here : stays g.arcs n a = !g.graph.touches a n := congrFun stay a
    rw [get?_staying, here]
    cases g.graph.touches a n <;> rfl

end Queries

/-- Adding the node makes a difference there only. -/
theorem Consistent.queries_of_addNode (consistent : g.Consistent) {id : Option Value}
    {properties : Option Properties} {next : StoredGraph}
    (added : g.addNode id properties = .ok (n, next)) :
    next.nodes.contains n = true ∧ (next.without n).graph = g.graph := by
  obtain ⟨absent, same⟩ := addNode_cases added
  have present : (g.putNode n properties).nodes.contains n = true := by
    simp [StoredGraph.putNode, OrderedMap.contains_insert]
  have back := congrArg StoredGraph.graph
    ((without_putNode g n properties).trans (consistent.without_of_absent absent))
  obtain ⟨_, _, rfl⟩ | ⟨_, rfl⟩ := same
  · exact ⟨present, back⟩
  · exact ⟨present, back⟩

/-- Adding an arc at the node makes a difference there only. -/
theorem Consistent.queries_of_addsArcAt (consistent : g.Consistent)
    (present : g.nodes.contains n = true) {change : Change} {next : StoredGraph}
    (adds : change.AddsArcAt n) (performed : g.perform change = .ok next) :
    next.nodes.contains n = true ∧ (next.without n).graph = (g.without n).graph := by
  cases change with
  | addArc u v direction id properties =>
      obtain ⟨⟨a, g'⟩, added, rfl⟩ := Fallible.map_eq_ok_iff.mp performed
      obtain ⟨_, _, free, same⟩ := addArc_cases added
      have touched : (⟨u, v, direction == .undirected⟩ : ArcRecord).touches n = true :=
        ArcRecord.touches_iff.mpr adds
      have back := congrArg StoredGraph.graph (consistent.without_putArc free touched properties)
      obtain ⟨_, _, rfl⟩ | ⟨_, rfl⟩ := same
      · exact ⟨(contains_nodes_putArc properties).trans present, back⟩
      · exact ⟨(contains_nodes_putArc properties).trans present, back⟩
  | _ => cases adds

end StoredGraph

end ArcSelection
