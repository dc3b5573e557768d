import ArcSelection.Graph.View.Overlay
import ArcSelection.Proofs.Graph.Lawful

/-!
# The parts of an overlay, and its queries

The arc records of an overlay are the authority, as they are in a stored graph. The arcs
it keeps for a node are those recorded with the node as an end, the hidden ones included,
in the order of the records. An overlay that owns nothing the base has answers lawfully
over a lawful base.
-/

namespace ArcSelection

/-- Whether the arc is recorded with a node as an end. -/
def ArcRecord.touches (r : ArcRecord) (n : Node) : Bool := r.tail == n || r.head == n

theorem ArcRecord.touches_iff {r : ArcRecord} {n : Node} :
    r.touches n = true ↔ r.tail = n ∨ r.head = n := by
  simp [touches]

namespace Overlay

/-- No node is kept without arcs. -/
def NoneBare (m : OrderedMap Node (OrderedSet Arc)) : Prop :=
  ∀ n as, m.get? n = some as → as.isEmpty = false

/-- The parts of an overlay agree with its arc records. -/
structure Consistent (o : Overlay) : Prop where
  /-- The edges are the arcs recorded as such, in the order of the records. -/
  edges : o.edges.keys = o.arcs.keysWhere (·.isEdge)
  /-- A node keeps the arcs recorded at it, in the order of the records. -/
  indexed : ∀ n, o.ownAt n = o.arcs.keysWhere (·.touches n)
  noneBare : NoneBare o.arcsAt

/-- Nothing that the overlay owns belongs to the base. -/
structure Apart (o : Overlay) (base : Graph) : Prop where
  node : ∀ n, o.nodes.contains n = true → base.hasNode n = false
  arc : ∀ a, o.arcs.contains a = true → base.hasArc a = false

variable {o : Overlay} {base : Graph} {a : Arc} {n u v : Node} {f : ArcFilter} {r : ArcRecord}

/-- An arc is alive if both ends are there. -/
theorem isAlive_iff :
    o.isAlive base r = true ↔ o.hasNode base r.tail = true ∧ o.hasNode base r.head = true := by
  rw [isAlive, Bool.and_eq_true]

/-- An arc is owned and alive if its record is. -/
theorem ownsAlive_iff :
    o.ownsAlive base a = true ↔ ∃ r, o.arcs.get? a = some r ∧ o.isAlive base r = true := by
  rw [ownsAlive]
  cases o.arcs.get? a <;> simp

/-- An owned arc has the ends that are recorded. -/
theorem touches_of_owned (owned : o.arcs.get? a = some r) :
    (o.ends base).touches a n = r.touches n := by
  simp [Ends.touches, ArcRecord.touches, ends, owned]

/-- An owned arc joins the ends of its record in either direction. -/
theorem joins_of_owned (owned : o.arcs.get? a = some r) :
    (o.ends base).joins a u v = true ↔ r.tail = u ∧ r.head = v ∨ r.tail = v ∧ r.head = u := by
  simp [Ends.joins, ends, owned]

/-- An arc that is not owned behaves as it does in the base. -/
theorem ends_of_foreign (base : Graph) (foreign : o.arcs.get? a = none) :
    (o.ends base).tail a = base.tail a ∧ (o.ends base).head a = base.head a ∧
      (o.ends base).isEdge a = base.isEdge a := by
  have absent := (OrderedMap.get?_eq_none_iff _ _).mp foreign
  simp [ends, foreign, absent]

/-- An arc of the base touches the same nodes. -/
theorem touches_of_foreign (foreign : o.arcs.get? a = none) :
    (o.ends base).touches a n = base.touches a n := by
  obtain ⟨tail, head, _⟩ := ends_of_foreign base foreign
  rw [Ends.touches, Ends.touches, tail, head]

/-- An arc of the base joins the same nodes. -/
theorem joins_of_foreign (foreign : o.arcs.get? a = none) :
    (o.ends base).joins a u v = base.joins a u v := by
  obtain ⟨tail, head, _⟩ := ends_of_foreign base foreign
  rw [Ends.joins, Ends.joins, tail, head]

/-- An arc of the base passes the same filters. -/
theorem passes_of_foreign (foreign : o.arcs.get? a = none) :
    (o.ends base).passes a n f = base.passes a n f := by
  obtain ⟨tail, head, isEdge⟩ := ends_of_foreign base foreign
  cases f <;> simp only [Ends.passes, tail, head, isEdge]

/-- The visible arcs are those of the base, and the owned ones that are not hidden. -/
theorem mem_arcs : a ∈ (o.graphOver base).arcs .all ↔
    a ∈ base.arcs .all ∨ ∃ r, o.arcs.get? a = some r ∧ o.isAlive base r = true := by
  change a ∈ base.arcs .all ++ o.arcs.keys.filter (o.ownsAlive base) ↔ _
  rw [List.mem_append, List.mem_filter, ownsAlive_iff, OrderedMap.mem_keys_iff_get?]
  refine or_congr_right ⟨And.right, fun owned => ⟨?_, owned⟩⟩
  obtain ⟨r, found, _⟩ := owned
  exact ⟨r, found⟩

/-- The arcs at a node are the base's and the owned ones there that are not hidden. -/
theorem mem_incidentArcs_parts : a ∈ o.incidentArcs base n f ↔
    o.hasNode base n = true ∧ (base.hasNode n = true ∧ a ∈ base.incidentArcs n f ∨
      a ∈ o.ownAt n ∧ o.ownsAlive base a = true ∧ (o.ends base).passes a n f = true) := by
  rw [incidentArcs, List.mem_ite_nil_right, List.mem_append, List.mem_ite_nil_right,
    List.mem_filter, Bool.and_eq_true]

/-- The arcs between two nodes are the base's and the owned ones that join them. -/
theorem mem_arcsBetween_parts : a ∈ o.arcsBetween base u v f ↔
    (o.hasNode base u = true ∧ o.hasNode base v = true) ∧
      ((base.hasNode u = true ∧ base.hasNode v = true) ∧ a ∈ base.arcsBetween u v f ∨
        a ∈ o.ownAt u ∧ (o.ends base).joins a u v = true ∧
          (o.ends base).passes a u f = true) := by
  simp only [arcsBetween, List.mem_ite_nil_right, List.mem_append, List.mem_filter,
    Bool.and_eq_true]

/-- The nodes of the base are there. -/
theorem hasNode_of_base (has : base.hasNode n = true) : o.hasNode base n = true := by
  rw [hasNode, has, Bool.or_true]

section Lawful

variable (consistent : o.Consistent) (apart : o.Apart base) (lawful : base.Lawful)

include lawful apart in
/-- What the base lists is not owned. -/
theorem Apart.foreign (listed : a ∈ base.arcs .all) : o.arcs.get? a = none := by
  rw [OrderedMap.get?_eq_none_iff]
  by_contra owned
  have absent := apart.arc a (by simpa using owned)
  rw [lawful.mem_arcs, absent] at listed
  cases listed

include consistent in
/-- The index finds the owned arcs with an end at the node. -/
theorem Consistent.mem_ownAt :
    a ∈ o.ownAt n ↔ ∃ r, o.arcs.get? a = some r ∧ (r.tail = n ∨ r.head = n) := by
  simp only [consistent.indexed, OrderedMap.mem_keysWhere, ArcRecord.touches_iff]

include consistent in
/-- The index finds every owned arc once. -/
theorem Consistent.nodup_ownAt : (o.ownAt n).Nodup :=
  consistent.indexed n ▸ OrderedMap.nodup_keysWhere _ _

include consistent apart lawful

/-- The arcs at a node are the visible ones with the node as an end. -/
theorem mem_incidentArcs : a ∈ o.incidentArcs base n f ↔
    a ∈ (o.graphOver base).arcs .all ∧ (o.ends base).touches a n = true ∧
      (o.ends base).passes a n f = true := by
  rw [mem_incidentArcs_parts, consistent.mem_ownAt, mem_arcs, ownsAlive_iff]
  -- An arc is owned or the base's, never both, so one of the two lists decides.
  cases owner : o.arcs.get? a with
  | none =>
      simp only [touches_of_foreign owner, passes_of_foreign owner, reduceCtorEq, false_and,
        exists_false, or_false, ← lawful.mem_incidentArcs]
      refine ⟨fun listed => listed.2.2, fun listed => ?_⟩
      obtain ⟨inBase, touched, _⟩ := (lawful.mem_incidentArcs n f a).mp listed
      have has := lawful.hasNode_of_touches inBase touched
      exact ⟨hasNode_of_base has, has, listed⟩
  | some r =>
      have notInBase : a ∉ base.arcs .all := fun listed => by
        cases owner.symm.trans (apart.foreign lawful listed)
      simp only [lawful.mem_incidentArcs, notInBase, touches_of_owned owner,
        ArcRecord.touches_iff, Option.some.injEq, exists_eq_left', false_and, and_false, false_or]
      refine ⟨fun ⟨_, touched, alive, passes⟩ => ⟨alive, touched, passes⟩,
        fun ⟨alive, touched, passes⟩ => ⟨?_, touched, alive, passes⟩⟩
      obtain ⟨hasTail, hasHead⟩ := isAlive_iff.mp alive
      rcases touched with rfl | rfl
      · exact hasTail
      · exact hasHead

/-- Arcs of the base, listed once, and owned arcs at a node are all listed once. -/
theorem nodup_append_ownAt {below : List Arc} (nodup : below.Nodup)
    (inBase : ∀ a ∈ below, a ∈ base.arcs .all) (keep : Arc → Bool) :
    (below ++ (o.ownAt n).filter keep).Nodup := by
  refine List.nodup_append.mpr ⟨nodup, consistent.nodup_ownAt.filter _, ?_⟩
  rintro a listed b own rfl
  obtain ⟨r, owned, _⟩ := consistent.mem_ownAt.mp (List.mem_filter.mp own).1
  cases owned.symm.trans (apart.foreign lawful (inBase a listed))

/-- Every arc at a node is listed once. -/
theorem nodup_incidentArcs : (o.incidentArcs base n f).Nodup := by
  unfold incidentArcs
  split
  · refine nodup_append_ownAt consistent apart lawful ?_ (fun a below => ?_) _
    · split
      · exact lawful.incidentArcs_nodup n f
      · exact List.nodup_nil
    · rw [List.mem_ite_nil_right, lawful.mem_incidentArcs] at below
      exact below.2.1
  · exact List.nodup_nil

/-- The arcs between two nodes are the visible ones that join them. -/
theorem mem_arcsBetween : a ∈ o.arcsBetween base u v f ↔
    a ∈ (o.graphOver base).arcs .all ∧ (o.ends base).joins a u v = true ∧
      (o.ends base).passes a u f = true := by
  rw [mem_arcsBetween_parts, consistent.mem_ownAt, mem_arcs]
  cases owner : o.arcs.get? a with
  | none =>
      simp only [joins_of_foreign owner, passes_of_foreign owner, reduceCtorEq, false_and,
        exists_false, or_false, ← lawful.mem_arcsBetween]
      refine ⟨fun listed => listed.2.2, fun listed => ?_⟩
      obtain ⟨inBase, joined, _⟩ := (lawful.mem_arcsBetween u v f a).mp listed
      obtain ⟨atFirst, atSecond⟩ := Ends.touches_of_joins joined
      have hasFirst := lawful.hasNode_of_touches inBase atFirst
      have hasSecond := lawful.hasNode_of_touches inBase atSecond
      exact ⟨⟨hasNode_of_base hasFirst, hasNode_of_base hasSecond⟩, ⟨hasFirst, hasSecond⟩, listed⟩
  | some r =>
      have notInBase : a ∉ base.arcs .all := fun listed => by
        cases owner.symm.trans (apart.foreign lawful listed)
      -- The list does not ask whether the arc is hidden: its ends are the two nodes.
      simp only [lawful.mem_arcsBetween, notInBase, joins_of_owned owner, Option.some.injEq,
        exists_eq_left', false_and, and_false, false_or, isAlive_iff]
      constructor
      · rintro ⟨⟨hasFirst, hasSecond⟩, _, ⟨rfl, rfl⟩ | ⟨rfl, rfl⟩, passes⟩
        · exact ⟨⟨hasFirst, hasSecond⟩, .inl ⟨rfl, rfl⟩, passes⟩
        · exact ⟨⟨hasSecond, hasFirst⟩, .inr ⟨rfl, rfl⟩, passes⟩
      · rintro ⟨⟨hasTail, hasHead⟩, ⟨rfl, rfl⟩ | ⟨rfl, rfl⟩, passes⟩
        · exact ⟨⟨hasTail, hasHead⟩, .inl rfl, .inl ⟨rfl, rfl⟩, passes⟩
        · exact ⟨⟨hasHead, hasTail⟩, .inr rfl, .inr ⟨rfl, rfl⟩, passes⟩

/-- Every arc between nodes is listed once. -/
theorem nodup_arcsBetween : (o.arcsBetween base u v f).Nodup := by
  unfold arcsBetween
  split
  · refine nodup_append_ownAt consistent apart lawful ?_ (fun a below => ?_) _
    · split
      · exact lawful.arcsBetween_nodup u v f
      · exact List.nodup_nil
    · rw [List.mem_ite_nil_right, lawful.mem_arcsBetween] at below
      exact below.2.1
  · exact List.nodup_nil

omit apart lawful in
/-- The owned edges are those among the owned arcs, in their order. -/
theorem ownArcs_edge : o.ownArcs base .edge = (o.ownArcs base .all).filter (o.ends base).isEdge := by
  change o.edges.keys.filter (o.ownsAlive base) =
    (o.arcs.keys.filter (o.ownsAlive base)).filter (o.ends base).isEdge
  rw [consistent.edges, OrderedMap.keysWhere_eq_filter, List.filter_filter, List.filter_filter]
  refine List.filter_congr fun a owned => ?_
  have present := (OrderedMap.mem_keys_iff _ _).mp owned
  simp only [ends, present, if_true, OrderedMap.contains_eq_any consistent.edges a, Bool.and_comm]

omit consistent apart in
/-- The nodes that are listed are those that are there. -/
theorem mem_nodes : n ∈ (o.graphOver base).nodes ↔ o.hasNode base n = true := by
  change n ∈ base.nodes ++ o.nodes.keys ↔ _
  rw [List.mem_append, lawful.mem_nodes, OrderedMap.mem_keys_iff, hasNode, Bool.or_eq_true,
    or_comm]

omit consistent in
/-- The ends of a listed arc are present. -/
theorem hasNode_ends (listed : a ∈ (o.graphOver base).arcs .all) :
    o.hasNode base ((o.ends base).tail a) = true ∧ o.hasNode base ((o.ends base).head a) = true := by
  rcases mem_arcs.mp listed with below | ⟨r, owned, alive⟩
  · obtain ⟨tail, head, _⟩ := ends_of_foreign base (apart.foreign lawful below)
    rw [tail, head]
    exact ⟨hasNode_of_base ((lawful.mem_nodes _).mp (lawful.tail_mem a below)),
      hasNode_of_base ((lawful.mem_nodes _).mp (lawful.head_mem a below))⟩
  · simpa [ends, owned] using isAlive_iff.mp alive

/-- The queries of an overlay agree with each other if those of the base do. -/
theorem lawful_graphOver : (o.graphOver base).Lawful where
  nodup := by
    refine List.nodup_append.mpr ⟨lawful.nodup, (OrderedMap.nodup_keys _).filter _, ?_⟩
    rintro a below b own rfl
    obtain ⟨r, owned, _⟩ := ownsAlive_iff.mp (List.mem_filter.mp own).2
    cases owned.symm.trans (apart.foreign lawful below)
  tail_mem a listed := (mem_nodes lawful).mpr (hasNode_ends apart lawful listed).1
  head_mem a listed := (mem_nodes lawful).mpr (hasNode_ends apart lawful listed).2
  nodes_nodup := by
    refine List.nodup_append.mpr ⟨lawful.nodes_nodup, OrderedMap.nodup_keys _, ?_⟩
    rintro n below m own rfl
    rw [lawful.mem_nodes, apart.node n ((OrderedMap.mem_keys_iff _ _).mp own)] at below
    cases below
  mem_nodes n := mem_nodes lawful
  mem_arcs a := by
    rw [mem_arcs]
    simp only [graphOver]
    cases owner : o.arcs.get? a with
    | none => simp [lawful.mem_arcs]
    | some r =>
        have notInBase : a ∉ base.arcs .all := fun listed => by
          cases owner.symm.trans (apart.foreign lawful listed)
        simp [notInBase]
  arcs_edge := by
    change base.arcs .edge ++ o.ownArcs base .edge =
      (base.arcs .all ++ o.ownArcs base .all).filter (o.ends base).isEdge
    rw [List.filter_append, lawful.arcs_edge, ownArcs_edge consistent]
    refine congrArg (· ++ _) (List.filter_congr fun a below => ?_)
    exact (ends_of_foreign base (apart.foreign lawful below)).2.2.symm
  arcs_forward := congrArg (· ++ o.ownArcs base .all) lawful.arcs_forward
  arcs_backward := congrArg (· ++ o.ownArcs base .all) lawful.arcs_backward
  incidentArcs_nodup _ _ := nodup_incidentArcs consistent apart lawful
  mem_incidentArcs _ _ _ := mem_incidentArcs consistent apart lawful
  arcsBetween_nodup _ _ _ := nodup_arcsBetween consistent apart lawful
  mem_arcsBetween _ _ _ _ := mem_arcsBetween consistent apart lawful

end Lawful

end Overlay

end ArcSelection
