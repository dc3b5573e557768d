import ArcSelection.Proofs.Graph.Store

/-!
# Nodes that are added to an overlay

An overlay keeps an arc when its base loses an end of it, and hides the arc. A node that is
added later under the id of the lost end is taken for that end: the arc is shown again, at a
node that was just made. Every other new node is isolated, and is all that changes.
-/

namespace ArcSelection

/-- A graph becomes another in which a node is isolated, and every other answer about arcs is
the same. -/
structure Graph.AddsIsolated (g next : Graph) (n : Node) : Prop where
  isolated : ∀ f, next.incidentArcs n f = []
  arcs : ∀ f, next.arcs f = g.arcs f
  incidentArcs : ∀ m f, m ≠ n → next.incidentArcs m f = g.incidentArcs m f
  arcsBetween : ∀ u v f, next.arcsBetween u v f = g.arcsBetween u v f
  arcCount : ∀ f, next.arcCount f = g.arcCount f
  incidentArcCount : ∀ m f, next.incidentArcCount m f = g.incidentArcCount m f
  arcCountBetween : ∀ u v f, next.arcCountBetween u v f = g.arcCountBetween u v f

namespace Overlay

/-- An owned arc has a node as an end, and every other end of it is present. -/
def Awaits (o : Overlay) (base : Graph) (n : Node) (a : Arc) : Prop :=
  a ∈ o.ownAt n ∧ ∀ m ≠ n, a ∈ o.ownAt m → o.hasNode base m = true

variable {o o' : Overlay} {base : Graph} {n m u v : Node} {a : Arc} {f : ArcFilter}
  {properties : Option Properties}

/-- An owned arc is hidden exactly if an end of it is missing. -/
theorem Consistent.ownsAlive_iff_present (consistent : o.Consistent) :
    o.ownsAlive base a = true ↔
      (∃ m, a ∈ o.ownAt m) ∧ ∀ m, a ∈ o.ownAt m → o.hasNode base m = true := by
  simp only [ownsAlive_iff, isAlive_iff, consistent.mem_ownAt]
  constructor
  · rintro ⟨r, recorded, tail, head⟩
    refine ⟨⟨r.tail, r, recorded, .inl rfl⟩, ?_⟩
    rintro m ⟨q, same, touched⟩
    cases recorded.symm.trans same
    rcases touched with rfl | rfl
    · exact tail
    · exact head
  · rintro ⟨⟨_, r, recorded, _⟩, present⟩
    exact ⟨r, recorded, present _ ⟨r, recorded, .inl rfl⟩, present _ ⟨r, recorded, .inr rfl⟩⟩

/-- The ends of an arc between two nodes are these two. -/
theorem Consistent.mem_ownAt_iff_of_joins (consistent : o.Consistent) (atFirst : a ∈ o.ownAt u)
    (joined : (o.ends base).joins a u v = true) : a ∈ o.ownAt m ↔ m = u ∨ m = v := by
  obtain ⟨r, recorded, _⟩ := consistent.mem_ownAt.mp atFirst
  simp only [consistent.mem_ownAt, recorded, Option.some.injEq, exists_eq_left']
  rcases (joins_of_owned recorded).mp joined with ⟨rfl, rfl⟩ | ⟨rfl, rfl⟩
  · simp only [eq_comm]
  · simp only [eq_comm, or_comm]

theorem hasNode_putNode_self : (o.putNode n properties).hasNode base n = true := by
  simp [hasNode, putNode, OrderedMap.contains_insert]

/-- A new node makes no other appear. -/
theorem hasNode_putNode_of_ne (other : m ≠ n) :
    (o.putNode n properties).hasNode base m = o.hasNode base m := by
  have missed : (n == m) = false := beq_false_of_ne other.symm
  simp [hasNode, putNode, OrderedMap.contains_insert, missed]

/-- A new node shows the arcs that awaited it, and hides none. -/
theorem Consistent.ownsAlive_putNode (consistent : o.Consistent) :
    (o.putNode n properties).ownsAlive base a = true ↔
      o.ownsAlive base a = true ∨ o.Awaits base n a := by
  have kept : (o.putNode n properties).Consistent := consistent.withNodes _ _
  rw [kept.ownsAlive_iff_present, consistent.ownsAlive_iff_present]
  change (∃ m, a ∈ o.ownAt m) ∧ (∀ m, a ∈ o.ownAt m → _) ↔ _
  constructor
  · rintro ⟨owned, present⟩
    have others : ∀ m ≠ n, a ∈ o.ownAt m → o.hasNode base m = true :=
      fun m other atOther => hasNode_putNode_of_ne other ▸ present m atOther
    by_cases atNode : a ∈ o.ownAt n
    · exact .inr ⟨atNode, others⟩
    · exact .inl ⟨owned, fun m at' => others m (fun same => atNode (same ▸ at')) at'⟩
  · intro shown
    have owned : ∃ m, a ∈ o.ownAt m := shown.elim And.left fun awaits => ⟨n, awaits.1⟩
    have others : ∀ m ≠ n, a ∈ o.ownAt m → o.hasNode base m = true :=
      shown.elim (fun alive m _ => alive.2 m) And.right
    refine ⟨owned, fun m atOther => ?_⟩
    by_cases same : m = n
    · exact same ▸ hasNode_putNode_self
    · exact (hasNode_putNode_of_ne same).trans (others m same atOther)

section NewNode

variable (consistent : o.Consistent) (free : o.hasNode base n = false)

include consistent free

/-- An arc that a new node shows is one that awaits it. -/
theorem awaits_of_shown (atNode : a ∈ o.ownAt n)
    (shown : (o.putNode n properties).ownsAlive base a = true) : o.Awaits base n a := by
  refine (consistent.ownsAlive_putNode.mp shown).resolve_left fun alive => ?_
  cases free.symm.trans ((consistent.ownsAlive_iff_present.mp alive).2 n atNode)

/-- The arcs at a new node are those that awaited it. -/
theorem mem_incidentArcs_putNode :
    a ∈ (o.putNode n properties).incidentArcs base n f ↔
      o.Awaits base n a ∧ (o.ends base).passes a n f = true := by
  have absent := (Bool.or_eq_false_iff.mp free).2
  change a ∈ (if _ then (if base.hasNode n then base.incidentArcs n f else []) ++
    (o.ownAt n).filter _ else []) ↔ _
  rw [if_pos hasNode_putNode_self, if_neg (by simp [absent]), List.nil_append, List.mem_filter,
    Bool.and_eq_true]
  change a ∈ o.ownAt n ∧ _ ∧ (o.ends base).passes a n f = true ↔ _
  constructor
  · rintro ⟨atNode, shown, passes⟩
    exact ⟨awaits_of_shown consistent free atNode shown, passes⟩
  · rintro ⟨awaits, passes⟩
    exact ⟨awaits.1, consistent.ownsAlive_putNode.mpr (.inr awaits), passes⟩

variable (unawaited : ∀ a, ¬ o.Awaits base n a)

include unawaited

omit free in
/-- A node that no arc awaits shows no arc. -/
theorem ownsAlive_putNode_of_unawaited :
    (o.putNode n properties).ownsAlive base = o.ownsAlive base := by
  funext a
  rw [Bool.eq_iff_iff, consistent.ownsAlive_putNode, or_iff_left (unawaited a)]

omit free in
/-- A node that no arc awaits leaves the arcs as they are. -/
theorem ownArcs_putNode : (o.putNode n properties).ownArcs base f = o.ownArcs base f := by
  rw [ownArcs, ownsAlive_putNode_of_unawaited consistent unawaited]
  rfl

omit free in
/-- A node that no arc awaits leaves the arcs at others as they are. -/
theorem incidentArcs_putNode_of_ne (other : m ≠ n) :
    (o.putNode n properties).incidentArcs base m f = o.incidentArcs base m f := by
  rw [incidentArcs, hasNode_putNode_of_ne other,
    ownsAlive_putNode_of_unawaited consistent unawaited]
  rfl

/-- A node that no arc awaits has no arcs. -/
theorem incidentArcs_putNode_self : (o.putNode n properties).incidentArcs base n f = [] :=
  List.eq_nil_iff_forall_not_mem.mpr fun a listed =>
    unawaited a ((mem_incidentArcs_putNode consistent free).mp listed).1

/-- No arc joins a new node to another. -/
theorem arcsBetween_putNode_eq_nil (touched : u = n ∨ v = n) :
    (o.putNode n properties).arcsBetween base u v f = [] := by
  have absent := (Bool.or_eq_false_iff.mp free).2
  have below : (base.hasNode u && base.hasNode v) = false := by
    rcases touched with rfl | rfl <;> simp [absent]
  refine List.eq_nil_iff_forall_not_mem.mpr fun a listed => ?_
  rw [arcsBetween, List.mem_ite_nil_right, if_neg (by simp [below]), List.nil_append,
    List.mem_filter, Bool.and_eq_true, Bool.and_eq_true] at listed
  obtain ⟨⟨hasFirst, hasSecond⟩, atFirst, joined, _⟩ := listed
  have kept : (o.putNode n properties).Consistent := consistent.withNodes _ _
  have ends : ∀ m, a ∈ o.ownAt m ↔ m = u ∨ m = v := fun m =>
    kept.mem_ownAt_iff_of_joins atFirst joined
  -- Both ends are present now, so the arc is shown, and it is at the new node.
  have shown : (o.putNode n properties).ownsAlive base a = true := by
    refine kept.ownsAlive_iff_present.mpr ⟨⟨u, atFirst⟩, fun m at' => ?_⟩
    rcases (ends m).mp at' with rfl | rfl
    · exact hasFirst
    · exact hasSecond
  have atNode : a ∈ o.ownAt n := (ends n).mpr (touched.imp Eq.symm Eq.symm)
  exact unawaited a (awaits_of_shown consistent free atNode shown)

/-- A node that no arc awaits leaves the arcs between nodes as they are. -/
theorem arcsBetween_putNode :
    (o.putNode n properties).arcsBetween base u v f = o.arcsBetween base u v f := by
  by_cases touched : u = n ∨ v = n
  · rw [arcsBetween_putNode_eq_nil consistent free unawaited touched, arcsBetween, if_neg]
    rcases touched with rfl | rfl <;> simp [free]
  · obtain ⟨first, second⟩ := not_or.mp touched
    rw [arcsBetween, hasNode_putNode_of_ne first, hasNode_putNode_of_ne second]
    rfl

/-- A node that no arc awaits is added alone. -/
theorem addsIsolated_of_unawaited :
    (o.graphOver base).AddsIsolated ((o.putNode n properties).graphOver base) n where
  isolated f := incidentArcs_putNode_self consistent free unawaited
  arcs f := congrArg (base.arcs f ++ ·) (ownArcs_putNode consistent unawaited)
  incidentArcs m f other := incidentArcs_putNode_of_ne consistent unawaited other
  arcsBetween u v f := arcsBetween_putNode consistent free unawaited
  arcCount f :=
    congrArg (base.arcCount f + ·.length) (ownArcs_putNode consistent unawaited)
  incidentArcCount m f := by
    refine congrArg List.length (?_ : Overlay.incidentArcs _ base m f = o.incidentArcs base m f)
    by_cases same : m = n
    · subst same
      rw [incidentArcs_putNode_self consistent free unawaited, Overlay.incidentArcs, if_neg]
      simp [free]
    · exact incidentArcs_putNode_of_ne consistent unawaited same
  arcCountBetween u v f :=
    congrArg List.length (arcsBetween_putNode consistent free unawaited)

end NewNode

/-- A new node is isolated, and all that changes, exactly if no hidden arc awaited it. -/
theorem Consistent.addsIsolated_iff (consistent : o.Consistent)
    (free : o.hasNode base n = false) :
    (o.graphOver base).AddsIsolated ((o.putNode n properties).graphOver base) n ↔
      ∀ a, ¬ o.Awaits base n a := by
  refine ⟨fun adds a awaits => ?_, addsIsolated_of_unawaited consistent free⟩
  have listed : a ∈ (o.putNode n properties).incidentArcs base n .all :=
    (mem_incidentArcs_putNode consistent free).mpr ⟨awaits, rfl⟩
  exact List.eq_nil_iff_forall_not_mem.mp (adds.isolated .all) a listed

/-- An arc that lacks an end after a call lacked it before. -/
theorem Alters.lacked (alters : Alters base o o') (before : o.Consistent) (after : o'.Consistent)
    (atNode : a ∈ o'.ownAt n) (missing : o'.hasNode base n = false) :
    a ∈ o.ownAt n ∧ o.hasNode base n = false := by
  obtain ⟨r, recorded, touched⟩ := after.mem_ownAt.mp atNode
  obtain ⟨foreign, absent⟩ := Bool.or_eq_false_iff.mp missing
  cases alters with
  | addsNode m free nodes arcs =>
      rw [nodes, OrderedMap.contains_insert, Bool.or_eq_false_iff] at foreign
      exact ⟨before.mem_ownAt.mpr ⟨r, arcs ▸ recorded, touched⟩,
        Bool.or_eq_false_iff.mpr ⟨foreign.2, absent⟩⟩
  | addsArc b q tail head free nodes arcs =>
      have same : o.hasNode base n = false := Bool.or_eq_false_iff.mpr ⟨nodes ▸ foreign, absent⟩
      rw [arcs, OrderedMap.get?_insert] at recorded
      split at recorded
      · -- The ends of a new arc are present.
        cases recorded
        rcases touched with rfl | rfl
        · cases same.symm.trans tail
        · cases same.symm.trans head
      · exact ⟨before.mem_ownAt.mpr ⟨r, recorded, touched⟩, same⟩
  | dropsNode m nodes arcs =>
      rw [arcs, Option.ite_none_left_eq_some] at recorded
      -- The arcs at the deleted node are gone, so this is not the node.
      have here : a ∈ o.ownAt n := before.mem_ownAt.mpr ⟨r, recorded.2, touched⟩
      have other : (m == n) = false := beq_false_of_ne fun same => recorded.1 (same ▸ here)
      rw [nodes, OrderedMap.contains_erase, other] at foreign
      exact ⟨here, Bool.or_eq_false_iff.mpr ⟨foreign, absent⟩⟩
  | dropsArc b nodes arcs =>
      rw [arcs, Option.ite_none_left_eq_some] at recorded
      exact ⟨before.mem_ownAt.mpr ⟨r, recorded.2, touched⟩,
        Bool.or_eq_false_iff.mpr ⟨nodes ▸ foreign, absent⟩⟩
  | clears empty => cases empty ▸ recorded
  | keeps nodes arcs =>
      exact ⟨before.mem_ownAt.mpr ⟨r, arcs ▸ recorded, touched⟩,
        Bool.or_eq_false_iff.mpr ⟨nodes ▸ foreign, absent⟩⟩

end Overlay

namespace Store

/-- The event takes a node from the base of the overlay at a position, and the overlay keeps
an arc there. -/
def BaseLoses (i : Nat) (n : Node) (a : Arc) (s : Store) (event : Event) : Prop :=
  ∃ o base, s.layers[i]? = some (.overlay o base) ∧ a ∈ o.ownAt n ∧
    o.hasNode (s.graph base) n = true ∧ o.hasNode ((s.after event).graph base) n = false

/-- An arc of an overlay that lacks an end lost it from the base. -/
theorem happened_baseLoses (events : List Event) {i base : Nat} {o : Overlay} {n : Node} {a : Arc}
    (found : (empty.afterAll events).layers[i]? = some (.overlay o base))
    (atNode : a ∈ o.ownAt n)
    (missing : o.hasNode ((empty.afterAll events).graph base) n = false) :
    Happened (BaseLoses i n a) events := by
  refine happened_of_overlay (fun o base => a ∈ o.ownAt n ∧ o.hasNode base n = false) ?_ ?_ ?_
    events found ⟨atNode, missing⟩
  · rintro base ⟨atNode, _⟩
    cases atNode
  · rintro o o' base consistent consistent' alters ⟨atNode, missing⟩
    exact alters.lacked consistent consistent' atNode missing
  · rintro s o base event found before ⟨atNode, missing⟩
    exact ⟨o, base, found, atNode, by simpa [atNode] using before, missing⟩

/-- After every history a node that an overlay takes is isolated, and all that changes,
exactly if it is awaited by none of the arcs that the base left without it. -/
theorem addsIsolated_overlay_iff (events : List Event) {i base : Nat} {o : Overlay} {n : Node}
    {draws rest : List Int} {id : Option Value} {properties : Option Properties} {s' : Store}
    (found : (empty.afterAll events).layers[i]? = some (.overlay o base))
    (added : (empty.afterAll events).addNode i draws id properties = .ok (n, s', rest)) :
    ((empty.afterAll events).graph i).AddsIsolated (s'.graph i) n ↔
      ∀ a, Happened (BaseLoses i n a) events →
        ¬ o.Awaits ((empty.afterAll events).graph base) n a := by
  have sound := sound_empty.afterAll events
  obtain ⟨consistent, below⟩ := sound _ _ found
  rw [Store.addNode_eq, found] at added
  obtain ⟨⟨m, o', left⟩, taken, eq⟩ := Fallible.bind_eq_ok_iff.mp added
  cases eq
  rw [baseGraph_of_view found rfl below] at taken
  obtain ⟨free, rfl⟩ := Overlay.addNode_cases taken
  have next : ((empty.afterAll events).set i (.overlay (o.putNode n properties) base)).layers[i]? =
      some (.overlay (o.putNode n properties) base) := getElem?_set_self found
  rw [graph_of_view found rfl below, graph_of_view next rfl below, graph_set _ _ below]
  refine (consistent.addsIsolated_iff free).trans
    ⟨fun unawaited a _ => unawaited a, fun unawaited a awaits => ?_⟩
  exact unawaited a (happened_baseLoses events found awaits.1 free) awaits

/-- An overlay joins the two nodes of its base, which then loses the second. -/
def endLost : List Event :=
  [.stored, .change 0 [] (.addNode none none), .change 0 [] (.addNode none none), .overlay 0,
    .change 1 [] (.addArc ⟨1⟩ ⟨2⟩ .directed (some (.int 7)) none), .change 0 [] (.deleteNode ⟨2⟩)]

/-- The other end is lost as well. -/
def endsLost : List Event := endLost ++ [.change 0 [] (.deleteNode ⟨1⟩)]

section Evaluation

-- The queries are defined by recursion on positions, which is opened to evaluate them here.
unseal graph

/-- The arc that lost the new node does not await it, for it lost its other end as well. -/
theorem addsIsolated_overlay_iff_endsLost :
    Happened (BaseLoses 1 ⟨2⟩ ⟨7⟩) endsLost ∧
      ∃ o s', (empty.afterAll endsLost).layers[1]? = some (.overlay o 0) ∧
        (empty.afterAll endsLost).addNode 1 [2] none none = .ok (⟨2⟩, s', []) ∧
        ((empty.afterAll endsLost).graph 1).AddsIsolated (s'.graph 1) ⟨2⟩ := by
  obtain ⟨s', added⟩ : ∃ s', (empty.afterAll endsLost).addNode 1 [2] none none =
      .ok (⟨2⟩, s', []) := ⟨_, rfl⟩
  refine ⟨⟨endLost.take 5, _, _, rfl, _, _, rfl, by decide, rfl, rfl⟩, _, s', rfl, added, ?_⟩
  refine (addsIsolated_overlay_iff endsLost rfl added).mpr fun a _ awaits => ?_
  have onlyArc : a ∈ [(⟨7⟩ : Arc)] := awaits.1
  cases List.mem_singleton.mp onlyArc
  cases awaits.2 ⟨1⟩ (by decide) (by decide)

/-- The node takes the id of the lost end, and has the arc that was hidden. -/
theorem incidentArcs_endLost :
    ∃ s', (empty.afterAll endLost).addNode 1 [] (some (.int 2)) none = .ok (⟨2⟩, s', []) ∧
      ((empty.afterAll endLost).graph 1).arcs .all = [] ∧
      (s'.graph 1).incidentArcs ⟨2⟩ .all = [⟨7⟩] ∧ (s'.graph 1).arcs .all = [⟨7⟩] ∧
      (s'.graph 1).arcCount .all = 1 :=
  ⟨_, rfl, by decide, by decide, by decide, by decide⟩

end Evaluation

end Store

end ArcSelection
