import ArcSelection.Proofs.Graph.OverlayIsolation

/-!
# What an overlay records of its arcs

An overlay finds the arcs at a node through an index by ends, and its edges through a list of
their own. Both are told by the arc records alone, hidden arcs included. The records stand in
the order in which the arcs were added: a new arc comes last, and what is deleted leaves the
others in their places. So the index lists the arcs of each node in that order too, also under
nodes of the base, which may go and come back. Every arc was added between two nodes of the
graph, and is hidden while one of them is missing.
-/

namespace ArcSelection

namespace Graph

/-- The graph does not have an arc, and lists it only where its base does. -/
structure Hides (g base : Graph) (a : Arc) : Prop where
  hasArc : g.hasArc a = false
  arcs : ∀ f, a ∈ g.arcs f → a ∈ base.arcs f
  incidentArcs : ∀ n f, a ∈ g.incidentArcs n f → a ∈ base.incidentArcs n f
  arcsBetween : ∀ u v f, a ∈ g.arcsBetween u v f → a ∈ base.arcsBetween u v f

/-- The graph has an arc, and lists it at the ends that are recorded and between them. -/
structure Shows (g : Graph) (a : Arc) (r : ArcRecord) : Prop where
  hasArc : g.hasArc a = true
  arcs : a ∈ g.arcs .all
  incidentArcs : a ∈ g.incidentArcs r.tail .all ∧ a ∈ g.incidentArcs r.head .all
  arcsBetween : a ∈ g.arcsBetween r.tail r.head .all ∧ a ∈ g.arcsBetween r.head r.tail .all

end Graph

namespace Overlay

/-- An end of an arc belongs neither to the overlay nor to the base. -/
def LacksEnd (o : Overlay) (base : Graph) (r : ArcRecord) : Prop :=
  ∃ n, (r.tail = n ∨ r.head = n) ∧ o.nodes.contains n = false ∧ base.hasNode n = false

variable {o o' : Overlay} {base : Graph} {a : Arc} {n : Node} {r : ArcRecord}

/-- A record is alive exactly if it lacks no end. -/
theorem isAlive_iff_not_lacksEnd : o.isAlive base r = true ↔ ¬ o.LacksEnd base r := by
  have missing : ∀ n, o.hasNode base n = true ↔
      ¬ (o.nodes.contains n = false ∧ base.hasNode n = false) := by
    intro n
    rw [hasNode, ← Bool.or_eq_false_iff, Bool.not_eq_false]
  rw [isAlive_iff, missing, missing, LacksEnd]
  constructor
  · rintro ⟨tail, head⟩ ⟨n, rfl | rfl, lacks⟩
    · exact tail lacks
    · exact head lacks
  · exact fun all => ⟨fun lacks => all ⟨_, .inl rfl, lacks⟩, fun lacks => all ⟨_, .inr rfl, lacks⟩⟩

/-- A recorded arc is there exactly if its record is alive. -/
theorem hasArc_of_recorded (recorded : o.arcs.get? a = some r) :
    (o.graphOver base).hasArc a = o.isAlive base r := by
  simp [graphOver, recorded]

/-- A recorded arc is owned and alive exactly if its record is alive. -/
theorem ownsAlive_of_recorded (recorded : o.arcs.get? a = some r) :
    o.ownsAlive base a = o.isAlive base r := by
  simp [ownsAlive, recorded]

/-- An arc that lacks an end is hidden. -/
theorem hides_of_lacksEnd (recorded : o.arcs.get? a = some r) (lacks : o.LacksEnd base r) :
    (o.graphOver base).Hides base a := by
  have dead : ¬ o.isAlive base r = true := isAlive_iff_not_lacksEnd.not_left.mpr lacks
  have notOwn : ¬ o.ownsAlive base a = true := ownsAlive_of_recorded recorded ▸ dead
  refine ⟨?_, fun f listed => ?_, fun n f listed => ?_, fun u v f listed => ?_⟩
  · rw [hasArc_of_recorded recorded]
    exact Bool.not_eq_true _ ▸ dead
  · rcases List.mem_append.mp listed with below | own
    · exact below
    · exact absurd (List.mem_filter.mp own).2 notOwn
  · obtain ⟨_, below | own⟩ := mem_incidentArcs_parts.mp listed
    · exact below.2
    · exact absurd own.2.1 notOwn
  · obtain ⟨⟨first, second⟩, below | ⟨_, joined, _⟩⟩ := mem_arcsBetween_parts.mp listed
    · exact below.2
    · -- The two nodes are there, and they are the ends.
      refine absurd (isAlive_iff.mpr ?_) dead
      rcases (joins_of_owned recorded).mp joined with ⟨rfl, rfl⟩ | ⟨rfl, rfl⟩
      · exact ⟨first, second⟩
      · exact ⟨second, first⟩

/-- An arc with both ends is shown. -/
theorem Consistent.shows_of_not_lacksEnd (consistent : o.Consistent)
    (recorded : o.arcs.get? a = some r) (both : ¬ o.LacksEnd base r) :
    (o.graphOver base).Shows a r := by
  have alive : o.isAlive base r = true := isAlive_iff_not_lacksEnd.mpr both
  have own : o.ownsAlive base a = true := ownsAlive_of_recorded recorded ▸ alive
  obtain ⟨tail, head⟩ := isAlive_iff.mp alive
  have atTail : a ∈ o.ownAt r.tail := consistent.mem_ownAt.mpr ⟨r, recorded, .inl rfl⟩
  have atHead : a ∈ o.ownAt r.head := consistent.mem_ownAt.mpr ⟨r, recorded, .inr rfl⟩
  exact {
    hasArc := (hasArc_of_recorded recorded).trans alive
    arcs := mem_arcs.mpr (.inr ⟨r, recorded, alive⟩)
    incidentArcs := ⟨mem_incidentArcs_parts.mpr ⟨tail, .inr ⟨atTail, own, rfl⟩⟩,
      mem_incidentArcs_parts.mpr ⟨head, .inr ⟨atHead, own, rfl⟩⟩⟩
    arcsBetween := ⟨mem_arcsBetween_parts.mpr ⟨⟨tail, head⟩, .inr ⟨atTail,
        (joins_of_owned recorded).mpr (.inl ⟨rfl, rfl⟩), rfl⟩⟩,
      mem_arcsBetween_parts.mpr ⟨⟨head, tail⟩, .inr ⟨atHead,
        (joins_of_owned recorded).mpr (.inr ⟨rfl, rfl⟩), rfl⟩⟩⟩ }

/-! ### The order of the records -/

/-- Deleting an arc leaves the others in their order. -/
theorem entries_deleteArc (o : Overlay) (a : Arc) :
    (o.deleteArc a).2.arcs.entries.Sublist o.arcs.entries := by
  unfold deleteArc
  split
  · exact .refl _
  · exact List.filter_sublist

/-- Deleting arcs leaves the others in their order. -/
theorem entries_deleteArcs (o : Overlay) (as : List Arc) :
    (as.foldl (fun p a => (p.deleteArc a).2) o).arcs.entries.Sublist o.arcs.entries := by
  induction as generalizing o with
  | nil => exact .refl _
  | cons a as ih => exact (ih _).trans (entries_deleteArc o a)

variable {draws : List Int} {change : Change}

/-- A call leaves records in their order, or adds a record behind the others, of a new arc
between nodes of the graph. -/
theorem arcs_of_perform (performed : o.perform base draws change = .ok o') :
    o'.arcs.entries.Sublist o.arcs.entries ∨
      ∃ a r, o.hasNode base r.tail = true ∧ o.hasNode base r.head = true ∧
        o.arcs.contains a = false ∧ o'.arcs = o.arcs.insert a r := by
  cases change with
  | addNode id properties =>
      obtain ⟨⟨n, next, rest⟩, added, rfl⟩ := Fallible.map_eq_ok_iff.mp performed
      obtain ⟨_, rfl⟩ := addNode_cases added
      exact .inl (.refl _)
  | addArc u v direction id properties =>
      obtain ⟨⟨a, next, rest⟩, added, rfl⟩ := Fallible.map_eq_ok_iff.mp performed
      obtain ⟨tail, head, free, rfl⟩ := addArc_cases added
      exact .inr ⟨a, _, tail, head, (Bool.or_eq_false_iff.mp free).1, rfl⟩
  | deleteNode n =>
      cases performed
      refine .inl ?_
      unfold deleteNode
      split
      · exact entries_deleteArcs o _
      · exact .refl _
  | deleteArc a =>
      cases performed
      exact .inl (entries_deleteArc o a)
  | clear =>
      cases performed
      exact .inl (List.nil_sublist _)
  | setNodeProperties n properties | setArcProperties a properties =>
      simp only [perform] at performed
      split at performed <;> cases performed
      exact .inl (.refl _)

end Overlay

namespace Store

variable {events : List Event} {event : Event} {i base k : Nat} {o : Overlay} {a : Arc}
  {r : ArcRecord}

/-- The overlay at a position owns an arc with a record. -/
def Owns (i : Nat) (a : Arc) (r : ArcRecord) (s : Store) : Prop :=
  ∃ o base, s.layers[i]? = some (.overlay o base) ∧ o.arcs.get? a = some r

/-- The event after the first `k` of a history added an arc to the overlay at a position, between
two nodes of the graph, and the overlay has owned the arc since. -/
structure AddedAt (events : List Event) (i : Nat) (a : Arc) (r : ArcRecord) (k : Nat) : Prop where
  inside : k < events.length
  new : ∀ q, ¬ Owns i a q (empty.afterAll (events.take k))
  tail : ((empty.afterAll (events.take k)).graph i).hasNode r.tail = true
  head : ((empty.afterAll (events.take k)).graph i).hasNode r.head = true
  since : ∀ m, k < m → m ≤ events.length → Owns i a r (empty.afterAll (events.take m))

/-- One arc was added before another, and the overlay at a position has owned both since. -/
def AddedBefore (events : List Event) (i : Nat) (a b : Arc) : Prop :=
  ∃ k l r q, k < l ∧ AddedAt events i a r k ∧ AddedAt events i b q l

/-- An arc that is still owned after one more event was added when it was. -/
theorem AddedAt.concat (added : AddedAt events i a r k)
    (still : Owns i a r (empty.afterAll (events ++ [event]))) :
    AddedAt (events ++ [event]) i a r k := by
  have same : ∀ m ≤ events.length, (events ++ [event]).take m = events.take m := fun m upTo =>
    List.take_append_of_le_length upTo
  have atCall := same k added.inside.le
  refine ⟨?_, atCall ▸ added.new, atCall ▸ added.tail, atCall ▸ added.head, fun m later upTo => ?_⟩
  · rw [List.length_append]
    exact Nat.lt_add_right _ added.inside
  · rcases Nat.lt_or_ge events.length m with beyond | within
    · rwa [List.take_of_length_le (by simpa using Nat.succ_le_of_lt beyond)]
    · exact same m within ▸ added.since m later within

/-- An arc that the last event brought was added by it. -/
theorem addedAt_length (new : ∀ q, ¬ Owns i a q (empty.afterAll events))
    (tail : ((empty.afterAll events).graph i).hasNode r.tail = true)
    (head : ((empty.afterAll events).graph i).hasNode r.head = true)
    (owned : Owns i a r (empty.afterAll (events ++ [event]))) :
    AddedAt (events ++ [event]) i a r events.length := by
  have before : (events ++ [event]).take events.length = events := List.take_left
  refine ⟨by simp, before.symm ▸ new, before.symm ▸ tail, before.symm ▸ head, fun m later _ => ?_⟩
  rwa [List.take_of_length_le (by simpa using Nat.succ_le_of_lt later)]

/-- The entries of the overlay at a position were added, and stand in the order in which they
were. -/
structure InOrder (events : List Event) (i : Nat) (entries : List (Arc × ArcRecord)) : Prop where
  added : ∀ e ∈ entries, ∃ k, AddedAt events i e.1 e.2 k
  ordered : entries.Pairwise fun e f =>
    ∃ k l, k < l ∧ AddedAt events i e.1 e.2 k ∧ AddedAt events i f.1 f.2 l

/-- Entries that are left after one more event stand in their order. -/
theorem InOrder.concat {entries left : List (Arc × ArcRecord)} (inOrder : InOrder events i entries)
    (sublist : left.Sublist entries)
    (still : ∀ e ∈ left, Owns i e.1 e.2 (empty.afterAll (events ++ [event]))) :
    InOrder (events ++ [event]) i left where
  added e member := by
    obtain ⟨k, added⟩ := inOrder.added e (sublist.subset member)
    exact ⟨k, added.concat (still e member)⟩
  ordered := by
    refine (inOrder.ordered.sublist sublist).imp_of_mem ?_
    rintro e f first second ⟨k, l, less, addedFirst, addedSecond⟩
    exact ⟨k, l, less, addedFirst.concat (still e first), addedSecond.concat (still f second)⟩

/-- An entry that the last event added stands behind the others. -/
theorem InOrder.append {entries : List (Arc × ArcRecord)} {last : Arc × ArcRecord}
    (inOrder : InOrder events i entries)
    (still : ∀ e ∈ entries, Owns i e.1 e.2 (empty.afterAll (events ++ [event])))
    (added : AddedAt (events ++ [event]) i last.1 last.2 events.length) :
    InOrder (events ++ [event]) i (entries ++ [last]) := by
  have kept : InOrder (events ++ [event]) i entries := inOrder.concat (.refl _) still
  refine ⟨fun e member => ?_, ?_⟩
  · rcases List.mem_append.mp member with before | isLast
    · exact kept.added e before
    · rw [List.mem_singleton.mp isLast]
      exact ⟨_, added⟩
  · refine List.pairwise_append.mpr ⟨kept.ordered, List.pairwise_singleton _ _, ?_⟩
    intro e member f isLast
    rw [List.mem_singleton.mp isLast]
    obtain ⟨k, before⟩ := inOrder.added e member
    exact ⟨k, events.length, before.inside, before.concat (still e member), added⟩

/-- After every history the records of an overlay stand in the order of the additions. -/
theorem inOrder_afterAll (events : List Event) {o : Overlay}
    (found : (empty.afterAll events).layers[i]? = some (.overlay o base)) :
    InOrder events i o.arcs.entries := by
  induction events using List.reverseRecOn generalizing o with
  | nil => cases found
  | append_singleton events event ih =>
      have sound := sound_empty.afterAll events
      have still : ∀ e ∈ o.arcs.entries, Owns i e.1 e.2 (empty.afterAll (events ++ [event])) :=
        fun e member => ⟨o, base, found, (o.arcs.mem_entries_iff e.1 e.2).mp member⟩
      rw [afterAll_concat] at found
      rcases sound.layer_after found with same | ⟨_, made⟩ | ⟨former, there, _, turns⟩
      · exact (ih same).concat (.refl _) still
      · cases made
        exact ⟨nofun, .nil⟩
      · cases turns with
        | called becomes =>
            cases becomes with
            | @overlay p _ _ performed =>
                rcases Overlay.arcs_of_perform performed with
                  sublist | ⟨a, r, tail, head, new, eq⟩
                · exact (ih there).concat sublist still
                · rw [eq, OrderedMap.entries_insert_of_absent new] at still ⊢
                  have hasNode : ∀ n, ((empty.afterAll events).graph i).hasNode n =
                      p.hasNode ((empty.afterAll events).baseGraph i) n := fun n => by
                    rw [sound.graph_eq there]
                    rfl
                  refine (ih there).append (fun e member => still e (List.mem_append_left _ member))
                    (addedAt_length ?_ ((hasNode _).trans tail) ((hasNode _).trans head) ?_)
                  · rintro q ⟨p', b, there', recorded⟩
                    cases there.symm.trans there'
                    cases new.symm.trans (OrderedMap.contains_of_get? recorded)
                  · exact still _ (List.mem_append_right _ (List.mem_singleton_self _))

/-- What an overlay records of its arcs after a history, and which of them it shows. -/
structure RecordsExactly (events : List Event) (i base : Nat) (o : Overlay) : Prop where
  /-- The index lists at a node the arcs that have it as an end, hidden ones included. -/
  mem_ownAt : ∀ n a, a ∈ o.ownAt n ↔ ∃ r, o.arcs.get? a = some r ∧ (r.tail = n ∨ r.head = n)
  nodup_ownAt : ∀ n, (o.ownAt n).Nodup
  ownAt_ordered : ∀ n, (o.ownAt n).Pairwise (AddedBefore events i)
  noneBare : ∀ n as, o.arcsAt.get? n = some as → as.isEmpty = false
  arcs_ordered : o.arcs.keys.Pairwise (AddedBefore events i)
  /-- The edges are the arcs that are recorded as such, in the order of the records. -/
  edges : o.edges.keys = o.arcs.keysWhere (·.isEdge)
  added : ∀ a r, o.arcs.get? a = some r → ∃ k, AddedAt events i a r k
  hidden : ∀ a r, o.arcs.get? a = some r → o.LacksEnd ((empty.afterAll events).graph base) r →
    ((empty.afterAll events).graph i).Hides ((empty.afterAll events).graph base) a
  shown : ∀ a r, o.arcs.get? a = some r → ¬ o.LacksEnd ((empty.afterAll events).graph base) r →
    ((empty.afterAll events).graph i).Shows a r
  /-- What is refused changes nothing. -/
  refused : ∀ event fault, (empty.afterAll events).perform event = .error fault →
    (empty.afterAll events).after event = empty.afterAll events

/-- After every history an overlay records exactly the arcs it was given and has not deleted, by
their ends, as edges and in the order in which they came, and hides those that lack an end. -/
theorem recordsExactly_afterAll (events : List Event)
    (found : (empty.afterAll events).layers[i]? = some (.overlay o base)) :
    RecordsExactly events i base o := by
  have sound := sound_empty.afterAll events
  obtain ⟨consistent, below⟩ := sound _ _ found
  have inOrder := inOrder_afterAll events found
  have before : o.arcs.keys.Pairwise (AddedBefore events i) := by
    refine List.pairwise_map.mpr (inOrder.ordered.imp ?_)
    rintro e f ⟨k, l, less, first, second⟩
    exact ⟨k, l, e.2, f.2, less, first, second⟩
  have graph := graph_of_view found rfl below
  exact {
    mem_ownAt := fun n a => consistent.mem_ownAt
    nodup_ownAt := fun n => consistent.nodup_ownAt
    ownAt_ordered := fun n => by
      rw [consistent.indexed, OrderedMap.keysWhere_eq_filter]
      exact before.filter _
    noneBare := consistent.noneBare
    arcs_ordered := before
    edges := consistent.edges
    added := fun a r recorded => inOrder.added (a, r) ((o.arcs.mem_entries_iff a r).mpr recorded)
    hidden := fun a r recorded lacks => graph ▸ Overlay.hides_of_lacksEnd recorded lacks
    shown := fun a r recorded both => graph ▸ consistent.shows_of_not_lacksEnd recorded both
    refused := fun event fault refused => by rw [Store.after_eq, refused] }

/-- An overlay joins a node of its own to a node of its base, with a loop and parallel arcs to
another node of the base, which is deleted and comes back. -/
def endReturned : List Event :=
  [.stored, .change 0 [] (.addNode none none), .change 0 [] (.addNode none none), .overlay 0,
    .change 1 [7] (.addNode none none),
    .change 1 [] (.addArc ⟨7⟩ ⟨1⟩ .undirected (some (.int 9)) none),
    .change 1 [] (.addArc ⟨7⟩ ⟨7⟩ .directed (some (.int 4)) none),
    .change 1 [] (.addArc ⟨2⟩ ⟨7⟩ .directed (some (.int 6)) none),
    .change 1 [] (.addArc ⟨7⟩ ⟨2⟩ .undirected (some (.int 5)) none),
    .change 0 [] (.deleteNode ⟨2⟩), .change 1 [] (.deleteArc ⟨6⟩),
    .change 1 [] (.addArc ⟨2⟩ ⟨7⟩ .directed (some (.int 6)) none),
    .change 0 [] (.addNode (some (.int 2)) none),
    .change 1 [] (.addArc ⟨2⟩ ⟨7⟩ .directed (some (.int 3)) none)]

section Evaluation

-- The queries are defined by recursion on positions, which is opened to evaluate them here.
unseal graph

/-- The loop is listed once, the deleted arc is not, and the refused one never was. -/
theorem recordsExactly_afterAll_endReturned :
    ∃ o, (empty.afterAll endReturned).layers[1]? = some (.overlay o 0) ∧
      RecordsExactly endReturned 1 0 o ∧ o.ownAt ⟨7⟩ = [⟨9⟩, ⟨4⟩, ⟨5⟩, ⟨3⟩] ∧
      o.ownAt ⟨2⟩ = [⟨5⟩, ⟨3⟩] ∧ o.edges.keys = [⟨9⟩, ⟨5⟩] := by
  obtain ⟨o, found⟩ : ∃ o, (empty.afterAll endReturned).layers[1]? = some (.overlay o 0) := ⟨_, rfl⟩
  refine ⟨o, found, recordsExactly_afterAll endReturned found, ?_⟩
  cases found
  decide

end Evaluation

end Store

end ArcSelection
