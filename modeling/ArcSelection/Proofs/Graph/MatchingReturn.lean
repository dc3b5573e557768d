import ArcSelection.Proofs.Graph.MatchingRun
import ArcSelection.Proofs.Graph.Store

/-!
# Arcs that come back to the base of a matching

An arc may leave the base of a matching and come back later: it is deleted and added again
under its id, or switched off and on in a selection that is the base. Meanwhile the
matching may have switched the arc off, or given its nodes to other arcs, or the arc may
have other ends than before. Then the index tells what was true when the arc left, and the
arcs it finds at a node are not those of a scan. It tells the truth about every other arc,
whatever happens, so that the two queries differ exactly if they differ about an arc that
came back while the matching remembered it.
-/

namespace ArcSelection

namespace Store

/-- The graph at a position is a stored graph, or a selection over such a graph. -/
inductive Narrows (s : Store) : Nat → StoredGraph → Prop
  | stored {i : Nat} {g : StoredGraph} (found : s.layers[i]? = some (.stored g)) : Narrows s i g
  | selection {i base : Nat} {view : Selection} {g : StoredGraph}
      (found : s.layers[i]? = some (.selection view base)) (below : Narrows s base g) :
      Narrows s i g

variable {s : Store} {i : Nat} {g : StoredGraph} {a : Arc}

/-- The arcs of a narrowed graph have the ends that the stored graph gives them. -/
theorem Narrows.toEnds (narrows : s.Narrows i g) (sound : s.Sound) :
    (s.graph i).toEnds = g.ends := by
  induction narrows with
  | stored found => rw [graph_of_ground found rfl]; rfl
  | selection found _ ih =>
      rw [graph_of_view found rfl ((sound _ _ found).base_lt rfl)]
      exact ih

/-- The arcs of a narrowed graph are recorded in the stored graph. -/
theorem Narrows.contains (narrows : s.Narrows i g) (sound : s.Sound)
    (has : (s.graph i).hasArc a = true) : g.arcs.contains a = true := by
  induction narrows with
  | stored found =>
      rw [graph_of_ground found rfl] at has
      exact has
  | selection found _ ih =>
      rw [graph_of_view found rfl ((sound _ _ found).base_lt rfl)] at has
      exact ih (Bool.and_eq_true_iff.mp has).2

/-- An event leaves the record of an arc as it is, or removes it. -/
theorem Narrows.before {event : Event} (narrows : (s.after event).Narrows i g) (sound : s.Sound)
    (there : i < s.layers.length) :
    ∃ former, s.Narrows i former ∧ ∀ a r, former.arcs.get? a = some r →
      g.arcs.get? a = some r ∨ g.arcs.get? a = none := by
  induction narrows with
  | stored found =>
      rcases sound.layer_after found with
        same | ⟨atEnd, _⟩ | ⟨former, same, _, turns⟩
      · exact ⟨_, .stored same, fun _ _ recorded => .inl recorded⟩
      · omega
      · cases turns with
        | called becomes =>
            cases becomes with
            | stored performed =>
                exact ⟨_, .stored same, fun _ _ => StoredGraph.get?_arcs_perform performed⟩
  | selection found _ ih =>
      rcases sound.layer_after found with
        same | ⟨atEnd, _⟩ | ⟨former, same, _, turns⟩
      · obtain ⟨former, below, kept⟩ := ih (((sound _ _ same).base_lt rfl).trans there)
        exact ⟨former, .selection same below, kept⟩
      · omega
      · cases turns with
        | called becomes => cases becomes
        | selection a on =>
            obtain ⟨former, below, kept⟩ := ih (((sound _ _ same).base_lt rfl).trans there)
            exact ⟨former, .selection same below, kept⟩

/-- An arc that stays in a narrowed graph keeps its ends. -/
theorem Narrows.ends_after {event : Event} (narrows : (s.after event).Narrows i g)
    (sound : s.Sound) (there : i < s.layers.length) (had : (s.graph i).hasArc a = true)
    (has : ((s.after event).graph i).hasArc a = true) :
    ((s.after event).graph i).tail a = (s.graph i).tail a ∧
      ((s.after event).graph i).head a = (s.graph i).head a := by
  obtain ⟨former, before, kept⟩ := narrows.before sound there
  have recorded := before.contains sound had
  rw [OrderedMap.contains_eq_isSome, Option.isSome_iff_exists] at recorded
  obtain ⟨r, found⟩ := recorded
  have still : g.arcs.get? a = some r := by
    refine (kept a r found).resolve_right fun lost => ?_
    have gone := (OrderedMap.get?_eq_none_iff _ _).mp lost
    cases gone.symm.trans (narrows.contains (sound.after event) has)
  rw [narrows.toEnds (sound.after event), before.toEnds sound]
  simp only [StoredGraph.ends, found, still, and_self]

/-- The event brings the arc into the base of the matching at a position, which remembers
the arc. -/
def BringsBack (i : Nat) (a : Arc) (s : Store) (event : Event) : Prop :=
  ∃ m base, s.layers[i]? = some (.matching m base) ∧ m.Remembers a ∧
    (s.graph base).hasArc a = false ∧ ((s.after event).graph base).hasArc a = true

/-- After every history the index of a matching agrees with its selection on every arc of
the base that did not come back. -/
theorem agreesOn_afterAll (events : List Event) {i base : Nat} {m : Matching} {g : StoredGraph}
    (found : (empty.afterAll events).layers[i]? = some (.matching m base))
    (narrows : (empty.afterAll events).Narrows base g) {a : Arc}
    (has : ((empty.afterAll events).graph base).hasArc a = true)
    (stayed : ¬ Happened (BringsBack i a) events) :
    m.AgreesOn ((empty.afterAll events).graph base) a := by
  induction events using List.reverseRecOn generalizing m g with
  | nil => cases found
  | append_singleton events event ih =>
      have sound := sound_empty.afterAll events
      obtain ⟨stayedBefore, staysNow⟩ := not_or.mp (mt happened_of_concat stayed)
      rw [afterAll_concat] at found narrows has ⊢
      rcases sound.layer_after found with
        same | ⟨_, made⟩ | ⟨former, there, eq, turns⟩
      · have below : base < i := (sound _ _ same).base_lt rfl
        have inside := below.trans (List.getElem?_eq_some_iff.mp same).1
        by_cases remembers : m.Remembers a
        · -- The arc is remembered and there now, so it was there before the event as well.
          have had : ((empty.afterAll events).graph base).hasArc a = true := by
            by_contra absent
            exact staysNow ⟨m, base, same, remembers, by simpa using absent, has⟩
          obtain ⟨former, before, _⟩ := narrows.before sound inside
          obtain ⟨tail, head⟩ := narrows.ends_after sound inside had has
          exact (ih same before had stayedBefore).of_ends tail head
        · exact Matching.agreesOn_of_forgotten remembers
      · cases made
        exact Matching.agreesOn_of_forgotten (by rintro (on | ⟨n, kept⟩) <;> contradiction)
      · cases turns with
        | called becomes => cases becomes
        | @matching former _ _ b on switched =>
            have below : base < i := (sound _ _ there).base_lt rfl
            have inside := below.trans (List.getElem?_eq_some_iff.mp there).1
            have sameBase := graph_set (empty.afterAll events) (.matching m base) below
            rw [eq, sameBase] at has ⊢
            obtain ⟨_, before, _⟩ := narrows.before sound inside
            have agrees := (ih there before has stayedBefore).after has b on
            rw [baseGraph_of_view there rfl below] at switched
            rwa [Matching.after_eq, switched] at agrees

/-- The arcs that a matching finds at a node through its index are those of a scan of its
arcs, at every node and for every filter, exactly if index and selection agree on the arcs
that came back to the base while the matching remembered them. -/
theorem incidentArcs_eq_scan_iff (events : List Event) {i base : Nat} {m : Matching}
    {g : StoredGraph} (found : (empty.afterAll events).layers[i]? = some (.matching m base))
    (narrows : (empty.afterAll events).Narrows base g) :
    (∀ n f, ((empty.afterAll events).graph i).incidentArcs n f =
        (m.selection.graphOver ((empty.afterAll events).graph base)).incidentArcs n f) ↔
      ∀ a, Happened (BringsBack i a) events →
        ((empty.afterAll events).graph base).hasArc a = true →
        m.AgreesOn ((empty.afterAll events).graph base) a := by
  have sound := sound_empty.afterAll events
  rw [graph_of_view found rfl ((sound _ _ found).base_lt rfl)]
  refine Matching.incidentArcs_eq_iff.trans
    ⟨fun agrees a _ has => agrees a has, fun agrees a has => ?_⟩
  by_cases back : Happened (BringsBack i a) events
  · exact agrees a back has
  · exact agreesOn_afterAll events found narrows has back

/-- Two nodes with an arc between them. -/
def arcOfTwo : List Event :=
  [.stored, .change 0 [] (.addNode none none), .change 0 [] (.addNode none none),
    .change 0 [] (.addArc ⟨1⟩ ⟨2⟩ .directed none none)]

/-- A matching over a selection in which its arc is switched off and on again. -/
def offAndOn : List Event :=
  arcOfTwo ++ [.selection 0, .enable 1 ⟨1⟩ true, .matching 1, .enable 2 ⟨1⟩ true,
    .enable 1 ⟨1⟩ false, .enable 1 ⟨1⟩ true]

/-- The arc of a matching is deleted, switched off in the matching, and added again. -/
def offWhileAway : List Event :=
  arcOfTwo ++ [.matching 0, .enable 1 ⟨1⟩ true, .change 0 [] (.deleteArc ⟨1⟩),
    .enable 1 ⟨1⟩ false, .change 0 [] (.addArc ⟨1⟩ ⟨2⟩ .directed (some (.int 1)) none)]

section Evaluation

-- The queries are defined by recursion on positions, which is opened to evaluate them here.
unseal graph

/-- The arc came back, and the index was right about it. -/
theorem incidentArcs_eq_scan_iff_offAndOn :
    Happened (BringsBack 2 ⟨1⟩) offAndOn ∧
      ∃ m g, (empty.afterAll offAndOn).layers[2]? = some (.matching m 1) ∧
        (empty.afterAll offAndOn).Narrows 1 g ∧
        ∀ n f, ((empty.afterAll offAndOn).graph 2).incidentArcs n f =
          (m.selection.graphOver ((empty.afterAll offAndOn).graph 1)).incidentArcs n f := by
  refine ⟨⟨offAndOn.dropLast, .enable 1 ⟨1⟩ true, [], rfl, _, _, rfl, .inl rfl, by decide,
    by decide⟩, _, _, rfl, .selection rfl (.stored rfl), ?_⟩
  refine (incidentArcs_eq_scan_iff offAndOn rfl (.selection rfl (.stored rfl))).mpr
    fun a _ has n => ?_
  obtain rfl : a = ⟨1⟩ := by
    have listed := (OrderedMap.mem_keys_iff _ _).mpr (Bool.and_eq_true_iff.mp has).1
    exact List.mem_singleton.mp listed
  by_cases inside : n ∈ [(⟨1⟩ : Node), ⟨2⟩]
  · rcases List.mem_pair.mp inside with rfl | rfl
    · exact iff_of_true rfl ⟨rfl, rfl⟩
    · exact iff_of_true rfl ⟨rfl, rfl⟩
  · refine iff_of_false (fun found => inside ?_) fun shown => inside ?_
    · exact (OrderedMap.mem_keys_iff_get? _ _).mpr ⟨_, found⟩
    · rcases Ends.touches_iff.mp shown.2 with rfl | rfl
      · decide
      · decide

/-- The index still finds the arc, which no scan finds. -/
theorem incidentArcs_offWhileAway :
    ∃ m g, (empty.afterAll offWhileAway).layers[1]? = some (.matching m 0) ∧
      (empty.afterAll offWhileAway).Narrows 0 g ∧
      ((empty.afterAll offWhileAway).graph 1).arcs .all = [] ∧
      ((empty.afterAll offWhileAway).graph 1).incidentArcs ⟨1⟩ .all = [⟨1⟩] ∧
      (m.selection.graphOver ((empty.afterAll offWhileAway).graph 0)).incidentArcs ⟨1⟩ .all =
        [] :=
  ⟨_, _, rfl, .stored rfl, by decide, by decide, by decide⟩

end Evaluation

end Store

end ArcSelection
