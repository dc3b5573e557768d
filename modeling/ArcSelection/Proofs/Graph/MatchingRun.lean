import ArcSelection.Proofs.Graph.History
import ArcSelection.Proofs.Graph.Matching

/-!
# A matching while its base changes

Arcs are switched on and off in a matching while its base changes underneath. An arc that
leaves the base may stay in the selection and in the index, where it can no longer be
seen. As long as it does not come back, the index and the selection tell the same, and the
matching stays a matching.
-/

namespace ArcSelection

namespace StoredGraph

variable {g next : StoredGraph} {a : Arc} {r : ArcRecord}

/-- A call that is not refused leaves the record of an arc as it is, or removes it. -/
theorem get?_arcs_perform {call : Change} (performed : g.perform call = .ok next)
    (found : g.arcs.get? a = some r) :
    next.arcs.get? a = some r ∨ next.arcs.get? a = none := by
  cases call with
  | addNode id properties =>
      obtain ⟨⟨n, g'⟩, added, rfl⟩ := Fallible.map_eq_ok_iff.mp performed
      obtain ⟨_, ⟨_, rfl, rfl⟩ | ⟨_, rfl⟩⟩ := addNode_cases added
      · exact .inl found
      · exact .inl found
  | addArc u v direction id properties =>
      obtain ⟨⟨b, g'⟩, added, rfl⟩ := Fallible.map_eq_ok_iff.mp performed
      obtain ⟨_, _, absent, added⟩ := addArc_cases added
      have different : b ≠ a := by
        rintro rfl
        cases absent.symm.trans (OrderedMap.contains_of_get? found)
      rcases added with ⟨_, rfl, rfl⟩ | ⟨_, rfl⟩
      · exact .inl ((OrderedMap.get?_insert_of_ne _ different _).trans found)
      · exact .inl ((OrderedMap.get?_insert_of_ne _ different _).trans found)
  | deleteNode n =>
      cases performed
      unfold deleteNode
      split
      · rw [get?_arcs_deleteArcs]
        split
        · exact .inr rfl
        · exact .inl found
      · exact .inl found
  | deleteArc b =>
      cases performed
      rw [get?_arcs_deleteArc]
      split
      · exact .inr rfl
      · exact .inl found
  | clear =>
      cases performed
      exact .inr rfl
  | setNodeProperties n properties =>
      simp only [perform] at performed
      split at performed
      · cases performed
        exact .inl found
      · cases performed
  | setArcProperties b properties =>
      simp only [perform] at performed
      split at performed
      · cases performed
        exact .inl found
      · cases performed

/-- A call leaves the record of an arc, or takes it away. -/
theorem get?_arcs_after (call : Change) (found : g.arcs.get? a = some r) :
    (g.after call).arcs.get? a = some r ∨ (g.after call).arcs.get? a = none := by
  rw [after_eq]
  split
  · exact get?_arcs_perform ‹_› found
  · exact .inl found

end StoredGraph

namespace Matching

/-- The matching remembers the arc, in its selection or in its index. -/
def Remembers (m : Matching) (a : Arc) : Prop :=
  m.selection.isEnabled a = true ∨ ∃ n, m.matched.get? n = some a

/-- A matching agrees on an arc that it does not remember. -/
theorem agreesOn_of_forgotten {m : Matching} {base : Graph} {a : Arc}
    (forgotten : ¬ m.Remembers a) : m.AgreesOn base a := fun n =>
  iff_of_false (fun found => forgotten (.inr ⟨n, found⟩)) fun shown => forgotten (.inl shown.1)

/-- A matching and its base as they change together, with the arcs that the base has lost
since the matching was made. None of them is added again. -/
inductive Run : StoredGraph → Matching → List Arc → Prop
  | start (changes : List Change) : Run (StoredGraph.empty.afterAll changes) .empty []
  | change {g : StoredGraph} {m : Matching} {gone : List Arc} (prior : Run g m gone) (call : Change)
      (never : ∀ a ∈ gone, (g.after call).arcs.contains a = false) :
      Run (g.after call) m (gone ++ g.arcs.keys.filter fun a => !(g.after call).arcs.contains a)
  | switch {g : StoredGraph} {m : Matching} {gone : List Arc} (prior : Run g m gone) (a : Arc)
      (on : Bool) : Run g (m.after g.graph a on) gone

/-- The queries of a matching over a base show a matching, and agree on it. -/
structure Faithful (m : Matching) (base : Graph) : Prop where
  /-- A node is an end of one visible arc at most. -/
  atMostOne : ∀ n, ∀ a ∈ (m.graphOver base).arcs .all, ∀ b ∈ (m.graphOver base).arcs .all,
    base.touches a n = true → base.touches b n = true → a = b
  loopless : ∀ a ∈ (m.graphOver base).arcs .all, base.tail a ≠ base.head a
  /-- The index gives a node the visible arc at it, and nothing if there is none. -/
  matchedArc?_iff : ∀ n a, m.matchedArc? base n = some a ↔
    a ∈ (m.graphOver base).arcs .all ∧ base.touches a n = true
  /-- The index finds what a scan of the visible arcs finds. -/
  incidentArcs_eq : ∀ n f,
    (m.graphOver base).incidentArcs n f = (m.selection.graphOver base).incidentArcs n f
  isPerfect_iff : m.isPerfect base = true ↔
    ∀ n ∈ base.nodes, ∃ a ∈ (m.graphOver base).arcs .all, base.touches a n = true
  /-- Every visible arc matches two nodes, all of them in the base. -/
  two_mul_arcCount : 2 * (m.graphOver base).arcCount .all =
    (base.nodes.filter fun n => (m.matchedArc? base n).isSome).length
  mem_nodes_of_matched : ∀ n, (m.matchedArc? base n).isSome = true → n ∈ base.nodes
  /-- An arc is refused if it is not on yet and is foreign, a loop, or shares a node with
  another visible arc. -/
  refused_iff : ∀ a, (∃ fault, m.enable base a = .error fault ∧ fault.kind = .invalid) ↔
    m.selection.isEnabled a = false ∧
      (base.hasArc a = false ∨ base.tail a = base.head a ∨
        ∃ b ∈ (m.graphOver base).arcs .all, b ≠ a ∧
          ∃ n, base.touches a n = true ∧ base.touches b n = true)
  /-- There is no other way to be refused, and it changes nothing. -/
  refused : ∀ a fault, m.enable base a = .error fault →
    fault.kind = .invalid ∧ m.after base a true = m

/-- An exact index is faithful. -/
theorem Exact.faithful {m : Matching} {g : StoredGraph} (exact : m.Exact g.graph)
    (lawful : g.graph.Lawful) : m.Faithful g.graph where
  atMostOne n a first b second atFirst atSecond :=
    exact.eq_of_touches first second atFirst atSecond
  loopless a listed := exact.loopless listed
  matchedArc?_iff n a := exact.matchedArc?_iff
  incidentArcs_eq n f := exact.incidentArcs_eq n f
  isPerfect_iff := by
    change (g.graph.nodes.all fun n => (m.matchedArc? g.graph n).isSome) = true ↔ _
    simp only [List.all_eq_true, Option.isSome_iff_exists, exact.matchedArc?_iff]
  two_mul_arcCount := exact.two_mul_arcCount lawful
  mem_nodes_of_matched n matched := by
    obtain ⟨a, found⟩ := Option.isSome_iff_exists.mp matched
    obtain ⟨listed, touched⟩ := exact.matchedArc?_iff.mp found
    exact lawful.mem_nodes_of_touches ((lawful.mem_arcs a).mpr (mem_arcs.mp listed).2) touched
  refused_iff a := by
    rw [← exact.refused_iff]
    refine ⟨fun ⟨fault, eq, _⟩ => ⟨fault, eq⟩, fun ⟨fault, eq⟩ => ⟨fault, eq, ?_⟩⟩
    exact kind_of_refused eq
  refused a fault eq := ⟨kind_of_refused eq, by rw [Matching.after_eq, switch, if_pos rfl, eq]⟩

section Run

variable {g next : StoredGraph} {m m' : Matching} {gone : List Arc} {a : Arc}

/-- Joining an arc remembers no other. -/
theorem remembers_of_join {base : Graph} {b : Arc} (remembers : (m.join base a).Remembers b) :
    m.Remembers b ∨ a = b := by
  rcases remembers with on | ⟨n, found⟩
  · rw [join, isEnabled_enable] at on
    split at on
    · exact .inr ‹_›
    · exact .inl (.inl on)
  · simp only [join, OrderedMap.get?_insert] at found
    split at found
    · cases found
      exact .inr rfl
    · split at found
      · cases found
        exact .inr rfl
      · exact .inl (.inr ⟨n, found⟩)

/-- Disabling an arc remembers none. -/
theorem remembers_of_disable {base : Graph} {b : Arc}
    (remembers : (m.disable base a).Remembers b) : m.Remembers b := by
  unfold disable at remembers
  split at remembers
  · rcases remembers with on | ⟨n, found⟩
    · rw [isEnabled_enable] at on
      split at on
      · cases on
      · exact .inl on
    · rw [get?_forget_forget] at found
      split at found
      · cases found
      · exact .inr ⟨n, found⟩
  · exact remembers

/-- A matching only learns of arcs of the base. -/
theorem remembers_of_after {base : Graph} {on : Bool} {b : Arc}
    (remembers : (m.after base a on).Remembers b) : m.Remembers b ∨ base.hasArc b = true := by
  rw [Matching.after_eq] at remembers
  cases on with
  | true =>
      simp only [switch, if_true] at remembers
      rcases m.enable_cases base a with
        ⟨_, eq⟩ | ⟨_, ⟨_, fault, eq, _⟩ | ⟨⟨has, _⟩, eq⟩⟩ <;>
        rw [eq] at remembers
      · exact .inl remembers
      · exact .inl remembers
      · exact (remembers_of_join remembers).imp_right fun (same : a = b) => same ▸ has
  | false => exact .inl (remembers_of_disable remembers)

/-- An index that is exact stays so if the base keeps the records of the arcs that the
matching remembers, as far as it keeps these arcs. -/
theorem Exact.of_kept (exact : m.Exact g.graph)
    (kept : ∀ a, m.Remembers a → next.arcs.contains a = true →
      next.arcs.get? a = g.arcs.get? a) : m.Exact next.graph := by
  refine exact_iff.mpr fun a has => ?_
  by_cases remembers : m.Remembers a
  · have record := kept a remembers has
    have had : g.graph.hasArc a = true := by
      change g.arcs.contains a = true
      rwa [OrderedMap.contains_eq_isSome, ← record, ← OrderedMap.contains_eq_isSome]
    have tail : next.graph.tail a = g.graph.tail a := by
      simp only [StoredGraph.graph, StoredGraph.ends, record]
    have head : next.graph.head a = g.graph.head a := by
      simp only [StoredGraph.graph, StoredGraph.ends, record]
    obtain ⟨agrees, loopless⟩ := exact_iff.mp exact a had
    refine ⟨agrees.of_ends tail head, fun on => ?_⟩
    rw [tail, head]
    exact loopless on
  · exact ⟨agreesOn_of_forgotten remembers, fun on => absurd (.inl on) remembers⟩

/-- What a run keeps: the index is exact, and an arc that the matching remembers is in the
base or has left it. -/
theorem Run.sound (run : Run g m gone) :
    g.Consistent ∧ m.Exact g.graph ∧
      ∀ a, m.Remembers a → g.arcs.contains a = true ∨ a ∈ gone := by
  induction run with
  | start changes =>
      refine ⟨StoredGraph.consistent_empty.afterAll changes, exact_empty _, ?_⟩
      rintro a (on | ⟨n, found⟩)
      · cases on
      · cases found
  | @change g m gone _ call never sound =>
      obtain ⟨consistent, exact, known⟩ := sound
      -- An arc that is remembered and in the base now has been there all along.
      have stays : ∀ a, m.Remembers a → (g.after call).arcs.contains a = true →
          g.arcs.contains a = true := by
        intro a remembers has
        refine (known a remembers).resolve_right fun lost => ?_
        cases has.symm.trans (never a lost)
      refine ⟨consistent.after call, exact.of_kept fun a remembers has => ?_,
        fun a remembers => ?_⟩
      · have had := stays a remembers has
        rw [OrderedMap.contains_eq_isSome, Option.isSome_iff_exists] at had
        obtain ⟨r, found⟩ := had
        rcases StoredGraph.get?_arcs_after call found with same | none
        · rw [same, found]
        · cases has.symm.trans ((OrderedMap.get?_eq_none_iff _ _).mp none)
      · cases has : (g.after call).arcs.contains a with
        | true => exact .inl rfl
        | false =>
            refine .inr (List.mem_append.mpr ?_)
            rcases known a remembers with had | lost
            · refine .inr (List.mem_filter.mpr ⟨(OrderedMap.mem_keys_iff _ _).mpr had, ?_⟩)
              rw [has, Bool.not_false]
            · exact .inl lost
  | switch _ a on sound =>
      obtain ⟨consistent, exact, known⟩ := sound
      refine ⟨consistent, exact.after a on, fun b remembers => ?_⟩
      rcases remembers_of_after remembers with remembered | has
      · exact known b remembered
      · exact .inl has

/-- After every run the queries of the matching show a matching, and agree on it. -/
theorem faithful_of_run (run : Run g m gone) : m.Faithful g.graph := by
  obtain ⟨consistent, exact, _⟩ := run.sound
  exact exact.faithful consistent.lawful

end Run

/-- A path of three nodes, whose last arc is an edge. -/
def path : List Change :=
  [.addNode none none, .addNode none none, .addNode none none,
    .addArc ⟨1⟩ ⟨2⟩ .directed none none, .addArc ⟨2⟩ ⟨3⟩ .undirected none none]

/-- The first arc of the path is switched on and deleted. Then the second one takes its
node, and the first is switched off. -/
theorem faithful_of_run_path :
    ∃ g m, Run g m [⟨1⟩] ∧ (m.graphOver g.graph).arcs .all = [⟨2⟩] ∧ m.Faithful g.graph := by
  have matched := Run.switch (.start path) ⟨1⟩ true
  have deleted := Run.change matched (.deleteArc ⟨1⟩) nofun
  have moved := Run.switch (Run.switch deleted ⟨2⟩ true) ⟨1⟩ false
  exact ⟨_, _, moved, by decide, faithful_of_run moved⟩

end Matching

end ArcSelection
