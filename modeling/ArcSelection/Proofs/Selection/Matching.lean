import ArcSelection.Proofs.Graph.Attempt
import ArcSelection.Proofs.Selection.Faithful
import ArcSelection.Proofs.Selection.Run

/-!
# Matchings found through a program

A selection converts to a matching whenever its arcs form one, in whatever order they
were switched on: the checks made while arcs are added and the bound on the degrees
accept the same sets. With a solver that settles the program, a matching task therefore
ends with a best matching in its range of sizes, or finds that there is none.
-/

namespace ArcSelection

open Decimal Fallible

namespace Matching

variable {m : Matching} {g : Graph} {done : List Arc}

/-- The matching holds the arcs in order, and its index knows ends of these arcs only. -/
structure Holds (m : Matching) (g : Graph) (done : List Arc) : Prop where
  keys : m.selection.enabled.keys = done
  index : ∀ n a, m.matched.get? n = some a → a ∈ done ∧ g.touches a n = true

/-- The empty matching has no arcs. -/
theorem Holds.empty : Matching.empty.Holds g [] := ⟨rfl, nofun⟩

/-- An arc of the graph that is no loop and shares no node with the arcs held is added. -/
theorem Holds.enable (holds : m.Holds g done) {a : Arc} (fresh : a ∉ done)
    (present : g.hasArc a = true) (loopless : g.tail a ≠ g.head a)
    (apart : ∀ b ∈ done, ∀ n, g.touches a n = true → g.touches b n = false) :
    ∃ next, m.enable g a = .ok next ∧ next.Holds g (done ++ [a]) := by
  have off : m.selection.enabled.contains a = false := by
    rw [← Bool.not_eq_true, ← OrderedMap.mem_keys_iff, holds.keys]
    exact fresh
  have free : ∀ n, g.touches a n = true → m.matched.get? n = none := by
    intro n touched
    rw [Option.eq_none_iff_forall_ne_some]
    intro b found
    obtain ⟨member, other⟩ := holds.index n b found
    rw [apart b member n touched] at other
    cases other
  have freeTail := free (g.tail a) (Ends.touches_iff.mpr (.inl rfl))
  have freeHead := free (g.head a) (Ends.touches_iff.mpr (.inr rfl))
  refine ⟨⟨m.selection.enable a true, (m.matched.insert (g.tail a) a).insert (g.head a) a⟩,
    ?_, ?_, fun n b found => ?_⟩
  · simp [Matching.enable_eq, Selection.isEnabled, off, present, conflict?, loopless, matchedArc?,
      freeTail, freeHead]
  · simp [Selection.enable, OrderedMap.keys_insert, off, holds.keys]
  · simp only [OrderedMap.get?_insert, beq_iff_eq] at found
    split at found
    · cases found
      exact ⟨by simp, Ends.touches_iff.mpr (.inr ‹_›)⟩
    · split at found
      · cases found
        exact ⟨by simp, Ends.touches_iff.mpr (.inl ‹_›)⟩
      · obtain ⟨member, touched⟩ := holds.index n b found
        exact ⟨List.mem_append_left _ member, touched⟩

end Matching

/-- A selection whose arcs form a matching converts, and keeps its arcs in order. -/
theorem toMatching_ok {g : Graph} {chosen : Selection}
    (matching : g.IsMatching (chosen.graphOver g).arcSet) :
    ∃ m, toMatching g chosen = .ok m ∧
      (m.graphOver g).arcs .all = (chosen.graphOver g).arcs .all := by
  have nodup : (chosen.arcs g .all).Nodup := chosen.enabled.nodup_keys.filter _
  have visible : ∀ a ∈ chosen.arcs g .all, g.hasArc a = true := by
    intro a member
    have shown := (List.mem_filter.mp member).2
    simpa using shown
  have inSet : ∀ a ∈ chosen.arcs g .all, a ∈ (chosen.graphOver g).arcSet :=
    fun a member => Graph.mem_arcSet.mpr member
  have step : ∀ done a rest (m : Matching), chosen.arcs g .all = done ++ a :: rest →
      m.Holds g done → ∃ next, m.enable g a = .ok next ∧ next.Holds g (done ++ [a]) := by
    intro done a rest m split holds
    have fresh := not_mem_done nodup split
    rw [split] at visible inSet
    have here : a ∈ done ++ a :: rest := by simp
    refine holds.enable fresh (visible a here) (matching.loopless a (inSet a here)) ?_
    intro b early
    exact matching.disjoint a (inSet a here) b (inSet b (List.mem_append_left _ early))
      fun same => fresh (same ▸ early)
  obtain ⟨m, converted, holds⟩ := foldlM_ok (fun done (m : Matching) => m.Holds g done) .empty step
  refine ⟨m, converted, ?_⟩
  have shown : (m.graphOver g).arcs .all = m.selection.enabled.keys :=
    Selection.arcs_eq_keys fun a member => visible a (holds.keys ▸ member)
  exact shown.trans holds.keys

namespace SelectionTask

/-- The run ends with a matching of a size in the range at the least price, kept in the order
of the arcs selected, or finds the task infeasible because there is no such matching. -/
structure FindsBest (g : Graph) (minimum maximum : Value) (price : Finset Arc → Rat)
    (r : RunResult (MatchingState Extended)) : Prop where
  infeasible : r.outcome = .ok .infeasible ↔ ∀ S, ¬ g.Fits minimum maximum S
  best : (∃ S, g.Fits minimum maximum S) → r.outcome = .ok .optimal ∧
    ∃ chosen m, r.state.run.selected = some chosen ∧ r.state.matching = some m ∧
      (m.graphOver g).arcs .all = (chosen.graphOver g).arcs .all ∧
      g.Fits minimum maximum (m.graphOver g).arcSet ∧
      ∀ S, g.Fits minimum maximum S → price (m.graphOver g).arcSet ≤ price S

/-- The run finds a best matching, or it fails as for a bad value, because an id of the graph is
too long to be spelled out. -/
structure Settled (g : Graph) (minimum maximum : Value) (price : Finset Arc → Rat)
    (r : RunResult (MatchingState Extended)) : Prop where
  found : g.SpelledIds → FindsBest g minimum maximum price r
  refused : ¬ g.SpelledIds → ∃ fault, r.outcome = .error fault ∧ fault.kind.label = "ValueError"

section Configured

variable {cost : Arc → Except Fault Value} {weight : Float} {minimum maximum : Value}
  {task : SelectionTask Value}
  (accepted : ofInput (matchingInput cost weight minimum maximum) = .ok task) {g : Graph}
  (lists : g.ListsArcs) {value : Arc → Rat}
  (reads : ∀ a ∈ g.arcs .all, ∃ v, cost a = .ok v ∧ v.ReadsAs (value a))

include accepted lists reads

/-- With a solver that settles its program, a matching configuration finds a best matching by its
weighted cost. -/
theorem findsBest_of_compile (listed : ∀ a, a ∈ g.arcs .all ↔ g.hasArc a = true)
    {p : Problem Arc Arc Extended} (compiled : task.exact.compile g = .ok p)
    {solver : Solver Arc Arc Extended} (settles : solver.Settles p)
    (before : MatchingState Extended) :
    FindsBest g minimum maximum
      (fun S => (Extended.ofFloat weight).rational * ∑ a ∈ S, value a)
      (task.exact.runMatching g solver before) := by
  have describes := describes_of_compile (finiteWeights_of_ofInput accepted) lists.nodup compiled
  have defined := definedOn_of_compile compiled
  have integral := integral_of_matchingInput accepted
  have kept : ∀ S, g.Fits minimum maximum S ↔ S ⊆ g.arcSet ∧ task.exact.KeptBy g S := fun S =>
    (fits_iff lists).trans (and_congr_right fun _ => keptBy_iff accepted defined S)
  have price : ∀ S ⊆ g.arcSet, task.exact.costIn S =
      (Extended.ofFloat weight).rational * ∑ a ∈ S, value a := fun S within =>
    (costIn_eq accepted defined lists.nodup within).trans
      (costIn_matchingInput fun a member => reads a (Graph.mem_arcSet.mp (within member)))
  obtain ⟨s, answered, trueOf, isOptimal | isInfeasible⟩ := settles
  · obtain ⟨x, chosen, optimal, outcome, selected, keys⟩ := run_of_optimal compiled describes
      integral answered isOptimal trueOf (threshold_of_matchingInput accepted) (by norm_num)
      (by norm_num) before.run
    have set := arcSet_graphOver_of_taken listed keys
    have within : (chosen.graphOver g).arcSet ⊆ g.arcSet := set ▸ Describes.taken_subset g x
    have fits : g.Fits minimum maximum (chosen.graphOver g).arcSet := (kept _).mpr
      ⟨within, set ▸ describes.keptBy_taken integral lists.nodup optimal.feasible⟩
    obtain ⟨m, converted, arcs⟩ := toMatching_ok fits.matching
    have sameSet : (m.graphOver g).arcSet = (chosen.graphOver g).arcSet :=
      congrArg List.toFinset arcs
    have run : task.exact.runMatching g solver before =
        ⟨(task.exact.run g solver before.run).log,
          ⟨some .optimal, some m, (task.exact.run g solver before.run).state⟩, .ok .optimal⟩ := by
      simp only [runMatching, outcome, selected, converted]
    rw [run]
    refine ⟨⟨nofun, fun nothing => absurd fits (nothing _)⟩, fun _ => ⟨rfl, chosen, m, selected,
      rfl, arcs, sameSet ▸ fits, fun S smaller => ?_⟩⟩
    obtain ⟨withinS, keptS⟩ := (kept S).mp smaller
    rw [sameSet, ← price _ within, ← price S withinS, set]
    exact describes.cheapest_of_optimal integral lists.nodup optimal withinS keptS
  · have nothing : ∀ S, ¬ g.Fits minimum maximum S := by
      intro S fits
      obtain ⟨within, keptS⟩ := (kept S).mp fits
      exact trueOf.infeasible isInfeasible _ (describes.feasible_indicator lists.nodup within keptS)
    have outcome : (task.exact.runMatching g solver before).outcome = .ok .infeasible := by
      simp [runMatching, run, compiled, answered, isInfeasible, SolutionType.hasSolution]
    refine ⟨⟨fun _ => nothing, fun _ => outcome⟩, ?_⟩
    rintro ⟨S, fits⟩
    exact absurd fits (nothing S)

/-- A matching configuration that is accepted is settled by its weighted cost. -/
theorem settled_of_ofInput (listed : ∀ a, a ∈ g.arcs .all ↔ g.hasArc a = true)
    {solver : Solver Arc Arc Extended}
    (settles : ∀ p, task.exact.compile g = .ok p → solver.Settles p)
    (before : MatchingState Extended) :
    Settled g minimum maximum (fun S => (Extended.ofFloat weight).rational * ∑ a ∈ S, value a)
      (task.exact.runMatching g solver before) := by
  constructor
  · intro spelled
    obtain ⟨p, compiled, _⟩ := compile_ok (finiteWeights_of_ofInput accepted) lists.nodup
      (definedOn_of_matchingInput accepted reads spelled)
    exact findsBest_of_compile accepted lists reads listed compiled (settles p compiled) before
  · intro unspelled
    obtain ⟨fault, failed, isValue⟩ := exists_compile_error accepted
      (definedOn_matchingInput reads) (unspelled ∘ spelledOn_matchingInput_iff.mp)
    exact ⟨fault, by simp [runMatching, run, failed], isValue⟩

end Configured

/-- A run for a matching of least cost ends with one whose cost is least among the
matchings with a size in the range, and a run for a matching of greatest size with one of
greatest size; a run is infeasible exactly if no matching has a size in the range. Only an id
that is too long to be spelled out keeps a run from ending, as a bad value. -/
theorem runMatching_finds_best {g : Graph} (lists : g.ListsArcs)
    (listed : ∀ a, a ∈ g.arcs .all ↔ g.hasArc a = true) {minimum maximum : Value}
    {solver : Solver Arc Arc Extended} {task : SelectionTask Value}
    (settles : ∀ p, task.exact.compile g = .ok p → solver.Settles p)
    (before : MatchingState Extended) :
    (∀ (cost : Arc → Except Fault Value) (value : Arc → Rat),
      ofInput (leastCostInput cost minimum maximum) = .ok task →
      (∀ a ∈ g.arcs .all, ∃ v, cost a = .ok v ∧ v.ReadsAs (value a)) →
      Settled g minimum maximum (fun S => ∑ a ∈ S, value a)
        (task.exact.runMatching g solver before)) ∧
    (ofInput (greatestSizeInput minimum maximum) = .ok task →
      Settled g minimum maximum (fun S => -S.card)
        (task.exact.runMatching g solver before)) := by
  constructor
  · intro cost value accepted reads
    have unit : Extended.ofFloat 1.0 = .finite 1 := by decide +kernel
    have settled := settled_of_ofInput accepted lists reads listed settles before
    simpa [unit] using settled
  · intro accepted
    have unit : Extended.ofFloat 1.0 = .finite 1 := by decide +kernel
    have minusUnit : Extended.ofFloat (-1.0) = .finite (-1) := by decide +kernel
    have reads : ∀ a ∈ g.arcs .all, ∃ v, (.ok (.float 1.0) : Except Fault Value) = .ok v ∧
        v.ReadsAs ((fun _ : Arc => 1) a) := fun a _ => ⟨_, rfl, _, rfl, unit⟩
    have settled := settled_of_ofInput accepted lists reads listed settles before
    simpa [minusUnit] using settled

/-- The values that take the first arc of the pair only. -/
def firstOnly : Solution Arc Extended :=
  ⟨.optimal, none, [(⟨1⟩, .finite 1), (⟨2⟩, .finite 0), (⟨3⟩, .finite 0)]⟩

/-- Taking the first arc only settles the program of the pair. -/
theorem settles_firstOnly {cost : Arc → Except Fault Value} {weight : Float}
    {task : SelectionTask Value}
    (accepted : ofInput (matchingInput cost weight (.int 1) (.int 1)) = .ok task)
    {value : Arc → Rat}
    (reads : ∀ a ∈ mixedPair.graph.arcs .all, ∃ v, cost a = .ok v ∧ v.ReadsAs (value a))
    (least : ∀ a ∈ mixedPair.graph.arcs .all,
      (Extended.ofFloat weight).rational * value ⟨1⟩ ≤
        (Extended.ofFloat weight).rational * value a) :
    ∀ p, task.exact.compile mixedPair.graph = .ok p →
      (Solver.answering firstOnly).Settles p := by
  intro p compiled
  exact ⟨firstOnly, rfl, trueOf_of_near_first accepted reads least compiled rfl
    (by decide +kernel), .inl rfl⟩

theorem not_spelledIds_distantNode : ¬ distantNode.graph.SpelledIds := by
  intro spelled
  obtain ⟨n, member, unwritable⟩ := not_isWritable_distantNode
  cases unwritable.symm.trans (spelled.nodes n member)

/-- Both tasks find the first arc of a pair, and neither ends on a graph with a long id. -/
theorem runMatching_finds_best_mixedPair :
    mixedPair.graph.ListsArcs ∧
      (∀ a, a ∈ mixedPair.graph.arcs .all ↔ mixedPair.graph.hasArc a = true) ∧
      mixedPair.graph.SpelledIds ∧
      (∃ task, ofInput leastArc = .ok task ∧
        (∀ p, task.exact.compile mixedPair.graph = .ok p →
          (Solver.answering firstOnly).Settles p) ∧
        FindsBest mixedPair.graph (.int 1) (.int 1) (fun S => ∑ a ∈ S, (a.id : Rat))
          (task.exact.runMatching mixedPair.graph (Solver.answering firstOnly) .blank)) ∧
      (∃ task, ofInput (greatestSizeInput (.int 1) (.int 1)) = .ok task ∧
        (∀ p, task.exact.compile mixedPair.graph = .ok p →
          (Solver.answering firstOnly).Settles p) ∧
        FindsBest mixedPair.graph (.int 1) (.int 1) (fun S => -S.card)
          (task.exact.runMatching mixedPair.graph (Solver.answering firstOnly) .blank)) ∧
      ∃ task, ofInput (greatestSizeInput (.int 1) (.int 1)) = .ok task ∧
        (∀ p, task.exact.compile distantNode.graph = .ok p →
          (Solver.answering firstOnly).Settles p) ∧
        ∃ fault, (task.exact.runMatching distantNode.graph (Solver.answering firstOnly)
          .blank).outcome = .error fault ∧ fault.kind.label = "ValueError" := by
  have listed : ∀ a, a ∈ mixedPair.graph.arcs .all ↔ mixedPair.graph.hasArc a = true :=
    fun a => OrderedMap.mem_keys_iff _ a
  obtain ⟨task, accepted⟩ : ∃ task, ofInput (greatestSizeInput (.int 1) (.int 1)) = .ok task :=
    ⟨_, rfl⟩
  have unit : Extended.ofFloat 1.0 = .finite 1 := by decide +kernel
  have reads : ∀ g : Graph, ∀ a ∈ g.arcs .all,
      ∃ v, (.ok (.float 1.0) : Except Fault Value) = .ok v ∧ v.ReadsAs ((fun _ : Arc => 1) a) :=
    fun _ _ _ => ⟨_, rfl, _, rfl, unit⟩
  refine ⟨listsArcs_mixedPair, listed, spelledIds_mixedPair, ?_, ?_, ?_⟩
  · obtain ⟨task, accepted⟩ : ∃ task, ofInput leastArc = .ok task := ⟨_, rfl⟩
    have settles := settles_firstOnly accepted reads_mixedPair (by decide +kernel)
    exact ⟨task, accepted, settles, ((runMatching_finds_best listsArcs_mixedPair listed settles
      .blank).1 _ _ accepted reads_mixedPair).found spelledIds_mixedPair⟩
  · have settles := settles_firstOnly accepted (reads _) fun a _ => le_rfl
    exact ⟨task, accepted, settles, ((runMatching_finds_best listsArcs_mixedPair listed settles
      .blank).2 accepted).found spelledIds_mixedPair⟩
  · have settles : ∀ p, task.exact.compile distantNode.graph = .ok p →
        (Solver.answering firstOnly).Settles p := by
      intro p compiled
      obtain ⟨_, failed, _⟩ := exists_compile_error accepted (definedOn_matchingInput (reads _))
        (not_spelledIds_distantNode ∘ spelledOn_matchingInput_iff.mp)
      cases failed.symm.trans compiled
    exact ⟨task, accepted, settles, ((runMatching_finds_best listsArcs_distantNode
      (fun a => OrderedMap.mem_keys_iff _ a) settles .blank).2 accepted).refused
        not_spelledIds_distantNode⟩

end SelectionTask

end ArcSelection
