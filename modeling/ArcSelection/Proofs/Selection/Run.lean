import ArcSelection.Proofs.Selection.MatchingTask
import ArcSelection.Selection.Run
import Mathlib.Tactic.Linarith

/-!
# What a run selects

A run decodes the values of a solution arc by arc. When the values lie close to an
integral point, the arcs that reach the threshold are the arcs that point takes, so a
run of an integer task returns a cheapest set of arcs that keeps the bounds.
-/

namespace ArcSelection

open Decimal Fallible

/-- The degree of a node as its incident arcs show it. -/
def Graph.degreeAt (g : Graph) (k : DegreeKind) (n : Node) : Nat :=
  ((g.incidentArcs n .all).map fun a => g.multiplicity k a n).sum

/-- The arcs of a graph keep every bound of a configuration: the degrees at every node, and their
number. -/
def TaskInput.KeptIn (input : TaskInput) (g : Graph) : Prop :=
  input.Admits g.nodes (fun k n => g.degreeAt k n) (g.arcCount .all)

namespace Selection

variable {g : Graph} {chosen : Selection}

/-- A selection of arcs of the graph shows them all. -/
theorem arcs_eq_keys (present : ∀ a ∈ chosen.enabled.keys, g.hasArc a = true) :
    (chosen.graphOver g).arcs .all = chosen.enabled.keys := by
  refine List.filter_eq_self.mpr fun a member => ?_
  simp [present a member]

/-- The degrees a selection shows are those of its set of arcs. -/
theorem degreeAt_graphOver (k : DegreeKind) (n : Node)
    (nodup : ((chosen.graphOver g).arcs .all).Nodup) :
    (chosen.graphOver g).degreeAt k n = g.degreeIn (chosen.graphOver g).arcSet k n := by
  have incident : (chosen.graphOver g).incidentArcs n .all =
      ((chosen.graphOver g).arcs .all).filter fun a => g.touches a n :=
    List.filter_congr fun a _ => by simp [Ends.passes]
  rw [Graph.degreeAt, incident, Ends.degreeIn, Graph.arcSet, List.sum_toFinset _ nodup]
  change ((((chosen.graphOver g).arcs .all).filter _).map fun a => g.multiplicity k a n).sum = _
  induction (chosen.graphOver g).arcs .all with
  | nil => rfl
  | cons a rest ih =>
      cases touched : g.touches a n with
      | true => simp [touched, ih]
      | false => simp [touched, ih, Ends.multiplicity_eq_zero touched]

end Selection

namespace SelectionTask

variable {t : SelectionTask Extended} {g : Graph} {p : Problem Arc Arc Extended}
  {last : RunState Extended}

/-- A run leaves nothing of what the last one left. -/
theorem run_eq_run_blank {α : Type} [Arithmetic α] (t : SelectionTask α) (g : Graph)
    (solver : Solver Arc Arc α) (last : RunState α) :
    t.run g solver last = t.run g solver .blank := rfl

/-- Decoding selects the arcs whose values pass the test against the threshold, in order. -/
theorem decode_of_tests {α : Type} [Arithmetic α] {t : SelectionTask α} {p : Problem Arc Arc α}
    {s : Solution Arc α} {reaches : Arc → Bool}
    (tests : ∀ a ∈ p.unknowns.keys, Arithmetic.atMost t.threshold (s.value a) = .ok (reaches a)) :
    ∃ chosen, t.decode p s = .ok chosen ∧
      chosen.enabled.keys = p.unknowns.keys.filter reaches := by
  refine foldlM_ok
    (fun done (chosen : Selection) => chosen.enabled.keys = done.filter reaches) rfl ?_
  intro done a rest chosen split keys
  have fresh : chosen.enabled.contains a = false := by
    rw [← Bool.not_eq_true, ← OrderedMap.mem_keys_iff, keys, List.mem_filter]
    exact fun member => not_mem_done p.unknowns.nodup_keys split member.1
  have tested := tests a (by simp [split])
  cases reached : reaches a with
  | true =>
      refine ⟨chosen.enable a true, ?_, ?_⟩
      · simp [tested, reached, bind, Except.bind, pure, Except.pure]
      · simp [Selection.enable, OrderedMap.keys_insert, fresh, keys, reached]
  | false =>
      refine ⟨chosen, ?_, ?_⟩
      · simp [tested, reached, bind, Except.bind, pure, Except.pure]
      · simp [keys, reached]

/-- Decoding finite values selects the arcs that reach the threshold, in order. -/
theorem decode_ok {s : Solution Arc Extended} {threshold : Rat}
    (thresholdEq : t.threshold = .finite threshold) {value : Arc → Rat}
    (values : ∀ a ∈ p.unknowns.keys, s.value a = .finite (value a)) :
    ∃ chosen, t.decode p s = .ok chosen ∧
      chosen.enabled.keys = p.unknowns.keys.filter fun a => threshold ≤ value a := by
  refine decode_of_tests fun a member => ?_
  rw [thresholdEq, values a member, Extended.atMost_finite]

/-- A value near zero or one reaches a threshold between exactly if it is near one. -/
theorem reaches_iff {threshold tolerance q x : Rat} (above : tolerance < threshold)
    (below : threshold ≤ 1 - tolerance) (near : |q - x| ≤ tolerance) (unit : x = 0 ∨ x = 1) :
    threshold ≤ q ↔ x = 1 := by
  obtain ⟨low, high⟩ := abs_le.mp near
  rcases unit with rfl | rfl
  · refine ⟨fun reached => ?_, fun one => ?_⟩
    · linarith
    · cases one
  · exact ⟨fun _ => rfl, fun _ => by linarith⟩

/-- A run that ends has compiled the task and had an answer of the solver. -/
theorem answer_of_run {solver : Solver Arc Arc Extended} {type : SolutionType}
    (ended : (t.run g solver last).outcome = .ok type) :
    ∃ p s, t.compile g = .ok p ∧ (solver p).result = .ok s ∧ s.type = type := by
  cases compiled : t.compile g with
  | error fault => simp [run, compiled] at ended
  | ok p =>
      cases answered : (solver p).result with
      | error fault => simp [run, compiled, answered] at ended
      | ok s =>
          refine ⟨p, s, rfl, answered, ?_⟩
          simp only [run, compiled, answered] at ended
          split at ended
          · split at ended
            · cases ended
            · exact Except.ok.inj ended
          · exact Except.ok.inj ended

/-- A run that is answered with values close to an optimal point selects the arcs this
point takes, in the order the graph lists them. -/
theorem run_of_optimal {solver : Solver Arc Arc Extended} {s : Solution Arc Extended}
    {tolerance threshold : Rat} (compiled : t.compile g = .ok p) (describes : t.Describes g p)
    (integral : t.relaxed = false) (answered : (solver p).result = .ok s)
    (isOptimal : s.type = .optimal) (trueOf : s.TrueOf p tolerance)
    (thresholdEq : t.threshold = .finite threshold) (above : tolerance < threshold)
    (below : threshold ≤ 1 - tolerance) (last : RunState Extended) :
    ∃ x chosen, p.Optimal x ∧ (t.run g solver last).outcome = .ok .optimal ∧
      (t.run g solver last).state.selected = some chosen ∧
      chosen.enabled.keys = (g.arcs .all).filter fun a => x a = 1 := by
  obtain ⟨x, optimal, near⟩ := trueOf.optimal isOptimal
  have keys : p.unknowns.keys = g.arcs .all := by
    simp [OrderedMap.keys, describes.unknowns, Function.comp_def]
  have close : ∀ a ∈ g.arcs .all, ∃ q, s.value a = .finite q ∧ |q - x a| ≤ tolerance :=
    fun a listed => near a _ (describes.unknowns ▸ List.mem_map.mpr ⟨a, listed, rfl⟩)
  have unit := describes.integral_of_feasible integral optimal.feasible
  have values : ∀ a ∈ p.unknowns.keys, s.value a = .finite (s.value a).rational := by
    intro a member
    obtain ⟨q, valueEq, _⟩ := close a (keys ▸ member)
    rw [valueEq, Extended.rational_finite]
  obtain ⟨chosen, decoded, chosenKeys⟩ := decode_ok thresholdEq values
  refine ⟨x, chosen, optimal, ?_, ?_, ?_⟩
  · simp [run, compiled, answered, isOptimal, SolutionType.hasSolution, decoded]
  · simp [run, compiled, answered, isOptimal, SolutionType.hasSolution, decoded]
  · rw [chosenKeys, keys]
    refine List.filter_congr fun a listed => ?_
    obtain ⟨q, valueEq, distance⟩ := close a listed
    rw [valueEq, Extended.rational_finite, decide_eq_decide]
    exact reaches_iff above below distance (unit a listed)

section Shown

variable (listed : ∀ a, a ∈ g.arcs .all ↔ g.hasArc a = true) {x : Arc → Rat}
  {chosen : Selection} (keys : chosen.enabled.keys = (g.arcs .all).filter fun a => x a = 1)

include listed keys

/-- The selection of the arcs that a point takes shows exactly these arcs. -/
theorem arcs_graphOver_of_taken :
    (chosen.graphOver g).arcs .all = (g.arcs .all).filter fun a => x a = 1 := by
  rw [Selection.arcs_eq_keys, keys]
  intro a member
  rw [keys, List.mem_filter] at member
  exact (listed a).mp member.1

/-- The arcs that are shown are those that are taken. -/
theorem arcSet_graphOver_of_taken :
    (chosen.graphOver g).arcSet = Describes.taken g x := by
  rw [Graph.arcSet, arcs_graphOver_of_taken listed keys, Describes.taken]

/-- The selection of the arcs of a set that keeps the bounds keeps them as well, by the
degrees and the number of arcs it shows. -/
theorem keptIn_of_taken {input : TaskInput} (nodup : (g.arcs .all).Nodup)
    (kept : input.KeptBy g (Describes.taken g x)) : input.KeptIn (chosen.graphOver g) := by
  have arcs := arcs_graphOver_of_taken listed keys
  have distinct : ((chosen.graphOver g).arcs .all).Nodup := arcs ▸ nodup.filter _
  have count : (chosen.graphOver g).arcCount .all = (Describes.taken g x).card := by
    rw [← arcSet_graphOver_of_taken listed keys, Graph.arcSet,
      List.toFinset_card_of_nodup distinct]
    rfl
  refine ⟨fun k n member b bound => ?_, count ▸ kept.least, count ▸ kept.greatest⟩
  rw [Selection.degreeAt_graphOver k.kind n distinct, arcSet_graphOver_of_taken listed keys]
  exact kept.degrees k n member b bound

end Shown

/-- A run of an accepted integer configuration, with a solver that is exact up to a tolerance
below the threshold, returns a cheapest set of arcs that keeps every bound, and finds the
configuration infeasible only if no set does. -/
theorem run_returns_cheapest {input : TaskInput} {task : SelectionTask Value}
    (accepted : ofInput input = .ok task) (integral : input.relaxed.isTruthy = false) {g : Graph}
    (nodup : (g.arcs .all).Nodup) (listed : ∀ a, a ∈ g.arcs .all ↔ g.hasArc a = true)
    {solver : Solver Arc Arc Extended} {tolerance threshold : Rat}
    (thresholdEq : input.selectsFrom = .finite threshold) (above : tolerance < threshold)
    (below : threshold ≤ 1 - tolerance)
    (exact : ∀ p, task.exact.compile g = .ok p → solver.ExactWithin tolerance p)
    (last : RunState Extended) :
    ((task.exact.run g solver last).outcome = .ok .optimal →
      ∃ chosen, (task.exact.run g solver last).state.selected = some chosen ∧
        ((chosen.graphOver g).arcs .all).Nodup ∧ (chosen.graphOver g).arcSet ⊆ g.arcSet ∧
        input.KeptIn (chosen.graphOver g) ∧
        ∀ S ⊆ g.arcSet, input.KeptBy g S →
          input.costIn (chosen.graphOver g).arcSet ≤ input.costIn S) ∧
      ((task.exact.run g solver last).outcome = .ok .infeasible →
        ∀ S ⊆ g.arcSet, ¬ input.KeptBy g S) := by
  have whole : task.exact.relaxed = false := (relaxed_of_ofInput accepted).trans integral
  have decodes : task.exact.threshold = .finite threshold :=
    (threshold_eq accepted).trans thresholdEq
  have described : ∀ p, task.exact.compile g = .ok p → task.exact.Describes g p :=
    fun p compiled => describes_of_compile (finiteWeights_of_ofInput accepted) nodup compiled
  constructor
  · intro ended
    obtain ⟨p, s, compiled, answered, isOptimal⟩ := answer_of_run ended
    have describes := described p compiled
    have defined := definedOn_of_compile compiled
    obtain ⟨x, chosen, optimal, _, selected, keys⟩ := run_of_optimal compiled describes whole
      answered isOptimal (exact p compiled s answered) decodes above below last
    have set := arcSet_graphOver_of_taken listed keys
    have within : (chosen.graphOver g).arcSet ⊆ g.arcSet := set ▸ Describes.taken_subset g x
    refine ⟨chosen, selected, ?_, within, ?_, fun S smaller kept => ?_⟩
    · exact arcs_graphOver_of_taken listed keys ▸ nodup.filter _
    · exact keptIn_of_taken listed keys nodup ((keptBy_iff accepted defined _).mpr
        (describes.keptBy_taken whole nodup optimal.feasible))
    · rw [← costIn_eq accepted defined nodup within, ← costIn_eq accepted defined nodup smaller, set]
      exact describes.cheapest_of_optimal whole nodup optimal smaller
        ((keptBy_iff accepted defined S).mp kept)
  · intro ended S within kept
    obtain ⟨p, s, compiled, answered, isInfeasible⟩ := answer_of_run ended
    exact (exact p compiled s answered).infeasible isInfeasible (indicator S)
      ((described p compiled).feasible_indicator nodup within
        ((keptBy_iff accepted (definedOn_of_compile compiled) S).mp kept))

/-- Values within one quarter of those that take the first arc of the pair only. -/
def nearFirst : Solution Arc Extended :=
  ⟨.optimal, none, [(⟨1⟩, .finite (3 / 4)), (⟨2⟩, .finite (1 / 4)), (⟨3⟩, .finite 0)]⟩

/-- The cheapest arc of the pair is returned. -/
theorem run_returns_cheapest_mixedPair :
    ∃ task, ofInput leastArc = .ok task ∧ leastArc.relaxed.isTruthy = false ∧
      (mixedPair.graph.arcs .all).Nodup ∧
      (∀ a, a ∈ mixedPair.graph.arcs .all ↔ mixedPair.graph.hasArc a = true) ∧
      leastArc.selectsFrom = .finite (1 / 2) ∧
      (∀ p, task.exact.compile mixedPair.graph = .ok p →
        (Solver.answering nearFirst).ExactWithin (1 / 4) p) ∧
      (task.exact.run mixedPair.graph (Solver.answering nearFirst) .blank).outcome =
        .ok .optimal ∧
      ∃ chosen,
        (task.exact.run mixedPair.graph (Solver.answering nearFirst) .blank).state.selected =
          some chosen ∧
        leastArc.KeptIn (chosen.graphOver mixedPair.graph) ∧
        ∀ S ⊆ mixedPair.graph.arcSet, leastArc.KeptBy mixedPair.graph S →
          leastArc.costIn (chosen.graphOver mixedPair.graph).arcSet ≤ leastArc.costIn S := by
  obtain ⟨task, accepted⟩ : ∃ task, ofInput leastArc = .ok task := ⟨_, rfl⟩
  have selectsFrom : leastArc.selectsFrom = .finite (1 / 2) := by decide +kernel
  have listed : ∀ a, a ∈ mixedPair.graph.arcs .all ↔ mixedPair.graph.hasArc a = true :=
    fun a => OrderedMap.mem_keys_iff _ a
  have trueOf : ∀ p, task.exact.compile mixedPair.graph = .ok p →
      nearFirst.TrueOf p (1 / 4) := fun p compiled =>
    trueOf_of_near_first accepted reads_mixedPair (by decide +kernel) compiled rfl
      (by decide +kernel)
  have exact : ∀ p, task.exact.compile mixedPair.graph = .ok p →
      (Solver.answering nearFirst).ExactWithin (1 / 4) p :=
    fun p compiled => Solver.exactWithin_answering (trueOf p compiled)
  obtain ⟨p, compiled, describes⟩ := compile_ok (finiteWeights_of_ofInput accepted)
    listsArcs_mixedPair.nodup
    (definedOn_of_matchingInput accepted reads_mixedPair spelledIds_mixedPair)
  have answered : ((Solver.answering nearFirst : Solver Arc Arc Extended) p).result =
      .ok nearFirst := rfl
  obtain ⟨_, _, _, outcome, _⟩ := run_of_optimal compiled describes
    (integral_of_matchingInput accepted) answered rfl (trueOf p compiled)
    (threshold_of_matchingInput accepted) (by norm_num) (by norm_num) .blank
  have cheapest := (run_returns_cheapest accepted rfl listsArcs_mixedPair.nodup listed selectsFrom
    (by norm_num) (by norm_num) exact .blank).1 outcome
  obtain ⟨chosen, selected, _, _, kept, least⟩ := cheapest
  exact ⟨task, accepted, rfl, listsArcs_mixedPair.nodup, listed, selectsFrom, exact, outcome,
    chosen, selected, kept, least⟩

end SelectionTask

end ArcSelection
