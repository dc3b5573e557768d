import ArcSelection.CommandLine.Run
import ArcSelection.Proofs.GraphML.Loaded
import ArcSelection.Proofs.Selection.Matching
import ArcSelection.Proofs.Selection.Objective

/-!
# The program of a matching command

A matching command asks for a selection in which no node has a degree above one, at the least
sum of an attribute of the arcs or with the most arcs. It is accepted if its sizes form a range.
Compiling reads the cost of every arc in turn: a cost that is missing, no number or not finite is
refused as a bad value, but an integer that no double can hold fails in its own way. A solution
that takes a feasible point of the program selects a matching.
-/

namespace ArcSelection

open Decimal Fallible

namespace Work

variable {β γ : Type}

/-- Work that follows other work has the result of both. -/
theorem result_bind (w : Work β) (f : β → Work γ) :
    (w >>= f).result = w.result >>= fun x => (f x).result := by
  change (andThen w f).result = _
  rw [andThen]
  cases w.result <;> rfl

theorem result_pure (x : β) : (pure x : Work β).result = .ok x := rfl

theorem result_quietly (r : Except Fault β) : (quietly r).result = r := rfl

end Work

/-- A value that stands for a finite number is numeric. -/
theorem Value.isNumeric_of_exact {v : Value} {q : Rat} (value : v.exact = .finite q) :
    v.isNumeric = true := by
  cases v <;> first | rfl | cases value

namespace CommandLine

open SelectionTask

namespace Settings

/-- The cost of an arc for a matching command. -/
def cost (s : Settings) (g : Graph) : Arc → Except Fault Value :=
  if s.maximum then fun _ => .ok (.float 1.0) else propertyCost g s.costAttribute

/-- The weight of the costs: sizes are made as great as possible. -/
def weight (s : Settings) : Float := if s.maximum then -1.0 else 1.0

/-- The configuration that a matching command asks for. -/
def input (s : Settings) (g : Graph) : TaskInput :=
  matchingInput (s.cost g) s.weight s.sizes.1 s.sizes.2

/-- The sizes form a range of counts. -/
structure InRange (s : Settings) : Prop where
  least : 0 ≤ s.leastSize ∧ s.leastSize ≤ 2 ^ 53
  greatest : ∀ m, s.greatestSize = some m → s.leastSize ≤ m ∧ m ≤ 2 ^ 53

/-- An arc has a finite cost, under a name that can be spelled out. -/
def GivesCost (s : Settings) (g : Graph) (a : Arc) : Prop :=
  ∃ x, askCost (s.cost g) a = .ok (.float x) ∧ (Extended.ofFloat x).IsFinite

/-- The costs are asked for, and the first arc without a finite one has an integer that no
double can hold. -/
structure MeetsOversized (s : Settings) (g : Graph) : Prop where
  asked : s.maximum = false
  inRange : s.InRange
  first : ∃ before a after n, g.arcs .all = before ++ a :: after ∧
    (∀ b ∈ before, s.GivesCost g b) ∧
    Properties.value? ((g.arcProperties a).getD []) s.costAttribute = some (.int n) ∧
    roundsAway ≤ n.natAbs

/-- The solver answers the program of the matching command with an outcome. -/
def Outcome (s : Settings) (g : Graph) (solver : Solver Arc Arc Value) (type : SolutionType) :
    Prop :=
  ∃ t p answer, ofInput (s.input g) = .ok t ∧ t.compile g = .ok p ∧
    (solver p).result = .ok answer ∧ answer.type = type

variable {s : Settings} {g : Graph} {a : Arc}

/-- The input is that of the task that is chosen, with the costs that are read. -/
theorem input_eq : s.input g =
    if s.maximum then greatestSizeInput s.sizes.1 s.sizes.2
    else leastCostInput (s.cost g) s.sizes.1 s.sizes.2 := by
  rw [input, cost, weight]
  split <;> rfl

/-! ### The sizes -/

/-- Sizes give a range exactly if they are in range. -/
theorem givesRange_iff :
    (∃ least greatest, (s.input g).GivesRange least greatest) ↔ s.InRange := by
  have least : (s.input g).minArcs = .int s.leastSize := rfl
  constructor
  · rintro ⟨n, greatest, ⟨isLeast, small⟩, isGreatest⟩
    have isLeast : s.leastSize = n := Value.int.inj isLeast
    refine ⟨by omega, fun m limit => ?_⟩
    have most : (s.input g).maxArcs = .int m := by
      change s.sizes.2 = _
      rw [sizes, limit]
    cases greatest with
    | none =>
        rw [most] at isGreatest
        cases isGreatest
    | some k =>
        obtain ⟨⟨isMost, bounded⟩, ordered⟩ := isGreatest
        have isMost : m = k := Value.int.inj (most.symm.trans isMost)
        omega
  · intro inRange
    obtain ⟨nonneg, small⟩ := inRange.least
    have counted : (s.input g).minArcs.IsCount s.leastSize.toNat := by
      refine ⟨?_, by omega⟩
      rw [least, Int.toNat_of_nonneg nonneg]
    cases limit : s.greatestSize with
    | none =>
        refine ⟨_, none, counted, ?_⟩
        have most : (s.input g).maxArcs = .float (infinity false) := by
          change s.sizes.2 = _
          rw [sizes, limit]
        change isTop (s.input g).maxArcs = true
        rw [most]
        decide +kernel
    | some m =>
        obtain ⟨ordered, bounded⟩ := inRange.greatest m limit
        refine ⟨_, some m.toNat, counted, ⟨?_, by omega⟩, by omega⟩
        change s.sizes.2 = _
        rw [sizes, limit, Int.toNat_of_nonneg (by omega)]

/-- The weight of either task is finite. -/
theorem isFinite_weight (s : Settings) : (Extended.ofFloat s.weight).IsFinite := by
  rw [weight]
  split
  · exact (Value.isFinite_float (-1.0)).mp (by decide +kernel)
  · exact (Value.isFinite_float 1.0).mp (by decide +kernel)

/-- A matching command is accepted if its sizes are in range, and refused as a bad value
otherwise. -/
theorem ofInput_input (s : Settings) (g : Graph) :
    (s.InRange ∧ ∃ t, ofInput (s.input g) = .ok t) ∨
      ¬ s.InRange ∧ ∃ fault, ofInput (s.input g) = .error fault ∧
        fault.kind.label = "ValueError" := by
  have one : Value.FitsFloat (.float 1.0) ∧ Value.exact (.float 1.0) ≠ .nan := by
    have value : Value.exact (.float 1.0) = .finite 1 := by decide +kernel
    exact ⟨trivial, by rw [value]; exact nofun⟩
  have acceptable : s.InRange → (s.input g).Acceptable := by
    intro inRange
    refine ⟨fun k => ?_, givesRange_iff.mpr inRange, fun c member => ?_, Or.inl rfl⟩
    · cases k with
      | maxDegree => exact Or.inr one
      | _ => exact Or.inl rfl
    · obtain rfl := List.mem_singleton.mp member
      exact s.isFinite_weight
  rcases ofInput_cases (s.input g) with ⟨accepted, t, made, _⟩ | ⟨refused, failed⟩ |
    ⟨_, weight, fault, reaches, fails⟩
  · exact Or.inl ⟨givesRange_iff.mp accepted.range, t, made⟩
  · exact Or.inr ⟨fun inRange => refused (acceptable inRange), failed⟩
  · obtain ⟨_, _, before, f, after, split, _⟩ := reaches
    have member : CostInput.function f weight ∈ (s.input g).costs := by simp [split]
    cases List.mem_singleton.mp member
    rcases fails with ⟨noNumber, _⟩ | ⟨⟨n, isInt, _⟩, _⟩
    · cases noNumber
    · cases isInt

/-! ### The costs -/

section Attribute

variable {name : String} {v : Value}
  (found : Properties.value? ((g.arcProperties a).getD []) name = some v)

include found

/-- A property that reads as a number is a cost. -/
theorem propertyCost_of_number {x : Float} (number : v.toFloat = .ok x) :
    propertyCost g name a = .ok (.float x) := by
  simp [propertyCost, found, number]

/-- A property too large for a double raises. -/
theorem propertyCost_of_tooLarge (tooLarge : v.toFloat = .error .tooLarge) :
    propertyCost g name a = .error .tooLarge := by
  simp [propertyCost, found, tooLarge]

/-- Any other property is refused. -/
theorem propertyCost_of_refused {fault : Fault} (refused : v.toFloat = .error fault)
    (other : fault ≠ .tooLarge) :
    propertyCost g name a = .error (.attributeNotNumber name a v) := by
  simp [propertyCost, found, refused]

end Attribute

/-- An integer from the bound on is too large for a double. -/
theorem toFloat_of_oversized {n : Int} (large : roundsAway ≤ n.natAbs) :
    (Value.int n).toFloat = .error .tooLarge := by
  have none : ofInt? n = none := by
    rw [← Option.not_isSome_iff_eq_none, ofInt?_isSome_iff]
    omega
  simp [Value.toFloat, Value.numericFloat, Value.floatOfInt, none]

/-- A value is read as a double, or is no number, or is an integer that no double can hold. -/
theorem toFloat_cases (v : Value) :
    (∃ x, v.toFloat = .ok x) ∨ (∃ fault, v.toFloat = .error fault ∧ fault ≠ .tooLarge) ∨
      ∃ n, v = .int n ∧ roundsAway ≤ n.natAbs := by
  cases v with
  | int n =>
      by_cases small : n.natAbs < roundsAway
      · obtain ⟨x, double⟩ := Option.isSome_iff_exists.mp ((ofInt?_isSome_iff n).mpr small)
        exact Or.inl ⟨x, by simp [Value.toFloat, Value.numericFloat, Value.floatOfInt, double]⟩
      · exact Or.inr (Or.inr ⟨n, rfl, Nat.le_of_not_lt small⟩)
  | text word =>
      cases reads : readFloat? word with
      | some x => exact Or.inl ⟨x, by simp [Value.toFloat, reads]⟩
      | none =>
          exact Or.inr (Or.inl ⟨.unreadableFloat word, by simp [Value.toFloat, reads], by simp⟩)
  | bool b | float x => exact Or.inl ⟨_, rfl⟩
  | _ => exact Or.inr (Or.inl ⟨.wrongType, rfl, by simp⟩)

/-- The cost from an attribute is a double, or is refused as a bad value, or the attribute is an
integer that no double can hold. -/
theorem propertyCost_cases (g : Graph) (name : String) (a : Arc) :
    (∃ x, propertyCost g name a = .ok (.float x)) ∨
    (∃ fault, propertyCost g name a = .error fault ∧ fault.kind.label = "ValueError") ∨
    ∃ n, Properties.value? ((g.arcProperties a).getD []) name = some (.int n) ∧
      roundsAway ≤ n.natAbs ∧ propertyCost g name a = .error .tooLarge := by
  cases found : Properties.value? ((g.arcProperties a).getD []) name with
  | none => exact Or.inr (Or.inl ⟨.noAttribute a name, by simp [propertyCost, found], rfl⟩)
  | some v =>
      rcases toFloat_cases v with ⟨x, number⟩ | ⟨fault, refused, other⟩ | ⟨n, rfl, large⟩
      · exact Or.inl ⟨x, propertyCost_of_number found number⟩
      · exact Or.inr (Or.inl ⟨_, propertyCost_of_refused found refused other, rfl⟩)
      · exact Or.inr (Or.inr ⟨n, rfl, large,
          propertyCost_of_tooLarge found (toFloat_of_oversized large)⟩)

/-- The cost of an arc for the command is a double, or fails as it does from an attribute. -/
theorem cost_cases (s : Settings) (g : Graph) (a : Arc) :
    (∃ x, s.cost g a = .ok (.float x)) ∨
    (∃ fault, s.cost g a = .error fault ∧ fault.kind.label = "ValueError") ∨
    s.maximum = false ∧
    ∃ n, Properties.value? ((g.arcProperties a).getD []) s.costAttribute = some (.int n) ∧
      roundsAway ≤ n.natAbs ∧ s.cost g a = .error .tooLarge := by
  cases asked : s.maximum with
  | true =>
      refine Or.inl ⟨1.0, ?_⟩
      rw [cost, asked]
      rfl
  | false =>
      have same : s.cost g = propertyCost g s.costAttribute := by
        rw [cost, asked]
        rfl
      rw [same]
      exact (propertyCost_cases g s.costAttribute a).imp_right fun rest =>
        rest.imp_right fun oversized => ⟨rfl, oversized⟩

/-- An arc that gives a finite cost costs a double. -/
theorem GivesCost.cost (givesCost : s.GivesCost g a) : ∃ x, s.cost g a = .ok (.float x) := by
  obtain ⟨x, asked, _⟩ := givesCost
  obtain ⟨_, v, _, isCost, _⟩ := askNumber_eq_ok_iff.mp asked
  rcases s.cost_cases g a with isDouble | ⟨fault, failed, _⟩ | ⟨_, _, _, _, failed⟩
  · exact isDouble
  · cases failed.symm.trans isCost
  · cases failed.symm.trans isCost

/-- A graph meets an oversized cost if its first arc has one. -/
theorem meetsOversized_of_lists {stored : StoredGraph} {nodes : List (Option Properties)}
    {first : ArcRecord × Option Properties} {rest : List (ArcRecord × Option Properties)}
    (lists : stored.Lists nodes (first :: rest)) (asked : s.maximum = false) (inRange : s.InRange)
    {n : Int} (found : Properties.value? (first.2.getD []) s.costAttribute = some (.int n))
    (large : roundsAway ≤ n.natAbs) : s.MeetsOversized stored.graph := by
  have arcs := lists.graph_arcs
  rw [List.length_cons, List.range_succ_eq_map, List.map_cons] at arcs
  have properties : stored.graph.arcProperties (.nth 0) = first.2 :=
    (lists.graph_record (i := 0) rfl).2.2.2
  exact ⟨asked, inRange, [], .nth 0, _, n, arcs, nofun, properties ▸ found, large⟩

section Accepted

variable {t : SelectionTask Value} (accepted : ofInput (s.input g) = .ok t)

include accepted

/-- A cost that is asked for is the only factor. -/
theorem factors_of_givesCost {x : Float} (isCost : askCost (s.cost g) a = .ok (.float x))
    (finite : (Extended.ofFloat x).IsFinite) : t.Factors a [(s.weight, x)] := by
  rw [Factors, costs_of_matchingInput accepted]
  exact .cons ⟨rfl, isCost, s.isFinite_weight, finite⟩ .nil

/-- A cost that is given is a cost of the task. -/
theorem arcCost_of_givesCost (givesCost : s.GivesCost g a) :
    ∃ c, t.arcCost a = .ok (.float c) := by
  obtain ⟨x, isCost, finite⟩ := givesCost
  exact ⟨_, arcCost_of_factors (factors_of_givesCost accepted isCost finite)⟩

/-- An arc with a finite cost has a weighted cost, and any other fails with a bad value, or as
its cost does. -/
theorem arcCost_cases_of_input (a : Arc) :
    (s.GivesCost g a ∧ ∃ c, t.arcCost a = .ok (.float c)) ∨
      ¬ s.GivesCost g a ∧ ∃ fault, t.arcCost a = .error fault ∧
        (fault.kind.label = "ValueError" ∨ s.cost g a = .error fault) := by
  by_cases givesCost : s.GivesCost g a
  · exact Or.inl ⟨givesCost, arcCost_of_givesCost accepted givesCost⟩
  · refine Or.inr ⟨givesCost, ?_⟩
    rcases arcCost_cases accepted a with ⟨factors, isFactors⟩ | ⟨fault, failed, cause⟩
    · rw [Factors, costs_of_matchingInput accepted] at isFactors
      cases isFactors with
      | cons multiplies _ => exact absurd ⟨_, multiplies.cost, multiplies.finiteCost⟩ givesCost
    · refine ⟨fault, failed, cause.imp_right ?_⟩
      rintro ⟨f, weight, member, raised⟩
      cases List.mem_singleton.mp member
      exact raised

/-- Only an arc with a finite cost has a weighted cost. -/
theorem givesCost_of_arcCost (costed : ∃ c, t.arcCost a = .ok c) : s.GivesCost g a := by
  obtain ⟨c, costEq⟩ := costed
  rcases arcCost_cases_of_input accepted a with ⟨givesCost, _⟩ | ⟨_, fault, failed, _⟩
  · exact givesCost
  · cases failed.symm.trans costEq

/-- Compiling fails as a bad value, or as the sums do. -/
theorem compile_error_of_input {fault : Fault} (failed : t.compile g = .error fault) :
    fault.kind.label = "ValueError" ∨ t.sums g = .error fault := by
  rcases compile_error_cases (binds_of_ofInput accepted) failed with
    summing | isValue | ⟨k, f, n, isBound, _, raised⟩
  · exact Or.inr summing
  · exact Or.inl isValue
  · refine Or.inl ((bound_error (isBound ▸ bound_of_ofInput accepted k) raised).resolve_right ?_)
    rintro ⟨_, isFunction, _⟩
    cases k <;> cases isFunction

/-- A cost that fails makes the cost of the task fail. -/
theorem arcCost_of_cost_error {fault : Fault} (failed : s.cost g a = .error fault) :
    t.arcCost a = .error fault := by
  have asked : askCost (s.cost g) a = .error fault := bind_eq_error_iff.mpr (.inl failed)
  rw [arcCost, costs_of_matchingInput accepted, List.foldlM_cons]
  dsimp only
  rw [asked]
  rfl

/-- The first arc without a cost stops the compilation with its cause. -/
theorem compile_of_cost_error {before after : List Arc} {fault : Fault}
    (split : g.arcs .all = before ++ a :: after) (costs : ∀ b ∈ before, s.GivesCost g b)
    (failed : t.arcCost a = .error fault) : t.compile g = .error fault := by
  have summing : t.sums g = .error fault :=
    sums_of_cost_error split (fun b early => arcCost_of_givesCost accepted (costs b early)) failed
  rw [compile, summing]
  rfl

/-- Meeting an integer that is too large, compiling raises. -/
theorem compile_of_meetsOversized (meets : s.MeetsOversized g) :
    t.compile g = .error .tooLarge := by
  obtain ⟨before, a, after, n, split, costs, found, large⟩ := meets.first
  refine compile_of_cost_error accepted split costs (arcCost_of_cost_error accepted ?_)
  rw [cost, meets.asked]
  exact propertyCost_of_tooLarge found (toFloat_of_oversized large)

/-- Compiling stops at an integer that is too large, fails as a bad value, or has a program,
and then every arc has a finite cost. -/
theorem compile_cases :
    s.MeetsOversized g ∨ (∃ fault, t.compile g = .error fault ∧ fault.kind.label = "ValueError") ∨
      ∃ p, t.compile g = .ok p ∧ ∀ a ∈ g.arcs .all, s.GivesCost g a := by
  rcases all_ok_or_first_error t.arcCost (g.arcs .all) with
    all | ⟨before, a, after, fault, split, passed, failed⟩
  · have costs : ∀ a ∈ g.arcs .all, s.GivesCost g a :=
      fun a member => givesCost_of_arcCost accepted (all a member)
    cases compiled : t.compile g with
    | ok p => exact Or.inr (Or.inr ⟨p, rfl, costs⟩)
    | error fault =>
        refine Or.inr (Or.inl ⟨fault, rfl, ?_⟩)
        refine (compile_error_of_input accepted compiled).resolve_right fun summing => ?_
        obtain ⟨sums, summed, _⟩ := priced_foldlM (g := g) fun a member =>
          arcCost_of_givesCost accepted (costs a member)
        cases summing.symm.trans summed
  · have costs : ∀ b ∈ before, s.GivesCost g b :=
      fun b early => givesCost_of_arcCost accepted (passed b early)
    have stopped := compile_of_cost_error accepted split costs failed
    rcases arcCost_cases_of_input accepted a with ⟨_, c, costEq⟩ | ⟨_, other, otherFailed, cause⟩
    · cases failed.symm.trans costEq
    cases failed.symm.trans otherFailed
    rcases cause with value | raised
    · exact Or.inr (Or.inl ⟨fault, stopped, value⟩)
    rcases s.cost_cases g a with ⟨x, isCost⟩ | ⟨other, otherRaised, value⟩ |
      ⟨asked, n, found, large, _⟩
    · cases raised.symm.trans isCost
    · cases raised.symm.trans otherRaised
      exact Or.inr (Or.inl ⟨fault, stopped, value⟩)
    · refine Or.inl ⟨asked, ?_, before, a, after, n, split, costs, found, large⟩
      rcases s.ofInput_input g with ⟨inRange, _⟩ | ⟨_, _, refused, _⟩
      · exact inRange
      · cases refused.symm.trans accepted

/-- A feasible point of the program takes a matching of the graph. -/
theorem fits_of_feasible (lawful : g.Lawful) {p : Problem Arc Arc Value}
    (compiled : t.compile g = .ok p) {x : Arc → Rat} (feasible : p.exact.Feasible x) :
    (∀ a ∈ g.arcs .all, x a = 0 ∨ x a = 1) ∧
      g.Fits s.sizes.1 s.sizes.2 (Describes.taken g x) := by
  have integral := integral_of_matchingInput accepted
  have defined := definedOn_exact_of_compile accepted compiled
  obtain ⟨q, compiled', describes⟩ :=
    compile_ok (finiteWeights_of_ofInput accepted) lawful.nodup defined
  have feasible' := feasible_of_compile accepted lawful.nodup compiled compiled' describes feasible
  exact ⟨describes.integral_of_feasible integral feasible',
    (fits_iff lawful.toListsArcs).mpr ⟨Describes.taken_subset g x,
      (keptBy_iff accepted defined _).mpr
        (describes.keptBy_taken integral lawful.nodup feasible')⟩⟩

/-- Values that take a matching of the graph are decoded to it. -/
theorem runMatching_of_isMatching (lawful : g.Lawful) {p : Problem Arc Arc Value}
    (compiled : t.compile g = .ok p) {solver : Solver Arc Arc Value}
    {answer : Solution Arc Value} (answered : (solver p).result = .ok answer)
    (solved : answer.type.hasSolution = true) {x : Arc → Rat}
    (values : ∀ a ∈ g.arcs .all, (answer.value a).exact = .finite (x a))
    (unit : ∀ a ∈ g.arcs .all, x a = 0 ∨ x a = 1) (matching : g.IsMatching (Describes.taken g x)) :
    ∃ m, (t.runMatching g solver .blank).outcome = .ok answer.type ∧
      (t.runMatching g solver .blank).state.matching = some m ∧
      ∀ a ∈ m.selection.arcs g .all, a ∈ g.arcs .all := by
  have keys : p.unknowns.keys = g.arcs .all :=
    (keys_of_compile compiled).trans (eraseDups_of_nodup lawful.nodup)
  have half : t.threshold.exact = .finite (1 / 2) := threshold_of_matchingInput accepted
  have tests : ∀ a ∈ p.unknowns.keys,
      Arithmetic.atMost t.threshold (answer.value a) = .ok (decide (x a = 1)) := by
    intro a member
    rw [keys] at member
    have value := values a member
    rw [Value.atMost_of_numeric (numeric_threshold_of_ofInput accepted)
      (Value.isNumeric_of_exact value), half, value]
    have test : Extended.finite (1 / 2) ≤ .finite (x a) ↔ x a = 1 := by
      rw [Extended.finite_le_finite]
      rcases unit a member with zero | one
      · norm_num [zero]
      · norm_num [one]
    exact congrArg Except.ok (decide_eq_decide.mpr test)
  obtain ⟨chosen, decoded, chosenKeys⟩ := decode_of_tests tests
  rw [keys] at chosenKeys
  have set := arcSet_graphOver_of_taken lawful.mem_arcs chosenKeys
  have arcs := arcs_graphOver_of_taken lawful.mem_arcs chosenKeys
  obtain ⟨m, converted, shown⟩ := toMatching_ok (set ▸ matching)
  -- The task behind a matching task that was not run yet was not run yet.
  have outcome : (t.run g solver MatchingState.blank.run).outcome = .ok answer.type := by
    simp [SelectionTask.run, compiled, answered, solved, decoded]
  have selected : (t.run g solver MatchingState.blank.run).state.selected = some chosen := by
    simp [SelectionTask.run, compiled, answered, solved, decoded]
  have matched : t.runMatching g solver .blank =
      ⟨(t.run g solver MatchingState.blank.run).log,
        ⟨some answer.type, some m, (t.run g solver MatchingState.blank.run).state⟩,
        .ok answer.type⟩ := by
    simp only [runMatching, outcome, selected, converted]
  refine ⟨m, ?_, ?_, fun a member => ?_⟩
  · rw [matched]
  · rw [matched]
  · have listed : a ∈ (m.graphOver g).arcs .all := member
    rw [shown, arcs] at listed
    exact (List.mem_filter.mp listed).1

end Accepted

end Settings

end CommandLine

end ArcSelection
