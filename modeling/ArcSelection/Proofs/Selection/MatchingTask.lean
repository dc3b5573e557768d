import ArcSelection.Proofs.Selection.Subset
import ArcSelection.Selection.Matching
import Mathlib.Algebra.Order.BigOperators.Group.Finset
import Mathlib.Tactic.FinCases

/-!
# What a matching task asks of a set of arcs

Both matching configurations bound the degree of every node by one, which a set of arcs
keeps exactly if it has no loop and no two of its arcs share a node. The least cost is
the sum of the costs that are read, and the greatest size makes every arc worth one.
-/

namespace ArcSelection

open Decimal Fallible

/-- No arc of the set is a loop, and no node is an end of two of its arcs. -/
structure Ends.IsMatching (e : Ends) (S : Finset Arc) : Prop where
  loopless : ∀ a ∈ S, e.tail a ≠ e.head a
  disjoint : ∀ a ∈ S, ∀ b ∈ S, a ≠ b → ∀ n, e.touches a n = true → e.touches b n = false

namespace Ends

variable {e : Ends} {S : Finset Arc}

/-- An arc that touches a node counts there. -/
theorem multiplicity_pos {a : Arc} {n : Node} (touched : e.touches a n = true) :
    1 ≤ e.multiplicity .whole a n := by
  rcases touches_iff.mp touched with tail | head
  · simp [multiplicity, tail]
  · simp [multiplicity, head]

/-- A set whose degrees are at most one at every end of its arcs is a matching. -/
theorem isMatching_of_degree_le_one
    (single : ∀ a ∈ S, ∀ n, e.touches a n = true → e.degreeIn S .whole n ≤ 1) :
    e.IsMatching S := by
  refine ⟨fun a member loop => ?_, fun a here b there different n first => ?_⟩
  · have double : e.multiplicity .whole a (e.head a) = 2 := by simp [multiplicity, loop]
    have share := Finset.single_le_sum (f := fun b => e.multiplicity .whole b (e.head a))
      (fun _ _ => Nat.zero_le _) member
    have := single a member (e.head a) (touches_iff.mpr (.inr rfl))
    rw [degreeIn] at this
    omega
  · by_contra second
    have both : ({a, b} : Finset Arc) ⊆ S := Finset.insert_subset here (by simpa using there)
    have share := Finset.sum_le_sum_of_subset (f := fun c => e.multiplicity .whole c n) both
    rw [Finset.sum_pair different] at share
    have := multiplicity_pos first
    have := multiplicity_pos (Bool.not_eq_false _ ▸ second)
    have := single a here n first
    rw [degreeIn] at this
    omega

/-- Every degree in a matching is at most one. -/
theorem IsMatching.degree_le_one (matching : e.IsMatching S) (n : Node) :
    e.degreeIn S .whole n ≤ 1 := by
  by_cases covered : ∃ a ∈ S, e.touches a n = true
  · obtain ⟨a, member, touched⟩ := covered
    rw [degreeIn, Finset.sum_eq_single_of_mem a member]
    · have loopless := matching.loopless a member
      by_cases tail : e.tail a = n
      · have head : e.head a ≠ n := fun same => loopless (tail.trans same.symm)
        simp [multiplicity, tail, head]
      · simp only [multiplicity, tail, if_false]
        split <;> omega
    · intro b other different
      exact multiplicity_eq_zero
        (matching.disjoint a member b other (Ne.symm different) n touched) _
  · rw [degreeIn, Finset.sum_eq_zero]
    · omega
    · intro a member
      exact multiplicity_eq_zero
        (Bool.eq_false_iff.mpr fun touched => covered ⟨a, member, touched⟩) _

end Ends

/-- The set is a matching of the graph whose size is in a range. -/
structure Graph.Fits (g : Graph) (minimum maximum : Value) (S : Finset Arc) : Prop where
  within : S ⊆ g.arcSet
  matching : g.IsMatching S
  least : minimum.exact ≤ .finite S.card
  greatest : .finite S.card ≤ maximum.exact

/-- Read as a double precision number, the value is the finite number. -/
def Value.ReadsAs (v : Value) (q : Rat) : Prop :=
  ∃ x, v.toFloat = .ok x ∧ Extended.ofFloat x = .finite q

/-- A value reads as its number. -/
theorem Value.ReadsAs.reading {v : Value} {q : Rat} (reads : v.ReadsAs q) :
    v.reading = .finite q := by
  obtain ⟨x, number, value⟩ := reads
  rw [Value.reading_of_toFloat number, value]

namespace SelectionTask

/-- The configuration of a matching task with one weighted cost. -/
def matchingInput (cost : Arc → Except Fault Value) (weight : Float) (minimum maximum : Value) :
    TaskInput :=
  { TaskInput.unbounded with
    maxDegree := matchingBound
    minArcs := minimum
    maxArcs := maximum
    costs := [.function cost (.float weight)] }

section Configured

variable {cost : Arc → Except Fault Value} {weight : Float} {minimum maximum : Value} {g : Graph}

/-- A matching task bounds the degree of every node by one, and no other degree. -/
theorem numberAt_matchingInput (k : DegreeKey) (n : Node) :
    ((matchingInput cost weight minimum maximum).bound k).numberAt n =
      if k = .maxDegree then some (.finite 1) else none := by
  have one : (Value.float 1.0).reading = .finite 1 := by decide +kernel
  cases k with
  | maxDegree => exact congrArg some one
  | _ => rfl

/-- The sets that keep a matching task are the matchings with a size in its range. -/
theorem fits_iff (lists : g.ListsArcs) {S : Finset Arc} : g.Fits minimum maximum S ↔
    S ⊆ g.arcSet ∧ (matchingInput cost weight minimum maximum).KeptBy g S := by
  constructor
  · rintro ⟨within, matching, least, greatest⟩
    refine ⟨within, fun k n _ b bound => ?_, least, greatest⟩
    rw [numberAt_matchingInput] at bound
    split at bound
    · rename_i isMost
      cases bound
      rw [isMost]
      exact Extended.finite_le_finite.mpr (by exact_mod_cast matching.degree_le_one n)
    · cases bound
  · rintro ⟨within, kept⟩
    refine ⟨within, Ends.isMatching_of_degree_le_one ?_, kept.least, kept.greatest⟩
    intro a member n touched
    have listed := Graph.mem_arcSet.mp (within member)
    have inside := lists.mem_nodes_of_touches listed touched
    have single := kept.degrees .maxDegree n inside (.finite 1) (numberAt_matchingInput _ n)
    exact_mod_cast Extended.finite_le_finite.mp single

/-- The total cost of a set is the sum of the costs read, times the weight. -/
theorem costIn_matchingInput {value : Arc → Rat} {S : Finset Arc}
    (reads : ∀ a ∈ S, ∃ v, cost a = .ok v ∧ v.ReadsAs (value a)) :
    (matchingInput cost weight minimum maximum).costIn S =
      (Extended.ofFloat weight).rational * ∑ a ∈ S, value a := by
  change List.sum [(Extended.ofFloat weight).rational * _] = _
  rw [List.sum_singleton]
  refine congrArg (_ * ·) (Finset.sum_congr rfl fun a member => ?_)
  obtain ⟨v, answer, number⟩ := reads a member
  rw [CostInput.costAt, answer, readingOf, number.reading, Extended.rational_finite]

/-- A matching task is defined where the costs are numbers. -/
theorem definedOn_matchingInput {value : Arc → Rat}
    (reads : ∀ a ∈ g.arcs .all, ∃ v, cost a = .ok v ∧ v.ReadsAs (value a)) :
    (matchingInput cost weight minimum maximum).DefinedOn g := by
  refine ⟨fun k n _ isNaN => ?_, fun c member a listed => ?_⟩
  · rw [numberAt_matchingInput] at isNaN
    split at isNaN <;> cases isNaN
  · obtain rfl := List.mem_singleton.mp member
    obtain ⟨v, answer, number⟩ := reads a listed
    exact ⟨value a, by rw [CostInput.costAt, answer, readingOf, number.reading]⟩

/-- A matching task asks about every node and every arc. -/
theorem spelledOn_matchingInput_iff :
    (matchingInput cost weight minimum maximum).SpelledOn g ↔ g.SpelledIds := by
  constructor
  · rintro ⟨nodes, arcs⟩
    exact ⟨nodes .maxDegree _ rfl, arcs _ List.mem_cons_self⟩
  · rintro ⟨nodes, arcs⟩
    exact ⟨fun _ _ _ => nodes, fun _ _ => arcs⟩

variable {task : SelectionTask Value}
  (accepted : ofInput (matchingInput cost weight minimum maximum) = .ok task)

include accepted

/-- A matching is looked for among whole arcs. -/
theorem integral_of_matchingInput : task.exact.relaxed = false := relaxed_of_ofInput accepted

/-- The threshold is one half. -/
theorem threshold_of_matchingInput : task.exact.threshold = .finite (1 / 2) := by
  rw [threshold_eq accepted]
  change SelectionTask.defaultThreshold.exact = _
  decide +kernel

/-- There is one function of costs, with one weight. -/
theorem costs_of_matchingInput : task.costs = [⟨askCost cost, .float weight⟩] := by
  have costs := costs_of_ofInput accepted
  simp only [matchingInput, List.mapM_cons, List.mapM_nil, bind_eq_ok_iff] at costs
  obtain ⟨read, readEq, rest, restEq, single⟩ := costs
  cases restEq
  obtain ⟨x, weightEq, checked⟩ := bind_eq_ok_iff.mp readEq
  cases weightEq
  split at checked
  · cases checked
  · cases checked
    exact (Except.ok.inj single).symm

/-- A matching task is defined on a graph whose arcs have finite costs, if its ids can be spelled
out. -/
theorem definedOn_of_matchingInput {value : Arc → Rat}
    (reads : ∀ a ∈ g.arcs .all, ∃ v, cost a = .ok v ∧ v.ReadsAs (value a))
    (spelled : g.SpelledIds) : task.exact.DefinedOn g :=
  (definedOn_iff accepted).mpr
    ⟨definedOn_matchingInput reads, spelledOn_matchingInput_iff.mpr spelled⟩

end Configured

/-- A matching of one arc, where an arc costs its id. -/
def leastArc : TaskInput := leastCostInput (fun a => .ok (.int a.id)) (.int 1) (.int 1)

/-- The cost of an arc of the pair is its id. -/
theorem reads_mixedPair : ∀ a ∈ mixedPair.graph.arcs .all,
    ∃ v, (fun a : Arc => .ok (.int a.id) : Arc → Except Fault Value) a = .ok v ∧
      v.ReadsAs a.id := by
  intro a listed
  change a ∈ [⟨1⟩, ⟨2⟩, ⟨3⟩] at listed
  fin_cases listed
  · exact ⟨_, rfl, _, rfl, by decide +kernel⟩
  · exact ⟨_, rfl, _, rfl, by decide +kernel⟩
  · exact ⟨_, rfl, _, rfl, by decide +kernel⟩

/-- The ids of the pair can be spelled out. -/
theorem spelledIds_mixedPair : mixedPair.graph.SpelledIds := by
  refine ⟨fun n member => ?_, fun a listed => ?_⟩
  · change n ∈ [⟨1⟩, ⟨2⟩] at member
    fin_cases member <;> decide +kernel
  · change a ∈ [⟨1⟩, ⟨2⟩, ⟨3⟩] at listed
    fin_cases listed <;> decide +kernel

section First

variable {cost : Arc → Except Fault Value} {weight : Float} {task : SelectionTask Value}
  (accepted : ofInput (matchingInput cost weight (.int 1) (.int 1)) = .ok task)
  {value : Arc → Rat}
  (reads : ∀ a ∈ mixedPair.graph.arcs .all, ∃ v, cost a = .ok v ∧ v.ReadsAs (value a))
  (least : ∀ a ∈ mixedPair.graph.arcs .all,
    (Extended.ofFloat weight).rational * value ⟨1⟩ ≤ (Extended.ofFloat weight).rational * value a)
  {p : Problem Arc Arc Extended}

include accepted reads least

/-- The first arc of the pair is an optimal matching of one arc if it costs no more than
the others. -/
theorem optimal_first (describes : task.exact.Describes mixedPair.graph p) :
    p.Optimal (indicator {⟨1⟩}) := by
  have defined := definedOn_of_matchingInput accepted reads spelledIds_mixedPair
  have one : (Value.int 1).exact = .finite 1 := by decide +kernel
  have costIn : ∀ a ∈ mixedPair.graph.arcs .all,
      task.exact.costIn {a} = (Extended.ofFloat weight).rational * value a := by
    intro a listed
    have within : ({a} : Finset Arc) ⊆ mixedPair.graph.arcSet := by simpa using listed
    have single : ∀ b ∈ ({a} : Finset Arc), ∃ v, cost b = .ok v ∧ v.ReadsAs (value b) := by
      simpa using reads a listed
    rw [costIn_eq accepted defined listsArcs_mixedPair.nodup within,
      costIn_matchingInput single, Finset.sum_singleton]
  have fits : mixedPair.graph.Fits (.int 1) (.int 1) {⟨1⟩} := by
    refine ⟨by decide, ⟨by decide, by simp +contextual⟩, ?_, ?_⟩ <;> simp [one]
  obtain ⟨within, kept⟩ := (fits_iff listsArcs_mixedPair).mp fits
  refine describes.optimal_indicator (integral_of_matchingInput accepted)
    listsArcs_mixedPair.nodup within ((keptBy_iff accepted defined _).mp kept)
    fun T smaller keptT => ?_
  have keptT := (keptBy_iff accepted defined T).mpr keptT
  obtain ⟨a, rfl⟩ : ∃ a, T = {a} := by
    have below : Value.exact (.int 1) ≤ .finite T.card := keptT.least
    have above : .finite T.card ≤ Value.exact (.int 1) := keptT.greatest
    rw [one, Extended.finite_le_finite] at below above
    exact Finset.card_eq_one.mp (by exact_mod_cast le_antisymm above below)
  have listed := Graph.mem_arcSet.mp (smaller (Finset.mem_singleton_self a))
  rw [costIn _ (by decide), costIn a listed]
  exact least a listed

/-- A solution with values near those that take the first arc of the pair only is true of
the program. -/
theorem trueOf_of_near_first (compiled : task.exact.compile mixedPair.graph = .ok p)
    {s : Solution Arc Extended} {tolerance : Rat} (isOptimal : s.type = .optimal)
    (near : ∀ a ∈ mixedPair.graph.arcs .all, s.value a = .finite (s.value a).rational ∧
      |(s.value a).rational - indicator {⟨1⟩} a| ≤ tolerance) : s.TrueOf p tolerance := by
  have describes := describes_of_compile (finiteWeights_of_ofInput accepted)
    listsArcs_mixedPair.nodup compiled
  refine ⟨fun isInfeasible => ?_, fun _ => ?_⟩
  · rw [isOptimal] at isInfeasible
    cases isInfeasible
  · refine ⟨_, optimal_first accepted reads least describes, fun i v member => ?_⟩
    rw [describes.unknowns] at member
    obtain ⟨a, listed, same⟩ := List.mem_map.mp member
    cases same
    exact ⟨_, near i listed⟩

end First

end SelectionTask

end ArcSelection
