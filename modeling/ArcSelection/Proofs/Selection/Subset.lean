import ArcSelection.Proofs.Program.Optimum
import ArcSelection.Proofs.Selection.Compile
import ArcSelection.Proofs.Selection.Requested
import Mathlib.Algebra.BigOperators.Ring.Finset
import Mathlib.Algebra.Order.BigOperators.Group.Finset

/-!
# Sets of arcs as solutions of a task

A set of arcs keeps a task when its degrees and its size lie within the bounds. The
integral points of a program that describes the task are the sets that keep it, so an
optimal point is a cheapest set (`Describes.cheapest_of_optimal`) and a program without
feasible points leaves no set at all.
-/

namespace ArcSelection

open Decimal

/-- The degree of a node in a set of arcs. -/
def Ends.degreeIn (e : Ends) (S : Finset Arc) (k : DegreeKind) (n : Node) : Nat :=
  ∑ a ∈ S, e.multiplicity k a n

/-- An arc adds two to a degree at most. -/
theorem Ends.degreeIn_le (e : Ends) (S : Finset Arc) (k : DegreeKind) (n : Node) :
    e.degreeIn S k n ≤ S.card * 2 :=
  Finset.sum_le_card_nsmul S _ 2 fun a _ => e.multiplicity_le_two k a n

/-- Takes the arcs of a set whole and no other. -/
def indicator (S : Finset Arc) (a : Arc) : Rat := if a ∈ S then 1 else 0

theorem indicator_eq_zero_or_one (S : Finset Arc) (a : Arc) :
    indicator S a = 0 ∨ indicator S a = 1 := by
  by_cases member : a ∈ S
  · exact .inr (by simp [indicator, member])
  · exact .inl (by simp [indicator, member])

theorem indicator_nonneg (S : Finset Arc) (a : Arc) : 0 ≤ indicator S a := by
  rcases indicator_eq_zero_or_one S a with zero | one
  · exact zero.ge
  · simp [one]

namespace Graph

/-- The arcs of the graph as a set. -/
def arcSet (g : Graph) : Finset Arc := (g.arcs .all).toFinset

@[simp] theorem mem_arcSet {g : Graph} {a : Arc} : a ∈ g.arcSet ↔ a ∈ g.arcs .all := by
  simp [arcSet]

/-- Degrees depend on the arcs of the graph only. -/
theorem degreeOf_congr {g : Graph} {x y : Arc → Rat} (same : ∀ a ∈ g.arcs .all, x a = y a)
    (k : DegreeKind) (n : Node) : g.degreeOf x k n = g.degreeOf y k n :=
  congrArg List.sum (List.map_congr_left fun a listed => by rw [same a listed])

/-- The amount depends on the arcs of the graph only. -/
theorem amountOf_congr {g : Graph} {x y : Arc → Rat} (same : ∀ a ∈ g.arcs .all, x a = y a) :
    g.amountOf x = g.amountOf y :=
  congrArg List.sum (List.map_congr_left same)

end Graph

/-- A sum over the arcs with the indicator of a set is a sum over the set. -/
private theorem sum_indicator {arcs : List Arc} (nodup : arcs.Nodup) {S : Finset Arc}
    (within : S ⊆ arcs.toFinset) (share : Arc → Rat) :
    (arcs.map fun a => share a * indicator S a).sum = ∑ a ∈ S, share a := by
  rw [← List.sum_toFinset _ nodup, ← Finset.sum_subset within]
  · exact Finset.sum_congr rfl fun a member => by simp [indicator, member]
  · intro a _ outside
    simp [indicator, outside]

section Subset

variable {g : Graph} (nodup : (g.arcs .all).Nodup) {S : Finset Arc} (within : S ⊆ g.arcSet)

include nodup within

/-- The degree of an indicator is the degree in the set. -/
theorem Graph.degreeOf_indicator (k : DegreeKind) (n : Node) :
    g.degreeOf (indicator S) k n = g.degreeIn S k n := by
  rw [Graph.degreeOf, sum_indicator nodup within, Ends.degreeIn, Nat.cast_sum]

/-- The amount of an indicator is the size of the set. -/
theorem Graph.amountOf_indicator : g.amountOf (indicator S) = S.card := by
  have counted := sum_indicator nodup within fun _ => 1
  simpa [Graph.amountOf] using counted

end Subset

namespace SelectionTask

/-- The set keeps every bound on degrees and on the number of arcs. -/
structure KeptBy (t : SelectionTask Extended) (g : Graph) (S : Finset Arc) : Prop where
  degree : ∀ k, ∀ n ∈ g.nodes, (t.bounds k).Admits n (g.degreeIn S k n)
  minimum : t.minimum ≤ S.card
  maximum : ∀ m, t.maximum = some m → S.card ≤ m

/-- The weighted total cost of a set. -/
def costIn (t : SelectionTask Extended) (S : Finset Arc) : Rat :=
  (t.costs.map fun c => c.weight.rational * ∑ a ∈ S, c.costOf a).sum

variable {t : SelectionTask Extended} {g : Graph} {p : Problem Arc Arc Extended}

/-- Whether bounds are met depends on the arcs of the graph only. -/
theorem MetBy.congr {x y : Arc → Rat} (met : t.MetBy g x)
    (same : ∀ a ∈ g.arcs .all, x a = y a) : t.MetBy g y where
  degree k n member := Graph.degreeOf_congr same k n ▸ met.degree k n member
  minimum := Graph.amountOf_congr same ▸ met.minimum
  maximum := Graph.amountOf_congr same ▸ met.maximum

/-- The price depends on the arcs of the graph only. -/
theorem priceOf_congr {x y : Arc → Rat} (same : ∀ a ∈ g.arcs .all, x a = y a) :
    t.priceOf g x = t.priceOf g y := by
  refine congrArg List.sum (List.map_congr_left fun c _ => ?_)
  exact congrArg (c.weight.rational * ·)
    (congrArg List.sum (List.map_congr_left fun a listed => by rw [same a listed]))

/-- Taking the arcs of a set whole keeps the bounds exactly if the set does. -/
theorem metBy_indicator_iff (nodup : (g.arcs .all).Nodup) {S : Finset Arc}
    (within : S ⊆ g.arcSet) : t.MetBy g (indicator S) ↔ t.KeptBy g S := by
  have degree := Graph.degreeOf_indicator nodup within
  have amount := Graph.amountOf_indicator nodup within
  constructor
  · intro met
    refine ⟨fun k n member => degree k n ▸ met.degree k n member, ?_, fun m limited => ?_⟩
    · have least := met.minimum
      rw [amount] at least
      exact_mod_cast least
    · have most := met.maximum m limited
      rw [amount] at most
      exact_mod_cast most
  · intro kept
    refine ⟨fun k n member => (degree k n).symm ▸ kept.degree k n member, ?_, fun m limited => ?_⟩
    · rw [amount]
      exact_mod_cast kept.minimum
    · rw [amount]
      exact_mod_cast kept.maximum m limited

/-- The price of an indicator is the cost of the set. -/
theorem priceOf_indicator (nodup : (g.arcs .all).Nodup) {S : Finset Arc}
    (within : S ⊆ g.arcSet) : t.priceOf g (indicator S) = t.costIn S :=
  congrArg List.sum (List.map_congr_left fun c _ => by
    rw [sum_indicator nodup within])

namespace Describes

/-- The arcs a point takes whole. -/
def taken (g : Graph) (x : Arc → Rat) : Finset Arc :=
  ((g.arcs .all).filter fun a => x a = 1).toFinset

theorem taken_subset (g : Graph) (x : Arc → Rat) : taken g x ⊆ g.arcSet := by
  intro a member
  simp only [taken, List.mem_toFinset, List.mem_filter] at member
  exact Graph.mem_arcSet.mpr member.1

/-- Integral values are the indicator of the arcs that are taken. -/
theorem indicator_taken {x : Arc → Rat} (integral : ∀ a ∈ g.arcs .all, x a = 0 ∨ x a = 1) :
    ∀ a ∈ g.arcs .all, x a = indicator (taken g x) a := by
  intro a listed
  rcases integral a listed with zero | one
  · simp [indicator, taken, zero]
  · simp [indicator, taken, one, listed]

/-- The variable of an arc may take what a set takes of it. -/
theorem allows_indicator {key : Arc} {type : VariableType} (S : Finset Arc) (a : Arc) :
    Variable.Allows ⟨key, type, .finite 0, .finite 1⟩ (indicator S a) := by
  rcases indicator_eq_zero_or_one S a with zero | one
  · exact ⟨by simp [zero], by simp [zero], fun _ => ⟨0, by simp [zero]⟩⟩
  · exact ⟨by simp [one], by simp [one], fun _ => ⟨1, by simp [one]⟩⟩

variable (describes : t.Describes g p)

include describes

/-- The sets that keep the task are feasible points. -/
theorem feasible_indicator (nodup : (g.arcs .all).Nodup) {S : Finset Arc}
    (within : S ⊆ g.arcSet) (kept : t.KeptBy g S) : p.Feasible (indicator S) := by
  refine ⟨fun i v member => ?_, ?_⟩
  · rw [describes.unknowns] at member
    obtain ⟨_, _, same⟩ := List.mem_map.mp member
    cases same
    exact allows_indicator S i
  · exact (describes.rows _ fun a _ => indicator_nonneg S a).mpr
      ((metBy_indicator_iff nodup within).mpr kept)

variable (integral : t.relaxed = false)

include integral

/-- A feasible point of the integer program takes each arc whole or not at all. -/
theorem integral_of_feasible {x : Arc → Rat} (feasible : p.Feasible x) :
    ∀ a ∈ g.arcs .all, x a = 0 ∨ x a = 1 := by
  intro a listed
  have allows := feasible.allowed a _ (describes.unknowns ▸ List.mem_map.mpr ⟨a, listed, rfl⟩)
  obtain ⟨z, value⟩ := allows.integer (by simp [integral])
  have below : (0 : Rat) ≤ z := value ▸ Extended.finite_le_finite.mp allows.lower
  have above : (z : Rat) ≤ 1 := value ▸ Extended.finite_le_finite.mp allows.upper
  have cases : z = 0 ∨ z = 1 := by
    have : (0 : Int) ≤ z := by exact_mod_cast below
    have : z ≤ 1 := by exact_mod_cast above
    omega
  rcases cases with rfl | rfl
  · exact .inl (by simpa using value)
  · exact .inr (by simpa using value)

/-- A feasible point takes a set that keeps the task. -/
theorem keptBy_taken (nodup : (g.arcs .all).Nodup) {x : Arc → Rat} (feasible : p.Feasible x) :
    t.KeptBy g (taken g x) := by
  have unit := describes.integral_of_feasible integral feasible
  have met : t.MetBy g x := (describes.rows x fun a listed => by
    rcases unit a listed with zero | one
    · simp [zero]
    · simp [one]).mp feasible.satisfied
  exact (metBy_indicator_iff nodup (taken_subset g x)).mp (met.congr (indicator_taken unit))

/-- An optimal point takes a set that is no dearer than any other that keeps the task. -/
theorem cheapest_of_optimal (nodup : (g.arcs .all).Nodup) {x : Arc → Rat}
    (optimal : p.Optimal x) {S : Finset Arc} (within : S ⊆ g.arcSet) (kept : t.KeptBy g S) :
    t.costIn (taken g x) ≤ t.costIn S := by
  have unit := describes.integral_of_feasible integral optimal.feasible
  obtain ⟨here, there, hereEq, thereEq, prefers⟩ :=
    optimal.best _ (describes.feasible_indicator nodup within kept)
  rw [describes.objective] at hereEq thereEq
  cases hereEq
  cases thereEq
  rw [describes.sense, Sense.Prefers, Extended.finite_le_finite,
    priceOf_congr (indicator_taken unit), priceOf_indicator nodup (taken_subset g x),
    priceOf_indicator nodup within] at prefers
  exact prefers

/-- A cheapest set that keeps the task is an optimal point. -/
theorem optimal_indicator (nodup : (g.arcs .all).Nodup) {S : Finset Arc} (within : S ⊆ g.arcSet)
    (kept : t.KeptBy g S)
    (cheapest : ∀ T ⊆ g.arcSet, t.KeptBy g T → t.costIn S ≤ t.costIn T) :
    p.Optimal (indicator S) := by
  refine ⟨describes.feasible_indicator nodup within kept, fun y feasible => ?_⟩
  have unit := describes.integral_of_feasible integral feasible
  refine ⟨_, _, describes.objective _, describes.objective _, ?_⟩
  rw [describes.sense, Sense.Prefers, Extended.finite_le_finite,
    priceOf_indicator nodup within, priceOf_congr (indicator_taken unit),
    priceOf_indicator nodup (taken_subset g y)]
  exact cheapest _ (taken_subset g y) (describes.keptBy_taken integral nodup feasible)

end Describes

end SelectionTask

namespace TaskInput

/-- The degrees and the size of a set keep every bound of the configuration. -/
def KeptBy (input : TaskInput) (g : Graph) (S : Finset Arc) : Prop :=
  input.Admits g.nodes (fun k n => g.degreeIn S k n) S.card

/-- The weighted total cost of a set. -/
def costIn (input : TaskInput) (S : Finset Arc) : Rat :=
  (input.costs.map fun c => c.weight * ∑ a ∈ S, (c.costAt a).rational).sum

/-- The price of an indicator is the cost of the set. -/
theorem priceOf_indicator {input : TaskInput} {g : Graph} (nodup : (g.arcs .all).Nodup)
    {S : Finset Arc} (within : S ⊆ g.arcSet) :
    input.priceOf g (indicator S) = input.costIn S :=
  congrArg List.sum (List.map_congr_left fun c _ => by
    rw [sum_indicator nodup within])

end TaskInput

namespace SelectionTask

variable {input : TaskInput} {task : SelectionTask Value}
  (accepted : ofInput input = .ok task) {g : Graph} (defined : task.exact.DefinedOn g)

include accepted defined

/-- The sets that keep a task, where it is defined, keep its configuration. -/
theorem keptBy_iff (S : Finset Arc) : input.KeptBy g S ↔ task.exact.KeptBy g S := by
  rw [TaskInput.KeptBy, admits_iff accepted defined]
  constructor
  · rintro ⟨degree, minimum, maximum⟩
    exact ⟨degree, by exact_mod_cast minimum,
      fun m limited => by exact_mod_cast maximum m limited⟩
  · rintro ⟨degree, minimum, maximum⟩
    exact ⟨degree, by exact_mod_cast minimum,
      fun m limited => by exact_mod_cast maximum m limited⟩

/-- A set of arcs costs what the configuration says. -/
theorem costIn_eq (nodup : (g.arcs .all).Nodup) {S : Finset Arc} (within : S ⊆ g.arcSet) :
    task.exact.costIn S = input.costIn S := by
  rw [← priceOf_indicator nodup within, priceOf_eq accepted defined,
    TaskInput.priceOf_indicator nodup within]

end SelectionTask

end ArcSelection
