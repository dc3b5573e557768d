import ArcSelection.Proofs.Solver.Report
import Mathlib.Algebra.Order.Ring.Abs
import Mathlib.Data.List.Infix

/-!
# Outcomes are true of the program

`BackendReport.Obeys` is the contract of a backend: what each status says about the arrays
it was given. Under this contract every solution that a report stands for is true of the
program, by `Solver.classification_sound`. The one status that leaves open whether the
program is infeasible or unbounded is settled by its bounds: the objective of a program
whose variables all have finite bounds cannot be unbounded.
-/

namespace ArcSelection

open Decimal Fallible

namespace Encoding

/-- An admitted point that costs no more than any other. -/
structure Best (e : Encoding Extended) (x : List Rat) : Prop where
  admits : e.Admits x
  least : ∀ y, e.Admits y → weigh e.costs x ≤ weigh e.costs y

/-- Admitted points have costs below any bound. -/
def Unbounded (e : Encoding Extended) : Prop :=
  ∀ bound : Rat, ∃ x, e.Admits x ∧ weigh e.costs x ≤ .finite bound

end Encoding

namespace BackendReport

/-- The message contains the word, in any case of letters. -/
def SpeaksOfInfeasible {α : Type} (r : BackendReport α) : Prop :=
  ∃ message before word after, r.message = some message ∧
    message.toList = before ++ word ++ after ∧ word.map Char.toLower = "infeasible".toList

/-- What the status of a report says about the arrays. A point comes with a value. -/
structure Obeys (r : BackendReport Extended) (e : Encoding Extended) : Prop where
  optimal : r.status = 0 → ∃ x : List Rat, r.point = some (x.map .finite) ∧ e.Best x
  limit : r.status = 1 → ∀ reported, r.point = some reported →
    ∃ x : List Rat, reported = x.map .finite ∧ e.Admits x
  infeasible : r.status = 2 → ∀ x, ¬ e.Admits x
  unbounded : r.status = 3 → e.Unbounded
  undecided : r.status = 4 → r.SpeaksOfInfeasible → (∀ x, ¬ e.Admits x) ∨ e.Unbounded
  value : r.point.isSome = true → r.value.isSome = true

end BackendReport

namespace Solver

/-- A text occurs in another exactly if it is a part without gaps. -/
theorem occursIn_iff (wanted text : List Char) :
    occursIn wanted text = true ↔ wanted <:+: text := by
  induction text with
  | nil => rw [occursIn, List.isEmpty_iff, List.infix_nil]
  | cons c rest ih =>
      rw [occursIn, Bool.or_eq_true, List.isPrefixOf_iff_prefix, ih, List.infix_cons_iff]

/-- A message speaks of infeasibility exactly if the word is in it, in any case. -/
theorem speaksOfInfeasible_iff {α : Type} (r : BackendReport α) :
    speaksOfInfeasible r.message = true ↔ r.SpeaksOfInfeasible := by
  rw [speaksOfInfeasible, occursIn_iff]
  constructor
  · rintro ⟨before, after, split⟩
    cases said : r.message with
    | none => simp [said] at split
    | some message =>
        rw [said, Option.getD_some] at split
        obtain ⟨front, back, splitAfter, frontEq, _⟩ := List.map_eq_append_iff.mp split.symm
        obtain ⟨start, word, splitBefore, _, wordEq⟩ := List.map_eq_append_iff.mp frontEq
        exact ⟨message, start, word, back, said, splitBefore ▸ splitAfter, wordEq⟩
  · rintro ⟨message, before, word, after, said, split, wordEq⟩
    refine ⟨before.map Char.toLower, after.map Char.toLower, ?_⟩
    rw [said, Option.getD_some, split, List.map_append, List.map_append, wordEq]

end Solver

theorem Sense.abs_sign (sense : Sense) : |sense.sign| = 1 := by
  cases sense <;> norm_num [sign]

namespace Problem

variable {ι κ : Type} [BEq ι]

/-- Feasible points have objective values beyond any bound, in its direction. -/
def Unbounded (p : Problem ι κ Extended) : Prop :=
  ∀ bound : Rat, ∃ x value, p.Feasible x ∧ p.objective.evaluate (point x) = .ok value ∧
    p.sense.Prefers value (.finite bound)

/-- Every variable has two finite bounds. -/
def Boxed (p : Problem ι κ Extended) : Prop :=
  ∀ v ∈ p.unknowns.values, v.lower.IsFinite ∧ v.upper.IsFinite

variable {p : Problem ι κ Extended}

/-- The test for boxes finds that all unknowns are bounded. -/
theorem isBoxed_iff : Solver.isBoxed p = true ↔ p.Boxed := by
  simp [Solver.isBoxed, Boxed]

omit [BEq ι] in
/-- A sum of bounded terms is bounded. -/
private theorem exists_bound_sum {Meets : (ι → Rat) → Prop} (columns : List ι) (c : ι → Rat)
    (each : ∀ i ∈ columns, ∃ m, ∀ x, Meets x → |x i| ≤ m) :
    ∃ m, ∀ x, Meets x → |(columns.map fun i => c i * x i).sum| ≤ m := by
  induction columns with
  | nil => exact ⟨0, by simp⟩
  | cons i rest ih =>
      obtain ⟨m, bounded⟩ := each i List.mem_cons_self
      obtain ⟨m', boundedRest⟩ := ih fun j member => each j (List.mem_cons_of_mem i member)
      refine ⟨|c i| * m + m', fun x meets => ?_⟩
      rw [List.map_cons, List.sum_cons]
      calc |c i * x i + (rest.map fun j => c j * x j).sum|
          ≤ |c i * x i| + |(rest.map fun j => c j * x j).sum| := abs_add_le _ _
        _ ≤ |c i| * m + m' := by
          rw [abs_mul]
          exact add_le_add (mul_le_mul_of_nonneg_left (bounded x meets) (abs_nonneg _))
            (boundedRest x meets)

/-- The objective of a boxed program is bounded over its feasible points. -/
theorem Boxed.exists_bound [LawfulBEq ι] (boxed : p.Boxed) (closed : p.objective.Over p.unknowns) :
    ∃ m, ∀ x, p.Feasible x → |p.objective.linearAt x| ≤ m := by
  have each : ∀ i ∈ p.unknowns.keys, ∃ m, ∀ x, p.Feasible x → |x i| ≤ m := by
    intro i listed
    obtain ⟨v, found⟩ := (OrderedMap.mem_keys_iff_get? p.unknowns i).mp listed
    have member := (OrderedMap.mem_entries_iff p.unknowns i v).mpr found
    obtain ⟨⟨l, lower⟩, ⟨u, upper⟩⟩ := boxed v (List.mem_map_of_mem member)
    refine ⟨max |l| |u|, fun x feasible => ?_⟩
    have allowed := feasible.allowed i v member
    have below := allowed.lower
    have above := allowed.upper
    rw [lower, Extended.finite_le_finite] at below
    rw [upper, Extended.finite_le_finite] at above
    exact abs_le_max_abs_abs below above
  obtain ⟨m, bounded⟩ := exists_bound_sum p.unknowns.keys p.objective.coefficient each
  refine ⟨m, fun x feasible => ?_⟩
  rw [closed.linearAt_eq]
  exact bounded x feasible

/-- A program in a box is not unbounded. -/
theorem Boxed.not_unbounded [LawfulBEq ι] (boxed : p.Boxed)
    (closed : p.objective.Over p.unknowns) : ¬ p.Unbounded := by
  intro unbounded
  obtain ⟨m, bounded⟩ := boxed.exists_bound closed
  let k := p.objective.constant.rational
  obtain ⟨x, value, feasible, evaluated, beyond⟩ := unbounded (k - p.sense.sign * (m + 1))
  rw [closed.finite.computes.evaluate] at evaluated
  cases evaluated
  rw [Sense.prefers_finite_iff, Expression.valueAt_eq, mul_add, mul_sub, ← mul_assoc,
    Sense.sign_mul_self, one_mul] at beyond
  have within : |p.sense.sign * p.objective.linearAt x| ≤ m := by
    rw [abs_mul, p.sense.abs_sign, one_mul]
    exact bounded x feasible
  linarith [(abs_le.mp within).1]

end Problem

namespace Encodes

variable {ι κ : Type} [BEq ι] [LawfulBEq ι] {e : Encoding Extended} {p : Problem ι κ Extended}
  (encodes : Encodes e p)

include encodes

/-- What the arrays admit are the coordinates of feasible points. -/
theorem exists_feasible {x : List Rat} (admits : e.Admits x) :
    ∃ y, p.columnsAt y = x ∧ p.Feasible y := by
  have width : x.length = p.unknowns.size := by
    rw [← admits.lower.length_eq, encodes.lower, List.length_map, OrderedMap.length_values]
  obtain ⟨y, rfl⟩ := Problem.exists_columnsAt_eq width
  exact ⟨y, rfl, (encodes.admits_iff y).mp admits⟩

omit [LawfulBEq ι] in
/-- If the arrays admit nothing, no point is feasible. -/
theorem infeasible (none : ∀ x, ¬ e.Admits x) (x : ι → Rat) : ¬ p.Feasible x :=
  fun feasible => none _ ((encodes.admits_iff x).mpr feasible)

/-- The best of the points that the arrays admit is an optimal one. -/
theorem exists_optimal (finite : p.objective.IsFinite) {x : List Rat} (best : e.Best x) :
    ∃ y, p.columnsAt y = x ∧ p.Optimal y := by
  obtain ⟨y, rfl, feasible⟩ := encodes.exists_feasible best.admits
  refine ⟨y, rfl, feasible, fun z other => ?_⟩
  exact (encodes.costs_le_iff finite y z).mp (best.least _ ((encodes.admits_iff z).mpr other))

/-- Costs below any bound stand for an objective beyond any bound. -/
theorem unbounded (finite : p.objective.IsFinite) (unbounded : e.Unbounded) : p.Unbounded := by
  intro bound
  let k := p.objective.constant.rational
  obtain ⟨x, admits, below⟩ := unbounded (p.sense.sign * (bound - k))
  obtain ⟨y, rfl, feasible⟩ := encodes.exists_feasible admits
  refine ⟨y, _, feasible, finite.computes.evaluate y, ?_⟩
  rw [encodes.costs, Extended.finite_le_finite, mul_sub] at below
  rw [Expression.valueAt_eq, Sense.prefers_finite_iff, mul_add]
  linarith

end Encodes

variable {ι κ : Type} [BEq ι] {p : Problem ι κ Extended}

/-- What a solution says is true of the program: there is no feasible point, or none that
bounds the objective, or the values are those of a feasible or an optimal point, one for
each variable. A solution without values has no objective either. -/
structure Solution.HoldsOf (s : Solution κ Extended) (p : Problem ι κ Extended) : Prop where
  infeasible : s.type = .infeasible → ∀ x, ¬ p.Feasible x
  unbounded : s.type = .unbounded → p.Unbounded
  feasible : s.type = .feasible → ∃ x, p.Feasible x ∧ s.values = p.entriesAt x
  optimal : s.type = .optimal → ∃ x, p.Optimal x ∧ s.values = p.entriesAt x
  bare : s.type.hasSolution = false → s.objective = none ∧ s.values = []

namespace Solution.HoldsOf

/-- Infeasible is the right answer for a program without a feasible point. -/
theorem without_infeasible (none : ∀ x, ¬ p.Feasible x) :
    (Solution.without .infeasible : Solution κ Extended).HoldsOf p where
  infeasible _ := none
  unbounded other := by cases other
  feasible other := by cases other
  optimal other := by cases other
  bare _ := ⟨rfl, rfl⟩

/-- Unbounded is the right answer for an unbounded program. -/
theorem without_unbounded (unbounded : p.Unbounded) :
    (Solution.without .unbounded : Solution κ Extended).HoldsOf p where
  infeasible other := by cases other
  unbounded _ := unbounded
  feasible other := by cases other
  optimal other := by cases other
  bare _ := ⟨rfl, rfl⟩

/-- Feasible is the right answer with a feasible point. -/
theorem of_feasible {x : ι → Rat} (feasible : p.Feasible x) (objective : Option Extended) :
    Solution.HoldsOf ⟨.feasible, objective, p.entriesAt x⟩ p where
  infeasible other := by cases other
  unbounded other := by cases other
  feasible _ := ⟨x, feasible, rfl⟩
  optimal other := by cases other
  bare other := by cases other

/-- Optimal is the right answer with an optimal point. -/
theorem of_optimal {x : ι → Rat} (optimal : p.Optimal x) (objective : Option Extended) :
    Solution.HoldsOf ⟨.optimal, objective, p.entriesAt x⟩ p where
  infeasible other := by cases other
  unbounded other := by cases other
  feasible other := by cases other
  optimal _ := ⟨x, optimal, rfl⟩
  bare other := by cases other

end Solution.HoldsOf

namespace BackendReport

/-- The outcome of the program that a report stands for. -/
inductive StandsFor (r : BackendReport Extended) (p : Problem ι κ Extended) : SolutionType → Prop
  | infeasible : r.status = 2 → r.StandsFor p .infeasible
  | unbounded : r.status = 3 → r.StandsFor p .unbounded
  | undecided : r.status = 4 → r.SpeaksOfInfeasible → p.Boxed → r.StandsFor p .infeasible
  | optimal : r.status = 0 → r.StandsFor p .optimal
  | limit : r.status = 1 → r.point.isSome = true → r.StandsFor p .feasible

/-- The report stands for no outcome of the program: its status is none of the five, or a
limit was reached without a point, or the trouble is not known to be infeasibility. -/
def Unclassified (r : BackendReport Extended) (p : Problem ι κ Extended) : Prop :=
  r.status ∉ [0, 1, 2, 3, 4] ∨ (r.status = 1 ∧ r.point = none) ∨
    (r.status = 4 ∧ (¬ r.SpeaksOfInfeasible ∨ ¬ p.Boxed))

/-- A report that stands for an outcome is classified. -/
theorem StandsFor.not_unclassified {r : BackendReport Extended} {type : SolutionType}
    (standsFor : r.StandsFor p type) : ¬ r.Unclassified p := by
  rintro (other | ⟨limit, missing⟩ | ⟨trouble, unknown⟩)
  · cases standsFor with
    | infeasible status => simp [status] at other
    | unbounded status => simp [status] at other
    | undecided status => simp [status] at other
    | optimal status => simp [status] at other
    | limit status => simp [status] at other
  · cases standsFor with
    | limit _ some => simp [missing] at some
    | infeasible status => omega
    | unbounded status => omega
    | undecided status => omega
    | optimal status => omega
  · cases standsFor with
    | undecided _ speaks boxed => exact unknown.elim (· speaks) (· boxed)
    | infeasible status => omega
    | unbounded status => omega
    | optimal status => omega
    | limit status => omega

end BackendReport

namespace Solver

/-- Classification gives the outcome that a report stands for, or none if there is none. -/
theorem classify?_cases (p : Problem ι κ Extended) (r : BackendReport Extended) :
    (classify? p r = none ∧ r.Unclassified p) ∨
      ∃ type, classify? p r = some type ∧ r.StandsFor p type := by
  have known : (decide (r.status = 4) && speaksOfInfeasible r.message && isBoxed p) = true ↔
      r.status = 4 ∧ r.SpeaksOfInfeasible ∧ p.Boxed := by
    rw [Bool.and_eq_true, Bool.and_eq_true, decide_eq_true_eq, speaksOfInfeasible_iff,
      Problem.isBoxed_iff, and_assoc]
  have limit : (decide (r.status = 1) && r.point.isSome) = true ↔
      r.status = 1 ∧ r.point.isSome = true := by
    rw [Bool.and_eq_true, decide_eq_true_eq]
  unfold classify?
  split_ifs with two three four zero one
  · exact .inr ⟨_, rfl, .infeasible two⟩
  · exact .inr ⟨_, rfl, .unbounded three⟩
  · obtain ⟨status, speaks, boxed⟩ := known.mp four
    exact .inr ⟨_, rfl, .undecided status speaks boxed⟩
  · exact .inr ⟨_, rfl, .optimal zero⟩
  · obtain ⟨status, some⟩ := limit.mp one
    exact .inr ⟨_, rfl, .limit status some⟩
  · refine .inl ⟨rfl, ?_⟩
    rw [known, not_and, not_and_or] at four
    rw [limit, not_and, Option.not_isSome_iff_eq_none] at one
    by_cases isOne : r.status = 1
    · exact .inr (.inl ⟨isOne, one isOne⟩)
    · by_cases isFour : r.status = 4
      · exact .inr (.inr ⟨isFour, four isFour⟩)
      · exact .inl (by simp [zero, isOne, two, three, isFour])

variable [BEq κ]

/-- Under the contract a report becomes a solution that holds of the program if it stands
for one. -/
theorem interpret_holds [LawfulBEq ι] (wellFormed : p.WellFormed) {e : Encoding Extended}
    (encodes : Encodes e p) {r : BackendReport Extended} (obeys : r.Obeys e)
    {type : SolutionType} (classified : classify? p r = some type)
    (standsFor : r.StandsFor p type) : ∃ s, interpret p r = .ok s ∧ s.HoldsOf p := by
  have finite := wellFormed.objective.finite
  cases standsFor with
  | infeasible status =>
      refine ⟨.without .infeasible, by rw [interpret, classified], .without_infeasible ?_⟩
      exact encodes.infeasible (obeys.infeasible status)
  | unbounded status =>
      refine ⟨.without .unbounded, by rw [interpret, classified], .without_unbounded ?_⟩
      exact encodes.unbounded finite (obeys.unbounded status)
  | undecided status speaks boxed =>
      refine ⟨.without .infeasible, by rw [interpret, classified], .without_infeasible ?_⟩
      obtain none | unbounded := obeys.undecided status speaks
      · exact encodes.infeasible none
      · exact absurd (encodes.unbounded finite unbounded)
          (boxed.not_unbounded wellFormed.objective)
  | optimal status =>
      obtain ⟨x, pointEq, best⟩ := obeys.optimal status
      obtain ⟨y, rfl, optimal⟩ := encodes.exists_optimal finite best
      obtain ⟨value, valueEq⟩ := Option.isSome_iff_exists.mp (obeys.value (pointEq ▸ rfl))
      exact ⟨_, interpret_point wellFormed classified rfl pointEq valueEq (objectiveOf_eq p value),
        .of_optimal optimal _⟩
  | limit status some =>
      obtain ⟨reported, pointEq⟩ := Option.isSome_iff_exists.mp some
      obtain ⟨x, rfl, admits⟩ := obeys.limit status reported pointEq
      obtain ⟨y, rfl, feasible⟩ := encodes.exists_feasible admits
      obtain ⟨value, valueEq⟩ := Option.isSome_iff_exists.mp (obeys.value some)
      exact ⟨_, interpret_point wellFormed classified rfl pointEq valueEq (objectiveOf_eq p value),
        .of_feasible feasible _⟩

/-- The direct answer to a program without variables holds of it. -/
theorem constant_holds (wellFormed : p.WellFormed) (bare : p.unknowns.isEmpty = true)
    (backend : Backend Extended) :
    ∃ s, (ofBackend backend p).result = .ok s ∧ s.HoldsOf p := by
  have nothing : p.unknowns.entries = [] := List.isEmpty_iff.mp bare
  obtain ⟨all, direct⟩ | ⟨_, direct⟩ := ofBackend_constant wellFormed bare backend fun _ => 0
  · have feasible : p.Feasible fun _ => 0 := by
      refine ⟨fun i v member => ?_, all⟩
      rw [nothing] at member
      cases member
    have optimal : p.Optimal fun _ => 0 := by
      refine ⟨feasible, fun y _ => ⟨_, _,
        evaluate_constant wellFormed.objective bare (point _),
        evaluate_constant wellFormed.objective bare (point y), ?_⟩⟩
      rw [wellFormed.objective.finite.constant.eq]
      exact Sense.prefers_finite_iff.mpr le_rfl
    have noEntries : p.entriesAt (fun _ => 0) = [] := by
      rw [Problem.entriesAt, nothing, List.map_nil]
    exact ⟨_, direct, noEntries ▸ .of_optimal optimal _⟩
  · refine ⟨_, direct, .without_infeasible fun x feasible => ?_⟩
    obtain ⟨_, other⟩ | ⟨broken, _⟩ := ofBackend_constant wellFormed bare backend x
    · rw [direct] at other
      cases other
    · exact broken feasible.satisfied

/-- A backend that keeps its contract is classified soundly. Solving ends in a solution that
holds of the program, or in a fault of the solver; and a program with variables ends in such
a fault whenever the backend rejects it or its report stands for no outcome. -/
theorem classification_sound [LawfulBEq ι] (wellFormed : p.WellFormed)
    {backend : Backend Extended}
    (obeys : ∀ e r, Encoding.ofProblem p = .ok e → backend e = .ok r → r.Obeys e) :
    ((∃ s, (ofBackend backend p).result = .ok s ∧ s.HoldsOf p) ∨
      ∃ fault, (ofBackend backend p).result = .error fault ∧ fault.kind = .solver) ∧
    (p.unknowns.isEmpty = false → ∀ e r, Encoding.ofProblem p = .ok e → backend e = .ok r →
      ((∃ fault, (ofBackend backend p).result = .error fault) ↔ r.Unclassified p)) := by
  obtain ⟨e, encoded, encodes⟩ := wellFormed.encodes
  -- What becomes of a report, whatever the program.
  have reported : ∀ r, r.Obeys e →
      ((∃ s, interpret p r = .ok s ∧ s.HoldsOf p) ∧ ¬ r.Unclassified p) ∨
        (∃ fault, interpret p r = .error fault ∧ fault.kind = .solver) ∧ r.Unclassified p := by
    intro r obeysOwn
    obtain ⟨none, unclassified⟩ | ⟨type, classified, standsFor⟩ := classify?_cases p r
    · refine .inr ⟨⟨_, by rw [interpret, none], rfl⟩, unclassified⟩
    · exact .inl ⟨interpret_holds wellFormed encodes obeysOwn classified standsFor,
        standsFor.not_unclassified⟩
  constructor
  · cases bare : p.unknowns.isEmpty with
    | true => exact .inl (constant_holds wellFormed bare backend)
    | false =>
        rw [ofBackend_encoded encoded bare]
        cases answer : backend e with
        | error reason => exact .inr ⟨_, rfl, rfl⟩
        | ok r => exact (reported r (obeys e r encoded answer)).imp And.left And.left
  · intro bare e' r encoded' answer
    obtain rfl : e = e' := Except.ok.inj (encoded.symm.trans encoded')
    rw [ofBackend_encoded encoded bare, answer]
    dsimp only
    obtain ⟨⟨s, solved, _⟩, classified⟩ | ⟨⟨fault, failed, _⟩, unclassified⟩ :=
      reported r (obeys e r encoded answer)
    · rw [solved]
      refine iff_of_false ?_ classified
      rintro ⟨fault, failed⟩
      cases failed
    · exact iff_of_true ⟨fault, failed⟩ unclassified

/-- An integer from zero to one whose double is to be one. -/
def halfInteger : Problem Nat Nat Extended where
  unknowns := OrderedMap.empty.insert 0 ⟨7, .integer, .finite 0, .finite 1⟩
  constraints := [⟨⟨OrderedMap.empty.insert 0 (.finite 2), .finite 0⟩, .equal, .finite 1⟩]
  objective := ⟨OrderedMap.empty.insert 0 (.finite 1), .finite 0⟩
  sense := .maximize

/-- Cannot tell an infeasible problem from an unbounded one. -/
def undecided : Backend Extended := fun _ =>
  .ok ⟨4, some "Primal Infeasible or Unbounded", none, none⟩

/-- No half integer is an integer. -/
theorem not_feasible_halfInteger (x : Nat → Rat) : ¬ halfInteger.Feasible x := by
  intro feasible
  obtain ⟨z, integral⟩ := (feasible.allowed 0 _ List.mem_cons_self).integer rfl
  have closed : Expression.Over ⟨OrderedMap.empty.insert 0 (.finite 2), .finite 0⟩
      halfInteger.unknowns := by decide
  have holds := feasible.satisfied _ List.mem_cons_self
  have double : (Expression.mk (OrderedMap.empty.insert 0 (Extended.finite 2))
      (.finite 0)).valueAt x = 2 * z := by
    change (0 : Rat) + (2 * x 0 + 0) = 2 * z
    rw [integral, add_zero, zero_add]
  rw [Constraint.holdsAt_equal closed.finite.computes, double, Extended.finite_le_finite,
    Extended.finite_le_finite] at holds
  have odd : (2 * z : Int) = 1 := by exact_mod_cast le_antisymm holds.1 holds.2
  omega

/-- A program whose only point is not integral is found infeasible. -/
theorem classification_sound_halfInteger :
    halfInteger.WellFormed ∧
      (∀ e r, Encoding.ofProblem halfInteger = .ok e → undecided e = .ok r → r.Obeys e) ∧
      (ofBackend undecided halfInteger).result = .ok (.without .infeasible) ∧
      Solution.HoldsOf (.without .infeasible) halfInteger := by
  have wellFormed : halfInteger.WellFormed := by decide
  have obeys : ∀ e r, Encoding.ofProblem halfInteger = .ok e → undecided e = .ok r →
      r.Obeys e := by
    intro e r encoded answer
    cases answer
    obtain ⟨e', encoded', encodes⟩ := wellFormed.encodes
    obtain rfl : e' = e := Except.ok.inj (encoded'.symm.trans encoded)
    refine ⟨nofun, nofun, nofun, nofun, fun _ _ => .inl fun x admits => ?_, nofun⟩
    obtain ⟨y, _, feasible⟩ := encodes.exists_feasible admits
    exact not_feasible_halfInteger y feasible
  have answered : (ofBackend undecided halfInteger).result = .ok (.without .infeasible) := rfl
  obtain ⟨s, solved, holds⟩ | ⟨fault, failed, _⟩ := (classification_sound wellFormed obeys).1
  · rw [answered] at solved
    cases solved
    exact ⟨wellFormed, obeys, answered, holds⟩
  · rw [answered] at failed
    cases failed

end Solver

end ArcSelection
