import ArcSelection.Proofs.Decimal.IntegerValue
import ArcSelection.Proofs.ProblemFile.Acceptance
import ArcSelection.Proofs.Selection.Exact

/-!
# Which configurations are accepted

A configuration is judged by looking at its values alone (`TaskInput.Acceptable`), and a
task that is made holds what was given, within the limits (`TaskInput.Gives`).  Everything
that is refused is refused as a bad value but one thing: the weight of a cost function is
tested for being finite without being read as a double first, so the test itself fails on
a weight that is no number, and on an integer that no double can hold.
-/

namespace ArcSelection

open Decimal Fallible ProblemFile

namespace Value

/-- The numbers, booleans included, that a finite double can hold. -/
def IsWeight : Value → Prop
  | .bool _ => True
  | .int n => n.natAbs < roundsAway
  | .float x => (Extended.ofFloat x).IsFinite
  | _ => False

/-- A weight that cannot be tested for being finite, with the cause: it is no number, or an
integer that no double can hold. -/
def FailsTest (weight : Value) (fault : Fault) : Prop :=
  weight.isNumeric = false ∧ fault = .wrongType ∨
    (∃ n, weight = .int n ∧ roundsAway ≤ n.natAbs) ∧ fault = .tooLarge

/-- The finite arc counts. -/
def IsCount (v : Value) (n : Nat) : Prop := v = .int n ∧ n ≤ 2 ^ 53

/-- A count stands for one number only. -/
theorem IsCount.unique {v : Value} {n m : Nat} (first : v.IsCount n) (second : v.IsCount m) :
    n = m := by
  obtain ⟨rfl, _⟩ := first
  exact_mod_cast Value.int.inj second.1

/-- A count is no sign of there being no limit. -/
theorem IsCount.not_isTop {v : Value} {n : Nat} (count : v.IsCount n) :
    ¬ SelectionTask.isTop v = true := by
  obtain ⟨rfl, _⟩ := count
  exact nofun

/-- The thresholds: none, or a number above zero and at most one. -/
def IsThreshold (v : Value) : Prop :=
  v = .null ∨ v.isNumber = true ∧ ∃ q : Rat, v.exact = .finite q ∧ 0 < q ∧ q ≤ 1

end Value

/-- The bounds on a degree that are accepted: none, a function, or a number other than nan
that a double can hold. -/
def BoundInput.Acceptable : BoundInput → Prop
  | .function _ => True
  | .value v => v = .null ∨ v.FitsFloat ∧ v.exact ≠ .nan

/-- The costs that are accepted: cost functions with a finite weight. -/
def CostInput.Acceptable : CostInput → Prop
  | .function _ weight => weight.IsWeight
  | .constant _ _ | .raw _ => False

namespace TaskInput

/-- The numbers of arcs from a least to a greatest one; no greatest one if there is no limit. -/
def GivesRange (input : TaskInput) (least : Nat) (greatest : Option Nat) : Prop :=
  input.minArcs.IsCount least ∧
    match greatest with
    | none => SelectionTask.isTop input.maxArcs = true
    | some m => input.maxArcs.IsCount m ∧ least ≤ m

/-- The configurations that are accepted. -/
structure Acceptable (input : TaskInput) : Prop where
  bounds : ∀ k, (input.bound k).Acceptable
  range : ∃ least greatest, input.GivesRange least greatest
  costs : ∀ c ∈ input.costs, c.Acceptable
  threshold : input.threshold.IsThreshold

/-- What a task that is made holds: the range of sizes and the threshold that were given, and
a finite weight for every cost function. -/
structure Gives (input : TaskInput) (t : SelectionTask Value) : Prop where
  range : input.GivesRange t.minimum t.maximum
  threshold : ∃ (x : Float) (q : Rat), t.threshold = .float x ∧ t.threshold.exact = .finite q ∧
    0 < q ∧ q ≤ 1 ∧ (input.threshold = .null ∨ input.threshold.exact = .finite q)
  costs : List.Forall₂ CostInput.ReadAs input.costs t.costs

/-- The check gets as far as a weight: the bounds, the range of sizes and the costs before
it are accepted. -/
def Reaches (input : TaskInput) (weight : Value) : Prop :=
  (∀ k, (input.bound k).Acceptable) ∧ (∃ least greatest, input.GivesRange least greatest) ∧
    ∃ before f after, input.costs = before ++ .function f weight :: after ∧
      ∀ c ∈ before, c.Acceptable

end TaskInput

namespace SelectionTask

/-! ### Bounds and counts -/

/-- Reading a number keeps whether it is nan. -/
theorem readNumber_judges {v : Value} (isNumber : v.isNumber = true) (name : String) :
    Judges (readNumber v name) v.FitsFloat
      fun w => ∃ x, w = .float x ∧ (Extended.ofFloat x = .nan ↔ v.exact = .nan) := by
  have isFloat : v.toFloat = v.numericFloat := by
    cases v with
    | int n | float x => rfl
    | _ => cases isNumber
  rw [readNumber, isFloat]
  rcases numericFloat_cases isNumber with ⟨fits, x, reads⟩ | ⟨large, reads⟩
  · rw [reads]
    refine ⟨fits, x, rfl, ?_⟩
    cases v with
    | int n =>
        obtain ⟨q, value, _⟩ := ofFloat_ofInt? (ofInt?_of_floatOfInt reads)
        have left : Extended.ofFloat x ≠ .nan := by
          rw [value]
          intro isNaN
          cases isNaN
        have right : (Value.int n).exact ≠ .nan := by
          intro isNaN
          cases isNaN
        exact iff_of_false left right
    | float y =>
        cases reads
        exact Iff.rfl
    | _ => cases fits
  · rw [reads]
    exact ⟨large, label_quoting rfl⟩

/-- A bound is accepted exactly if it is acceptable. -/
theorem readBound_judges (name side : String) (b : BoundInput) :
    Judges (readBound name side b) b.Acceptable fun _ => True := by
  have number {v : Value} (isNumber : v.isNumber = true) : Judges (do
      let x <- readNumber v name
      if Arithmetic.isNaN x then .error (.boundIsNaN name)
      else return some (askBound side fun _ => .ok x) :
        Except Fault (Option (Node → Except Fault Value)))
      (v = .null ∨ v.FitsFloat ∧ v.exact ≠ .nan) fun _ => True := by
    have notNull : v ≠ .null := by
      rintro rfl
      cases isNumber
    refine ((readNumber_judges isNumber name).bind (Q := v.exact ≠ .nan) ?_).congr
      (by simp [notNull])
    rintro _ _ ⟨x, rfl, sameNaN⟩
    have isNaN : Arithmetic.isNaN (Value.float x) = true ↔ v.exact = .nan := by
      rw [← sameNaN, Value.isNaN_of_numeric rfl, Extended.isNaN_iff]
      exact Iff.rfl
    split
    · rename_i nan
      exact ⟨not_not.mpr (isNaN.mp nan), rfl⟩
    · rename_i notNaN
      exact ⟨fun nan => notNaN (isNaN.mpr nan), trivial⟩
  cases b with
  | function f => exact ⟨trivial, trivial⟩
  | value v =>
      cases v with
      | null => exact ⟨Or.inl rfl, trivial⟩
      | int n | float x => exact number rfl
      | _ => exact ⟨by rintro (null | ⟨fits, _⟩) <;> trivial, label_quoting rfl⟩

/-- A pair of bounds is accepted exactly if both are acceptable. -/
theorem readBounds_judges (lowerKey upperKey : DegreeKey) (lower upper : BoundInput) :
    Judges (readBounds lowerKey upperKey lower upper) (lower.Acceptable ∧ upper.Acceptable)
      fun _ => True :=
  (readBound_judges _ _ lower).bind fun _ _ _ => (readBound_judges _ _ upper).finish _

/-- A number of arcs is accepted exactly if it is one. -/
theorem readFiniteCount_judges (v : Value) (name : String) :
    Judges (readFiniteCount v name) (∃ n, v.IsCount n) v.IsCount := by
  cases v with
  | int n =>
      rw [readFiniteCount]
      have limit : (Fault.maxArcCount : Int) = 2 ^ 53 := rfl
      split
      · rename_i negative
        refine ⟨?_, label_quoting rfl⟩
        rintro ⟨m, isCount, _⟩
        cases isCount
        omega
      · split
        · rename_i tooLarge
          refine ⟨?_, label_quoting rfl⟩
          rintro ⟨m, isCount, small⟩
          cases isCount
          omega
        · have isCount : (Value.int n).IsCount n.toNat := by
            refine ⟨?_, by omega⟩
            rw [Int.toNat_of_nonneg (by omega)]
          exact ⟨⟨_, isCount⟩, isCount⟩
  | _ =>
      refine ⟨?_, label_quoting rfl⟩
      rintro ⟨n, isCount, _⟩
      cases isCount

/-- A greatest count: infinity, or a finite count. -/
theorem readCount_judges (v : Value) (name : String) :
    Judges (readCount v name) (isTop v = true ∨ ∃ n, v.IsCount n)
      fun count => match count with
        | none => isTop v = true
        | some n => v.IsCount n := by
  rw [readCount]
  split
  · rename_i top
    exact ⟨Or.inl top, top⟩
  · rename_i notTop
    have judged := readFiniteCount_judges v name
    cases read : readFiniteCount v name with
    | error fault =>
        rw [read] at judged
        exact ⟨by simp [notTop, judged.1], judged.2⟩
    | ok n =>
        rw [read] at judged
        exact ⟨Or.inr judged.1, judged.2⟩

/-- The range of sizes of a configuration. -/
def readRange (input : TaskInput) : Except Fault (Nat × Option Nat) := do
  if isTop input.minArcs then throw .minimumNotFinite
  let minimum <- readFiniteCount input.minArcs "min_arc_count"
  let maximum <- readCount input.maxArcs "max_arc_count"
  checkCounts minimum maximum
  return (minimum, maximum)

/-- What is checked before the costs. -/
def readLimits (input : TaskInput) : Except Fault
    ((DegreeBounds Value × DegreeBounds Value × DegreeBounds Value) × Nat × Option Nat) := do
  let degree <- readBounds .minDegree .maxDegree input.minDegree input.maxDegree
  let inDegree <- readBounds .minInDegree .maxInDegree input.minInDegree input.maxInDegree
  let outDegree <-
    readBounds .minOutDegree .maxOutDegree input.minOutDegree input.maxOutDegree
  return ((degree, inDegree, outDegree), <- readRange input)

/-- A task is read in three steps. -/
theorem ofInput_eq (input : TaskInput) :
    ofInput input = do
      let ((degree, inDegree, outDegree), minimum, maximum) <- readLimits input
      let costs <- input.costs.mapM readCost
      let threshold <- readThreshold input.threshold
      return { degree, inDegree, outDegree, minimum, maximum, costs
               relaxed := input.relaxed.isTruthy, threshold } := by
  simp only [ofInput, readLimits, readRange, bind_assoc]
  split <;> simp [bind_assoc]

/-- A range of sizes is accepted exactly if the sizes give one. -/
theorem readRange_judges (input : TaskInput) :
    Judges (readRange input) (∃ least greatest, input.GivesRange least greatest)
      fun range => input.GivesRange range.1 range.2 := by
  rw [readRange]
  split
  · rename_i top
    refine ⟨?_, rfl⟩
    rintro ⟨least, greatest, isCount, _⟩
    exact isCount.not_isTop top
  have first := readFiniteCount_judges input.minArcs "min_arc_count"
  have second := readCount_judges input.maxArcs "max_arc_count"
  cases readFirst : readFiniteCount input.minArcs "min_arc_count" with
  | error fault =>
      rw [readFirst] at first
      refine ⟨?_, first.2⟩
      rintro ⟨least, _, isCount, _⟩
      exact first.1 ⟨least, isCount⟩
  | ok minimum =>
  rw [readFirst] at first
  cases readSecond : readCount input.maxArcs "max_arc_count" with
  | error fault =>
      rw [readSecond] at second
      refine ⟨?_, second.2⟩
      rintro ⟨_, greatest, _, given⟩
      cases greatest with
      | none => exact second.1 (Or.inl given)
      | some m => exact second.1 (Or.inr ⟨m, given.1⟩)
  | ok maximum =>
  rw [readSecond] at second
  cases maximum with
  | none => exact ⟨⟨minimum, none, first.2, second.2⟩, first.2, second.2⟩
  | some m =>
      change Judges (checkCounts minimum (some m) >>= fun _ => pure (minimum, some m)) _ _
      rw [checkCounts]
      split
      · rename_i crossed
        refine ⟨?_, rfl⟩
        rintro ⟨least, greatest, isCount, given⟩
        -- The readings decide the range.
        obtain rfl := first.2.unique isCount
        cases greatest with
        | none => exact second.2.not_isTop given
        | some m' =>
            obtain rfl := second.2.unique given.1
            exact absurd given.2 (by omega)
      · rename_i ordered
        have given : input.GivesRange minimum (some m) := ⟨first.2, second.2, by omega⟩
        exact ⟨⟨minimum, some m, given⟩, given⟩

/-- Limits are accepted exactly if all bounds are acceptable and the sizes give a range. -/
theorem readLimits_judges (input : TaskInput) :
    Judges (readLimits input)
      ((∀ k, (input.bound k).Acceptable) ∧ ∃ least greatest, input.GivesRange least greatest)
      fun limits => input.GivesRange limits.2.1 limits.2.2 := by
  have range : ∀ bounds : DegreeBounds Value × DegreeBounds Value × DegreeBounds Value,
      Judges (readRange input >>= fun r => pure (bounds, r))
        ((∃ least greatest, input.GivesRange least greatest) ∧ True)
        fun limits => input.GivesRange limits.2.1 limits.2.2 := fun _ =>
    (readRange_judges input).bind fun _ _ given => ⟨trivial, given⟩
  have judged := (readBounds_judges .minDegree .maxDegree input.minDegree input.maxDegree).bind
    fun degree _ _ => (readBounds_judges .minInDegree .maxInDegree input.minInDegree
      input.maxInDegree).bind fun inDegree _ _ =>
    (readBounds_judges .minOutDegree .maxOutDegree input.minOutDegree input.maxOutDegree).bind
      fun outDegree _ _ => range (degree, inDegree, outDegree)
  refine judged.congr ?_
  constructor
  · rintro ⟨⟨_, _⟩, ⟨_, _⟩, ⟨_, _⟩, given, _⟩
    refine ⟨fun k => ?_, given⟩
    cases k <;> assumption
  · rintro ⟨all, given⟩
    exact ⟨⟨all .minDegree, all .maxDegree⟩, ⟨all .minInDegree, all .maxInDegree⟩,
      ⟨all .minOutDegree, all .maxOutDegree⟩, given, trivial⟩

/-! ### Costs and the threshold -/

/-- A weight is finite, is infinite or nan, or fails the test. -/
theorem weight_cases (weight : Value) :
    (weight.IsWeight ∧ ∃ x, weight.numericFloat = .ok x ∧ (Extended.ofFloat x).IsFinite) ∨
      (¬ weight.IsWeight ∧ ∃ x, weight = .float x ∧ ¬ (Extended.ofFloat x).IsFinite) ∨
      ¬ weight.IsWeight ∧ ∃ fault, weight.FailsTest fault := by
  cases weight with
  | bool b =>
      refine Or.inl ⟨trivial, _, rfl, if b then 1 else 0, ?_⟩
      cases b <;> decide +kernel
  | int n =>
      by_cases small : n.natAbs < roundsAway
      · obtain ⟨x, double⟩ := Option.isSome_iff_exists.mp ((ofInt?_isSome_iff n).mpr small)
        obtain ⟨q, value, _⟩ := ofFloat_ofInt? double
        refine Or.inl ⟨small, x, ?_, q, value⟩
        rw [Value.numericFloat, Value.floatOfInt, double]
      · exact Or.inr (Or.inr ⟨small, _, Or.inr ⟨⟨n, rfl, Nat.le_of_not_lt small⟩, rfl⟩⟩)
  | float x =>
      by_cases finite : (Extended.ofFloat x).IsFinite
      · exact Or.inl ⟨finite, x, rfl, finite⟩
      · exact Or.inr (Or.inl ⟨finite, x, rfl, finite⟩)
  | _ => exact Or.inr (Or.inr ⟨id, _, Or.inl ⟨rfl, rfl⟩⟩)

/-- A weight that fails the test for being finite fails to be read in the same way. -/
theorem numericFloat_of_failsTest {weight : Value} {fault : Fault}
    (fails : weight.FailsTest fault) : weight.numericFloat = .error fault := by
  rcases fails with ⟨noNumber, rfl⟩ | ⟨⟨n, rfl, large⟩, rfl⟩
  · cases weight with
    | bool b | int n | float x => cases noNumber
    | _ => rfl
  · have none : ofInt? n = none := by
      rw [← Option.not_isSome_iff_eq_none, ofInt?_isSome_iff]
      omega
    rw [Value.numericFloat, Value.floatOfInt, none]

/-- A weight that fails the test for being finite raises, and is not told as a bad value. -/
theorem label_ne_of_failsTest {weight : Value} {fault : Fault} (fails : weight.FailsTest fault) :
    fault.kind.label ≠ "ValueError" := by
  rcases fails with ⟨_, rfl⟩ | ⟨_, rfl⟩
  · decide
  · decide

/-- A weight that fails the test fails the cost it belongs to. -/
theorem readCost_of_failsTest {weight : Value} {fault : Fault} (fails : weight.FailsTest fault)
    (f : Arc → Except Fault Value) : readCost (.function f weight) = .error fault := by
  rw [readCost, numericFloat_of_failsTest fails]
  rfl

/-- What a cost function becomes when its weight is read as a double. -/
theorem readCost_function {weight : Value} {x : Float} (reads : weight.numericFloat = .ok x)
    (f : Arc → Except Fault Value) : readCost (.function f weight) =
      if Arithmetic.isFinite (Value.float x) then
        .ok ⟨askCost f, .float x⟩
      else .error (.weightNotFinite weight) := by
  rw [readCost, reads]
  change (if (!Arithmetic.isFinite (Value.float x)) = true then _ else _) = _
  simp only [Bool.not_eq_true', ← Bool.not_eq_true, ite_not]
  rfl

/-- A cost is read, is refused as a bad value, or has a weight that fails the test. -/
theorem readCost_cases (c : CostInput) :
    (c.Acceptable ∧ ∃ read, readCost c = .ok read ∧ c.ReadAs read) ∨
      (¬ c.Acceptable ∧ ∃ fault, readCost c = .error fault ∧ fault.kind.label = "ValueError") ∨
      ¬ c.Acceptable ∧ ∃ f weight fault, c = .function f weight ∧ weight.FailsTest fault := by
  cases c with
  | constant v weight => exact Or.inr (Or.inl ⟨id, _, rfl, rfl⟩)
  | raw v => exact Or.inr (Or.inl ⟨id, _, rfl, label_quoting rfl⟩)
  | function f weight =>
      rcases weight_cases weight with ⟨acceptable, x, reads, finite⟩ |
        ⟨refused, x, rfl, notFinite⟩ | ⟨refused, fault, fails⟩
      · have read := readCost_function reads f
        rw [if_pos ((Value.isFinite_float x).mpr finite)] at read
        exact Or.inl ⟨acceptable, _, read, f, weight, x, rfl, reads, finite, rfl⟩
      · refine Or.inr (Or.inl ⟨refused, .weightNotFinite (.float x), ?_, rfl⟩)
        rw [readCost_function rfl,
          if_neg fun finite => notFinite ((Value.isFinite_float x).mp finite)]
      · exact Or.inr (Or.inr ⟨refused, f, weight, fault, rfl, fails⟩)

/-- A cost that is read is acceptable. -/
theorem acceptable_of_readCost {c : CostInput} {read : WeightedCost Value}
    (readEq : readCost c = .ok read) : c.Acceptable ∧ c.ReadAs read := by
  rcases readCost_cases c with ⟨acceptable, other, otherEq, reads⟩ | ⟨_, _, failed, _⟩ |
    ⟨_, f, weight, fault, rfl, fails⟩
  · rw [otherEq] at readEq
    cases readEq
    exact ⟨acceptable, reads⟩
  · rw [failed] at readEq
    cases readEq
  · rw [readCost_of_failsTest fails] at readEq
    cases readEq

/-- The test of a threshold asks for a finite number above zero and at most one. -/
theorem inUnit_iff (x : Extended) :
    ((Extended.finite 0).compare? x == some .lt && (x.compare? (.finite 1) == some .lt ||
        x.compare? (.finite 1) == some .eq)) = true ↔
      ∃ q : Rat, x = .finite q ∧ 0 < q ∧ q ≤ 1 := by
  have positive : ((Extended.finite 0).compare? x == some .lt) = true ↔
      Arithmetic.less (Extended.finite 0) x = .ok true := by
    change _ ↔ Except.ok ((Extended.finite 0).compare? x == some .lt) = .ok true
    rw [Except.ok.injEq]
  have atMostOne : (x.compare? (.finite 1) == some .lt ||
      x.compare? (.finite 1) == some .eq) = true ↔ x ≤ .finite 1 := by
    rw [Bool.or_eq_true, beq_iff_eq, beq_iff_eq]
    exact Iff.rfl
  rw [Bool.and_eq_true, positive, atMostOne]
  cases x with
  | finite q => simp
  | bottom => exact iff_of_false (fun both => by cases both.1) (by simp)
  | top => exact iff_of_false (fun both => Extended.not_top_le_finite both.2) (by simp)
  | nan => exact iff_of_false (fun both => by cases both.1) (by simp)

/-- A threshold that is given passes the test exactly if it is acceptable. -/
theorem passes_iff_isThreshold {v : Value} (given : v ≠ .null) :
    (v.isNumber && Value.compare? (.int 0) v == some .lt &&
      (v.compare? (.int 1) == some .lt || v.compare? (.int 1) == some .eq)) = true ↔
      v.IsThreshold := by
  have zero : (Value.int 0).exact = .finite 0 := by decide
  have one : (Value.int 1).exact = .finite 1 := by decide
  rw [Value.IsThreshold, or_iff_right given, ← inUnit_iff, ← zero, ← one]
  cases v with
  | int n | float x =>
      have isNumber : (Value.int 1).isNumber = true := rfl
      exact Iff.symm (and_iff_right isNumber)
  | _ => exact iff_of_false Bool.false_ne_true nofun

/-- The only integer above zero and at most one is one. -/
theorem eq_one_of_inUnit {n : Int} {q : Rat} (value : (Value.int n).exact = .finite q)
    (positive : 0 < q) (atMostOne : q ≤ 1) : n = 1 := by
  have same : (n : Rat) = q := Extended.finite.inj value
  rw [← same] at positive atMostOne
  have : 0 < n := by exact_mod_cast positive
  have : n ≤ 1 := by exact_mod_cast atMostOne
  omega

/-- A threshold is accepted exactly if it is null or a number in range. -/
theorem readThreshold_judges (v : Value) :
    Judges (readThreshold v) v.IsThreshold fun w => ∃ (x : Float) (q : Rat), w = .float x ∧
      w.exact = .finite q ∧ 0 < q ∧ q ≤ 1 ∧ (v = .null ∨ v.exact = .finite q) := by
  by_cases isNull : v = .null
  · subst isNull
    have half : Value.exact (.float 0.5) = .finite (1 / 2) := by decide +kernel
    have default : readThreshold .null = .ok (.float 0.5) := rfl
    rw [default]
    refine ⟨Or.inl rfl, 0.5, 1 / 2, rfl, half, ?_, ?_, Or.inl rfl⟩
    · norm_num
    · norm_num
  have read : readThreshold v =
      if (v.isNumber && Value.compare? (.int 0) v == some .lt &&
        (v.compare? (.int 1) == some .lt || v.compare? (.int 1) == some .eq)) = true then
        .float <$> v.numericFloat
      else .error (.quoting v (.badThreshold v)) := by
    cases v <;> first | rfl | exact absurd rfl isNull
  rw [read]
  split
  · rename_i passes
    have isThreshold := (passes_iff_isThreshold isNull).mp passes
    obtain ⟨isNumber, q, value, positive, atMostOne⟩ := isThreshold.resolve_left isNull
    cases v with
    | int n =>
        obtain rfl := eq_one_of_inUnit value positive atMostOne
        refine ⟨isThreshold, 1.0, q, rfl, ?_, positive, atMostOne, Or.inr value⟩
        rw [← value]
        decide +kernel
    | float x => exact ⟨isThreshold, x, q, rfl, value, positive, atMostOne, Or.inr value⟩
    | _ => cases isNumber
  · rename_i fails
    exact ⟨fun isThreshold => fails ((passes_iff_isThreshold isNull).mpr isThreshold),
      label_quoting rfl⟩

/-! ### The whole configuration -/

/-- A weight that fails the test stops the check, once the check gets as far. -/
theorem ofInput_of_reaches {input : TaskInput} {weight : Value} {fault : Fault}
    (reaches : input.Reaches weight) (fails : weight.FailsTest fault) :
    ofInput input = .error fault := by
  obtain ⟨bounds, range, before, f, after, split, passed⟩ := reaches
  have judged := readLimits_judges input
  have stopped : input.costs.mapM readCost = .error fault := by
    rw [split]
    refine mapM_error_of_first (fun c member => ?_) (readCost_of_failsTest fails f)
    rcases readCost_cases c with ⟨_, read, readEq, _⟩ | ⟨refused, _⟩ | ⟨refused, _⟩
    · exact ⟨read, readEq⟩
    · exact absurd (passed c member) refused
    · exact absurd (passed c member) refused
  cases limits : readLimits input with
  | error other =>
      rw [limits] at judged
      exact absurd ⟨bounds, range⟩ judged.1
  | ok l =>
      rw [ofInput_eq, limits]
      change (input.costs.mapM readCost >>= _) = _
      rw [stopped]
      rfl

/-- A configuration is accepted and the task holds what was given, or it is refused as a bad
value, or the check gets as far as a weight that fails the test. -/
theorem ofInput_cases (input : TaskInput) :
    (input.Acceptable ∧ ∃ t, ofInput input = .ok t ∧ input.Gives t) ∨
      (¬ input.Acceptable ∧ ∃ fault, ofInput input = .error fault ∧
        fault.kind.label = "ValueError") ∨
      ¬ input.Acceptable ∧ ∃ weight fault, input.Reaches weight ∧ weight.FailsTest fault := by
  have judged := readLimits_judges input
  have made := ofInput_eq input
  cases limits : readLimits input with
  | error fault =>
      rw [limits] at judged made
      refine Or.inr (Or.inl ⟨fun acceptable => judged.1 ?_, fault, made, judged.2⟩)
      exact ⟨acceptable.bounds, acceptable.range⟩
  | ok l =>
  rw [limits] at judged made
  obtain ⟨⟨bounds, range⟩, given⟩ := judged
  rcases all_ok_or_first_error readCost input.costs with
    allRead | ⟨before, c, after, fault, split, passed, failed⟩
  · have readAs : ∀ c ∈ input.costs, ∃ read, readCost c = .ok read ∧ c.ReadAs read := by
      intro c member
      obtain ⟨w, readEq⟩ := allRead c member
      exact ⟨w, readEq, (acceptable_of_readCost readEq).2⟩
    obtain ⟨costs, read, readAs⟩ := mapM_ok readAs
    have threshold := readThreshold_judges input.threshold
    change ofInput input = (input.costs.mapM readCost >>= fun costs =>
      readThreshold input.threshold >>= fun threshold => _) at made
    rw [read] at made
    cases thresholdEq : readThreshold input.threshold with
    | error fault =>
        rw [thresholdEq] at threshold made
        refine Or.inr (Or.inl ⟨fun acceptable => threshold.1 acceptable.threshold, fault, made,
          threshold.2⟩)
    | ok v =>
        rw [thresholdEq] at threshold made
        obtain ⟨isThreshold, isUnit⟩ := threshold
        refine Or.inl ⟨⟨bounds, range, fun c member => ?_, isThreshold⟩, _, made,
          given, isUnit, readAs⟩
        obtain ⟨w, readEq⟩ := allRead c member
        exact (acceptable_of_readCost readEq).1
  · have before_ok : ∀ b ∈ before, b.Acceptable := fun b member => by
      obtain ⟨w, readEq⟩ := passed b member
      exact (acceptable_of_readCost readEq).1
    have isCost : c ∈ input.costs := by simp [split]
    rcases readCost_cases c with ⟨_, w, readEq, _⟩ | ⟨refused, other, isOther, isValue⟩ |
      ⟨refused, f, weight, other, rfl, fails⟩
    · rw [failed] at readEq
      cases readEq
    · refine Or.inr (Or.inl ⟨fun acceptable => refused (acceptable.costs c isCost), other, ?_,
        isValue⟩)
      have stopped : input.costs.mapM readCost = .error other :=
        split ▸ mapM_error_of_first passed isOther
      change ofInput input = (input.costs.mapM readCost >>= fun costs => _) at made
      rw [stopped] at made
      exact made
    · exact Or.inr (Or.inr ⟨fun acceptable => refused (acceptable.costs _ isCost), weight, other,
        ⟨bounds, range, before, f, after, split, before_ok⟩, fails⟩)

/-- A task that was made holds what was given. -/
theorem gives_of_ofInput {input : TaskInput} {t : SelectionTask Value}
    (accepted : ofInput input = .ok t) : input.Gives t := by
  rcases ofInput_cases input with ⟨_, made, isMade, gives⟩ | ⟨_, _, failed, _⟩ |
    ⟨_, weight, fault, reaches, fails⟩
  · rw [isMade] at accepted
    cases accepted
    exact gives
  · rw [failed] at accepted
    cases accepted
  · rw [ofInput_of_reaches reaches fails] at accepted
    cases accepted

/-- A configuration is accepted exactly if it is acceptable, and the task holds what was
given.  Any other configuration is refused as a bad value, unless the check gets as far as
a weight that fails the test for being finite: then the cause is that of the test. -/
theorem ofInput_decides (input : TaskInput) :
    (input.Acceptable ∧ ∃ t, ofInput input = .ok t ∧ input.Gives t) ∨
      (¬ input.Acceptable ∧ (∀ weight fault, input.Reaches weight → ¬ weight.FailsTest fault) ∧
        ∃ fault, ofInput input = .error fault ∧ fault.kind.label = "ValueError") ∨
      ¬ input.Acceptable ∧ ∃ weight fault, input.Reaches weight ∧ weight.FailsTest fault ∧
        ofInput input = .error fault ∧ fault.kind.label ≠ "ValueError" := by
  rcases ofInput_cases input with accepted | ⟨refused, fault, failed, isValue⟩ |
    ⟨refused, weight, fault, reaches, fails⟩
  · exact Or.inl accepted
  · refine Or.inr (Or.inl ⟨refused, ?_, fault, failed, isValue⟩)
    intro weight other reaches fails
    rw [ofInput_of_reaches reaches fails] at failed
    cases failed
    exact label_ne_of_failsTest fails isValue
  · exact Or.inr (Or.inr ⟨refused, weight, fault, reaches, fails,
      ofInput_of_reaches reaches fails, label_ne_of_failsTest fails⟩)

/-- Every arc costs one, with the given weight. -/
def unitCost (weight : Value) : TaskInput :=
  { TaskInput.unbounded with costs := [.function (fun _ => .ok (.int 1)) weight] }

/-- Weights that are texts or too large are refused with other causes than bad values. -/
theorem ofInput_unitCost_fails :
    ofInput (unitCost (.text "heavy")) = .error .wrongType ∧
      ofInput (unitCost (.int (10 ^ 400))) = .error .tooLarge ∧
      Fault.wrongType.kind.label = "TypeError" ∧ Fault.tooLarge.kind.label = "OverflowError" := by
  have reaches : ∀ weight, (unitCost weight).Reaches weight := by
    intro weight
    have noLimit : isTop (.float (infinity false)) = true := by decide +kernel
    refine ⟨fun k => ?_, ⟨0, none, ⟨rfl, by decide⟩, noLimit⟩, [], _, [], rfl, by simp⟩
    cases k <;> exact Or.inl rfl
  refine ⟨rfl, ?_, rfl, rfl⟩
  apply ofInput_of_reaches (reaches _)
  exact Or.inr ⟨⟨_, rfl, by decide +kernel⟩, rfl⟩

end SelectionTask

end ArcSelection
