import ArcSelection.Proofs.Fallible
import ArcSelection.Proofs.Selection.Degree

/-!
# A checked configuration in exact numbers

Checking a configuration of dynamic values yields a task of dynamic values. Read
exactly, its bounds, costs, weights and threshold are the same numbers, and what is
computed from them does not round. `finiteWeights_of_ofInput` is what the check
promises about the weights.
-/

namespace ArcSelection

open Decimal Fallible

namespace Value

/-- A value that can be written is shown by its text. -/
theorem toDisplay_eq {v : Value} (writable : v.isWritable = true) : v.toDisplay = .ok v.display :=
  if_pos writable

/-- A value that is shown can be written. -/
theorem isWritable_of_toDisplay {v : Value} {text : String} (shown : v.toDisplay = .ok text) :
    v.isWritable = true := by
  rw [toDisplay] at shown
  split at shown
  · assumption
  · cases shown

end Value

/-- Reads the numbers that a function yields exactly. -/
def exactly {β : Type} (f : β → Except Fault Value) : β → Except Fault Extended :=
  fun b => Value.exact <$> f b

/-- An answer is exact if it is read exactly. -/
theorem exactly_of_ok {β : Type} {f : β → Except Fault Value} {b : β} {v : Value}
    (found : f b = .ok v) : exactly f b = .ok v.exact := by
  rw [exactly, found]
  rfl

namespace DegreeBounds

/-- The same bounds in exact numbers. -/
def exact (b : DegreeBounds Value) : DegreeBounds Extended :=
  ⟨b.lower.map exactly, b.upper.map exactly⟩

/-- The bounds on either side are read exactly. -/
theorem onSide_exact (b : DegreeBounds Value) (k : DegreeKey) :
    b.exact.onSide k = (b.onSide k).map exactly := by
  rw [onSide, onSide]
  split <;> rfl

end DegreeBounds

namespace WeightedCost

/-- The same weighted cost in exact numbers. -/
def exact (c : WeightedCost Value) : WeightedCost Extended := ⟨exactly c.cost, c.weight.exact⟩

end WeightedCost

/-- The bound that a configuration gives for a key. -/
def TaskInput.bound (input : TaskInput) : DegreeKey → BoundInput
  | .minDegree => input.minDegree
  | .maxDegree => input.maxDegree
  | .minInDegree => input.minInDegree
  | .maxInDegree => input.maxInDegree
  | .minOutDegree => input.minOutDegree
  | .maxOutDegree => input.maxOutDegree

/-- The side of a key in the names of numbers. -/
def DegreeKey.side (k : DegreeKey) : String := if k.isLower then "Lower" else "Upper"

/-- What a cost function is read as: its values are asked for as numbers, and its weight is a
finite double. -/
def CostInput.ReadAs (given : CostInput) (read : WeightedCost Value) : Prop :=
  ∃ f weight x, given = .function f weight ∧ weight.numericFloat = .ok x ∧
    (Extended.ofFloat x).IsFinite ∧ read = ⟨SelectionTask.askCost f, .float x⟩

namespace SelectionTask

/-- The same task in exact numbers. -/
def exact (t : SelectionTask Value) : SelectionTask Extended where
  degree := t.degree.exact
  inDegree := t.inDegree.exact
  outDegree := t.outDegree.exact
  minimum := t.minimum
  maximum := t.maximum
  costs := t.costs.map WeightedCost.exact
  relaxed := t.relaxed
  threshold := t.threshold.exact

/-- The bounds on a kind of degree are read exactly. -/
theorem bounds_exact (t : SelectionTask Value) (kind : DegreeKind) :
    t.exact.bounds kind = (t.bounds kind).exact := by
  cases kind <;> rfl

/-- A number that is read is the double that the value stands for. -/
theorem readNumber_eq_ok_iff {v w : Value} {name : String} :
    readNumber v name = .ok w ↔ ∃ x, v.toFloat = .ok x ∧ w = .float x := by
  rw [readNumber]
  cases v.toFloat <;> simp [eq_comm]

/-- What a function is asked for is a double, under a name that can be written. -/
theorem askNumber_eq_ok_iff {β : Type} {what : String} {item : β → Value}
    {f : β → Except Fault Value} {b : β} {w : Value} :
    askNumber what item f b = .ok w ↔ (item b).isWritable = true ∧
      ∃ v x, f b = .ok v ∧ v.toFloat = .ok x ∧ w = .float x := by
  constructor
  · intro asked
    obtain ⟨v, answer, rest⟩ := bind_eq_ok_iff.mp asked
    obtain ⟨name, named, number⟩ := bind_eq_ok_iff.mp rest
    obtain ⟨x, reads, isDouble⟩ := readNumber_eq_ok_iff.mp number
    exact ⟨Value.isWritable_of_toDisplay named, v, x, answer, reads, isDouble⟩
  · rintro ⟨writable, v, x, answer, reads, isDouble⟩
    exact bind_eq_ok_iff.mpr ⟨v, answer, bind_eq_ok_iff.mpr ⟨_, Value.toDisplay_eq writable,
      readNumber_eq_ok_iff.mpr ⟨x, reads, isDouble⟩⟩⟩

/-- A complaint about a value is one about a bad value, also where the value is not quoted. -/
theorem label_quoting {v : Value} {complaint : Fault}
    (isValue : complaint.kind.label = "ValueError") :
    (Fault.quoting v complaint).kind.label = "ValueError" := by
  rw [Fault.quoting]
  split
  · exact isValue
  · rfl

/-- Reading a number yields a double or refuses the value. -/
theorem readNumber_cases (v : Value) (name : String) :
    (∃ x, v.toFloat = .ok x ∧ readNumber v name = .ok (.float x)) ∨
      ∃ fault, readNumber v name = .error fault ∧ fault.kind.label = "ValueError" := by
  rw [readNumber]
  cases v.toFloat with
  | ok x => exact .inl ⟨x, rfl, rfl⟩
  | error fault => exact .inr ⟨_, rfl, label_quoting rfl⟩

/-- What a function is asked for fails as the function does, or as a bad value. -/
theorem askNumber_error {β : Type} {what : String} {item : β → Value} {f : β → Except Fault Value}
    {b : β} {fault : Fault} (failed : askNumber what item f b = .error fault) :
    f b = .error fault ∨ fault.kind.label = "ValueError" := by
  rcases bind_eq_error_iff.mp failed with raised | ⟨v, _, rest⟩
  · exact .inl raised
  · rcases bind_eq_error_iff.mp rest with unnamed | ⟨name, _, unread⟩
    · rw [Value.toDisplay] at unnamed
      split at unnamed
      · cases unnamed
      · cases unnamed
        exact .inr rfl
    · rcases readNumber_cases v (what ++ name) with ⟨x, _, reads⟩ | ⟨other, refused, isValue⟩
      · cases reads.symm.trans unread
      · cases refused.symm.trans unread
        exact .inr isValue

/-- A bound that is read is absent, or asks the function that is given, or a constant: a number
other than nan. -/
theorem readBound_cases {name side : String} {input : BoundInput}
    {bound : Option (Node → Except Fault Value)} (read : readBound name side input = .ok bound) :
    input = .value .null ∧ bound = none ∨
      (∃ f, input = .function f ∧ bound = some (askBound side f)) ∨
      ∃ v x, input = .value v ∧ v ≠ .null ∧ v.toFloat = .ok x ∧
        Arithmetic.isNaN (Value.float x) = false ∧
        bound = some (askBound side fun _ => .ok (.float x)) := by
  unfold readBound at read
  split at read
  · cases read
    exact .inl ⟨rfl, rfl⟩
  · cases read
    exact .inr (.inl ⟨_, rfl, rfl⟩)
  · rename_i v present
    split at read
    · obtain ⟨w, number, rest⟩ := bind_eq_ok_iff.mp read
      obtain ⟨x, reads, rfl⟩ := readNumber_eq_ok_iff.mp number
      split at rest
      · cases rest
      · rename_i notNaN
        cases rest
        exact .inr (.inr ⟨v, x, rfl, fun null => present (null ▸ rfl), reads,
          Bool.eq_false_of_not_eq_true notNaN, rfl⟩)
    · cases read

/-- What a bound that was read answers with is a double. -/
theorem float_of_readBound {name side : String} {input : BoundInput}
    {bound : Option (Node → Except Fault Value)} (read : readBound name side input = .ok bound)
    {f : Node → Except Fault Value} (isBound : bound = some f) {n : Node} {v : Value}
    (answer : f n = .ok v) : ∃ x, v = .float x := by
  obtain ⟨_, rfl⟩ | ⟨g, _, rfl⟩ | ⟨_, y, _, _, _, _, rfl⟩ := readBound_cases read
  · cases isBound
  · cases isBound
    obtain ⟨_, _, x, _, _, isDouble⟩ := askNumber_eq_ok_iff.mp answer
    exact ⟨x, isDouble⟩
  · cases isBound
    obtain ⟨_, _, x, _, _, isDouble⟩ := askNumber_eq_ok_iff.mp answer
    exact ⟨x, isDouble⟩

/-- A cost that is read is a function with a finite weight. -/
theorem readAs_of_readCost {given : CostInput} {read : WeightedCost Value}
    (readEq : readCost given = .ok read) : given.ReadAs read := by
  cases given with
  | raw v => cases readEq
  | constant v w => cases readEq
  | function f w =>
      obtain ⟨x, weight, checked⟩ := bind_eq_ok_iff.mp readEq
      split at checked
      · cases checked
      · rename_i accepted
        cases checked
        exact ⟨f, w, x, rfl, weight, (Value.isFinite_float x).mp (by simpa using accepted), rfl⟩

/-- The bounds on degrees of a checked configuration are those that were read, key by key. -/
theorem bound_of_ofInput {input : TaskInput} {task : SelectionTask Value}
    (accepted : ofInput input = .ok task) (k : DegreeKey) :
    readBound k.word k.side (input.bound k) = .ok ((task.bounds k.kind).onSide k) := by
  simp only [ofInput, bind_eq_ok_iff] at accepted
  obtain ⟨degree, degreeEq, inDegree, inDegreeEq, outDegree, outDegreeEq, rest⟩ := accepted
  have built : task.degree = degree ∧ task.inDegree = inDegree ∧ task.outDegree = outDegree := by
    split at rest
    · cases rest
    · simp only [bind_eq_ok_iff] at rest
      obtain ⟨_, _, _, _, _, _, _, _, _, _, built⟩ := rest
      cases built
      exact ⟨rfl, rfl, rfl⟩
  obtain ⟨rfl, rfl, rfl⟩ := built
  have both : ∀ {lowerKey upperKey : DegreeKey} {lower upper : BoundInput}
      {b : DegreeBounds Value}, readBounds lowerKey upperKey lower upper = .ok b →
      readBound lowerKey.word "Lower" lower = .ok b.lower ∧
        readBound upperKey.word "Upper" upper = .ok b.upper := by
    intro lowerKey upperKey lower upper b read
    obtain ⟨l, lowerEq, u, upperEq, made⟩ := by
      simpa only [readBounds, bind_eq_ok_iff] using read
    cases made
    exact ⟨lowerEq, upperEq⟩
  cases k
  · exact (both degreeEq).1
  · exact (both degreeEq).2
  · exact (both inDegreeEq).1
  · exact (both inDegreeEq).2
  · exact (both outDegreeEq).1
  · exact (both outDegreeEq).2

/-- The range of sizes, the costs, the threshold and the relaxation of a checked configuration
are those that were read. -/
theorem readings_of_ofInput {input : TaskInput} {task : SelectionTask Value}
    (accepted : ofInput input = .ok task) :
    (readFiniteCount input.minArcs "min_arc_count" = .ok task.minimum ∧
      readCount input.maxArcs "max_arc_count" = .ok task.maximum) ∧
      input.costs.mapM readCost = .ok task.costs ∧
      readThreshold input.threshold = .ok task.threshold ∧
      task.relaxed = input.relaxed.isTruthy := by
  simp only [ofInput, bind_eq_ok_iff] at accepted
  obtain ⟨degree, _, inDegree, _, outDegree, _, rest⟩ := accepted
  split at rest
  · cases rest
  · simp only [bind_eq_ok_iff] at rest
    obtain ⟨_, minimumEq, _, maximumEq, _, _, _, costsEq, _, thresholdEq, built⟩ := rest
    cases built
    exact ⟨⟨minimumEq, maximumEq⟩, costsEq, thresholdEq, rfl⟩

/-- The costs are read one by one. -/
theorem costs_of_ofInput {input : TaskInput} {task : SelectionTask Value}
    (accepted : ofInput input = .ok task) : input.costs.mapM readCost = .ok task.costs :=
  (readings_of_ofInput accepted).2.1

/-- The costs of a checked configuration are read one by one. -/
theorem readAs_of_ofInput {input : TaskInput} {task : SelectionTask Value}
    (accepted : ofInput input = .ok task) :
    List.Forall₂ CostInput.ReadAs input.costs task.costs :=
  (mapM_eq_ok_iff.mp (costs_of_ofInput accepted)).imp fun _ _ => readAs_of_readCost

/-- The sizes are those of the task. -/
theorem range_of_ofInput {input : TaskInput} {task : SelectionTask Value}
    (accepted : ofInput input = .ok task) :
    readFiniteCount input.minArcs "min_arc_count" = .ok task.minimum ∧
      readCount input.maxArcs "max_arc_count" = .ok task.maximum :=
  (readings_of_ofInput accepted).1

/-- A task is relaxed if the value says so. -/
theorem relaxed_of_ofInput {input : TaskInput} {task : SelectionTask Value}
    (accepted : ofInput input = .ok task) : task.relaxed = input.relaxed.isTruthy :=
  (readings_of_ofInput accepted).2.2.2

/-- The threshold of a checked configuration is a number. -/
theorem numeric_threshold_of_ofInput {input : TaskInput} {task : SelectionTask Value}
    (accepted : ofInput input = .ok task) : task.threshold.isNumeric = true := by
  have read := (readings_of_ofInput accepted).2.2.1
  unfold readThreshold at read
  extract_lets v at read
  split at read
  · obtain ⟨x, _, threshold⟩ := map_eq_ok_iff.mp read
    rw [← threshold]
    rfl
  · cases read

/-- The weights of a checked configuration are finite numbers. -/
theorem finiteWeights_of_ofInput {input : TaskInput} {task : SelectionTask Value}
    (accepted : ofInput input = .ok task) : task.exact.FiniteWeights := by
  intro c member
  obtain ⟨read, readMember, rfl⟩ := List.mem_map.mp member
  obtain ⟨given, _, readEq⟩ := mem_of_mapM_ok (costs_of_ofInput accepted) read readMember
  obtain ⟨_, _, x, _, _, finite, rfl⟩ := readAs_of_readCost readEq
  exact finite

end SelectionTask

end ArcSelection
