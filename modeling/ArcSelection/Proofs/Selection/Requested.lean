import ArcSelection.Proofs.Selection.Configuration

/-!
# What a configuration asks for

A configuration is read here by its own values, with no task between: the number that a bound
gives at a node, the cost and the weight of a cost function, and the range of sizes. The task
made of it asks for the same (`SelectionTask.admits_iff`, `SelectionTask.priceOf_eq`) on every
graph where it is defined. It is defined where the configuration is, with one proviso: the names
of the nodes and arcs that are asked about are spelled out on the way, and an id can be too long
for that (`SelectionTask.definedOn_iff`).
-/

namespace ArcSelection

open Decimal Fallible

/-- The double that a value is read as; nan if it is no number, or too large for a double. -/
def Value.reading (v : Value) : Extended :=
  match v.toFloat with
  | .ok x => .ofFloat x
  | .error _ => .nan

/-- A value that is read as a double reads as its number. -/
theorem Value.reading_of_toFloat {v : Value} {x : Float} (reads : v.toFloat = .ok x) :
    v.reading = .ofFloat x := by
  rw [reading, reads]

/-- The double that an answer is read as; nan if there is none. -/
def readingOf : Except Fault Value → Extended
  | .ok v => v.reading
  | .error _ => .nan

/-- A number is read of an answer exactly if the answer is a value that stands for a double. -/
theorem readingOf_eq_iff {answer : Except Fault Value} {b : Extended} (number : b ≠ .nan) :
    readingOf answer = b ↔ ∃ v x, answer = .ok v ∧ v.toFloat = .ok x ∧ b = .ofFloat x := by
  cases answer with
  | error fault => simp [readingOf, number.symm]
  | ok v =>
      rw [readingOf, Value.reading]
      cases reads : v.toFloat with
      | error fault => simp [reads, number.symm]
      | ok x => simp [reads, eq_comm]

/-- A number is read as any value. -/
theorem Value.toFloat_of_numericFloat {v : Value} {x : Float} (reads : v.numericFloat = .ok x) :
    v.toFloat = .ok x := by
  cases v with
  | text s => cases reads
  | _ => exact reads

/-- The function that a bound answers with at the nodes; none if it constrains nothing. -/
def BoundInput.answers? : BoundInput → Option (Node → Except Fault Value)
  | .value .null => none
  | .value v => some fun _ => .ok v
  | .function f => some f

/-- The number that a bound gives at a node; none if it constrains nothing. -/
def BoundInput.numberAt (b : BoundInput) (n : Node) : Option Extended :=
  b.answers?.map fun f => readingOf (f n)

namespace CostInput

/-- The cost of an arc. -/
def costAt : CostInput → Arc → Extended
  | .function f _, a => readingOf (f a)
  | .constant _ _, _ | .raw _, _ => .nan

/-- The weight of the costs. -/
def weight : CostInput → Rat
  | .function _ w | .constant _ w => w.reading.rational
  | .raw _ => 0

end CostInput

/-- A degree is on the right side of a number that bounds it. -/
def DegreeKey.Holds (k : DegreeKey) (bound : Extended) (degree : Rat) : Prop :=
  if k.isLower then bound ≤ .finite degree else .finite degree ≤ bound

namespace TaskInput

/-- Degrees at some nodes and a size keep every bound of the configuration. -/
structure Admits (input : TaskInput) (nodes : List Node) (degree : DegreeKind → Node → Rat)
    (size : Rat) : Prop where
  degrees : ∀ k, ∀ n ∈ nodes, ∀ b, (input.bound k).numberAt n = some b → k.Holds b (degree k.kind n)
  least : input.minArcs.exact ≤ .finite size
  greatest : .finite size ≤ input.maxArcs.exact

/-- The weighted total cost of the parts taken. -/
def priceOf (input : TaskInput) (g : Graph) (part : Arc → Rat) : Rat :=
  (input.costs.map fun c =>
    c.weight * ((g.arcs .all).map fun a => (c.costAt a).rational * part a).sum).sum

/-- The value from which on an arc counts as selected: the one that is given, or the default. -/
def selectsFrom (input : TaskInput) : Extended :=
  match input.threshold with
  | .null => SelectionTask.defaultThreshold.exact
  | v => v.exact

/-- On the nodes of the graph every bound is a number, and on its arcs every cost is finite. -/
structure DefinedOn (input : TaskInput) (g : Graph) : Prop where
  bounds : ∀ k, ∀ n ∈ g.nodes, (input.bound k).numberAt n ≠ some .nan
  costs : ∀ c ∈ input.costs, ∀ a ∈ g.arcs .all, (c.costAt a).IsFinite

/-- The ids of the nodes can be spelled out if a degree is bounded, and those of the arcs if
there are costs. -/
structure SpelledOn (input : TaskInput) (g : Graph) : Prop where
  nodes : ∀ k f, (input.bound k).answers? = some f → ∀ n ∈ g.nodes,
    (Value.node n).isWritable = true
  arcs : ∀ c ∈ input.costs, ∀ a ∈ g.arcs .all, (Value.arc a).isWritable = true

end TaskInput

/-- Every id of the graph can be spelled out. -/
structure Graph.SpelledIds (g : Graph) : Prop where
  nodes : ∀ n ∈ g.nodes, (Value.node n).isWritable = true
  arcs : ∀ a ∈ g.arcs .all, (Value.arc a).isWritable = true

/-- A graph with one node, whose id is the least integer that is too long for a text. -/
def distantNode : StoredGraph :=
  StoredGraph.empty.putNode ⟨10 ^ maxIntegerDigits⟩ none

/-- The distant node has no arcs to be listed. -/
theorem listsArcs_distantNode : distantNode.graph.ListsArcs := ⟨.nil, nofun, nofun⟩

/-- The id of the distant node cannot be written. -/
theorem not_isWritable_distantNode :
    ∃ n ∈ distantNode.graph.nodes, (Value.node n).isWritable = false :=
  ⟨_, List.mem_cons_self, Value.isWritable_long⟩

namespace SelectionTask

variable {input : TaskInput} {task : SelectionTask Value} {g : Graph}

/-! ### Bounds -/

/-- A bound is read as one that asks for the same numbers, under names that can be written. -/
theorem answers_of_readBound {name side : String} {given : BoundInput}
    {bound : Option (Node → Except Fault Value)} (read : readBound name side given = .ok bound) :
    ∃ f, given.answers?.map (fun _ => askBound side f) = bound ∧
      ∀ n, given.numberAt n = given.answers?.map fun _ => readingOf (f n) := by
  obtain ⟨rfl, rfl⟩ | ⟨f, rfl, rfl⟩ | ⟨v, x, rfl, present, reads, _, rfl⟩ := readBound_cases read
  · exact ⟨fun _ => .ok .null, rfl, fun _ => rfl⟩
  · exact ⟨f, rfl, fun _ => rfl⟩
  · have answers : (BoundInput.value v).answers? = some fun _ => .ok v := by
      cases v <;> first | rfl | exact absurd rfl present
    refine ⟨fun _ => .ok (.float x), by rw [answers]; rfl, fun n => ?_⟩
    rw [BoundInput.numberAt, answers, Option.map_some, Option.map_some, readingOf, readingOf,
      Value.reading_of_toFloat reads]
    rfl

/-- The number that is asked for exactly is the one that is read of the answer, where the name
can be written. -/
theorem exactly_askNumber_iff {β : Type} {what : String} {item : β → Value}
    {f : β → Except Fault Value} {x : β} {b : Extended} (number : b ≠ .nan) :
    exactly (askNumber what item f) x = .ok b ↔
      (item x).isWritable = true ∧ readingOf (f x) = b := by
  rw [readingOf_eq_iff number]
  constructor
  · intro asked
    obtain ⟨w, answer, value⟩ := map_eq_ok_iff.mp asked
    obtain ⟨writable, v, y, found, reads, rfl⟩ := askNumber_eq_ok_iff.mp answer
    exact ⟨writable, v, y, found, reads, value.symm⟩
  · rintro ⟨writable, v, y, found, reads, rfl⟩
    exact exactly_of_ok (askNumber_eq_ok_iff.mpr ⟨writable, v, y, found, reads, rfl⟩)

/-! ### Costs -/

/-- The exact cost of an arc is the one that is read of the answer, where the name can be
written. -/
theorem cost_of_readAs {given : CostInput} {c : WeightedCost Value} (readAs : given.ReadAs c)
    {a : Arc} {q : Rat} : c.exact.cost a = .ok (.finite q) ↔
      (Value.arc a).isWritable = true ∧ given.costAt a = .finite q := by
  obtain ⟨f, weight, x, rfl, _, _, rfl⟩ := readAs
  exact exactly_askNumber_iff nofun

/-- A weight is read as the number it stands for. -/
theorem weight_of_readAs {given : CostInput} {c : WeightedCost Value} (readAs : given.ReadAs c) :
    c.exact.weight.rational = given.weight := by
  obtain ⟨f, weight, x, rfl, isWeight, _, rfl⟩ := readAs
  rw [CostInput.weight, Value.reading_of_toFloat (Value.toFloat_of_numericFloat isWeight)]
  rfl

section Accepted

variable (accepted : ofInput input = .ok task)

include accepted

/-- The bound of a task at a key gives the numbers of the configuration. -/
theorem answers_of_ofInput (k : DegreeKey) :
    ((input.bound k).answers? = none ∧ (task.exact.bounds k.kind).onSide k = none) ∨
      ∃ f bound, (input.bound k).answers? = some f ∧
        (task.exact.bounds k.kind).onSide k = some bound ∧
        ∀ n b, b ≠ .nan → (bound n = .ok b ↔
          (Value.node n).isWritable = true ∧ (input.bound k).numberAt n = some b) := by
  obtain ⟨f, asks, gives⟩ := answers_of_readBound (bound_of_ofInput accepted k)
  rw [bounds_exact, DegreeBounds.onSide_exact, ← asks]
  cases given : (input.bound k).answers? with
  | none => exact .inl ⟨rfl, rfl⟩
  | some own =>
      refine .inr ⟨own, _, rfl, rfl, fun n b number => ?_⟩
      rw [gives n, given, Option.map_some, Option.some.injEq]
      exact exactly_askNumber_iff number

/-- The task is defined where the configuration is and the names that it needs can be spelled
out. -/
theorem definedOn_iff : task.exact.DefinedOn g ↔ input.DefinedOn g ∧ input.SpelledOn g := by
  have costs : (∀ c ∈ task.exact.costs, ∀ a ∈ g.arcs .all, ∃ v, c.cost a = .ok v ∧ v.IsFinite) ↔
      ∀ c ∈ input.costs, ∀ a ∈ g.arcs .all,
        (c.costAt a).IsFinite ∧ (Value.arc a).isWritable = true := by
    rw [exact, List.forall_mem_map]
    refine (forall_mem_iff_of_forall₂ (fun given c readAs => ?_) (readAs_of_ofInput accepted)).symm
    refine forall₂_congr fun a _ => ?_
    constructor
    · rintro ⟨finite, writable⟩
      obtain ⟨q, cost⟩ := finite
      exact ⟨_, (cost_of_readAs readAs).mpr ⟨writable, cost⟩, q, rfl⟩
    · rintro ⟨_, answer, q, rfl⟩
      obtain ⟨writable, cost⟩ := (cost_of_readAs readAs).mp answer
      exact ⟨⟨q, cost⟩, writable⟩
  constructor
  · intro defined
    have given := costs.mp defined.cost
    refine ⟨⟨fun k n member isNaN => ?_, fun c member a listed => (given c member a listed).1⟩,
      ⟨fun k f asks n member => ?_, fun c member a listed => (given c member a listed).2⟩⟩
    · obtain ⟨silent, _⟩ | ⟨_, bound, _, isBound, same⟩ := answers_of_ofInput accepted k
      · rw [BoundInput.numberAt, silent] at isNaN
        cases isNaN
      · obtain ⟨b, answer, number⟩ := defined.answers k bound isBound n member
        obtain ⟨_, here⟩ := (same n b number).mp answer
        exact number (Option.some.inj (here.symm.trans isNaN))
    · obtain ⟨silent, _⟩ | ⟨_, bound, _, isBound, same⟩ := answers_of_ofInput accepted k
      · cases silent.symm.trans asks
      · obtain ⟨b, answer, number⟩ := defined.answers k bound isBound n member
        exact ((same n b number).mp answer).1
  · rintro ⟨defined, spelled⟩
    refine definedOn_of_keys (fun k bound isBound n member => ?_)
      (costs.mpr fun c member a listed =>
        ⟨defined.costs c member a listed, spelled.arcs c member a listed⟩)
    obtain ⟨_, absent⟩ | ⟨f, _, asks, isBound', same⟩ := answers_of_ofInput accepted k
    · cases absent.symm.trans isBound
    · cases isBound'.symm.trans isBound
      have here : (input.bound k).numberAt n = some (readingOf (f n)) := by
        rw [BoundInput.numberAt, asks, Option.map_some]
      have number : readingOf (f n) ≠ .nan := fun isNaN =>
        defined.bounds k n member (isNaN ▸ here)
      exact ⟨_, (same n _ number).mpr ⟨spelled.nodes k f asks n member, here⟩, number⟩

/-- Where the task is defined, degrees keep its bounds exactly if they keep those of the
configuration. -/
theorem keeps_iff_holds (defined : task.exact.DefinedOn g) (k : DegreeKey) {n : Node}
    (member : n ∈ g.nodes) {d : Rat} :
    k.Keeps ((task.exact.bounds k.kind).onSide k) n d ↔
      ∀ b, (input.bound k).numberAt n = some b → k.Holds b d := by
  obtain ⟨none, absent⟩ | ⟨f, bound, given, isBound, same⟩ := answers_of_ofInput accepted k
  · have silent : ∀ b, (input.bound k).numberAt n ≠ some b := by
      intro b found
      rw [BoundInput.numberAt, none] at found
      cases found
    rw [absent, DegreeKey.Keeps]
    simp [silent, DegreeBounds.LowerAdmits, DegreeBounds.UpperAdmits]
  · obtain ⟨b, answer, number⟩ := defined.answers k bound isBound n member
    obtain ⟨_, here⟩ := (same n b number).mp answer
    rw [isBound, here]
    simp [DegreeKey.Keeps, DegreeBounds.LowerAdmits, DegreeBounds.UpperAdmits, answer,
      DegreeKey.Holds]

/-! ### Sizes -/

/-- The range of sizes of the task is the one that is given. -/
theorem size_iff (size : Rat) :
    ((task.minimum : Rat) ≤ size ∧ ∀ m, task.maximum = some m → size ≤ m) ↔
      input.minArcs.exact ≤ .finite size ∧ .finite size ≤ input.maxArcs.exact := by
  have count : ∀ {v : Value} {n : Nat}, v.IsCount n → v.exact = .finite n := by
    rintro _ n ⟨rfl, _⟩
    exact congrArg Extended.finite (Int.cast_natCast n)
  obtain ⟨least, greatest⟩ := (gives_of_ofInput accepted).range
  rw [count least, Extended.finite_le_finite]
  refine and_congr_right fun _ => ?_
  cases limit : task.maximum with
  | none =>
      rw [limit] at greatest
      have unlimited : input.maxArcs.exact = .top := by
        rw [Value.exact, beq_iff_eq.mp greatest, Option.getD_some]
      simp [unlimited]
  | some m =>
      rw [limit] at greatest
      simp [count greatest.1]

/-- The task takes an arc from the threshold that is asked for. -/
theorem threshold_eq : task.exact.threshold = input.selectsFrom := by
  change task.threshold.exact = _
  obtain ⟨x, q, _, value, _, _, default | given⟩ := (gives_of_ofInput accepted).threshold
  · have read := (readings_of_ofInput accepted).2.2.1
    have half : readThreshold .null = .ok defaultThreshold := rfl
    rw [default, half] at read
    rw [TaskInput.selectsFrom, default, ← Except.ok.inj read]
  · have present : input.threshold ≠ .null := by
      intro null
      rw [null] at given
      cases given
    rw [TaskInput.selectsFrom]
    split
    · exact absurd ‹_› present
    · exact value.trans given.symm

/-- Where the task is defined, degrees and a size keep its bounds exactly if they keep those of
the configuration. -/
theorem admits_iff (defined : task.exact.DefinedOn g) (degree : DegreeKind → Node → Rat)
    (size : Rat) :
    input.Admits g.nodes degree size ↔
      (∀ k, ∀ n ∈ g.nodes, (task.exact.bounds k).Admits n (degree k n)) ∧
        (task.minimum : Rat) ≤ size ∧ ∀ m, task.maximum = some m → size ≤ m := by
  rw [size_iff accepted]
  have degrees : (∀ k, ∀ n ∈ g.nodes, (task.exact.bounds k).Admits n (degree k n)) ↔
      ∀ k, ∀ n ∈ g.nodes, ∀ b, (input.bound k).numberAt n = some b →
        k.Holds b (degree k.kind n) := by
    constructor
    · intro admits k n member
      exact (keeps_iff_holds accepted defined k member).mp
        (DegreeBounds.forall_admits_iff.mp (fun kind => admits kind n member) k)
    · intro holds kind n member
      exact DegreeBounds.forall_admits_iff (d := fun kind => degree kind n).mpr
        (fun k => (keeps_iff_holds accepted defined k member).mpr (holds k n member)) kind
  rw [degrees]
  exact ⟨fun ⟨degrees, least, greatest⟩ => ⟨degrees, least, greatest⟩,
    fun ⟨degrees, least, greatest⟩ => ⟨degrees, least, greatest⟩⟩

/-! ### Costs -/

/-- Where the task is defined, it has the price of the configuration. -/
theorem priceOf_eq (defined : task.exact.DefinedOn g) (part : Arc → Rat) :
    task.exact.priceOf g part = input.priceOf g part := by
  obtain ⟨inputDefined, spelled⟩ := (definedOn_iff accepted).mp defined
  have costed : ∀ given ∈ input.costs, ∀ a ∈ g.arcs .all,
      (given.costAt a).IsFinite ∧ (Value.arc a).isWritable = true := fun c member a listed =>
    ⟨inputDefined.costs c member a listed, spelled.arcs c member a listed⟩
  have read := (List.forall₂_and_left _ _).mpr ⟨costed, readAs_of_ofInput accepted⟩
  refine congrArg List.sum ?_
  rw [exact, List.map_map, eq_comm, ← List.forall₂_eq_eq_eq, List.forall₂_map_left_iff,
    List.forall₂_map_right_iff]
  refine read.imp fun given c ⟨each, readAs⟩ => ?_
  have costs : ∀ a ∈ g.arcs .all, c.exact.costOf a = (given.costAt a).rational := by
    intro a listed
    obtain ⟨⟨q, cost⟩, writable⟩ := each a listed
    rw [WeightedCost.costOf, (cost_of_readAs readAs).mpr ⟨writable, cost⟩, cost]
  rw [Function.comp_apply, weight_of_readAs readAs]
  exact congrArg (_ * ·) (congrArg List.sum (List.map_congr_left fun a listed => by
    rw [costs a listed]))

end Accepted

end SelectionTask

end ArcSelection
