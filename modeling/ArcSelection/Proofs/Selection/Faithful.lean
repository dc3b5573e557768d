import ArcSelection.Proofs.Selection.Compile
import ArcSelection.Proofs.Selection.Requested
import Mathlib.Tactic.FinCases

/-!
# The program of a configuration

What an accepted configuration compiles to says what the configuration asks for, bound by bound
and cost by cost. Where its bounds and costs are defined, only an id that is too long to be
spelled out is in the way, and then compiling fails as a bad value.
-/

namespace ArcSelection

open Decimal Fallible

/-- A program that says what a configuration asks for: a variable for each arc, rows that hold
where the degrees and the amount are admitted, and the price as the objective. -/
structure TaskInput.Describes (input : TaskInput) (g : Graph) (p : Problem Arc Arc Extended) :
    Prop where
  unknowns : p.unknowns.entries = (g.arcs .all).map fun a =>
    (a, ⟨a, if input.relaxed.isTruthy then .real else .integer, .finite 0, .finite 1⟩)
  sense : p.sense = .minimize
  rows : ∀ x, (∀ a ∈ g.arcs .all, 0 ≤ x a) →
    ((∀ c ∈ p.constraints, c.HoldsAt x) ↔
      input.Admits g.nodes (g.degreeOf x) (g.amountOf x))
  objective : ∀ x, p.objective.evaluate (point x) = .ok (.finite (input.priceOf g x))

namespace SelectionTask

variable {t : SelectionTask Extended} {g : Graph} {fault : Fault} {input : TaskInput}
  {task : SelectionTask Value}

/-! ### How compiling fails -/

/-- The cost of an arc fails as a cost function does, or because a cost is not finite. -/
theorem arcCost_error {a : Arc} (failed : t.arcCost a = .error fault) :
    (∃ c ∈ t.costs, c.cost a = .error fault) ∨ fault.kind.label = "ValueError" := by
  obtain ⟨c, member, sum, stepped⟩ := exists_error_of_foldlM_error failed
  rcases bind_eq_error_iff.mp stepped with raised | ⟨v, _, rest⟩
  · exact .inl ⟨c, member, raised⟩
  · refine .inr ?_
    split at rest
    · cases rest
      rfl
    · cases rest

/-- In exact numbers an arc can be counted at every node. -/
theorem exists_countDirected (m : DegreeMap Extended) (isEdge : Bool) (n : Node) (a : Arc) :
    ∃ next, m.countDirected isEdge n a = .ok next := by
  cases isEdge with
  | true => exact ⟨m, rfl⟩
  | false => exact ⟨_, rfl⟩

/-- In exact numbers only the cost of an arc can keep it from being entered. -/
theorem enter_error {s : ArcSums Extended} {a : Arc} (failed : t.enter g s a = .error fault) :
    t.arcCost a = .error fault := by
  obtain ⟨outDegree, leaving⟩ := exists_countDirected s.outDegree (g.isEdge a) (g.tail a) a
  obtain ⟨inDegree, entering⟩ := exists_countDirected s.inDegree (g.isEdge a) (g.head a) a
  cases costEq : t.arcCost a with
  | error other =>
      rw [enter_eq_error rfl rfl leaving entering rfl costEq] at failed
      exact congrArg Except.error (Except.error.inj failed)
  | ok c =>
      obtain ⟨objective, objectiveAdded⟩ : ∃ e, (if Arithmetic.isZero c then pure s.objective
          else s.objective.addTerm a c) = (.ok e : Except Fault (Expression Arc Extended)) := by
        split <;> exact ⟨_, rfl⟩
      have entered : t.enter g s a = .ok ⟨_, _, inDegree, outDegree, _, objective⟩ :=
        enter_eq rfl rfl leaving entering rfl costEq objectiveAdded rfl
      cases entered.symm.trans failed

/-- A function that answers with a number is asked in vain only where the name cannot be
written. -/
theorem label_of_exactly_askNumber {β : Type} {what : String} {item : β → Value}
    {f : β → Except Fault Value} {x : β} (number : readingOf (f x) ≠ .nan)
    (failed : exactly (askNumber what item f) x = .error fault) :
    fault.kind.label = "ValueError" := by
  rcases askNumber_error (map_eq_error_iff.mp failed) with raised | isValue
  · rw [raised] at number
    exact absurd rfl number
  · exact isValue

/-- Where the bounds and the costs of a configuration are defined, compiling fails only as for a
bad value: nothing that is asked for raises. -/
theorem label_of_compile_error (accepted : ofInput input = .ok task) (defined : input.DefinedOn g)
    (failed : task.exact.compile g = .error fault) : fault.kind.label = "ValueError" := by
  rcases compile_error_cases (fun k f n x _ _ => ⟨⟨_, rfl⟩, _, rfl⟩) failed with
    summing | isValue | ⟨k, f, n, isBound, member, raised⟩
  · obtain ⟨a, listed, s, entering⟩ := exists_error_of_foldlM_error summing
    rcases arcCost_error (enter_error entering) with ⟨c, member, raised⟩ | isValue
    · obtain ⟨read, isRead, rfl⟩ := List.mem_map.mp member
      obtain ⟨given, isGiven, readEq⟩ := mem_of_mapM_ok (costs_of_ofInput accepted) read isRead
      obtain ⟨f, weight, _, rfl, _, _, rfl⟩ := readAs_of_readCost readEq
      obtain ⟨q, finite⟩ := defined.costs _ isGiven a listed
      have number : readingOf (f a) ≠ .nan := fun isNaN => by cases isNaN.symm.trans finite
      exact label_of_exactly_askNumber number raised
    · exact isValue
  · exact isValue
  · rw [bounds_exact, DegreeBounds.onSide_exact, Option.map_eq_some_iff] at isBound
    obtain ⟨asked, isBound, rfl⟩ := isBound
    obtain ⟨given, asks, gives⟩ := answers_of_readBound (bound_of_ofInput accepted k)
    rw [isBound, Option.map_eq_some_iff] at asks
    obtain ⟨own, answers, rfl⟩ := asks
    refine label_of_exactly_askNumber (fun isNaN => defined.bounds k n member ?_) raised
    rw [gives n, answers, Option.map_some, isNaN]

/-- Nothing is compiled where an id that is asked about cannot be spelled out. -/
theorem exists_compile_error (accepted : ofInput input = .ok task) (defined : input.DefinedOn g)
    (unspelled : ¬ input.SpelledOn g) :
    ∃ fault, task.exact.compile g = .error fault ∧ fault.kind.label = "ValueError" := by
  cases compiled : task.exact.compile g with
  | error fault => exact ⟨fault, rfl, label_of_compile_error accepted defined compiled⟩
  | ok p =>
      exact absurd ((definedOn_iff accepted).mp (definedOn_of_compile compiled)).2 unspelled

/-! ### What is compiled -/

/-- What a task says of a graph on which it is defined, its configuration says. -/
theorem Describes.ofInput {p : Problem Arc Arc Extended} (describes : task.exact.Describes g p)
    (accepted : SelectionTask.ofInput input = .ok task) (defined : task.exact.DefinedOn g) :
    input.Describes g p where
  unknowns := by
    rw [describes.unknowns, exact, relaxed_of_ofInput accepted]
  sense := describes.sense
  rows x nonneg := by
    rw [describes.rows x nonneg, admits_iff accepted defined]
    exact ⟨fun met => ⟨met.degree, met.minimum, met.maximum⟩,
      fun admitted => ⟨admitted.1, admitted.2.1, admitted.2.2⟩⟩
  objective x := by
    rw [describes.objective x, priceOf_eq accepted defined]

/-- An accepted configuration, where its bounds are numbers and its costs finite, compiles to the
program that it stands for, if the ids that are asked about can be spelled out. Otherwise
compiling fails as a bad value. -/
theorem compile_faithful (accepted : ofInput input = .ok task) {g : Graph}
    (nodup : (g.arcs .all).Nodup) (defined : input.DefinedOn g) :
    (input.SpelledOn g → ∃ p, task.exact.compile g = .ok p ∧ input.Describes g p) ∧
      (¬ input.SpelledOn g →
        ∃ fault, task.exact.compile g = .error fault ∧ fault.kind.label = "ValueError") := by
  refine ⟨fun spelled => ?_, exists_compile_error accepted defined⟩
  have taskDefined := (definedOn_iff accepted).mpr ⟨defined, spelled⟩
  obtain ⟨p, compiled, describes⟩ :=
    compile_ok (finiteWeights_of_ofInput accepted) nodup taskDefined
  exact ⟨p, compiled, describes.ofInput accepted taskDefined⟩

/-- A configuration with a constant bound, a bound by node and a weighted cost. -/
def mixedInput : TaskInput :=
  { TaskInput.unbounded with
    minDegree := .value (.int (-1))
    maxInDegree := .function fun n => .ok (.int n.id)
    minArcs := .int 1
    costs := [.function (fun a => .ok (.int a.id)) (.float 0.5)] }

/-- Every node may have at most one arc. -/
def atMostOne : TaskInput := { TaskInput.unbounded with maxDegree := .value (.int 1) }

theorem definedOn_atMostOne (g : Graph) : atMostOne.DefinedOn g := by
  have constant : ∀ k n, (atMostOne.bound k).numberAt n = (atMostOne.bound k).numberAt ⟨1⟩ :=
    fun k n => by cases k <;> rfl
  refine ⟨fun k n _ => ?_, fun c member => absurd member List.not_mem_nil⟩
  rw [constant]
  cases k <;> decide +kernel

theorem not_spelledOn_atMostOne : ¬ atMostOne.SpelledOn distantNode.graph := by
  intro spelled
  obtain ⟨n, member, unwritable⟩ := not_isWritable_distantNode
  cases unwritable.symm.trans (spelled.nodes .maxDegree _ rfl n member)

/-- One configuration is compiled on a graph with small ids, and one is not compiled on a graph
with a long id. -/
theorem compile_faithful_mixedPair :
    (∃ task, ofInput mixedInput = .ok task ∧ (mixedPair.graph.arcs .all).Nodup ∧
      mixedInput.DefinedOn mixedPair.graph ∧ mixedInput.SpelledOn mixedPair.graph ∧
      ∃ p, task.exact.compile mixedPair.graph = .ok p ∧
        mixedInput.Describes mixedPair.graph p) ∧
    ∃ task, ofInput atMostOne = .ok task ∧ (distantNode.graph.arcs .all).Nodup ∧
      atMostOne.DefinedOn distantNode.graph ∧ ¬ atMostOne.SpelledOn distantNode.graph ∧
      ∃ fault, task.exact.compile distantNode.graph = .error fault ∧
        fault.kind.label = "ValueError" := by
  constructor
  · have nodup : (mixedPair.graph.arcs .all).Nodup := by decide
    obtain ⟨task, accepted⟩ : ∃ task, ofInput mixedInput = .ok task := ⟨_, rfl⟩
    have defined : mixedInput.DefinedOn mixedPair.graph := by
      refine ⟨fun k n member => ?_, fun c member a listed => ?_⟩
      · change n ∈ [⟨1⟩, ⟨2⟩] at member
        fin_cases member <;> cases k <;> decide +kernel
      · obtain rfl := List.mem_singleton.mp member
        change a ∈ [⟨1⟩, ⟨2⟩, ⟨3⟩] at listed
        fin_cases listed
        · exact ⟨1, by decide +kernel⟩
        · exact ⟨2, by decide +kernel⟩
        · exact ⟨3, by decide +kernel⟩
    have spelled : mixedInput.SpelledOn mixedPair.graph := by
      refine ⟨fun _ _ _ n member => ?_, fun _ _ a listed => ?_⟩
      · change n ∈ [⟨1⟩, ⟨2⟩] at member
        fin_cases member <;> decide +kernel
      · change a ∈ [⟨1⟩, ⟨2⟩, ⟨3⟩] at listed
        fin_cases listed <;> decide +kernel
    exact ⟨task, accepted, nodup, defined, spelled,
      (compile_faithful accepted nodup defined).1 spelled⟩
  · obtain ⟨task, accepted⟩ : ∃ task, ofInput atMostOne = .ok task := ⟨_, rfl⟩
    exact ⟨task, accepted, listsArcs_distantNode.nodup, definedOn_atMostOne _,
      not_spelledOn_atMostOne, (compile_faithful accepted listsArcs_distantNode.nodup
        (definedOn_atMostOne _)).2 not_spelledOn_atMostOne⟩

end SelectionTask

end ArcSelection
