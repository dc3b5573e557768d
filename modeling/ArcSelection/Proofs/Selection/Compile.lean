import ArcSelection.Proofs.Program.Evaluation
import ArcSelection.Proofs.Selection.Degree
import ArcSelection.Proofs.Selection.Exact
import ArcSelection.Selection.Compile
import Mathlib.Algebra.BigOperators.Ring.List
import Mathlib.Tactic.FinCases

/-!
# The program of a task

Compiling succeeds exactly when every bound and cost is defined on the graph
(`SelectionTask.compile_ok`, `SelectionTask.definedOn_of_compile`), and then its rows
say what the bounds say and its objective is the price. The pass over the arcs is
described by `SelectionTask.Entered`, which tells what the sums are after any number
of arcs; the rows are then compared with the bounds node by node.
-/

namespace ArcSelection

open Decimal Fallible

namespace DegreeMap

/-- The expression of every node is the linear form given for it. -/
def Reads (m : DegreeMap Extended) (form : Node → (Arc → Rat) → Rat) : Prop :=
  ∀ n, (m.of n).Computes (form n)

theorem reads_empty : Reads .empty fun _ _ => 0 := fun _ => .zero

theorem Reads.congr {m : DegreeMap Extended} {form form' : Node → (Arc → Rat) → Rat}
    (reads : m.Reads form) (same : ∀ n x, form n x = form' n x) : m.Reads form' :=
  fun n => (reads n).congr (same n)

/-- Counting an arc at a node adds it to the form of this node only. -/
theorem count_ok {m : DegreeMap Extended} {form : Node → (Arc → Rat) → Rat}
    (reads : m.Reads form) (n : Node) (a : Arc) :
    ∃ m', m.count n a = .ok m' ∧
      m'.Reads fun n' x => form n' x + ((if n = n' then 1 else 0 : Nat) : Rat) * x a := by
  obtain ⟨e, added, computes⟩ := (reads n).addTerm a 1
  refine ⟨m.insert n e, ?_, fun n' => ?_⟩
  · rw [count, Extended.unit_eq, added]
    rfl
  · by_cases here : n = n'
    · subst here
      simpa [of] using computes
    · simpa [of, OrderedMap.get?_insert_of_ne m here, here] using reads n'

/-- Counts a directed arc at a node, and an edge nowhere. -/
def countDirected {α : Type} [Arithmetic α] (m : DegreeMap α) (isEdge : Bool) (n : Node)
    (a : Arc) : Except Fault (DegreeMap α) :=
  if isEdge then pure m else m.count n a

/-- Counting a directed arc adds it to the form of one node. -/
theorem countDirected_ok {m : DegreeMap Extended} {form : Node → (Arc → Rat) → Rat}
    (reads : m.Reads form) (isEdge : Bool) (n : Node) (a : Arc) :
    ∃ m', m.countDirected isEdge n a = .ok m' ∧ m'.Reads fun n' x =>
      form n' x + ((if isEdge = false ∧ n = n' then 1 else 0 : Nat) : Rat) * x a := by
  cases isEdge with
  | true => exact ⟨m, rfl, reads.congr fun n' x => by simp⟩
  | false =>
      obtain ⟨m', counted, reads'⟩ := count_ok reads n a
      exact ⟨m', counted, reads'.congr fun n' x => by simp⟩

end DegreeMap

/-- The degree expressions of one kind. -/
def ArcSums.degreeMap {α : Type} (s : ArcSums α) : DegreeKind → DegreeMap α
  | .whole => s.degree
  | .entering => s.inDegree
  | .leaving => s.outDegree

namespace SelectionTask

variable {t : SelectionTask Extended} {g : Graph}

/-- The coefficient of an arc in the objective. -/
def rateOf (t : SelectionTask Extended) (a : Arc) : Rat :=
  (t.costs.map fun c => c.weight.rational * c.costOf a).sum

/-- Every cost of an arc is a finite number. -/
def CostsDefined (t : SelectionTask Extended) (a : Arc) : Prop :=
  ∀ c ∈ t.costs, ∃ v, c.cost a = .ok v ∧ v.IsFinite

/-- The weighted cost of an arc with finite costs is the sum of the products. -/
theorem arcCost_ok (weights : t.FiniteWeights) {a : Arc} (defined : t.CostsDefined a) :
    t.arcCost a = .ok (.finite (t.rateOf a)) := by
  obtain ⟨total, computed, totalEq⟩ : ∃ total, t.arcCost a = .ok total ∧
      total = .finite (t.costs.map fun c => c.weight.rational * c.costOf a).sum := by
    refine foldlM_ok (fun (done : List (WeightedCost Extended)) (total : Extended) =>
      total = .finite (done.map fun c => c.weight.rational * c.costOf a).sum) rfl ?_
    rintro done c rest s split rfl
    have member : c ∈ t.costs := by simp [split]
    obtain ⟨_, costEq, q, rfl⟩ := defined c member
    obtain ⟨w, weightEq⟩ := weights c member
    refine ⟨_, ?_, rfl⟩
    simp [costEq, weightEq, bind, Except.bind, WeightedCost.costOf]
  rw [computed, totalEq]
  rfl

/-- What the pass over the arcs has collected after some of them. -/
structure Entered (t : SelectionTask Extended) (g : Graph) (done : List Arc)
    (s : ArcSums Extended) : Prop where
  unknowns : s.unknowns.entries = done.map fun a => (a, t.variableOf a)
  degree : ∀ k, (s.degreeMap k).Reads fun n x =>
    (done.map fun a => g.multiplicity k a n * x a).sum
  total : s.total.Computes fun x => (done.map x).sum
  objective : s.objective.Computes fun x => (done.map fun a => t.rateOf a * x a).sum

/-- An arc is entered by entering it everywhere. -/
theorem enter_eq {α : Type} [Arithmetic α] {t : SelectionTask α} {s : ArcSums α} {a : Arc}
    {degreeTail : DegreeMap α} {next : ArcSums α} {cost : α}
    (tailCounted : s.degree.count (g.tail a) a = .ok degreeTail)
    (headCounted : degreeTail.count (g.head a) a = .ok next.degree)
    (leaving : s.outDegree.countDirected (g.isEdge a) (g.tail a) a = .ok next.outDegree)
    (entering : s.inDegree.countDirected (g.isEdge a) (g.head a) a = .ok next.inDegree)
    (totalAdded : s.total.addTerm a Arithmetic.unit = .ok next.total)
    (costEq : t.arcCost a = .ok cost)
    (objectiveAdded : (if Arithmetic.isZero cost then pure s.objective
      else s.objective.addTerm a cost) = .ok next.objective)
    (unknownsEq : next.unknowns =
      if s.unknowns.contains a then s.unknowns else s.unknowns.insert a (t.variableOf a)) :
    t.enter g s a = .ok next := by
  obtain ⟨unknowns, degree, inDegree, outDegree, total, objective⟩ := next
  subst unknownsEq
  simp only [DegreeMap.countDirected] at leaving entering
  cases edge : g.isEdge a <;> by_cases zero : Arithmetic.isZero cost = true <;>
    simp_all [enter, bind, Except.bind, pure, Except.pure]

/-- An arc without a cost cannot be entered, and fails as its cost does. -/
theorem enter_eq_error {α : Type} [Arithmetic α] {t : SelectionTask α} {s : ArcSums α} {a : Arc}
    {degreeTail degree outDegree inDegree : DegreeMap α} {total : Expression Arc α} {fault : Fault}
    (tailCounted : s.degree.count (g.tail a) a = .ok degreeTail)
    (headCounted : degreeTail.count (g.head a) a = .ok degree)
    (leaving : s.outDegree.countDirected (g.isEdge a) (g.tail a) a = .ok outDegree)
    (entering : s.inDegree.countDirected (g.isEdge a) (g.head a) a = .ok inDegree)
    (totalAdded : s.total.addTerm a Arithmetic.unit = .ok total)
    (failed : t.arcCost a = .error fault) : t.enter g s a = .error fault := by
  simp only [DegreeMap.countDirected] at leaving entering
  cases edge : g.isEdge a <;> simp_all [enter, bind, Except.bind, pure, Except.pure]

/-- Entering an arc that was not entered yet. -/
theorem enter_ok (weights : t.FiniteWeights) {done : List Arc} {s : ArcSums Extended}
    (entered : t.Entered g done s) {a : Arc} (fresh : a ∉ done) (defined : t.CostsDefined a) :
    ∃ next, t.enter g s a = .ok next ∧ t.Entered g (done ++ [a]) next := by
  obtain ⟨degreeTail, tailCounted, tailReads⟩ :=
    DegreeMap.count_ok (entered.degree .whole) (g.tail a) a
  obtain ⟨degree, headCounted, wholeReads⟩ := DegreeMap.count_ok tailReads (g.head a) a
  obtain ⟨outDegree, leaving, leavingReads⟩ :=
    DegreeMap.countDirected_ok (entered.degree .leaving) (g.isEdge a) (g.tail a) a
  obtain ⟨inDegree, entering, enteringReads⟩ :=
    DegreeMap.countDirected_ok (entered.degree .entering) (g.isEdge a) (g.head a) a
  obtain ⟨total, totalAdded, totalComputes⟩ := entered.total.addTerm a 1
  obtain ⟨objective, objectiveAdded, objectiveComputes⟩ : ∃ e,
      (if Arithmetic.isZero (Extended.finite (t.rateOf a)) then pure s.objective
        else s.objective.addTerm a (.finite (t.rateOf a))) = .ok e ∧
      e.Computes fun x => (done.map fun b => t.rateOf b * x b).sum + t.rateOf a * x a := by
    by_cases free : t.rateOf a = 0
    · exact ⟨s.objective, by simp [free, pure, Except.pure],
        entered.objective.congr fun x => by simp [free]⟩
    · obtain ⟨e, added, computes⟩ := entered.objective.addTerm a (t.rateOf a)
      exact ⟨e, by simpa [free] using added, computes⟩
  have absent : s.unknowns.contains a = false := by
    rw [← Bool.not_eq_true, ← OrderedMap.mem_keys_iff]
    simpa [OrderedMap.keys, entered.unknowns] using fresh
  refine ⟨⟨s.unknowns.insert a (t.variableOf a), degree, inDegree, outDegree, total, objective⟩,
    enter_eq tailCounted headCounted leaving entering totalAdded (arcCost_ok weights defined)
      objectiveAdded (by simp [absent]), ?_, ?_, ?_, ?_⟩
  · simp [OrderedMap.entries_insert_of_absent absent, entered.unknowns]
  · intro k
    cases k with
    | whole =>
        refine wholeReads.congr fun n x => ?_
        simp only [List.map_append, List.sum_append, List.map_cons, List.map_nil, List.sum_cons,
          List.sum_nil, Ends.multiplicity]
        push_cast
        ring
    | entering => exact enteringReads.congr fun n x => by simp [Ends.multiplicity]
    | leaving => exact leavingReads.congr fun n x => by simp [Ends.multiplicity]
  · exact totalComputes.congr fun x => by simp
  · exact objectiveComputes.congr fun x => by simp

/-- The pass over all arcs. -/
theorem sums_ok (weights : t.FiniteWeights) (nodup : (g.arcs .all).Nodup)
    (defined : ∀ a ∈ g.arcs .all, t.CostsDefined a) :
    ∃ s, t.sums g = .ok s ∧ t.Entered g (g.arcs .all) s := by
  refine foldlM_ok (t.Entered g) ⟨rfl, fun k => ?_, .zero, .zero⟩ ?_
  · cases k <;> exact DegreeMap.reads_empty
  · intro done a rest s split entered
    exact enter_ok weights entered (not_mem_done nodup split) (defined a (by simp [split]))

/-- The row of a lower bound says what the bound says, where degrees are nonnegative. -/
theorem lowerRow_ok {e : Expression Arc Extended} {form : (Arc → Rat) → Rat}
    (computes : e.Computes form) {n : Node} {lower : Option (Node → Except Fault Extended)}
    (answers : ∀ f, lower = some f → ∃ b, f n = .ok b ∧ b ≠ .nan) :
    ∃ rows, lowerRow e n lower = .ok rows ∧ ∀ x, 0 ≤ form x →
      ((∀ c ∈ rows, c.HoldsAt x) ↔ DegreeBounds.LowerAdmits lower n (form x)) := by
  cases lower with
  | none => exact ⟨[], rfl, by simp [DegreeBounds.LowerAdmits]⟩
  | some f =>
      obtain ⟨b, bound, number⟩ := answers f rfl
      cases b with
      | nan => exact absurd rfl number
      | bottom =>
          refine ⟨[], ?_, fun x _ => ?_⟩
          · rw [lowerRow, bound]
            rfl
          · simp [DegreeBounds.LowerAdmits, bound]
      | finite q =>
          by_cases positive : 0 < q
          · refine ⟨[⟨e, .atLeast, .finite q⟩], ?_, fun x _ => ?_⟩
            · simp [lowerRow, bound, bind, Except.bind, positive, pure, Except.pure]
            · simp [DegreeBounds.LowerAdmits, bound, Constraint.holdsAt_atLeast computes]
          · refine ⟨[], ?_, fun x nonneg => ?_⟩
            · simp [lowerRow, bound, bind, Except.bind, positive, pure, Except.pure]
            · simpa [DegreeBounds.LowerAdmits, bound] using (not_lt.mp positive).trans nonneg
      | top =>
          refine ⟨[⟨e, .atLeast, .top⟩], ?_, fun x _ => ?_⟩
          · rw [lowerRow, bound]
            rfl
          · simp [DegreeBounds.LowerAdmits, bound, Constraint.holdsAt_atLeast computes]

/-- The row of an upper bound says what the bound says. -/
theorem upperRow_ok {e : Expression Arc Extended} {form : (Arc → Rat) → Rat}
    (computes : e.Computes form) {n : Node} {upper : Option (Node → Except Fault Extended)}
    (answers : ∀ f, upper = some f → ∃ b, f n = .ok b ∧ b ≠ .nan) :
    ∃ rows, upperRow e n upper = .ok rows ∧ ∀ x,
      ((∀ c ∈ rows, c.HoldsAt x) ↔ DegreeBounds.UpperAdmits upper n (form x)) := by
  cases upper with
  | none => exact ⟨[], rfl, by simp [DegreeBounds.UpperAdmits]⟩
  | some f =>
      obtain ⟨b, bound, number⟩ := answers f rfl
      cases b with
      | nan => exact absurd rfl number
      | bottom =>
          refine ⟨[⟨e, .atMost, .bottom⟩], ?_, fun x => ?_⟩
          · rw [upperRow, bound]
            rfl
          · simp [DegreeBounds.UpperAdmits, bound, Constraint.holdsAt_atMost computes]
      | finite q =>
          refine ⟨[⟨e, .atMost, .finite q⟩], ?_, fun x => ?_⟩
          · rw [upperRow, bound]
            rfl
          · simp [DegreeBounds.UpperAdmits, bound, Constraint.holdsAt_atMost computes]
      | top =>
          refine ⟨[], ?_, fun x => ?_⟩
          · rw [upperRow, bound]
            rfl
          · simp [DegreeBounds.UpperAdmits, bound]

/-- Constraints in groups hold if every group does. -/
private theorem forall_mem_flatten_iff {α β : Type} {P : β → Prop} {Q : α → Prop}
    {items : List α} {groups : List (List β)}
    (related : List.Forall₂ (fun item group => (∀ c ∈ group, P c) ↔ Q item) items groups) :
    (∀ c ∈ groups.flatten, P c) ↔ ∀ item ∈ items, Q item := by
  induction related with
  | nil => simp
  | cons head _ ih =>
      rw [List.flatten_cons, List.forall_mem_append, head, ih, List.forall_mem_cons]

/-- The rows of one kind of degree say what its bounds say at every node. -/
theorem degreeRows_ok {m : DegreeMap Extended} {form : Node → (Arc → Rat) → Rat}
    (reads : m.Reads form) {b : DegreeBounds Extended} (lower : Answers b.lower g.nodes)
    (upper : Answers b.upper g.nodes) :
    ∃ rows, degreeRows g m b = .ok rows ∧ ∀ x, (∀ n, 0 ≤ form n x) →
      ((∀ c ∈ rows, c.HoldsAt x) ↔ ∀ n ∈ g.nodes, b.Admits n (form n x)) := by
  by_cases unbounded : b.lower.isNone && b.upper.isNone
  · refine ⟨[], by simp [degreeRows, unbounded], fun x _ => ?_⟩
    rw [Bool.and_eq_true, Option.isNone_iff_eq_none, Option.isNone_iff_eq_none] at unbounded
    simp [DegreeBounds.Admits, DegreeBounds.LowerAdmits, DegreeBounds.UpperAdmits, unbounded]
  · obtain ⟨groups, mapped, related⟩ : ∃ groups,
        (g.nodes.mapM fun n => do
          return (← lowerRow (m.of n) n b.lower) ++ (← upperRow (m.of n) n b.upper)) =
            .ok groups ∧
        List.Forall₂ (fun n rows => ∀ x, 0 ≤ form n x →
          ((∀ c ∈ rows, c.HoldsAt x) ↔ b.Admits n (form n x))) g.nodes groups := by
      refine mapM_ok fun n member => ?_
      obtain ⟨below, lowerEq, lowerIff⟩ :=
        lowerRow_ok (reads n) fun f isLower => lower f isLower n member
      obtain ⟨above, upperEq, upperIff⟩ :=
        upperRow_ok (reads n) fun f isUpper => upper f isUpper n member
      refine ⟨below ++ above, by rw [lowerEq, upperEq]; rfl, fun x nonneg => ?_⟩
      rw [List.forall_mem_append, lowerIff x nonneg, upperIff x, DegreeBounds.Admits]
    refine ⟨groups.flatten, ?_, fun x nonneg => ?_⟩
    · rw [degreeRows, if_neg unbounded, mapped]
      rfl
    · exact forall_mem_flatten_iff (related.imp fun n rows agree => agree x (nonneg n))

/-- The rows of the arc counts say that the amount lies between them. -/
theorem countRows_iff {total : Expression Arc Extended} {form : (Arc → Rat) → Rat}
    (computes : total.Computes form) {x : Arc → Rat} (nonneg : 0 ≤ form x) :
    (∀ c ∈ t.countRows total, c.HoldsAt x) ↔
      (t.minimum : Rat) ≤ form x ∧ ∀ m, t.maximum = some m → form x ≤ m := by
  have least : (∀ c ∈ (if t.minimum = 0 then []
      else [⟨total, .atLeast, Arithmetic.ofCount t.minimum⟩] : List (Constraint Arc Extended)),
        c.HoldsAt x) ↔ (t.minimum : Rat) ≤ form x := by
    by_cases none : t.minimum = 0
    · simp [none, nonneg]
    · simp [none, Constraint.holdsAt_atLeast computes]
  rw [countRows, List.forall_mem_append, least]
  cases t.maximum with
  | none => simp
  | some m => simp [Constraint.holdsAt_atMost computes]

/-- Costs may be summed by arc or by function. -/
private theorem sum_rateOf (costs : List (WeightedCost Extended)) (arcs : List Arc)
    (x : Arc → Rat) :
    (arcs.map fun a => (costs.map fun c => c.weight.rational * c.costOf a).sum * x a).sum =
      (costs.map fun c =>
        c.weight.rational * (arcs.map fun a => c.costOf a * x a).sum).sum := by
  induction costs with
  | nil => simp
  | cons c rest ih =>
      simp only [List.map_cons, List.sum_cons, ← ih, add_mul, List.sum_map_add, mul_assoc,
        List.sum_map_mul_left]

/-- A program that says what a task says: a variable for each arc, rows that hold where
the bounds are kept, and the price as the objective. -/
structure Describes (t : SelectionTask Extended) (g : Graph) (p : Problem Arc Arc Extended) :
    Prop where
  unknowns : p.unknowns.entries = (g.arcs .all).map fun a =>
    (a, ⟨a, if t.relaxed then .real else .integer, .finite 0, .finite 1⟩)
  sense : p.sense = .minimize
  rows : ∀ x, (∀ a ∈ g.arcs .all, 0 ≤ x a) →
    ((∀ c ∈ p.constraints, c.HoldsAt x) ↔ t.MetBy g x)
  objective : ∀ x, p.objective.evaluate (point x) = .ok (.finite (t.priceOf g x))

/-- A task whose bounds and costs are defined on the graph compiles to a program that
says what it says. -/
theorem compile_ok (weights : t.FiniteWeights) (nodup : (g.arcs .all).Nodup)
    (defined : t.DefinedOn g) : ∃ p, t.compile g = .ok p ∧ t.Describes g p := by
  obtain ⟨s, summed, entered⟩ := sums_ok weights nodup fun a listed c member =>
    defined.cost c member a listed
  have rowsOf := fun k => degreeRows_ok (entered.degree k) (defined.lower k) (defined.upper k)
  obtain ⟨whole, wholeEq, wholeIff⟩ := rowsOf .whole
  obtain ⟨entering, enteringEq, enteringIff⟩ := rowsOf .entering
  obtain ⟨leaving, leavingEq, leavingIff⟩ := rowsOf .leaving
  refine ⟨⟨s.unknowns, whole ++ entering ++ leaving ++ t.countRows s.total, s.objective,
    .minimize⟩, ?_, entered.unknowns, rfl, fun x nonneg => ?_, fun x => ?_⟩
  · change degreeRows g s.degree t.degree = _ at wholeEq
    change degreeRows g s.inDegree t.inDegree = _ at enteringEq
    change degreeRows g s.outDegree t.outDegree = _ at leavingEq
    rw [compile, summed]
    simp only [bind, Except.bind, wholeEq, enteringEq, leavingEq]
    rfl
  · have degreeNonneg := fun k n => g.degreeOf_nonneg nonneg k n
    have amount := countRows_iff (t := t) entered.total (g.amountOf_nonneg nonneg)
    simp only [List.forall_mem_append, wholeIff x (degreeNonneg .whole),
      enteringIff x (degreeNonneg .entering), leavingIff x (degreeNonneg .leaving), amount]
    constructor
    · rintro ⟨⟨⟨whole, entering⟩, leaving⟩, minimum, maximum⟩
      refine ⟨fun k => ?_, minimum, maximum⟩
      cases k
      · exact whole
      · exact entering
      · exact leaving
    · intro met
      exact ⟨⟨⟨met.degree .whole, met.degree .entering⟩, met.degree .leaving⟩, met.minimum,
        met.maximum⟩
  · rw [entered.objective.evaluate]
    exact congrArg (fun q => Except.ok (Extended.finite q)) (sum_rateOf _ _ _)

section Compiled

variable {α : Type} [Arithmetic α]

/-- The row of a bound on either side of a degree; none if the bound does not bind. -/
def boundRow (side : String) (relation : Relation) (binds : α → Except Fault Bool)
    (e : Expression Arc α) (n : Node) :
    Option (Node → Except Fault α) → Except Fault (List (Constraint Arc α))
  | none => .ok []
  | some bound => do
      let b ← bound n
      if Arithmetic.isNaN b then throw (.nodeBoundIsNaN side n)
      if ← binds b then return [⟨e, relation, b⟩]
      else return []

/-- The row for a lower bound is left out unless it is above zero. -/
theorem lowerRow_eq (e : Expression Arc α) (n : Node) (lower : Option (Node → Except Fault α)) :
    lowerRow e n lower =
      boundRow "Lower" .atLeast (Arithmetic.less Arithmetic.origin) e n lower := by
  cases lower <;> rfl

/-- The row for an upper bound is left out unless it is below infinity. -/
theorem upperRow_eq (e : Expression Arc α) (n : Node) (upper : Option (Node → Except Fault α)) :
    upperRow e n upper =
      boundRow "Upper" .atMost (Arithmetic.less · Arithmetic.top) e n upper := by
  cases upper <;> rfl

variable {side : String} {relation : Relation} {binds : α → Except Fault Bool}

/-- A bound whose row is computed answers with a number. -/
theorem number_of_boundRow {e : Expression Arc α} {n : Node} {f : Node → Except Fault α}
    {rows : List (Constraint Arc α)}
    (computed : boundRow side relation binds e n (some f) = .ok rows) :
    ∃ b, f n = .ok b ∧ Arithmetic.isNaN b = false := by
  obtain ⟨b, bound, rest⟩ := bind_eq_ok_iff.mp computed
  refine ⟨b, bound, Bool.eq_false_of_not_eq_true fun isNaN => ?_⟩
  rw [isNaN] at rest
  cases rest

/-- Bounds whose rows are computed answer with numbers. -/
theorem number_of_degreeRows {m : DegreeMap α} {b : DegreeBounds α}
    {rows : List (Constraint Arc α)} (computed : degreeRows g m b = .ok rows) (k : DegreeKey)
    {f : Node → Except Fault α} (isBound : b.onSide k = some f) {n : Node} (member : n ∈ g.nodes) :
    ∃ x, f n = .ok x ∧ Arithmetic.isNaN x = false := by
  rw [degreeRows] at computed
  split at computed
  · rename_i unbounded
    rw [Bool.and_eq_true, Option.isNone_iff_eq_none, Option.isNone_iff_eq_none] at unbounded
    simp [DegreeBounds.onSide, unbounded] at isBound
  · obtain ⟨groups, mapped, _⟩ := bind_eq_ok_iff.mp computed
    obtain ⟨group, computedHere⟩ := ok_of_mapM_ok mapped n member
    obtain ⟨below, lowerEq, rest⟩ := bind_eq_ok_iff.mp computedHere
    obtain ⟨above, upperEq, _⟩ := bind_eq_ok_iff.mp rest
    rw [DegreeBounds.onSide] at isBound
    split at isBound
    · rw [lowerRow_eq, isBound] at lowerEq
      exact number_of_boundRow lowerEq
    · rw [upperRow_eq, isBound] at upperEq
      exact number_of_boundRow upperEq

/-- The bounds of a task that compiles answer with numbers at the nodes of the graph. -/
theorem number_of_compile {t : SelectionTask α} {p : Problem Arc Arc α}
    (compiled : t.compile g = .ok p) (k : DegreeKey) {f : Node → Except Fault α}
    (isBound : (t.bounds k.kind).onSide k = some f) {n : Node} (member : n ∈ g.nodes) :
    ∃ x, f n = .ok x ∧ Arithmetic.isNaN x = false := by
  simp only [compile, bind_eq_ok_iff] at compiled
  obtain ⟨s, _, whole, wholeEq, entering, enteringEq, leaving, leavingEq, _⟩ := compiled
  cases k
  · exact number_of_degreeRows wholeEq .minDegree isBound member
  · exact number_of_degreeRows wholeEq .maxDegree isBound member
  · exact number_of_degreeRows enteringEq .minInDegree isBound member
  · exact number_of_degreeRows enteringEq .maxInDegree isBound member
  · exact number_of_degreeRows leavingEq .minOutDegree isBound member
  · exact number_of_degreeRows leavingEq .maxOutDegree isBound member

/-- A number is told whether it binds: it can be compared with zero and with infinity. -/
def Binds (x : α) : Prop :=
  (∃ answer, Arithmetic.less Arithmetic.origin x = .ok answer) ∧
    ∃ answer, Arithmetic.less x Arithmetic.top = .ok answer

/-- The row of a bound fails as the bound does, or because the bound is nan, where what the
bound answers with is told whether it binds. -/
theorem boundRow_error {e : Expression Arc α} {n : Node} {bound : Option (Node → Except Fault α)}
    (told : ∀ f x, bound = some f → f n = .ok x → ∃ answer, binds x = .ok answer) {fault : Fault}
    (failed : boundRow side relation binds e n bound = .error fault) :
    fault.kind.label = "ValueError" ∨ ∃ f, bound = some f ∧ f n = .error fault := by
  cases bound with
  | none => cases failed
  | some f =>
      rcases bind_eq_error_iff.mp failed with raised | ⟨x, answer, rest⟩
      · exact .inr ⟨f, rfl, raised⟩
      · cases nan : Arithmetic.isNaN x with
        | true =>
            rw [nan] at rest
            cases rest
            exact .inl rfl
        | false =>
            rw [nan] at rest
            obtain ⟨binding, compared⟩ := told f x rfl answer
            rcases bind_eq_error_iff.mp rest with refused | ⟨_, _, made⟩
            · cases compared.symm.trans refused
            · split at made <;> cases made

/-- The rows of a degree fail because a bound is nan, or as a bound does on a node of the
graph. -/
theorem degreeRows_error {m : DegreeMap α} {b : DegreeBounds α}
    (told : ∀ (k : DegreeKey) f n x, b.onSide k = some f → f n = .ok x → Binds x) {fault : Fault}
    (failed : degreeRows g m b = .error fault) :
    fault.kind.label = "ValueError" ∨
      ∃ f n, (b.lower = some f ∨ b.upper = some f) ∧ n ∈ g.nodes ∧ f n = .error fault := by
  rw [degreeRows] at failed
  split at failed
  · cases failed
  · rcases bind_eq_error_iff.mp failed with rows | ⟨_, _, made⟩
    · obtain ⟨n, member, rowFailed⟩ := exists_error_of_mapM_error rows
      rcases bind_eq_error_iff.mp rowFailed with below | ⟨_, _, rest⟩
      · rw [lowerRow_eq] at below
        refine (boundRow_error (fun f x isBound answer => (told .minDegree f n x isBound answer).1)
          below).imp_right ?_
        rintro ⟨f, isBound, raised⟩
        exact ⟨f, n, .inl isBound, member, raised⟩
      · rcases bind_eq_error_iff.mp rest with above | ⟨_, _, made⟩
        · rw [upperRow_eq] at above
          refine (boundRow_error (fun f x isBound answer => (told .maxDegree f n x isBound answer).2)
            above).imp_right ?_
          rintro ⟨f, isBound, raised⟩
          exact ⟨f, n, .inr isBound, member, raised⟩
        · cases made
    · cases made

/-- Compiling fails as the sums over the arcs do, because a bound is nan, or as a bound does on
a node of the graph. -/
theorem compile_error_cases {t : SelectionTask α}
    (told : ∀ (k : DegreeKey) f n x, (t.bounds k.kind).onSide k = some f → f n = .ok x → Binds x)
    {fault : Fault} (failed : t.compile g = .error fault) :
    t.sums g = .error fault ∨ fault.kind.label = "ValueError" ∨
      ∃ k f n, (t.bounds k.kind).onSide k = some f ∧ n ∈ g.nodes ∧ f n = .error fault := by
  have rows : ∀ (lowerKey upperKey : DegreeKey) {m : DegreeMap α} {b : DegreeBounds α},
      lowerKey.isLower = true → upperKey.isLower = false →
      t.bounds lowerKey.kind = b → t.bounds upperKey.kind = b →
      degreeRows g m b = .error fault → fault.kind.label = "ValueError" ∨
        ∃ k f n, (t.bounds k.kind).onSide k = some f ∧ n ∈ g.nodes ∧ f n = .error fault := by
    intro lowerKey upperKey m b isLower isUpper lowerEq upperEq failed
    have below : (t.bounds lowerKey.kind).onSide lowerKey = b.lower := by
      rw [lowerEq, DegreeBounds.onSide, isLower, if_pos rfl]
    have above : (t.bounds upperKey.kind).onSide upperKey = b.upper := by
      rw [upperEq, DegreeBounds.onSide, isUpper, if_neg Bool.false_ne_true]
    refine (degreeRows_error (fun k f n x isBound => ?_) failed).imp_right ?_
    · rw [DegreeBounds.onSide] at isBound
      split at isBound
      · exact told lowerKey f n x (below.trans isBound)
      · exact told upperKey f n x (above.trans isBound)
    · rintro ⟨f, n, isBound | isBound, member, raised⟩
      · exact ⟨lowerKey, f, n, below.trans isBound, member, raised⟩
      · exact ⟨upperKey, f, n, above.trans isBound, member, raised⟩
  rcases bind_eq_error_iff.mp failed with summing | ⟨s, _, rest⟩
  · exact .inl summing
  rcases bind_eq_error_iff.mp rest with whole | ⟨_, _, rest⟩
  · exact .inr (rows .minDegree .maxDegree rfl rfl rfl rfl whole)
  rcases bind_eq_error_iff.mp rest with entering | ⟨_, _, rest⟩
  · exact .inr (rows .minInDegree .maxInDegree rfl rfl rfl rfl entering)
  rcases bind_eq_error_iff.mp rest with leaving | ⟨_, _, made⟩
  · exact .inr (rows .minOutDegree .maxOutDegree rfl rfl rfl rfl leaving)
  · cases made

/-- What entering an arc has done to the sums. -/
structure Enters (t : SelectionTask α) (g : Graph) (a : Arc) (s next : ArcSums α) : Prop where
  unknowns : next.unknowns =
    if s.unknowns.contains a then s.unknowns else s.unknowns.insert a (t.variableOf a)
  degree : (do (← s.degree.count (g.tail a) a).count (g.head a) a) = .ok next.degree
  leaving : s.outDegree.countDirected (g.isEdge a) (g.tail a) a = .ok next.outDegree
  entering : s.inDegree.countDirected (g.isEdge a) (g.head a) a = .ok next.inDegree
  total : s.total.addTerm a Arithmetic.unit = .ok next.total
  cost : ∃ v, t.arcCost a = .ok v

/-- An arc that was entered was entered everywhere. -/
theorem enters_of_enter {t : SelectionTask α} {s next : ArcSums α} {a : Arc}
    (entered : t.enter g s a = .ok next) : t.Enters g a s next := by
  cases edge : g.isEdge a <;>
    simp only [enter, edge, bind_eq_ok_iff, if_true, Bool.false_eq_true, if_false] at entered
  all_goals
    obtain ⟨tail, tailCounted, _, headCounted, _, leaving, _, entering, _, totalAdded, cost,
      costEq, rest⟩ := entered
    split at rest
    all_goals
      obtain ⟨_, _, made⟩ := bind_eq_ok_iff.mp rest
      cases made
      exact ⟨rfl, bind_eq_ok_iff.mpr ⟨tail, tailCounted, headCounted⟩,
        by rw [edge]; exact leaving, by rw [edge]; exact entering, totalAdded, cost, costEq⟩

/-- The costs of a task that compiles are finite on the arcs of the graph. -/
theorem finiteCost_of_compile {t : SelectionTask α} {p : Problem Arc Arc α}
    (compiled : t.compile g = .ok p) {c : WeightedCost α} (member : c ∈ t.costs) {a : Arc}
    (listed : a ∈ g.arcs .all) : ∃ v, c.cost a = .ok v ∧ Arithmetic.isFinite v = true := by
  obtain ⟨s, summed, _⟩ := bind_eq_ok_iff.mp compiled
  obtain ⟨before, after, entered⟩ := step_ok_of_foldlM_ok summed a listed
  obtain ⟨v, computed⟩ := (enters_of_enter entered).cost
  obtain ⟨sum, next, stepped⟩ := step_ok_of_foldlM_ok computed c member
  obtain ⟨cost, costEq, rest⟩ := bind_eq_ok_iff.mp stepped
  refine ⟨cost, costEq, ?_⟩
  by_contra infinite
  have refused := Bool.eq_false_of_not_eq_true infinite
  simp [refused, throw, throwThe, MonadExceptOf.throw, bind, Except.bind] at rest

end Compiled

/-- A task that compiles has bounds and costs that are defined on the graph. -/
theorem definedOn_of_compile {p : Problem Arc Arc Extended} (compiled : t.compile g = .ok p) :
    t.DefinedOn g := by
  refine definedOn_of_keys (fun k f isBound n member => ?_) fun c member a listed => ?_
  · obtain ⟨b, bound, number⟩ := number_of_compile compiled k isBound member
    refine ⟨b, bound, fun isNaN => ?_⟩
    rw [(Extended.isNaN_iff b).mpr isNaN] at number
    cases number
  · obtain ⟨v, cost, finite⟩ := finiteCost_of_compile compiled member listed
    exact ⟨v, cost, (Extended.isFinite_iff v).mp finite⟩

/-- Where the numbers of a checked configuration can be compiled, they can be read exactly. -/
theorem definedOn_exact_of_compile {input : TaskInput} {task : SelectionTask Value}
    (accepted : ofInput input = .ok task) {p : Problem Arc Arc Value}
    (compiled : task.compile g = .ok p) : task.exact.DefinedOn g := by
  refine definedOn_of_keys (fun k f isBound n member => ?_) fun c member a listed => ?_
  · rw [bounds_exact, DegreeBounds.onSide_exact, Option.map_eq_some_iff] at isBound
    obtain ⟨f, isBound, rfl⟩ := isBound
    obtain ⟨x, bound, number⟩ := number_of_compile compiled k isBound member
    obtain ⟨y, rfl⟩ := float_of_readBound (bound_of_ofInput accepted k) isBound bound
    refine ⟨(Value.float y).exact, exactly_of_ok bound, fun isNaN => ?_⟩
    rw [Value.isNaN_of_numeric rfl, isNaN] at number
    cases number
  · obtain ⟨given, isGiven, rfl⟩ := List.mem_map.mp member
    obtain ⟨v, cost, finite⟩ := finiteCost_of_compile compiled isGiven listed
    exact ⟨v.exact, exactly_of_ok cost, Value.isFinite_exact finite⟩

/-- A compiled program has a variable for each arc, in the order in which the graph first
lists them. -/
theorem keys_of_compile {α : Type} [Arithmetic α] {t : SelectionTask α} {p : Problem Arc Arc α}
    (compiled : t.compile g = .ok p) : p.unknowns.keys = (g.arcs .all).eraseDups := by
  simp only [compile, bind_eq_ok_iff] at compiled
  obtain ⟨s, summed, _, _, _, _, _, _, built⟩ := compiled
  cases built
  refine invariant_of_foldlM_ok
    (fun done (s : ArcSums α) => s.unknowns.keys = done.eraseDups) ?_ rfl summed
  intro done a s next keys entered
  have known : s.unknowns.contains a = true ↔ a ∈ done := by
    rw [← OrderedMap.mem_keys_iff, keys, List.mem_eraseDups]
  rw [(enters_of_enter entered).unknowns, List.eraseDups_append, List.cons_removeAll, ← keys]
  by_cases before : a ∈ done
  · rw [if_pos (known.mpr before), if_neg (by simpa using before)]
    exact (List.append_nil _).symm
  · have absent : s.unknowns.contains a = false := Bool.eq_false_iff.mpr (before ∘ known.mp)
    rw [if_neg (before ∘ known.mp), if_pos (by simpa using before), OrderedMap.keys_insert, absent]
    rfl

/-- What a task compiles to says what the task says. -/
theorem describes_of_compile (weights : t.FiniteWeights) (nodup : (g.arcs .all).Nodup)
    {p : Problem Arc Arc Extended} (compiled : t.compile g = .ok p) : t.Describes g p := by
  obtain ⟨p', compiled', describes⟩ := compile_ok weights nodup (definedOn_of_compile compiled)
  cases compiled.symm.trans compiled'
  exact describes

end SelectionTask

end ArcSelection
