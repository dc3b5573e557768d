import ArcSelection.Proofs.Program.Optimum
import Mathlib.Algebra.BigOperators.Ring.List

/-!
# What the arrays of a program say

A point of the arrays has one coordinate for each column. `Encoding.Admits` reads the
arrays as a backend does: bounds and integrality column by column, rows by weighing the
coordinates with the coefficients. `Problem.WellFormed.encodes` says what encoding makes
of a program; `Encodes.admits_iff` and `Encodes.costs_le_iff` then compare the arrays with
the program: the points they admit with its feasible points, the costs with its objective.
-/

namespace ArcSelection

open Decimal Fallible

variable {ι κ : Type} [BEq ι]

/-- The sum of the coordinates times their coefficients. -/
def weigh : List Extended → List Rat → Extended
  | c :: coefficients, q :: x => (c.mul (.finite q)).add (weigh coefficients x)
  | _, _ => .finite 0

/-- Weighing finite numbers is a sum of products. -/
theorem weigh_map {β : Type} (columns : List β) (coefficient x : β → Rat) :
    weigh (columns.map fun i => .finite (coefficient i)) (columns.map x) =
      .finite (columns.map fun i => coefficient i * x i).sum := by
  induction columns with
  | nil => rfl
  | cons i rest ih =>
      rw [List.map_cons, List.map_cons, weigh, ih, List.map_cons, List.sum_cons]
      rfl

/-- The weight of the point lies between the bounds of the row. -/
structure EncodedRow.Admits (r : EncodedRow Extended) (x : List Rat) : Prop where
  lower : r.lower ≤ weigh r.coefficients x
  upper : weigh r.coefficients x ≤ r.upper

/-- The point has a coordinate for each column, within its bounds and an integer where the
column asks for one, and keeps the bounds of every row. -/
structure Encoding.Admits (e : Encoding Extended) (x : List Rat) : Prop where
  lower : List.Forall₂ (fun bound q => bound ≤ .finite q) e.lower x
  upper : List.Forall₂ (fun bound q => .finite q ≤ bound) e.upper x
  integral : List.Forall₂ (fun asked (q : Rat) => asked = true → ∃ z : Int, q = z) e.integral x
  rows : ∀ r ∈ e.rows, r.Admits x

namespace Expression

/-- The value at a point without the constant. -/
def linearAt (e : Expression ι Extended) (x : ι → Rat) : Rat :=
  e.terms.sum fun i c => c.rational * x i

/-- The value of an expression is its constant and its linear part. -/
theorem valueAt_eq (e : Expression ι Extended) (x : ι → Rat) :
    e.valueAt x = e.constant.rational + e.linearAt x := rfl

/-- The expression has finite numbers and speaks of the given variables only. -/
structure Over (e : Expression ι Extended) (unknowns : OrderedMap ι (Variable κ Extended)) :
    Prop where
  finite : e.IsFinite
  own : ∀ i ∈ e.terms.keys, unknowns.contains i = true

variable {e : Expression ι Extended} {unknowns : OrderedMap ι (Variable κ Extended)}

/-- An expression is over unknowns if its numbers are finite and its keys are among them. -/
theorem over_iff : e.Over unknowns ↔ (Arithmetic.isFinite e.constant = true ∧
    ∀ t ∈ e.terms.entries, Arithmetic.isFinite t.2 = true) ∧
    ∀ i ∈ e.terms.keys, unknowns.contains i = true := by
  simp only [Extended.isFinite_iff]
  constructor
  · rintro ⟨⟨constant, terms⟩, own⟩
    exact ⟨⟨constant, fun t member => terms t.1 t.2 member⟩, own⟩
  · rintro ⟨⟨constant, terms⟩, own⟩
    exact ⟨⟨constant, fun i c member => terms (i, c) member⟩, own⟩

instance : Decidable (e.Over unknowns) := decidable_of_iff _ over_iff.symm

variable [LawfulBEq ι]

/-- The linear part is a sum over all unknowns. -/
theorem Over.linearAt_eq (closed : e.Over unknowns) (x : ι → Rat) :
    e.linearAt x = (unknowns.keys.map fun i => e.coefficient i * x i).sum := by
  have within : ∀ i ∈ e.terms.keys, i ∈ unknowns.keys := by
    intro i listed
    exact (OrderedMap.mem_keys_iff unknowns i).mpr (closed.own i listed)
  rw [linearAt, OrderedMap.sum_eq_sum_over unknowns.nodup_keys within]
  refine congrArg List.sum (List.map_congr_left fun i _ => ?_)
  cases found : e.terms.get? i with
  | none => simp [coefficient, found]
  | some c => simp [coefficient, found]

end Expression

namespace Encoding

variable [LawfulBEq ι] {unknowns : OrderedMap ι (Variable κ Extended)}

/-- The columns of an expression hold its coefficients. -/
theorem columns_eq {e : Expression ι Extended} (closed : e.Over unknowns) :
    columns unknowns e = .ok (unknowns.keys.map fun i => .finite (e.coefficient i)) := by
  have finite := closed.finite.terms
  obtain ⟨sums, folded, entries⟩ : ∃ sums : OrderedMap ι Extended,
      e.terms.entries.foldlM
        (fun (acc : OrderedMap ι Extended) t =>
          if unknowns.contains t.1 then do
            return acc.insert t.1 (← Arithmetic.add Arithmetic.origin t.2)
          else .error .unknownColumn)
        .empty = .ok sums ∧ sums.entries = e.terms.entries := by
    -- Every term is entered once, in the order of the terms.
    refine foldlM_ok (fun done (sums : OrderedMap ι Extended) => sums.entries = done) rfl ?_
    intro done t rest sums split entered
    have member : t ∈ e.terms.entries := by simp [split]
    have own : unknowns.contains t.1 = true := closed.own t.1 (List.mem_map_of_mem member)
    have absent : sums.contains t.1 = false := by
      have distinct := e.terms.distinct
      rw [split, List.pairwise_append] at distinct
      rw [OrderedMap.contains, entered, List.any_eq_false]
      intro earlier before
      simp [distinct.2.2 earlier before t List.mem_cons_self]
    have kept : Arithmetic.add Arithmetic.origin t.2 = .ok t.2 := by
      rw [(finite t.1 t.2 member).eq, Extended.origin_eq, Extended.add_finite, zero_add]
    refine ⟨sums.insert t.1 t.2, ?_, ?_⟩
    · rw [if_pos own, kept]
      rfl
    · rw [OrderedMap.entries_insert_of_absent absent, entered]
  rw [columns, folded]
  refine congrArg Except.ok (List.map_congr_left fun i _ => ?_)
  have same : sums.get? i = e.terms.get? i := by rw [OrderedMap.get?, entries, OrderedMap.get?]
  rw [same, Expression.coefficient]
  cases found : e.terms.get? i with
  | none => rfl
  | some c =>
      have member := (OrderedMap.mem_entries_iff e.terms i c).mpr found
      exact (finite i c member).eq

/-- A constraint and its row admit the same points. -/
theorem rowOf_ok {c : Constraint ι Extended} (closed : c.expression.Over unknowns) :
    ∃ r, rowOf unknowns c = .ok r ∧
      ∀ x : ι → Rat, r.Admits (unknowns.keys.map x) ↔ c.HoldsAt x := by
  obtain ⟨e, relation, bound⟩ := c
  have computes := closed.finite.computes
  have moved := Extended.sub_finite bound e.constant.rational
  rw [← closed.finite.constant.eq] at moved
  -- The weight of a point is the expression without its constant, which the bound lost too.
  have reads : ∀ (lower upper : Extended) (x : ι → Rat),
      EncodedRow.Admits
          ⟨unknowns.keys.map fun i => .finite (e.coefficient i), lower, upper⟩
          (unknowns.keys.map x) ↔
        lower ≤ .finite (e.linearAt x) ∧ .finite (e.linearAt x) ≤ upper := by
    intro lower upper x
    have weight : weigh (unknowns.keys.map fun i => .finite (e.coefficient i))
        (unknowns.keys.map x) = .finite (e.linearAt x) := by
      rw [weigh_map, closed.linearAt_eq]
    constructor
    · rintro ⟨below, above⟩
      rw [weight] at below above
      exact ⟨below, above⟩
    · rintro ⟨below, above⟩
      exact ⟨weight ▸ below, weight ▸ above⟩
  cases relation with
  | atMost =>
      refine ⟨_, by rw [rowOf, columns_eq closed, moved]; rfl, fun x => ?_⟩
      rw [reads, Constraint.holdsAt_atMost computes, Expression.valueAt_eq,
        Extended.finite_le_sub_iff]
      exact and_iff_right Extended.bottom_le_finite
  | atLeast =>
      refine ⟨_, by rw [rowOf, columns_eq closed, moved]; rfl, fun x => ?_⟩
      rw [reads, Constraint.holdsAt_atLeast computes, Expression.valueAt_eq,
        Extended.sub_le_finite_iff]
      exact and_iff_left Extended.finite_le_top
  | equal =>
      refine ⟨_, by rw [rowOf, columns_eq closed, moved]; rfl, fun x => ?_⟩
      rw [reads, Constraint.holdsAt_equal computes, Expression.valueAt_eq,
        Extended.sub_le_finite_iff, Extended.finite_le_sub_iff]
      exact and_comm

end Encoding

namespace Sense

/-- The sign with which the objective enters the costs. -/
def sign : Sense → Rat
  | .minimize => 1
  | .maximize => -1

@[simp]
theorem sign_mul_self (sense : Sense) : sense.sign * sense.sign = 1 := by
  cases sense <;> norm_num [sign]

/-- A direction prefers the number that is the smaller one with its sign. -/
theorem prefers_finite_iff {sense : Sense} {q r : Rat} :
    sense.Prefers (.finite q) (.finite r) ↔ sense.sign * q ≤ sense.sign * r := by
  cases sense with
  | minimize =>
      rw [Prefers, Extended.finite_le_finite, sign, one_mul, one_mul]
  | maximize =>
      rw [Prefers, Extended.finite_le_finite, sign, neg_one_mul, neg_one_mul, neg_le_neg_iff]

end Sense

namespace Problem

/-- The coordinates of a point, column by column. -/
def columnsAt (p : Problem ι κ Extended) (x : ι → Rat) : List Rat := p.unknowns.keys.map x

/-- The value of every variable by key. -/
def entriesAt (p : Problem ι κ Extended) (x : ι → Rat) : List (κ × Extended) :=
  p.unknowns.entries.map fun e => (e.2.key, .finite (x e.1))

/-- A point is at least as good as another for the objective and its direction. -/
def AsGoodAs (p : Problem ι κ Extended) (x y : ι → Rat) : Prop :=
  ∃ here there, p.objective.evaluate (point x) = .ok here ∧
    p.objective.evaluate (point y) = .ok there ∧ p.sense.Prefers here there

/-- A program over exact numbers: the objective and the constraints have finite coefficients
and constants and speak of the program's own variables, whose keys tell them apart. The
bounds may be infinite. -/
structure WellFormed [BEq κ] (p : Problem ι κ Extended) : Prop where
  objective : p.objective.Over p.unknowns
  constraints : ∀ c ∈ p.constraints, c.expression.Over p.unknowns
  key_self : ∀ v ∈ p.unknowns.values, (v.key == v.key) = true
  keys_distinct : p.unknowns.values.Pairwise fun v w => (v.key == w.key) = false

instance [BEq κ] (p : Problem ι κ Extended) : Decidable p.WellFormed :=
  decidable_of_iff (p.objective.Over p.unknowns ∧
      (∀ c ∈ p.constraints, c.expression.Over p.unknowns) ∧
      (∀ v ∈ p.unknowns.values, (v.key == v.key) = true) ∧
      p.unknowns.values.Pairwise fun v w => (v.key == w.key) = false)
    ⟨fun ⟨objective, constraints, own, distinct⟩ => ⟨objective, constraints, own, distinct⟩,
      fun ⟨objective, constraints, own, distinct⟩ => ⟨objective, constraints, own, distinct⟩⟩

/-- A point is as good as another exactly if its linear part is. -/
theorem asGoodAs_iff {p : Problem ι κ Extended} (finite : p.objective.IsFinite) (x y : ι → Rat) :
    p.AsGoodAs x y ↔
      p.sense.sign * p.objective.linearAt x ≤ p.sense.sign * p.objective.linearAt y := by
  have evaluated := finite.computes.evaluate
  have compared : p.AsGoodAs x y ↔
      p.sense.Prefers (.finite (p.objective.valueAt x)) (.finite (p.objective.valueAt y)) := by
    constructor
    · rintro ⟨here, there, hereEq, thereEq, prefers⟩
      rw [evaluated] at hereEq thereEq
      cases hereEq
      cases thereEq
      exact prefers
    · intro prefers
      exact ⟨_, _, evaluated x, evaluated y, prefers⟩
  rw [compared, Sense.prefers_finite_iff, Expression.valueAt_eq, Expression.valueAt_eq, mul_add,
    mul_add, add_le_add_iff_left]

end Problem

/-- The arrays say what the program says, column by column in the order of the variables. -/
structure Encodes (e : Encoding Extended) (p : Problem ι κ Extended) : Prop where
  width : e.costs.length = p.unknowns.size
  costs : ∀ x, weigh e.costs (p.columnsAt x) =
    .finite (p.sense.sign * p.objective.linearAt x)
  integral : e.integral = p.unknowns.values.map (·.type == .integer)
  lower : e.lower = p.unknowns.values.map (·.lower)
  upper : e.upper = p.unknowns.values.map (·.upper)
  rows : List.Forall₂ (fun c r => ∀ x, r.Admits (p.columnsAt x) ↔ c.HoldsAt x)
    p.constraints e.rows

namespace Encodes

/-- Columns meet a relation exactly if every unknown does. -/
private theorem forall₂_columns {β : Type} {R : β → Rat → Prop}
    (m : OrderedMap ι (Variable κ Extended)) (f : Variable κ Extended → β) (x : ι → Rat) :
    List.Forall₂ R (m.values.map f) (m.keys.map x) ↔
      ∀ i v, (i, v) ∈ m.entries → R (f v) (x i) := by
  rw [OrderedMap.values, OrderedMap.keys, List.map_map, List.map_map, List.forall₂_map_left_iff,
    List.forall₂_map_right_iff, List.forall₂_same, Prod.forall]
  rfl

/-- All rows admit a point exactly if it meets all constraints. -/
private theorem forall_rows_iff {constraints : List (Constraint ι Extended)}
    {rows : List (EncodedRow Extended)} {x : ι → Rat} {columns : List Rat}
    (related : List.Forall₂ (fun c r => r.Admits columns ↔ c.HoldsAt x) constraints rows) :
    (∀ r ∈ rows, r.Admits columns) ↔ ∀ c ∈ constraints, c.HoldsAt x := by
  induction related with
  | nil => simp
  | cons agree _ ih => rw [List.forall_mem_cons, List.forall_mem_cons, agree, ih]

variable {e : Encoding Extended} {p : Problem ι κ Extended} (encodes : Encodes e p)

include encodes

/-- The arrays admit exactly the feasible points. -/
theorem admits_iff (x : ι → Rat) : e.Admits (p.columnsAt x) ↔ p.Feasible x := by
  have lower := forall₂_columns (R := fun bound q => bound ≤ .finite q) p.unknowns (·.lower) x
  have upper := forall₂_columns (R := fun bound q => .finite q ≤ bound) p.unknowns (·.upper) x
  have integral := forall₂_columns (R := fun asked (q : Rat) => asked = true → ∃ z : Int, q = z)
    p.unknowns (·.type == .integer) x
  have rows := forall_rows_iff (encodes.rows.imp fun c r agree => agree x)
  rw [← encodes.lower] at lower
  rw [← encodes.upper] at upper
  rw [← encodes.integral] at integral
  constructor
  · intro admits
    refine ⟨fun i v member => ⟨?_, ?_, ?_⟩, rows.mp admits.rows⟩
    · exact lower.mp admits.lower i v member
    · exact upper.mp admits.upper i v member
    · intro isInteger
      exact integral.mp admits.integral i v member (beq_iff_eq.mpr isInteger)
  · intro feasible
    have allowed := feasible.allowed
    refine ⟨lower.mpr ?_, upper.mpr ?_, integral.mpr ?_, rows.mpr feasible.satisfied⟩
    · exact fun i v member => (allowed i v member).lower
    · exact fun i v member => (allowed i v member).upper
    · exact fun i v member asked => (allowed i v member).integer (beq_iff_eq.mp asked)

/-- The costs order points as the objective and its direction do. -/
theorem costs_le_iff (finite : p.objective.IsFinite) (x y : ι → Rat) :
    weigh e.costs (p.columnsAt x) ≤ weigh e.costs (p.columnsAt y) ↔ p.AsGoodAs x y := by
  rw [encodes.costs, encodes.costs, Extended.finite_le_finite, Problem.asGoodAs_iff finite]

end Encodes

/-- Encoding succeeds, and the arrays say what the program says. -/
theorem Problem.WellFormed.encodes [LawfulBEq ι] [BEq κ] {p : Problem ι κ Extended}
    (wellFormed : p.WellFormed) : ∃ e, Encoding.ofProblem p = .ok e ∧ Encodes e p := by
  obtain ⟨rows, rowsEq, related⟩ := mapM_ok (f := Encoding.rowOf p.unknowns)
    fun c member => Encoding.rowOf_ok (wellFormed.constraints c member)
  have lower : (p.unknowns.values.mapM fun v => Arithmetic.asReal v.lower) =
      .ok (p.unknowns.values.map (·.lower)) :=
    mapM_eq_map fun v _ => Extended.asReal_eq v.lower
  have upper : (p.unknowns.values.mapM fun v => Arithmetic.asReal v.upper) =
      .ok (p.unknowns.values.map (·.upper)) :=
    mapM_eq_map fun v _ => Extended.asReal_eq v.upper
  let costs : List Extended :=
    p.unknowns.keys.map fun i => .finite (p.sense.sign * p.objective.coefficient i)
  have columns := Encoding.columns_eq wellFormed.objective
  have kept : p.sense = .minimize →
      costs = p.unknowns.keys.map fun i => .finite (p.objective.coefficient i) := by
    intro direction
    simp [costs, direction, Sense.sign]
  have negated : p.sense = .maximize →
      (p.unknowns.keys.map fun i => Extended.finite (p.objective.coefficient i)).mapM
        (Arithmetic.mul Arithmetic.minusOne) = .ok costs := by
    intro direction
    rw [mapM_eq_map (f := Arithmetic.mul Arithmetic.minusOne) fun c _ => rfl, List.map_map]
    simp only [costs, direction]
    rfl
  refine ⟨⟨costs, p.unknowns.values.map (·.type == .integer), p.unknowns.values.map (·.lower),
    p.unknowns.values.map (·.upper), rows⟩, ?_, ?_, fun x => ?_, rfl, rfl, rfl, related⟩
  · refine bind_eq_ok_iff.mpr ⟨_, columns, ?_⟩
    dsimp only
    split
    · rename_i direction
      exact bind_eq_ok_iff.mpr ⟨costs, congrArg Except.ok (kept direction).symm,
        bind_eq_ok_iff.mpr ⟨_, lower, bind_eq_ok_iff.mpr ⟨_, upper,
          bind_eq_ok_iff.mpr ⟨rows, rowsEq, rfl⟩⟩⟩⟩
    · rename_i direction
      exact bind_eq_ok_iff.mpr ⟨costs, negated direction,
        bind_eq_ok_iff.mpr ⟨_, lower, bind_eq_ok_iff.mpr ⟨_, upper,
          bind_eq_ok_iff.mpr ⟨rows, rowsEq, rfl⟩⟩⟩⟩
  · rw [List.length_map, OrderedMap.length_keys]
  · rw [Problem.columnsAt, weigh_map, wellFormed.objective.linearAt_eq, ← List.sum_map_mul_left]
    simp only [mul_assoc]

end ArcSelection
