import ArcSelection.Proofs.Program.Evaluation
import Mathlib.Algebra.BigOperators.Ring.List

/-!
# Constants and multiples of linear forms

What is done to an expression is done to the linear form it computes. A number is added to the
constant; multiplying rebuilds the table of terms, which keeps its variables because they are
distinct. The coefficient of a variable is read off the form.
-/

namespace ArcSelection

open Decimal

variable {ι : Type} [BEq ι]

namespace Expression

variable {e f : Expression ι Extended} {form form' : (ι → Rat) → Rat}

/-- A constant computes itself. -/
theorem Computes.ofConstant (c : Rat) :
    (ofConstant (.finite c) : Expression ι Extended).Computes fun _ => c where
  finite := ⟨⟨c, rfl⟩, by simp [Expression.ofConstant, OrderedMap.empty]⟩
  valueAt_eq x := by simp [valueAt, Expression.ofConstant]

/-- A variable computes its value. -/
theorem Computes.ofVariable [LawfulBEq ι] (i : ι) :
    (ofVariable i : Expression ι Extended).Computes fun x => x i where
  finite := by
    refine ⟨⟨0, rfl⟩, fun j c member => ?_⟩
    rw [Expression.ofVariable, OrderedMap.mem_entries_iff, OrderedMap.get?_insert] at member
    split at member
    · cases member
      exact ⟨1, rfl⟩
    · cases member
  valueAt_eq x := by simp [valueAt, Expression.ofVariable, OrderedMap.sum_insert]

/-- A number added to the constant is added to the form. -/
theorem Computes.addConstant (computes : e.Computes form) (d : Rat) :
    ∃ c, Arithmetic.add e.constant (.finite d) = .ok c ∧
      ({ e with constant := c } : Expression ι Extended).Computes fun x => form x + d := by
  refine ⟨.finite (e.constant.rational + d), ?_, ⟨⟨⟨_, rfl⟩, computes.finite.terms⟩, fun x => ?_⟩⟩
  · rw [computes.finite.constant.eq]
    rfl
  · rw [← computes.valueAt_eq x, valueAt, valueAt, Extended.rational_finite]
    ring

/-- Multiplying the terms changes every coefficient in place. -/
theorem scaleTerms_ok {terms : OrderedMap ι Extended}
    (fin : ∀ i c, (i, c) ∈ terms.entries → c.IsFinite) (factor : Rat) :
    scaleTerms terms (.finite factor) =
      .ok (terms.mapValues fun _ c => .finite (c.rational * factor)) := by
  have rebuilt : ∃ scaled, scaleTerms terms (.finite factor) = .ok scaled ∧ scaled.entries =
      terms.entries.map fun t => (t.1, Extended.finite (t.2.rational * factor)) := by
    refine Fallible.foldlM_ok (fun (done : List (ι × Extended)) (acc : OrderedMap ι Extended) =>
      acc.entries = done.map fun t => (t.1, Extended.finite (t.2.rational * factor))) rfl ?_
    rintro done ⟨i, c⟩ rest acc split written
    have absent : acc.contains i = false := by
      have apart := terms.distinct
      rw [split, List.pairwise_append] at apart
      rw [OrderedMap.contains, written, List.any_map, List.any_eq_false]
      intro t early
      have different := apart.2.2 t early (i, c) List.mem_cons_self
      simp [different]
    refine ⟨acc.insert i (.finite (c.rational * factor)), ?_, ?_⟩
    · rw [(fin i c (by simp [split])).eq]
      rfl
    · rw [OrderedMap.entries_insert_of_absent absent, written, List.map_append]
      rfl
  obtain ⟨scaled, folded, entries⟩ := rebuilt
  rw [folded]
  exact congrArg Except.ok (OrderedMap.ext_entries entries)

/-- A multiple of an expression computes the multiple of its form. -/
theorem Computes.scale (computes : e.Computes form) (factor : Rat) :
    ∃ scaled, e.scale (.finite factor) = .ok scaled ∧
      scaled.Computes fun x => form x * factor := by
  have constant : Arithmetic.mul e.constant (.finite factor) =
      .ok (.finite (e.constant.rational * factor)) := by
    rw [computes.finite.constant.eq]
    rfl
  refine ⟨⟨e.terms.mapValues fun _ c => .finite (c.rational * factor),
    .finite (e.constant.rational * factor)⟩, ?_, ⟨⟨⟨_, rfl⟩, fun i c member => ?_⟩, fun x => ?_⟩⟩
  · rw [Expression.scale, scaleTerms_ok computes.finite.terms]
    simp only [bind, Except.bind, constant]
    rfl
  · obtain ⟨t, _, eq⟩ := List.mem_map.mp member
    cases eq
    exact ⟨_, rfl⟩
  · rw [← computes.valueAt_eq x]
    simp only [valueAt, OrderedMap.sum, OrderedMap.mapValues, List.map_map, Function.comp_def,
      Extended.rational_finite, add_mul, ← List.sum_map_mul_right]
    refine congrArg _ (congrArg List.sum (List.map_congr_left fun t _ => ?_))
    ring

/-- The coefficient of a variable is what one unit of it adds to the form. -/
theorem Computes.coefficient_eq [LawfulBEq ι] [DecidableEq ι] (computes : e.Computes form)
    (i : ι) : e.coefficient i = form (fun j => if j = i then 1 else 0) - form fun _ => 0 := by
  have others : ∀ terms : List (ι × Extended), (∀ t ∈ terms, t.1 ≠ i) →
      (terms.map fun t => t.2.rational * if t.1 = i then 1 else 0).sum = 0 := by
    intro terms different
    refine List.sum_eq_zero fun share listed => ?_
    obtain ⟨t, member, rfl⟩ := List.mem_map.mp listed
    rw [if_neg (different t member), mul_zero]
  have share : e.terms.sum (fun j c => c.rational * if j = i then 1 else 0) = e.coefficient i := by
    rw [OrderedMap.sum, coefficient]
    cases found : e.terms.get? i with
    | none =>
        refine others _ fun t member same => ?_
        have listed := (OrderedMap.mem_entries_iff e.terms t.1 t.2).mp member
        rw [same, found] at listed
        cases listed
    | some c =>
        obtain ⟨before, after, split, notBefore, notAfter⟩ := OrderedMap.entries_of_get? found
        rw [split, List.map_append, List.map_cons, List.sum_append, List.sum_cons,
          others before notBefore, others after notAfter]
        simp
  have nothing : e.terms.sum (fun _ c => c.rational * 0) = 0 := by
    simp [OrderedMap.sum]
  rw [← computes.valueAt_eq, ← computes.valueAt_eq, valueAt, valueAt, share, nothing]
  ring

end Expression

end ArcSelection
