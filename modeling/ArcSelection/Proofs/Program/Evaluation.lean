import ArcSelection.Proofs.ExactNumber
import ArcSelection.Proofs.Fallible
import ArcSelection.Proofs.OrderedMap
import ArcSelection.Program.Problem

/-!
# What an expression evaluates to

An expression with finite coefficients is a linear form, and `Expression.Computes`
says which one: `Computes.evaluate` evaluates it at a point, and `Computes.addTerm`
tells what adding a term does to the form. A constraint holds at a point when its
evaluated expression stands in the relation to its bound.
-/

namespace ArcSelection

open Decimal

variable {ι : Type} [BEq ι]

/-- The assignment of finite numbers that evaluation reads. -/
def point (x : ι → Rat) : ι → Except Fault Extended := fun i => .ok (.finite (x i))

namespace Expression

/-- Every coefficient and the constant are finite. -/
structure IsFinite (e : Expression ι Extended) : Prop where
  constant : e.constant.IsFinite
  terms : ∀ i c, (i, c) ∈ e.terms.entries → c.IsFinite

/-- The constant plus the sum of coefficients times variables. -/
def valueAt (e : Expression ι Extended) (x : ι → Rat) : Rat :=
  e.constant.rational + e.terms.sum fun i c => c.rational * x i

/-- The coefficient of a variable; zero if it has no term. -/
def coefficient (e : Expression ι Extended) (i : ι) : Rat :=
  ((e.terms.get? i).map Extended.rational).getD 0

/-- The expression is the linear form of finite coefficients. -/
structure Computes (e : Expression ι Extended) (form : (ι → Rat) → Rat) : Prop where
  finite : e.IsFinite
  valueAt_eq : ∀ x, e.valueAt x = form x

/-- A finite expression computes its value. -/
theorem IsFinite.computes {e : Expression ι Extended} (finite : e.IsFinite) :
    e.Computes e.valueAt :=
  ⟨finite, fun _ => rfl⟩

theorem Computes.zero : (zero : Expression ι Extended).Computes fun _ => 0 where
  finite := ⟨⟨0, rfl⟩, by simp [Expression.zero, OrderedMap.empty]⟩
  valueAt_eq x := by simp [valueAt, Expression.zero]

theorem Computes.congr {e : Expression ι Extended} {form form' : (ι → Rat) → Rat}
    (computes : e.Computes form) (same : ∀ x, form x = form' x) : e.Computes form' :=
  ⟨computes.finite, fun x => (computes.valueAt_eq x).trans (same x)⟩

omit [BEq ι] in
/-- The terms are added one by one. -/
private theorem foldTerms (x : ι → Rat) (terms : List (ι × Extended)) (start : Rat)
    (fin : ∀ i c, (i, c) ∈ terms → c.IsFinite) :
    terms.foldlM (fun acc t => do Arithmetic.add acc (← Arithmetic.mul t.2 (← point x t.1)))
        (Extended.finite start) =
      (.ok (.finite (start + (terms.map fun t => t.2.rational * x t.1).sum)) :
        Except Fault Extended) := by
  induction terms generalizing start with
  | nil => simp [pure, Except.pure]
  | cons term rest ih =>
      obtain ⟨i, c⟩ := term
      have head : c = .finite c.rational := (fin i c List.mem_cons_self).eq
      have tail := ih (start + c.rational * x i) fun j d member =>
        fin j d (List.mem_cons_of_mem _ member)
      rw [List.foldlM_cons, List.map_cons, List.sum_cons, ← add_assoc, ← tail, head]
      rfl

/-- Evaluation at finite numbers succeeds with the value of the linear form. -/
theorem Computes.evaluate {e : Expression ι Extended} {form : (ι → Rat) → Rat}
    (computes : e.Computes form) (x : ι → Rat) :
    e.evaluate (point x) = .ok (.finite (form x)) := by
  have folded := foldTerms x e.terms.entries 0 computes.finite.terms
  rw [Expression.evaluate, Extended.ofCount_eq, Nat.cast_zero, folded,
    computes.finite.constant.eq, zero_add, ← computes.valueAt_eq x]
  rfl

/-- Only the variables that have terms are read. -/
theorem evaluate_congr {e : Expression ι Extended} {values values' : ι → Except Fault Extended}
    (agree : ∀ i ∈ e.terms.keys, values i = values' i) :
    e.evaluate values = e.evaluate values' := by
  have folded : ∀ (terms : List (ι × Extended)) (start : Extended),
      (∀ t ∈ terms, values t.1 = values' t.1) →
      terms.foldlM (fun acc t => do Arithmetic.add acc (← Arithmetic.mul t.2 (← values t.1)))
          start =
        terms.foldlM (fun acc t => do Arithmetic.add acc (← Arithmetic.mul t.2 (← values' t.1)))
          start := by
    intro terms
    induction terms with
    | nil => intro start _; rfl
    | cons term rest ih =>
        intro start same
        rw [List.foldlM_cons, List.foldlM_cons, same term List.mem_cons_self]
        exact bind_congr fun next => ih next fun t member => same t (List.mem_cons_of_mem _ member)
  rw [evaluate, evaluate, folded _ _ fun t member => agree t.1 (List.mem_map_of_mem member)]

/-- Adding a term adds its share to the linear form. -/
theorem Computes.addTerm [LawfulBEq ι] {e : Expression ι Extended} {form : (ι → Rat) → Rat}
    (computes : e.Computes form) (i : ι) (c : Rat) :
    ∃ e', e.addTerm i (.finite c) = .ok e' ∧ e'.Computes fun x => form x + c * x i := by
  obtain ⟨old, oldEq, share⟩ : ∃ old : Rat,
      (e.terms.get? i).getD Arithmetic.origin = .finite old ∧
      ∀ x : ι → Rat,
        ((e.terms.get? i).map fun d => d.rational * x i).getD 0 = old * x i := by
    cases found : e.terms.get? i with
    | none => exact ⟨0, rfl, fun x => by simp⟩
    | some d =>
        have member := (OrderedMap.mem_entries_iff e.terms i d).mpr found
        exact ⟨d.rational, (computes.finite.terms i d member).eq, fun x => rfl⟩
  refine ⟨{ e with terms := e.terms.insert i (.finite (old + c)) }, ?_,
    ⟨computes.finite.constant, ?_⟩, ?_⟩
  · rw [Expression.addTerm, oldEq]
    rfl
  · intro j d member
    rw [OrderedMap.mem_entries_iff, OrderedMap.get?_insert] at member
    split at member
    · cases member
      exact ⟨_, rfl⟩
    · exact computes.finite.terms j d ((OrderedMap.mem_entries_iff e.terms j d).mpr member)
  · intro x
    simp only [← computes.valueAt_eq x, valueAt, OrderedMap.sum_insert, share,
      Extended.rational_finite]
    ring

end Expression

/-- The constraint is satisfied at a point: its expression evaluates to a number that
stands in the relation to the bound. -/
def Constraint.HoldsAt (c : Constraint ι Extended) (x : ι → Rat) : Prop :=
  ∃ value, c.expression.evaluate (point x) = .ok value ∧
    Constraint.admits c.relation value c.bound = .ok true

/-- A constraint from below holds if the form is not below the bound. -/
theorem Constraint.holdsAt_atLeast {e : Expression ι Extended} {form : (ι → Rat) → Rat}
    (computes : e.Computes form) (bound : Extended) (x : ι → Rat) :
    Constraint.HoldsAt ⟨e, .atLeast, bound⟩ x ↔ bound ≤ .finite (form x) := by
  simp [HoldsAt, computes.evaluate, Constraint.admits, Extended.atMost_eq_true_iff]

/-- A constraint from above holds if the form is not above the bound. -/
theorem Constraint.holdsAt_atMost {e : Expression ι Extended} {form : (ι → Rat) → Rat}
    (computes : e.Computes form) (bound : Extended) (x : ι → Rat) :
    Constraint.HoldsAt ⟨e, .atMost, bound⟩ x ↔ .finite (form x) ≤ bound := by
  simp [HoldsAt, computes.evaluate, Constraint.admits, Extended.atMost_eq_true_iff]

/-- An equation holds if the form has the value of the bound. -/
theorem Constraint.holdsAt_equal {e : Expression ι Extended} {form : (ι → Rat) → Rat}
    (computes : e.Computes form) (bound : Extended) (x : ι → Rat) :
    Constraint.HoldsAt ⟨e, .equal, bound⟩ x ↔
      .finite (form x) ≤ bound ∧ bound ≤ .finite (form x) := by
  obtain ⟨below, belowEq⟩ := Extended.atMost_ok (.finite (form x)) bound
  obtain ⟨above, aboveEq⟩ := Extended.atMost_ok bound (.finite (form x))
  have both : Constraint.admits .equal (.finite (form x)) bound = .ok (below && above) := by
    rw [admits, belowEq, aboveEq]
    rfl
  rw [← Extended.atMost_eq_true_iff, ← Extended.atMost_eq_true_iff, belowEq, aboveEq]
  simp [HoldsAt, computes.evaluate, both]

end ArcSelection
