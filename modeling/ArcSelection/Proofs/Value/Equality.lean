import ArcSelection.Value.Basic
import Mathlib.Data.Rat.Lemmas
import Mathlib.Algebra.Order.Ring.Rat

/-!
# Equality of names

Values that can serve as names are equal in both directions or in none. Lists and maps,
which cannot, are left out: the entries of a map are looked for in the other map only.
-/

namespace ArcSelection

open ArcSelection.Decimal

/-- A number equals itself and no other; nan equals nothing. -/
theorem Decimal.Extended.compare?_eq_iff {x y : Extended} :
    x.compare? y = some .eq ↔ x = y ∧ x ≠ .nan := by
  cases x with
  | finite p =>
      cases y with
      | finite q =>
          rcases lt_trichotomy p q with less | rfl | more
          · simp [compare?, less, less.ne]
          · simp [compare?]
          · simp [compare?, more, more.not_gt, more.ne']
      | _ => simp [compare?]
  | _ => cases y <;> simp [compare?]

namespace Value

/-- Values compare as equal if they are the same number, which is not nan. -/
theorem compare?_eq_iff {a b : Value} :
    compare? a b = some .eq ↔ ∃ x, a.number? = some x ∧ b.number? = some x ∧ x ≠ .nan := by
  rw [compare?]
  cases a.number? with
  | none => simp
  | some x =>
      cases b.number? with
      | none => simp
      | some y =>
          simp only [Option.bind_eq_bind, Option.bind_some, Extended.compare?_eq_iff,
            Option.some.injEq, exists_eq_left']
          exact and_congr_left' eq_comm

/-- Values compare as equal in either order. -/
theorem compare?_eq_comm (a b : Value) :
    (compare? a b == some .eq) = (compare? b a == some .eq) := by
  rw [Bool.eq_iff_iff, beq_iff_eq, beq_iff_eq, compare?_eq_iff, compare?_eq_iff]
  exact exists_congr fun x => and_left_comm

/-- A tuple can serve as a name if all items can. -/
theorem isHashable_tuple {items : List Value} :
    (tuple items).isHashable = true ↔ ∀ item ∈ items, item.isHashable = true := by
  rw [isHashable]
  induction items with
  | nil => simp [areHashable]
  | cons item items ih => rw [areHashable, Bool.and_eq_true, ih, List.forall_mem_cons]

mutual

/-- Equality of values that can serve as names does not depend on the direction. -/
theorem same_comm (a b : Value) (left : a.isHashable = true) (right : b.isHashable = true) :
    same a b = same b a := by
  cases a with
  | tuple xs =>
      cases b with
      | tuple ys =>
          simp only [same]
          exact sameItems_comm xs ys (isHashable_tuple.mp left) (isHashable_tuple.mp right)
      | _ =>
          simp only [same]
          exact compare?_eq_comm _ _
  | list xs => simp [isHashable] at left
  | map entries => simp [isHashable] at left
  | _ =>
      cases b <;> simp only [same] <;> first | exact compare?_eq_comm _ _ | exact Bool.beq_comm
termination_by sizeOf a

/-- Lists of names are equal in either order. -/
theorem sameItems_comm (xs ys : List Value) (left : ∀ x ∈ xs, x.isHashable = true)
    (right : ∀ y ∈ ys, y.isHashable = true) : sameItems xs ys = sameItems ys xs := by
  cases xs with
  | nil => cases ys <;> rfl
  | cons x xs =>
      cases ys with
      | nil => rfl
      | cons y ys =>
          obtain ⟨headLeft, tailLeft⟩ := List.forall_mem_cons.mp left
          obtain ⟨headRight, tailRight⟩ := List.forall_mem_cons.mp right
          simp only [sameItems]
          rw [same_comm x y headLeft headRight, sameItems_comm xs ys tailLeft tailRight]
termination_by sizeOf xs

end

/-- Names are equal in either order. -/
theorem beq_comm_of_hashable {a b : Value} (left : a.isHashable = true)
    (right : b.isHashable = true) : (a == b) = (b == a) :=
  same_comm a b left right

end Value

end ArcSelection
