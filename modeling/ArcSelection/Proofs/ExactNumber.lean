import ArcSelection.Arithmetic
import Mathlib.Algebra.Order.Ring.Unbundled.Rat
import Mathlib.Order.Basic
import Mathlib.Tactic.Linarith

/-!
# Exact numbers as an ordered arithmetic

The comparison of exact numbers read as an order, the operations of `Arithmetic`
on finite ones, and the exact number a dynamic value stands for. Nan is comparable
with nothing, so a bound that is nan admits nothing.
-/

namespace ArcSelection

namespace Decimal.Extended

/-- At most, as the comparison decides it. -/
instance : LE Extended where
  le x y := x.compare? y = some .lt ∨ x.compare? y = some .eq

instance (x y : Extended) : Decidable (x ≤ y) :=
  inferInstanceAs (Decidable (x.compare? y = some .lt ∨ x.compare? y = some .eq))

/-- A number that is neither nan nor infinite. -/
def IsFinite (x : Extended) : Prop := ∃ q, x = .finite q

/-- The value of a finite number, and zero for the others. -/
def rational : Extended → Rat
  | .finite q => q
  | _ => 0

@[simp] theorem rational_finite (q : Rat) : (finite q).rational = q := rfl

/-- A finite number is its rational number. -/
theorem IsFinite.eq {x : Extended} (fin : x.IsFinite) : x = .finite x.rational := by
  obtain ⟨q, rfl⟩ := fin
  rfl

@[simp] theorem isFinite_finite (q : Rat) : (finite q).IsFinite := ⟨q, rfl⟩

@[simp] theorem finite_le_finite {p q : Rat} : finite p ≤ finite q ↔ p ≤ q := by
  change (some _ = _ ∨ some _ = _) ↔ _
  rcases lt_trichotomy p q with less | rfl | more
  · simp [less, less.le]
  · simp
  · simp [more, not_lt.mpr more.le]

@[simp] theorem bottom_le_finite {q : Rat} : bottom ≤ finite q := .inl rfl

@[simp] theorem finite_le_top {q : Rat} : finite q ≤ top := .inl rfl

@[simp] theorem not_top_le_finite {q : Rat} : ¬ top ≤ finite q := by
  rintro (less | same)
  · cases less
  · cases same

@[simp] theorem not_finite_le_bottom {q : Rat} : ¬ finite q ≤ bottom := by
  rintro (less | same)
  · cases less
  · cases same

/-- Numbers can always be compared. -/
theorem atMost_ok (x y : Extended) : ∃ holds, Arithmetic.atMost x y = .ok holds := ⟨_, rfl⟩

/-- The test `atMost` decides the order. -/
theorem atMost_eq_true_iff {x y : Extended} : Arithmetic.atMost x y = .ok true ↔ x ≤ y := by
  change Except.ok (x.compare? y == some .lt || x.compare? y == some .eq) = .ok true ↔
    (x.compare? y = some .lt ∨ x.compare? y = some .eq)
  simp

/-- Finite numbers are compared as rational numbers. -/
theorem atMost_finite (p q : Rat) :
    Arithmetic.atMost (finite p) (finite q) = .ok (decide (p ≤ q)) := by
  obtain ⟨holds, decided⟩ := atMost_ok (finite p) (finite q)
  rw [decided, Except.ok.injEq, Bool.eq_iff_iff, decide_eq_true_eq, ← finite_le_finite,
    ← atMost_eq_true_iff, decided, Except.ok.injEq]

@[simp] theorem add_finite (p q : Rat) :
    Arithmetic.add (finite p) (finite q) = .ok (finite (p + q)) := rfl

@[simp] theorem mul_finite (p q : Rat) :
    Arithmetic.mul (finite p) (finite q) = .ok (finite (p * q)) := rfl

@[simp] theorem less_finite (p q : Rat) :
    Arithmetic.less (finite p) (finite q) = .ok (decide (p < q)) := by
  change Except.ok (some _ == some _) = _
  by_cases less : p < q
  · simp [less]
  · by_cases more : q < p <;> simp [less, more]

@[simp] theorem less_finite_top (p : Rat) : Arithmetic.less (finite p) top = .ok true := rfl

@[simp] theorem origin_eq : (Arithmetic.origin : Extended) = finite 0 := rfl

@[simp] theorem unit_eq : (Arithmetic.unit : Extended) = finite 1 := rfl

@[simp] theorem ofCount_eq (n : Nat) : (Arithmetic.ofCount n : Extended) = finite n := rfl

@[simp] theorem minusOne_eq : (Arithmetic.minusOne : Extended) = finite (-1) := rfl

/-- Exact numbers are in the form of results already. -/
@[simp] theorem asReal_eq (x : Extended) : Arithmetic.asReal x = .ok x := by
  cases x with
  | nan => rfl
  | bottom => rfl
  | finite q => rw [Arithmetic.asReal, unit_eq, mul_finite, one_mul]
  | top => rfl

/-- Taking a finite number from one that may be infinite. -/
theorem sub_finite (x : Extended) (k : Rat) :
    Arithmetic.sub x (finite k) = .ok (x.add (finite (-k))) := by
  change Except.ok (x.add (finite (k * -1))) = _
  rw [mul_neg_one]

/-- A finite number moves from the greater side of a comparison to the smaller. -/
theorem finite_le_sub_iff {x : Extended} {k q : Rat} :
    finite q ≤ x.add (finite (-k)) ↔ finite (k + q) ≤ x := by
  cases x with
  | nan => exact Iff.rfl
  | bottom => exact iff_of_false not_finite_le_bottom not_finite_le_bottom
  | finite p =>
      change finite q ≤ finite (p + -k) ↔ _
      rw [finite_le_finite, finite_le_finite]
      constructor <;> intro less <;> linarith
  | top => exact iff_of_true finite_le_top finite_le_top

/-- A finite number moves from the smaller side of a comparison to the greater. -/
theorem sub_le_finite_iff {x : Extended} {k q : Rat} :
    x.add (finite (-k)) ≤ finite q ↔ x ≤ finite (k + q) := by
  cases x with
  | nan => exact Iff.rfl
  | bottom => exact iff_of_true bottom_le_finite bottom_le_finite
  | finite p =>
      change finite (p + -k) ≤ finite q ↔ _
      rw [finite_le_finite, finite_le_finite]
      constructor <;> intro less <;> linarith
  | top => exact iff_of_false not_top_le_finite not_top_le_finite

@[simp] theorem isFinite_iff (x : Extended) : Arithmetic.isFinite x = true ↔ x.IsFinite := by
  cases x <;> simp [Arithmetic.isFinite, IsFinite]

@[simp] theorem isZero_finite (q : Rat) : Arithmetic.isZero (finite q) = decide (q = 0) := by
  change decide (finite q = finite 0) = _
  simp

@[simp] theorem isNaN_iff (x : Extended) : Arithmetic.isNaN x = true ↔ x = .nan := by
  change (x == .nan) = true ↔ _
  simp

end Decimal.Extended

namespace Value

/-- The exact number a value stands for; nan for a value that is no number. -/
def exact (v : Value) : Decimal.Extended := v.number?.getD .nan

/-- A double is finite exactly if the number it stands for is. -/
theorem isFinite_float (x : Float) :
    Arithmetic.isFinite (Value.float x) = true ↔ (Value.float x).exact.IsFinite := by
  change _ ↔ (Decimal.Extended.ofFloat x).IsFinite
  rw [← Decimal.Extended.isFinite_iff]
  simp only [Arithmetic.isFinite, number?]
  cases Decimal.Extended.ofFloat x <;> simp

/-- A value that counts as finite stands for a finite number. -/
theorem isFinite_exact {v : Value} (finite : Arithmetic.isFinite v = true) : v.exact.IsFinite := by
  cases v with
  | float x => exact (isFinite_float x).mp finite
  | bool b => exact ⟨_, rfl⟩
  | int n => exact ⟨_, rfl⟩
  | _ => cases finite

/-- A numeric value has its exact number. -/
private theorem number?_of_numeric {v : Value} (numeric : v.isNumeric = true) :
    v.number? = some v.exact := by
  cases v <;> first | rfl | cases numeric

/-- Numeric values compare as their exact numbers. -/
private theorem compare?_of_numeric {v w : Value} (left : v.isNumeric = true)
    (right : w.isNumeric = true) : v.compare? w = v.exact.compare? w.exact := by
  rw [compare?, number?_of_numeric left, number?_of_numeric right]
  rfl

/-- Numeric values compare as the exact numbers they stand for. -/
theorem atMost_of_numeric {v w : Value} (left : v.isNumeric = true) (right : w.isNumeric = true) :
    Arithmetic.atMost v w = .ok (decide (v.exact ≤ w.exact)) := by
  change comparing (fun o => o != .gt) v w = _
  rw [comparing, left, right, compare?_of_numeric left right]
  have decided : v.exact ≤ w.exact ↔
      v.exact.compare? w.exact = some .lt ∨ v.exact.compare? w.exact = some .eq := Iff.rfl
  cases order : v.exact.compare? w.exact with
  | none => simp [decided, order]
  | some o => cases o <;> simp [decided, order]

/-- Numeric values are in the order of their exact numbers. -/
theorem less_of_numeric {v w : Value} (left : v.isNumeric = true) (right : w.isNumeric = true) :
    Arithmetic.less v w = Arithmetic.less v.exact w.exact := by
  change comparing (fun o => o == .lt) v w = .ok (v.exact.compare? w.exact == some .lt)
  rw [comparing, left, right, compare?_of_numeric left right]
  cases v.exact.compare? w.exact with
  | none => rfl
  | some o => cases o <;> rfl

/-- A numeric value is nan exactly if its exact number is. -/
theorem isNaN_of_numeric {v : Value} (numeric : v.isNumeric = true) :
    Arithmetic.isNaN v = Arithmetic.isNaN v.exact := by
  change (v.number? == some .nan) = (v.exact == .nan)
  rw [number?_of_numeric numeric]
  rfl

end Value

end ArcSelection
