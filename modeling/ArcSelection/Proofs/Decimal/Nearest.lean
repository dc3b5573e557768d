import ArcSelection.Proofs.Decimal.IntegerValue

/-!
# Nearest numbers

A quotient is rounded to the nearest whole number, and an integer becomes the nearest double.
What nearest means is said by distances: the whole number leaves at most a half, and no double
leaves less than the one that was taken. Where two are equally near, the even one is taken, and a
double is even if its bits are.
-/

namespace ArcSelection.Decimal

/-! ### Whole numbers -/

/-- A whole number is nearest to `q`; of two that are equally near it is the even one. -/
structure IsNearest (q : Rat) (m : Int) : Prop where
  within : |q - m| ≤ 1 / 2
  even : |q - m| = 1 / 2 → Even m

/-- The nearest integer changes the sign with the number. -/
theorem IsNearest.neg {q : Rat} {m : Int} (nearest : IsNearest q m) : IsNearest (-q) (-m) := by
  have same : |-q - ((-m : Int) : Rat)| = |q - m| := by
    rw [Int.cast_neg, neg_sub_neg, abs_sub_comm]
  exact ⟨same.trans_le nearest.within, fun half => (nearest.even (same.symm.trans half)).neg⟩

/-- Every other whole number is at least a half away. -/
theorem IsNearest.half_le {q : Rat} {m k : Int} (nearest : IsNearest q m) (other : k ≠ m) :
    1 / 2 ≤ |q - k| := by
  have apart : (1 : Rat) ≤ |(k : Rat) - m| := by
    exact_mod_cast Int.one_le_abs (sub_ne_zero.mpr other)
  have around := abs_sub_le (k : Rat) q m
  rw [abs_sub_comm (k : Rat) q] at around
  linarith [nearest.within]

/-- No whole number is nearer. -/
theorem IsNearest.le {q : Rat} {m : Int} (nearest : IsNearest q m) (k : Int) :
    |q - m| ≤ |q - k| := by
  rcases eq_or_ne k m with rfl | other
  · exact le_rfl
  · exact nearest.within.trans (nearest.half_le other)

/-- Where another whole number is equally near, this one is even. -/
theorem IsNearest.even_of_tie {q : Rat} {m k : Int} (nearest : IsNearest q m) (other : k ≠ m)
    (tie : |q - m| = |q - k|) : Even m :=
  nearest.even (le_antisymm nearest.within (tie ▸ nearest.half_le other))

/-- Among the multiples of a unit the nearest whole number of units is the nearest. -/
theorem IsNearest.scaled {p unit : Rat} {m : Int} (nearest : IsNearest (p / unit) m)
    (positive : 0 < unit) (k : Int) :
    |p - m * unit| ≤ |p - k * unit| ∧ (k ≠ m → |p - m * unit| = |p - k * unit| → Even m) := by
  have distance (j : Int) : |p - j * unit| = |p / unit - j| * unit := by
    rw [← abs_of_pos positive, ← abs_mul, sub_mul, abs_of_pos positive,
      div_mul_cancel₀ _ positive.ne']
  rw [distance, distance]
  refine ⟨mul_le_mul_of_nonneg_right (nearest.le k) positive.le, fun other tie => ?_⟩
  exact nearest.even_of_tie other (mul_right_cancel₀ positive.ne' tie)

/-- A quotient is rounded to the nearest whole number. -/
theorem isNearest_roundHalfEven (num : Nat) {den : Nat} (positive : 0 < den) :
    IsNearest ((num : Rat) / den) (roundHalfEven num den) := by
  have unit : (0 : Rat) < den := Nat.cast_pos.mpr positive
  have value : (num : Rat) / den = (num / den : Nat) + ((num % den : Nat) : Rat) / den := by
    rw [div_eq_iff unit.ne', add_mul, div_mul_cancel₀ _ unit.ne', mul_comm]
    exact_mod_cast (Nat.div_add_mod num den).symm
  have small : ((num % den : Nat) : Rat) < den := Nat.cast_lt.mpr (Nat.mod_lt num positive)
  have nonneg : (0 : Rat) ≤ (num % den : Nat) := Nat.cast_nonneg _
  rw [value]
  simp only [roundHalfEven]
  generalize num / den = q
  generalize num % den = r at small nonneg ⊢
  split
  · -- The floor is taken: what is left over is the remainder.
    rename_i down
    have left : |(q : Rat) + r / den - (q : Nat)| = r / den := by
      rw [add_sub_cancel_left, abs_of_nonneg (by positivity)]
    simp only [Bool.or_eq_true, decide_eq_true_eq, Bool.and_eq_true, beq_iff_eq] at down
    have half : 2 * (r : Rat) ≤ den := by exact_mod_cast (by omega : 2 * r ≤ den)
    refine ⟨?_, fun tie => ?_⟩
    · rw [Int.cast_natCast, left, div_le_div_iff₀ unit two_pos]
      linarith
    · rw [Int.cast_natCast, left, div_eq_div_iff unit.ne' two_ne_zero] at tie
      have exactly : r * 2 = 1 * den := by exact_mod_cast tie
      exact (Int.even_coe_nat q).mpr (Nat.even_iff.mpr (by omega))
  · -- The successor is taken: what is left over is the rest of the divisor.
    rename_i up
    have left : |(q : Rat) + r / den - ((q + 1 : Nat) : Rat)| = (den - r) / den := by
      rw [Nat.cast_succ, add_sub_add_left_eq_sub, abs_sub_comm,
        abs_of_nonneg (sub_nonneg.mpr ((div_le_one unit).mpr small.le)), sub_div,
        div_self unit.ne']
    simp only [Bool.or_eq_true, decide_eq_true_eq, Bool.and_eq_true, beq_iff_eq] at up
    have half : (den : Rat) ≤ 2 * r := by exact_mod_cast (by omega : den ≤ 2 * r)
    refine ⟨?_, fun tie => ?_⟩
    · rw [Int.cast_natCast, left, div_le_div_iff₀ unit two_pos]
      linarith
    · rw [Int.cast_natCast, left, div_eq_div_iff unit.ne' two_ne_zero] at tie
      have exactly : 2 * r = den := by
        exact_mod_cast (by linarith : (2 * r : Rat) = den)
      exact (Int.even_coe_nat (q + 1)).mpr (Nat.even_iff.mpr (by omega))

/-! ### Doubles -/

/-- The value of a double, and no double has a value nearer to `p`; of two that are equally near
it is the one whose bits are even. -/
structure IsNearestDouble (p q : Rat) : Prop where
  nearest : ∀ y r, Extended.ofFloat y = .finite r → |p - q| ≤ |p - r|
  isDouble : ∃ x, Extended.ofFloat x = .finite q ∧
    ∀ y r, Extended.ofFloat y = .finite r → r ≠ q → |p - q| = |p - r| → Even x.toBits.toNat

/-- The value of a double is its own nearest double. -/
theorem isNearestDouble_self {x : Float} {q : Rat} (value : Extended.ofFloat x = .finite q) :
    IsNearestDouble q q := by
  have itself : |q - q| = 0 := by rw [sub_self, abs_zero]
  refine ⟨fun _ _ _ => itself.trans_le (abs_nonneg _), x, value, fun y r _ other tie => ?_⟩
  rw [itself] at tie
  exact absurd (sub_eq_zero.mp (abs_eq_zero.mp tie.symm)).symm other

/-- A number that is the value of a double is its only nearest double. -/
theorem IsNearestDouble.eq {p q : Rat} (nearest : IsNearestDouble p q)
    (isDouble : ∃ x, Extended.ofFloat x = .finite p) : q = p := by
  obtain ⟨x, value⟩ := isDouble
  have distance := nearest.nearest x p value
  rw [sub_self, abs_zero] at distance
  exact (sub_eq_zero.mp (abs_nonpos_iff.mp distance)).symm

/-- A mantissa has at most 53 bits. -/
theorem mantissa_lt {x : Float} {d : Dyadic} (decoded : decode x = .finite d) :
    d.mantissa < 2 ^ 53 := by
  have fraction : x.toBits.toNat % Nat.pow 2 52 < 2 ^ 52 := Nat.mod_lt _ (by decide)
  have power : Nat.pow 2 52 = 2 ^ 52 := rfl
  simp only [decode] at decoded
  split at decoded
  · split at decoded <;> cases decoded
  · split at decoded <;> cases decoded <;> simp only <;> omega

/-- A finite double is a whole number of at most 53 binary digits, scaled. -/
theorem exists_scaled_of_ofFloat {x : Float} {r : Rat} (value : Extended.ofFloat x = .finite r) :
    ∃ m e : Int, |(m : Rat)| < 2 ^ 53 ∧ r = m * 2 ^ e := by
  unfold Extended.ofFloat at value
  split at value
  · cases value
  · split at value <;> cases value
  · rename_i d decoded
    cases value
    have size : (d.mantissa : Rat) < 2 ^ 53 := by exact_mod_cast mantissa_lt decoded
    refine ⟨(if d.negative then -1 else 1) * d.mantissa, d.exponent, ?_, ?_⟩
    · split <;> simpa using size
    · rw [Dyadic.toRat_eq]
      split <;> push_cast <;> ring

/-- A natural number of at least 53 binary digits keeps the first 53, rounded. -/
theorem magnitude_nearestBits {n l : Nat} (atLeast : 2 ^ l ≤ n) (below : n < 2 ^ (l + 1))
    (large : 52 ≤ l) :
    magnitude (nearestBits n 1) = roundHalfEven n (2 ^ (l - 52)) * 2 ^ (l - 52) := by
  have bounds := nearestBits_between atLeast below
  rw [nearestBits_of_log2 atLeast below, Nat.sub_eq_zero_of_le large, Nat.pow_zero,
    Nat.mul_one] at bounds ⊢
  generalize roundHalfEven n (2 ^ (l - 52)) = units at bounds ⊢
  obtain ⟨k, rfl⟩ := Nat.exists_eq_add_of_le large
  rw [Nat.add_sub_cancel_left]
  rcases Nat.lt_or_eq_of_le (by omega : units ≤ 2 ^ 53) with fits | carried
  · have parts : ((52 + k + 1022) * 2 ^ 52 + units) / 2 ^ 52 = k + 1075 ∧
        2 ^ 52 + ((52 + k + 1022) * 2 ^ 52 + units) % 2 ^ 52 = units := by omega
    have scale : ((k + 1075 : Nat) - 1075 : Int) = (k : Nat) := by omega
    rw [magnitude, parts.1, parts.2, scale, zpow_natCast]
  · -- Rounding up to the next power of two moves the exponent on.
    have parts : ((52 + k + 1022) * 2 ^ 52 + units) / 2 ^ 52 = k + 1076 ∧
        2 ^ 52 + ((52 + k + 1022) * 2 ^ 52 + units) % 2 ^ 52 = 2 ^ 52 := by omega
    have scale : ((k + 1076 : Nat) - 1075 : Int) = (k + 1 : Nat) := by omega
    rw [magnitude, parts.1, parts.2, scale, zpow_natCast, carried]
    push_cast
    ring

/-- A scaled whole number of 53 binary digits is a multiple of a power of two, or has fewer than
53 digits before it. -/
theorem exists_multiple_or_lt {m e : Int} (size : |(m : Rat)| < 2 ^ 53) (k : Nat) :
    (∃ j : Int, (m : Rat) * 2 ^ e = j * 2 ^ (k + 1)) ∨
      (m : Rat) * 2 ^ e < ((2 ^ 52 : Int) : Rat) * 2 ^ (k + 1) := by
  rcases le_or_gt ((k : Int) + 1) e with coarse | fine
  · obtain ⟨i, rfl⟩ := Int.le.dest coarse
    refine .inl ⟨m * 2 ^ i, ?_⟩
    rw [zpow_add₀ two_ne_zero, zpow_natCast]
    push_cast
    rw [mul_assoc, mul_comm ((2 : Rat) ^ i)]
    norm_cast
  · right
    calc (m : Rat) * 2 ^ e < 2 ^ 53 * 2 ^ e :=
        mul_lt_mul_of_pos_right ((le_abs_self _).trans_lt size) (by positivity)
      _ ≤ 2 ^ 53 * 2 ^ (k : Int) :=
        mul_le_mul_of_nonneg_left (zpow_le_zpow_right₀ one_le_two (by omega)) (by positivity)
      _ = ((2 ^ 52 : Int) : Rat) * 2 ^ (k + 1) := by
        rw [zpow_natCast]
        push_cast
        ring

/-- No scaled whole number of 53 binary digits is nearer to a natural number than its double, and
where another one is equally near the bits of the double are even. -/
theorem magnitude_nearestBits_nearest {n : Nat} (positive : n ≠ 0) {m e : Int}
    (size : |(m : Rat)| < 2 ^ 53) :
    |(n : Rat) - magnitude (nearestBits n 1)| ≤ |(n : Rat) - m * 2 ^ e| ∧
      ((m : Rat) * 2 ^ e ≠ magnitude (nearestBits n 1) →
        |(n : Rat) - magnitude (nearestBits n 1)| = |(n : Rat) - m * 2 ^ e| →
          Even (nearestBits n 1)) := by
  rcases lt_or_ge n (2 ^ 53) with small | large
  · rw [magnitude_nearestBits_of_lt positive small, sub_self, abs_zero]
    refine ⟨abs_nonneg _, fun other tie => ?_⟩
    exact absurd (sub_eq_zero.mp (abs_eq_zero.mp tie.symm)).symm other
  have atLeast := Nat.log2_self_le positive
  have below : n < 2 ^ (n.log2 + 1) := Nat.lt_log2_self
  have digits : 52 < n.log2 := by
    have : 53 < n.log2 + 1 := (Nat.pow_lt_pow_iff_right Nat.one_lt_two).mp (large.trans_lt below)
    omega
  rw [magnitude_nearestBits atLeast below digits.le, nearestBits_of_log2 atLeast below]
  generalize n.log2 = l at atLeast digits
  obtain ⟨k, rfl⟩ := Nat.exists_eq_add_of_lt digits
  have shift : 52 + k + 1 - 52 = k + 1 := by omega
  have whole : 52 - (52 + k + 1) = 0 := by omega
  rw [shift, whole, Nat.pow_zero, Nat.mul_one]
  have rounded := isNearest_roundHalfEven n (Nat.two_pow_pos (k + 1))
  generalize roundHalfEven n (2 ^ (k + 1)) = units at rounded ⊢
  rw [Nat.cast_pow, Nat.cast_ofNat] at rounded
  have nearest := rounded.scaled (by positivity)
  rw [Int.cast_natCast] at nearest
  rcases exists_multiple_or_lt size k with ⟨j, multiple⟩ | under
  · rw [multiple]
    refine ⟨(nearest j).1, fun other tie => ?_⟩
    have differs : j ≠ units := fun same => other (by rw [same, Int.cast_natCast])
    have parity := Nat.even_iff.mp ((Int.even_coe_nat units).mp ((nearest j).2 differs tie))
    exact Nat.even_iff.mpr (by omega)
  · -- The power of two below the number is a multiple of the unit, and nearer.
    have reaches : ((2 ^ 52 : Int) : Rat) * 2 ^ (k + 1) ≤ n := by
      have : 2 ^ 52 * 2 ^ (k + 1) ≤ n := by rwa [← Nat.pow_add, ← Nat.add_assoc]
      exact_mod_cast this
    have nearer : |(n : Rat) - units * 2 ^ (k + 1)| < |(n : Rat) - m * 2 ^ e| := calc
      |(n : Rat) - units * 2 ^ (k + 1)| ≤ |(n : Rat) - ((2 ^ 52 : Int) : Rat) * 2 ^ (k + 1)| :=
        (nearest _).1
      _ = n - ((2 ^ 52 : Int) : Rat) * 2 ^ (k + 1) := abs_of_nonneg (sub_nonneg.mpr reaches)
      _ < n - m * 2 ^ e := sub_lt_sub_left under _
      _ ≤ |(n : Rat) - m * 2 ^ e| := le_abs_self _
    exact ⟨nearer.le, fun _ tie => absurd tie nearer.ne⟩

/-- The same for an integer, whose double has its sign. -/
theorem signed_magnitude_nearest {n : Int} (nonzero : n ≠ 0) {m e : Int}
    (size : |(m : Rat)| < 2 ^ 53) {q : Rat}
    (value : q = (if n < 0 then -1 else 1) * magnitude (nearestBits n.natAbs 1)) :
    |(n : Rat) - q| ≤ |(n : Rat) - m * 2 ^ e| ∧
      ((m : Rat) * 2 ^ e ≠ q → |(n : Rat) - q| = |(n : Rat) - m * 2 ^ e| →
        Even (nearestBits n.natAbs 1)) := by
  have positive : n.natAbs ≠ 0 := Int.natAbs_ne_zero.mpr nonzero
  rcases lt_or_ge n 0 with negative | nonneg
  · obtain ⟨near, even⟩ :=
      magnitude_nearestBits_nearest positive (m := -m) (e := e) (by simpa using size)
    have isNeg : (n : Rat) = -(n.natAbs : Nat) := by
      rw [← Int.cast_natCast, Int.ofNat_natAbs_of_nonpos negative.le, Int.cast_neg, neg_neg]
    have mirrored (y : Rat) : |-((n.natAbs : Nat) : Rat) - y| = |((n.natAbs : Nat) : Rat) - -y| := by
      rw [sub_neg_eq_add, ← neg_add', abs_neg]
    rw [if_pos negative, neg_one_mul] at value
    rw [Int.cast_neg, neg_mul] at near even
    rw [isNeg, value, mirrored, mirrored, neg_neg]
    exact ⟨near, fun other => even fun same => other (by rw [← same, neg_neg])⟩
  · have isPos : (n : Rat) = (n.natAbs : Nat) := by
      rw [← Int.cast_natCast, Int.natAbs_of_nonneg nonneg]
    rw [if_neg (not_lt.mpr nonneg), one_mul] at value
    rw [isPos, value]
    exact magnitude_nearestBits_nearest positive size

/-- An integer becomes the nearest double. -/
theorem isNearestDouble_ofInt? {n : Int} {x : Float} (found : ofInt? n = some x) :
    ∃ q : Rat, Extended.ofFloat x = .finite q ∧ IsNearestDouble n q := by
  rcases eq_or_ne n 0 with rfl | nonzero
  · obtain ⟨q, value, exact, _⟩ := ofFloat_ofInt? found
    have zero : q = ((0 : Int) : Rat) := exact (Nat.two_pow_pos 53)
    exact ⟨q, value, zero ▸ isNearestDouble_self value⟩
  have value := ofFloat_ofInt?_eq nonzero found
  refine ⟨_, value, fun y r isValue => ?_, x, value, fun y r isValue other tie => ?_⟩
  · obtain ⟨m, e, size, rfl⟩ := exists_scaled_of_ofFloat isValue
    exact (signed_magnitude_nearest nonzero size rfl).1
  · obtain ⟨m, e, size, rfl⟩ := exists_scaled_of_ofFloat isValue
    have even := Nat.even_iff.mp ((signed_magnitude_nearest nonzero size rfl).2 other tie)
    rw [toBits_ofInt? found]
    split <;> exact Nat.even_iff.mpr (by omega)

end ArcSelection.Decimal
