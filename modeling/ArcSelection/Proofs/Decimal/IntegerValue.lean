import ArcSelection.Proofs.Decimal.Integer

/-!
# What the double of an integer is worth

The double of an integer is the integer itself below `2 ^ 53`, and is no nearer to zero than
`2 ^ 53` from there on. So an integer and its double compare alike with every smaller count.
-/

namespace ArcSelection.Decimal

section Bits

open Float.Model Float.Model.UnpackedFloat

/-- The bits of a double that is not nan are those it was made of. -/
theorem toBits_ofBits {w : UInt64} (finite : w.toNat / 2 ^ 52 % 2 ^ 11 ≠ 2047) :
    (Float.ofBits w).toBits = w := by
  have exponent : (@unpackExponent .binary64 w.toBitVec).toNat =
      w.toNat / 2 ^ 52 % 2 ^ 11 := by
    simp [unpackExponent, BitVec.extractLsb, Nat.shiftRight_eq_div_pow]
  have notNaN : ¬ @isNaNBits .binary64 w.toBitVec = true := by
    intro isNaN
    rw [(of_decide_eq_true isNaN).1] at exponent
    exact finite exponent.symm
  refine UInt64.toBitVec_inj.mp ?_
  change UnpackedFloat.pack .binary64 (UnpackedFloat.unpack .binary64 w.toBitVec) = _
  rw [pack_unpack, if_neg notNaN]

end Bits

/-- A dyadic number is its sign times its mantissa and power of two. -/
theorem Dyadic.toRat_eq (d : Dyadic) :
    d.toRat = (if d.negative then -1 else 1) * (d.mantissa * (2 : Rat) ^ d.exponent) := by
  have magnitude : (d.numerator : Rat) / d.denominator = d.mantissa * (2 : Rat) ^ d.exponent := by
    rw [numerator, denominator, Nat.cast_mul]
    change (d.mantissa : Rat) * ((2 ^ d.exponent.toNat : Nat) : Rat) /
      ((2 ^ (-d.exponent).toNat : Nat) : Rat) = _
    rw [mul_div_assoc]
    push_cast
    rw [← zpow_natCast, ← zpow_natCast, ← zpow_sub₀ two_ne_zero]
    congr 2
    omega
  rw [toRat, Rat.mkRat_eq_div, ← magnitude]
  split
  · push_cast
    ring
  · push_cast
    ring

/-- The size of the double with the given bits, if it is neither too small nor too large. -/
def magnitude (bits : Nat) : Rat :=
  ((2 ^ 52 + bits % 2 ^ 52 : Nat) : Rat) * 2 ^ ((bits / 2 ^ 52 : Nat) - 1075 : Int)

/-- The number of bits is their magnitude with the sign. -/
theorem ofFloat_ofBits {bits : Nat} (normal : 2 ^ 52 ≤ bits) (finite : bits < infinityBits)
    (negative : Bool) :
    Extended.ofFloat
        (Float.ofBits (UInt64.ofNat (if negative then Nat.pow 2 63 + bits else bits))) =
      .finite ((if negative then -1 else 1) * magnitude bits) := by
  have top : infinityBits = 2047 * 2 ^ 52 := rfl
  obtain ⟨word, isWord⟩ : ∃ word, (if negative then Nat.pow 2 63 + bits else bits) = word :=
    ⟨_, rfl⟩
  have parts : word < 2 ^ 64 ∧ word % 2 ^ 52 = bits % 2 ^ 52 ∧
      word / 2 ^ 52 % 2048 = bits / 2 ^ 52 ∧ (2 ^ 63 ≤ word ↔ negative = true) := by
    have power : Nat.pow 2 63 = 2 ^ 63 := rfl
    rw [power] at isWord
    cases negative <;> simp at isWord <;> subst isWord <;> simp <;> omega
  obtain ⟨fits, fraction, exponent, sign⟩ := parts
  have isNat : (UInt64.ofNat word).toNat = word := UInt64.toNat_ofNat_of_lt' fits
  have small : word / 2 ^ 52 % 2048 ≠ 2047 := by omega
  have nonzero : word / 2 ^ 52 % 2048 ≠ 0 := by omega
  have decoded : decode (Float.ofBits (UInt64.ofNat word)) =
      .finite ⟨negative, 2 ^ 52 + bits % 2 ^ 52, (bits / 2 ^ 52 : Nat) - 1075⟩ := by
    have isNegative : decide (word ≥ Nat.pow 2 63) = negative := by
      rw [Bool.eq_iff_iff, decide_eq_true_eq]
      exact sign
    rw [decode, toBits_ofBits (by rw [isNat]; exact small), isNat]
    change (if word / 2 ^ 52 % 2048 = 2047 then _ else if word / 2 ^ 52 % 2048 = 0 then _ else
      Binary64.finite ⟨decide (word ≥ Nat.pow 2 63), 2 ^ 52 + word % 2 ^ 52,
        (word / 2 ^ 52 % 2048 : Nat) - 1075⟩) = _
    rw [if_neg small, if_neg nonzero, isNegative, fraction, exponent]
  rw [isWord, Extended.ofFloat, decoded]
  exact congrArg Extended.finite (Dyadic.toRat_eq _)

/-- A natural number of at most 53 binary digits is a double. -/
theorem magnitude_nearestBits_of_lt {n : Nat} (positive : n ≠ 0) (small : n < 2 ^ 53) :
    magnitude (nearestBits n 1) = n := by
  have atLeast := Nat.log2_self_le positive
  have below : n < 2 ^ (n.log2 + 1) := Nat.lt_log2_self
  generalize n.log2 = l at atLeast below
  have digits : l < 53 := (Nat.pow_lt_pow_iff_right Nat.one_lt_two).mp (atLeast.trans_lt small)
  -- The number is shifted to 53 digits, and nothing is rounded.
  have shifted : 2 ^ 52 ≤ n * 2 ^ (52 - l) ∧ n * 2 ^ (52 - l) < 2 ^ 53 := by
    have whole : 2 ^ l * 2 ^ (52 - l) = 2 ^ 52 := by
      rw [← Nat.pow_add]
      congr 1
      omega
    have above := Nat.mul_lt_mul_of_pos_right below (Nat.two_pow_pos (52 - l))
    have under := Nat.mul_le_mul_right (2 ^ (52 - l)) atLeast
    rw [Nat.pow_succ] at above
    constructor <;> nlinarith
  have rounds : roundHalfEven (n * 2 ^ (52 - l)) (2 ^ (l - 52)) = n * 2 ^ (52 - l) := by
    have single : 2 ^ (l - 52) = 1 := by
      rw [Nat.sub_eq_zero_of_le (Nat.le_of_lt_succ digits), Nat.pow_zero]
    rw [single]
    simp [roundHalfEven, Nat.mod_one]
  rw [nearestBits_of_log2 atLeast below, rounds, magnitude]
  generalize isShifted : n * 2 ^ (52 - l) = m at shifted
  have parts : ((l + 1022) * 2 ^ 52 + m) / 2 ^ 52 = l + 1023 ∧
      2 ^ 52 + ((l + 1022) * 2 ^ 52 + m) % 2 ^ 52 = m := by omega
  have scale : ((l + 1023 : Nat) - 1075 : Int) = -((52 - l : Nat) : Int) := by omega
  rw [parts.1, parts.2, ← isShifted, scale, zpow_neg, zpow_natCast]
  push_cast
  exact mul_inv_cancel_right₀ (by positivity) _

/-- A larger natural number has a double that is at least `2 ^ 53`. -/
theorem le_magnitude_nearestBits {n : Nat} (large : 2 ^ 53 ≤ n) :
    2 ^ 53 ≤ magnitude (nearestBits n 1) := by
  have positive : n ≠ 0 := (lt_of_lt_of_le (Nat.two_pow_pos 53) large).ne'
  have below : n < 2 ^ (n.log2 + 1) := Nat.lt_log2_self
  have digits : 53 < n.log2 + 1 :=
    (Nat.pow_lt_pow_iff_right Nat.one_lt_two).mp (large.trans_lt below)
  obtain ⟨lower, _⟩ := nearestBits_between (Nat.log2_self_le positive) below
  have scale : 1 ≤ ((nearestBits n 1 / 2 ^ 52 : Nat) - 1075 : Int) := by omega
  have units : (2 : Rat) ^ 52 ≤ ((2 ^ 52 + nearestBits n 1 % 2 ^ 52 : Nat) : Rat) := by
    exact_mod_cast Nat.le_add_right _ _
  calc (2 : Rat) ^ 53 = 2 ^ 52 * 2 ^ (1 : Int) := by norm_num
    _ ≤ magnitude (nearestBits n 1) := by
      rw [magnitude]
      exact mul_le_mul units (zpow_le_zpow_right₀ one_le_two scale) (by positivity)
        (by positivity)

/-- The bits of the double of an integer. -/
theorem toBits_ofInt? {n : Int} {x : Float} (found : ofInt? n = some x) :
    x.toBits.toNat =
      if n < 0 then 2 ^ 63 + nearestBits n.natAbs 1 else nearestBits n.natAbs 1 := by
  obtain ⟨finite, rfl⟩ := bits_of_ofInt? found
  have top : infinityBits = 2047 * 2 ^ 52 := rfl
  obtain ⟨word, isWord⟩ : ∃ word, (if n < 0 then 2 ^ 63 + nearestBits n.natAbs 1 else
    nearestBits n.natAbs 1) = word := ⟨_, rfl⟩
  have bounds : word < 2 ^ 64 ∧ word / 2 ^ 52 % 2 ^ 11 ≠ 2047 := by
    split at isWord <;> omega
  have isNat : (UInt64.ofNat word).toNat = word := UInt64.toNat_ofNat_of_lt' bounds.1
  rw [isWord, toBits_ofBits (isNat.symm ▸ bounds.2), isNat]

/-- The double for an integer is its sign times the nearest magnitude. -/
theorem ofFloat_ofInt?_eq {n : Int} {x : Float} (nonzero : n ≠ 0) (found : ofInt? n = some x) :
    Extended.ofFloat x =
      .finite ((if n < 0 then -1 else 1) * magnitude (nearestBits n.natAbs 1)) := by
  obtain ⟨finite, rfl⟩ := bits_of_ofInt? found
  have normal : 2 ^ 52 ≤ nearestBits n.natAbs 1 := by
    have positive : n.natAbs ≠ 0 := Int.natAbs_ne_zero.mpr nonzero
    refine le_trans ?_ (nearestBits_between (Nat.log2_self_le positive) Nat.lt_log2_self).1
    exact Nat.le_mul_of_pos_left _ (Nat.succ_pos _)
  have value := ofFloat_ofBits normal finite (decide (n < 0))
  simp only [decide_eq_true_eq] at value
  exact value

/-- The double of an integer is the integer below `2 ^ 53`, and no nearer to zero than `2 ^ 53`
from there on. -/
theorem ofFloat_ofInt? {n : Int} {x : Float} (found : ofInt? n = some x) :
    ∃ q : Rat, Extended.ofFloat x = .finite q ∧ (n.natAbs < 2 ^ 53 → q = n) ∧
      (2 ^ 53 ≤ n.natAbs → 0 ≤ n → 2 ^ 53 ≤ q) ∧ (2 ^ 53 ≤ n.natAbs → n < 0 → q ≤ -2 ^ 53) := by
  rcases eq_or_ne n 0 with rfl | nonzero
  · obtain rfl : Float.ofBits 0 = x := Option.some.inj found
    refine ⟨0, by decide +kernel, fun _ => Int.cast_zero.symm, fun large => ?_, fun _ below => ?_⟩
    · exact absurd large (Nat.not_le_of_gt (Nat.two_pow_pos 53))
    · exact absurd below (lt_irrefl 0)
  have exact := magnitude_nearestBits_of_lt (Int.natAbs_ne_zero.mpr nonzero)
  have large := le_magnitude_nearestBits (n := n.natAbs)
  refine ⟨_, ofFloat_ofInt?_eq nonzero found, ?_⟩
  generalize magnitude (nearestBits n.natAbs 1) = size at exact large
  by_cases negative : n < 0
  · have isNeg : ((n.natAbs : Nat) : Rat) = -(n : Rat) := by
      rw [← Int.cast_natCast, Int.ofNat_natAbs_of_nonpos negative.le, Int.cast_neg]
    simp only [negative, if_true, neg_one_mul]
    refine ⟨fun small => ?_, fun _ nonneg => ?_, fun beyond _ => ?_⟩
    · rw [exact small, isNeg, neg_neg]
    · exact absurd negative (not_lt.mpr nonneg)
    · exact neg_le_neg (large beyond)
  · have isPos : ((n.natAbs : Nat) : Rat) = (n : Rat) := by
      rw [← Int.cast_natCast, Int.natAbs_of_nonneg (not_lt.mp negative)]
    simp only [negative, if_false, one_mul]
    refine ⟨fun small => ?_, fun beyond _ => large beyond, fun _ below => below.elim⟩
    rw [exact small, isPos]

/-- An integer and its double compare alike with every count below `2 ^ 53`. -/
theorem compare_ofFloat_ofInt? {n : Int} {x : Float} (found : ofInt? n = some x) {d : Nat}
    (small : d < 2 ^ 53) :
    ∃ q : Rat, Extended.ofFloat x = .finite q ∧ (q ≤ d ↔ (n : Rat) ≤ d) ∧
      ((d : Rat) ≤ q ↔ (d : Rat) ≤ n) := by
  obtain ⟨q, value, exact, large, low⟩ := ofFloat_ofInt? found
  have count : (d : Rat) < 2 ^ 53 := by exact_mod_cast small
  refine ⟨q, value, ?_⟩
  rcases lt_or_ge n.natAbs (2 ^ 53) with fits | beyond
  · rw [exact fits]
    exact ⟨Iff.rfl, Iff.rfl⟩
  · have nonneg : (0 : Rat) ≤ d := Nat.cast_nonneg d
    have size : (2 : Rat) ^ 53 ≤ (n.natAbs : Nat) := by exact_mod_cast beyond
    rcases lt_or_ge n 0 with negative | positive
    · have value := low beyond negative
      rw [← Int.cast_natCast, Int.ofNat_natAbs_of_nonpos negative.le, Int.cast_neg] at size
      constructor <;> constructor <;> intro _ <;> linarith
    · have value := large beyond positive
      rw [← Int.cast_natCast, Int.natAbs_of_nonneg positive] at size
      constructor <;> constructor <;> intro _ <;> linarith

end ArcSelection.Decimal
