import ArcSelection.Arithmetic
import Mathlib

/-!
# Integers as doubles

An integer has a nearest double if its size is below `roundsAway`, whatever its number of
digits; that double is finite and has the sign of the integer.  The bound is found by
placing `nearestBits` between the powers of two around its argument.
-/

namespace ArcSelection.Decimal

/-- The least natural number that is too large for a double: half a unit in the last place
beyond the greatest double. -/
def roundsAway : Nat := (2 ^ 54 - 1) * 2 ^ 970

/-- Rounding stays below an even number exactly if the half before it is not reached. -/
theorem roundHalfEven_lt_iff {num den k : Nat} (positive : 0 < den) (even : k % 2 = 0) :
    roundHalfEven num den < k ↔ 2 * num + den < 2 * (k * den) := by
  have parts := Nat.div_add_mod num den
  have small := Nat.mod_lt num positive
  simp only [roundHalfEven]
  generalize num / den = q at *
  generalize num % den = r at *
  rcases Nat.lt_trichotomy (q + 1) k with below | exactly | above
  · -- Even the successor of the floor is below.
    have room : (q + 2) * den ≤ k * den := Nat.mul_le_mul_right den below
    rw [Nat.add_mul] at room
    have : den * q = q * den := Nat.mul_comm ..
    refine iff_of_true ?_ (by omega)
    split <;> omega
  · subst exactly
    have : den * q = q * den := Nat.mul_comm ..
    rw [Nat.add_mul]
    split
    · rename_i down
      refine iff_of_true (Nat.lt_succ_self q) ?_
      simp only [Bool.or_eq_true, decide_eq_true_eq, Bool.and_eq_true, beq_iff_eq] at down
      omega
    · rename_i up
      refine iff_of_false (lt_irrefl _) ?_
      simp only [Bool.or_eq_true, decide_eq_true_eq, Bool.and_eq_true, beq_iff_eq] at up
      omega
  · have room : k * den ≤ q * den := Nat.mul_le_mul_right den (by omega)
    have : den * q = q * den := Nat.mul_comm ..
    refine iff_of_false ?_ (by omega)
    split <;> omega

/-- Rounding does not fall below a whole number that is reached. -/
theorem le_roundHalfEven_of_le {num den k : Nat} (positive : 0 < den) (reaches : k * den ≤ num) :
    k ≤ roundHalfEven num den := by
  have floor : k ≤ num / den := (Nat.le_div_iff_mul_le positive).mpr reaches
  rcases roundHalfEven_eq_or num den with eq | eq <;> omega

/-- Rounding does not pass a whole number that is not reached. -/
theorem roundHalfEven_le_of_lt {num den k : Nat} (positive : 0 < den) (below : num < k * den) :
    roundHalfEven num den ≤ k := by
  have floor : num / den < k := (Nat.div_lt_iff_lt_mul positive).mpr below
  rcases roundHalfEven_eq_or num den with eq | eq <;> omega

/-- Where a natural number of `l + 1` binary digits lies among the doubles. -/
theorem nearestBits_of_log2 {n l : Nat} (atLeast : 2 ^ l ≤ n) (below : n < 2 ^ (l + 1)) :
    nearestBits n 1 = (l + 1022) * 2 ^ 52 +
      roundHalfEven (n * 2 ^ (52 - l)) (2 ^ (l - 52)) := by
  have positive : n ≠ 0 := (Nat.pos_of_ne_zero (by positivity)).trans_le atLeast |>.ne'
  have digits : n.log2 = l := (Nat.log2_eq_iff positive).mpr ⟨atLeast, below⟩
  have notBelow : ¬ n < 2 ^ l := not_lt.mpr atLeast
  have step : max ((l : Int) - 52) (-1074) = l - 52 := by omega
  have down : ((l : Int) - 52).toNat = l - 52 := by omega
  have shift : ((l : Int) - 52 + 1074).toNat = l + 1022 := by omega
  have single : Nat.log2 1 = 0 := by decide
  simp [nearestBits, positive, digits, single, notBelow, step, down, shift]

/-- The doubles next to the powers of two around a natural number. -/
theorem nearestBits_between {n l : Nat} (atLeast : 2 ^ l ≤ n) (below : n < 2 ^ (l + 1)) :
    (l + 1023) * 2 ^ 52 ≤ nearestBits n 1 ∧ nearestBits n 1 ≤ (l + 1024) * 2 ^ 52 := by
  rw [nearestBits_of_log2 atLeast below]
  have lower : 2 ^ 52 * 2 ^ (l - 52) ≤ n * 2 ^ (52 - l) := calc
    2 ^ 52 * 2 ^ (l - 52) = 2 ^ (52 + (l - 52)) := (Nat.pow_add ..).symm
    _ = 2 ^ (l + (52 - l)) := congrArg (2 ^ ·) (by omega)
    _ = 2 ^ l * 2 ^ (52 - l) := Nat.pow_add ..
    _ ≤ n * 2 ^ (52 - l) := Nat.mul_le_mul_right _ atLeast
  have upper : n * 2 ^ (52 - l) < 2 ^ 53 * 2 ^ (l - 52) := calc
    n * 2 ^ (52 - l) < 2 ^ (l + 1) * 2 ^ (52 - l) :=
      Nat.mul_lt_mul_of_pos_right below (by positivity)
    _ = 2 ^ (l + 1 + (52 - l)) := (Nat.pow_add ..).symm
    _ = 2 ^ (53 + (l - 52)) := congrArg (2 ^ ·) (by omega)
    _ = 2 ^ 53 * 2 ^ (l - 52) := Nat.pow_add ..
  have atLeastUnits := le_roundHalfEven_of_le (by positivity) lower
  have atMostUnits := roundHalfEven_le_of_lt (by positivity) upper
  omega

/-- The natural numbers that have a double are those below the bound. -/
theorem nearestBits_lt_iff (n : Nat) : nearestBits n 1 < infinityBits ↔ n < roundsAway := by
  -- The exponent stays a variable, for the powers of two are not to be computed.
  obtain ⟨e, isLast⟩ : ∃ e, e = 970 := ⟨970, rfl⟩
  have bound : roundsAway = (2 ^ 54 - 1) * 2 ^ e := by rw [isLast]; rfl
  have unit : 0 < 2 ^ e := by positivity
  have top : infinityBits = 2047 * 2 ^ 52 := rfl
  rw [bound, top]
  rcases Nat.eq_zero_or_pos n with rfl | positive
  · exact iff_of_true (by decide) (Nat.mul_pos (by decide) unit)
  have atLeast := Nat.log2_self_le positive.ne'
  have below : n < 2 ^ (n.log2 + 1) := Nat.lt_log2_self
  generalize n.log2 = l at atLeast below
  obtain ⟨lower, upper⟩ := nearestBits_between atLeast below
  rcases Nat.lt_trichotomy l (53 + e) with less | exactly | more
  · have small : n < 2 ^ 53 * 2 ^ e :=
      Nat.pow_add 2 53 e ▸ below.trans_le (Nat.pow_le_pow_right Nat.two_pos less)
    exact iff_of_true (by omega) (by omega)
  · -- Between the last two powers of two the rounding decides.
    have rounds := @roundHalfEven_lt_iff n (2 ^ (e + 1)) (2 ^ 53) (by positivity) (by decide)
    have digits : l - 52 = e + 1 := by omega
    have whole : 52 - l = 0 := by omega
    have halves : 2 ^ (e + 1) = 2 ^ e * 2 := Nat.pow_succ ..
    rw [nearestBits_of_log2 atLeast below, digits, whole, Nat.pow_zero, Nat.mul_one]
    generalize roundHalfEven n (2 ^ (e + 1)) = rounded at rounds ⊢
    rw [halves] at rounds
    omega
  · have large : 2 ^ 54 * 2 ^ e ≤ n :=
      Nat.pow_add 2 54 e ▸ (Nat.pow_le_pow_right Nat.two_pos (by omega)).trans atLeast
    exact iff_of_false (by omega) (by omega)

section Bits

open Float.Model Float.Model.UnpackedFloat

/-- A double whose exponent field is neither the least nor the greatest is finite, and its
sign bit tells whether it is negative. -/
theorem isFinite_ofBits {w : UInt64} (normal : w.toNat / 2 ^ 52 % 2 ^ 11 ≠ 0)
    (finite : w.toNat / 2 ^ 52 % 2 ^ 11 ≠ 2047) :
    (Float.ofBits w).isFinite = true ∧ ((0.0 : Float) ≤ Float.ofBits w ↔ w.toNat < 2 ^ 63) := by
  have exponent : (@unpackExponent .binary64 w.toBitVec).toNat =
      w.toNat / 2 ^ 52 % 2 ^ 11 := by
    simp [unpackExponent, BitVec.extractLsb, Nat.shiftRight_eq_div_pow]
  have notLeast : @unpackExponent .binary64 w.toBitVec ≠ 0#_ := fun least => by
    rw [least] at exponent
    exact normal exponent.symm
  have notGreatest : @unpackExponent .binary64 w.toBitVec ≠ -1#_ := fun greatest => by
    rw [greatest] at exponent
    exact finite exponent.symm
  have bits : (Float.ofBits w).toModel.unpack =
      UnpackedFloat.unpack .binary64 w.toBitVec := by
    change UnpackedFloat.unpack .binary64 (pack .binary64 _) = _
    have notNaN : ¬ @isNaNBits .binary64 w.toBitVec = true := fun isNaN =>
      notGreatest (of_decide_eq_true isNaN).1
    rw [pack_unpack, if_neg notNaN]
  rw [UnpackedFloat.unpack, if_neg notGreatest, if_neg notLeast] at bits
  refine ⟨by rw [Float.isFinite, Float.Model.isFinite, bits]; rfl, ?_⟩
  have sign : (@unpackSign .binary64 w.toBitVec).toNat = w.toNat / 2 ^ 63 % 2 := by
    simp [unpackSign, BitVec.extractLsb, Nat.shiftRight_eq_div_pow]
  have small : w.toNat < 2 ^ 64 := w.toBitVec.isLt
  have compares : (0.0 : Float) ≤ Float.ofBits w ↔
      (UnpackedFloat.zero .positive).le (Float.ofBits w).toModel.unpack = true := by
    have origin : (0.0 : Float).toModel.unpack = .zero .positive := rfl
    change decide _ = true ↔ _
    rw [decide_eq_true_eq, ← origin]
    exact Iff.rfl
  rw [compares, bits]
  rcases BitVec.eq_zero_or_eq_one (@unpackSign .binary64 w.toBitVec) with plus | minus
  · rw [plus] at sign ⊢
    have : w.toNat / 2 ^ 63 % 2 = 0 := sign.symm
    exact iff_of_true rfl (by omega)
  · rw [minus] at sign ⊢
    have : w.toNat / 2 ^ 63 % 2 = 1 := sign.symm
    exact iff_of_false Bool.false_ne_true (by omega)

end Bits

/-- An integer has a double if its size is below the bound. -/
theorem ofInt?_isSome_iff (n : Int) : (ofInt? n).isSome ↔ n.natAbs < roundsAway := by
  rw [← nearestBits_lt_iff, ofInt?, nearest?]
  split <;> simp_all

/-- The double of an integer has the bits of its size below those of infinity, and its sign. -/
theorem bits_of_ofInt? {n : Int} {x : Float} (found : ofInt? n = some x) :
    nearestBits n.natAbs 1 < infinityBits ∧ x = Float.ofBits (UInt64.ofNat
      (if n < 0 then 2 ^ 63 + nearestBits n.natAbs 1 else nearestBits n.natAbs 1)) := by
  rw [ofInt?, nearest?] at found
  split at found
  case isFalse => cases found
  rename_i small
  refine ⟨small, (Option.some.inj found).symm.trans ?_⟩
  simp only [decide_eq_true_eq]
  rfl

/-- The double of an integer is finite and keeps its sign. -/
theorem ofInt?_eq_some {n : Int} {x : Float} (found : ofInt? n = some x) :
    x.isFinite = true ∧ ((0.0 : Float) ≤ x ↔ 0 ≤ n) := by
  obtain ⟨small, rfl⟩ := bits_of_ofInt? found
  rcases eq_or_ne n 0 with rfl | nonzero
  · exact ⟨rfl, iff_of_true rfl le_rfl⟩
  -- The exponent field of a nonzero integer is at least that of one.
  have large := (nearestBits_between (Nat.log2_self_le (Int.natAbs_ne_zero.mpr nonzero))
    Nat.lt_log2_self).1
  generalize nearestBits n.natAbs 1 = bits at small large
  have word : ∀ k < 2 ^ 64, (UInt64.ofNat k).toNat = k := fun k fits =>
    UInt64.toNat_ofNat_of_lt' fits
  have top : infinityBits = 2047 * 2 ^ 52 := rfl
  by_cases negative : n < 0
  · obtain ⟨isFinite, sign⟩ := @isFinite_ofBits (UInt64.ofNat (2 ^ 63 + bits))
      (by rw [word _ (by omega)]; omega) (by rw [word _ (by omega)]; omega)
    simp only [negative, if_true]
    refine ⟨isFinite, sign.trans (iff_of_false ?_ (by omega))⟩
    rw [word _ (by omega)]
    omega
  · obtain ⟨isFinite, sign⟩ := @isFinite_ofBits (UInt64.ofNat bits)
      (by rw [word _ (by omega)]; omega) (by rw [word _ (by omega)]; omega)
    simp only [negative, if_false]
    refine ⟨isFinite, sign.trans (iff_of_true ?_ (by omega))⟩
    rw [word _ (by omega)]
    omega

end ArcSelection.Decimal
