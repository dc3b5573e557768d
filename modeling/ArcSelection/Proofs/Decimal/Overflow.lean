import ArcSelection.Proofs.Decimal.IntegerValue
import ArcSelection.Proofs.ExactNumber

/-!
# When double arithmetic overflows

The sum or the product of two finite doubles is finite exactly if the exact sum or product
is below `roundsAway`, the bound from which integers have no double either. Rounding places
a number at the exponent of its leading digit, so a number below the bound gets an exponent
that a double can hold, and one from the bound on does not (`isFinite_round_iff`). Once a
running sum is an infinity or nan it stays one, so a sum of many doubles is finite exactly if
every partial sum is below the bound (`isFinite_runningSum_iff`). Which finite double the result
is, is left open.
-/

namespace ArcSelection.Decimal

open Float.Model Float.Model.UnpackedFloat

namespace Extended

/-- The exact number that an unpacked double stands for. -/
def ofUnpacked : UnpackedFloat → Extended
  | .notANumber => .nan
  | .infinity .negative => .bottom
  | .infinity .positive => .top
  | .zero _ => .finite 0
  | .finite s m e _ => .finite (s.apply m * 2 ^ e)

end Extended

section Fields

variable (b : BitVec Format.binary64.numBits)

/-- The exponent is in the eleven bits below the sign. -/
theorem toNat_unpackExponent :
    (@unpackExponent .binary64 b).toNat = b.toNat / 2 ^ 52 % 2048 := by
  simp [unpackExponent, BitVec.extractLsb, Nat.shiftRight_eq_div_pow]

/-- The mantissa is in the lowest bits. -/
theorem toNat_unpackMantissa : (@unpackMantissa .binary64 b).toNat = b.toNat % 2 ^ 52 := by
  simp [unpackMantissa, BitVec.extractLsb]

/-- The sign is the highest bit. -/
theorem toNat_unpackSign : (@unpackSign .binary64 b).toNat = b.toNat / 2 ^ 63 := by
  have small : b.toNat < 2 ^ 64 := b.isLt
  simp [unpackSign, BitVec.extractLsb, Nat.shiftRight_eq_div_pow]
  omega

/-- The sign is negative from the highest bit on. -/
theorem unpackSign_eq :
    Sign.ofBitVec (@unpackSign .binary64 b) =
      if decide (2 ^ 63 ≤ b.toNat) then .negative else .positive := by
  have small : b.toNat < 2 ^ 64 := b.isLt
  have isPositive : @unpackSign .binary64 b = 0#1 ↔ ¬ 2 ^ 63 ≤ b.toNat := by
    rw [← BitVec.toNat_inj, toNat_unpackSign, BitVec.toNat_ofNat]
    omega
  rw [Sign.ofBitVec]
  by_cases negative : 2 ^ 63 ≤ b.toNat
  · rw [if_neg (by rw [isPositive]; exact not_not.mpr negative), if_pos (decide_eq_true negative)]
  · rw [if_pos (isPositive.mpr negative), if_neg (by rw [decide_eq_true_eq]; exact negative)]

/-- The leading bit counts on top of the mantissa. -/
theorem toNat_one_append_mantissa :
    (1#1 ++ @unpackMantissa .binary64 b).toNat = 2 ^ 52 + b.toNat % 2 ^ 52 := by
  have small : b.toNat % 2 ^ 52 < 2 ^ 52 := Nat.mod_lt _ (by decide)
  rw [BitVec.toNat_append, toNat_unpackMantissa]
  exact (Nat.two_pow_add_eq_or_of_lt small 1).symm

end Fields

namespace Binary64

/-- A double by its sign, exponent and fraction fields. -/
def ofFields (negative : Bool) (exponent fraction : Nat) : Binary64 :=
  if exponent = 2047 then if fraction = 0 then .infinite negative else .nan
  else if exponent = 0 then .finite ⟨negative, fraction, -1074⟩
  else .finite ⟨negative, 2 ^ 52 + fraction, exponent - 1075⟩

/-- The exact number. -/
def number : Binary64 → Extended
  | .nan => .nan
  | .infinite negative => if negative then .bottom else .top
  | .finite d => .finite d.toRat

end Binary64

/-- The number of a double is told by the fields of its bits. -/
theorem ofFloat_eq_ofFields (x : Float) :
    Extended.ofFloat x = (Binary64.ofFields (2 ^ 63 ≤ x.toBits.toNat)
      (x.toBits.toNat / 2 ^ 52 % 2048) (x.toBits.toNat % 2 ^ 52)).number := rfl

/-- Bits are unpacked by their fields. -/
theorem ofUnpacked_unpack (b : BitVec Format.binary64.numBits) :
    Extended.ofUnpacked (UnpackedFloat.unpack .binary64 b) =
      (Binary64.ofFields (2 ^ 63 ≤ b.toNat) (b.toNat / 2 ^ 52 % 2048)
        (b.toNat % 2 ^ 52)).number := by
  have value : ∀ (negative : Bool) (m : Nat) (e : Int), Dyadic.toRat ⟨negative, m, e⟩ =
      ((if negative then Sign.negative else Sign.positive).apply m : Int) * (2 : Rat) ^ e := by
    intro negative m e
    rw [Dyadic.toRat_eq]
    cases negative <;> simp [Sign.apply]
  have greatest : ∀ e : BitVec 11, e = -1#_ ↔ e.toNat = 2047 := fun e => BitVec.toNat_inj.symm
  have least : ∀ e : BitVec 11, e = 0#_ ↔ e.toNat = 0 := fun e => BitVec.toNat_inj.symm
  have empty : ∀ m : BitVec 52, m = 0#_ ↔ m.toNat = 0 := fun m => BitVec.toNat_inj.symm
  rw [Binary64.ofFields, ← toNat_unpackExponent, ← toNat_unpackMantissa, UnpackedFloat.unpack,
    unpackSign_eq]
  split
  · rename_i isGreatest
    rw [if_pos ((greatest _).mp isGreatest)]
    split
    · rename_i isEmpty
      rw [if_pos ((empty _).mp isEmpty), Binary64.number]
      split <;> rfl
    · rename_i isFull
      rw [if_neg (mt (empty _).mpr isFull)]
      rfl
  · rename_i notGreatest
    rw [if_neg (mt (greatest _).mpr notGreatest)]
    split
    · rename_i isLeast
      rw [if_pos ((least _).mp isLeast), Binary64.number, value]
      split
      · rename_i isEmpty
        rw [(empty _).mp isEmpty, Extended.ofUnpacked]
        split <;> simp [Sign.apply]
      · rw [Extended.ofUnpacked, isLeast]
        rfl
    · rename_i notLeast
      rw [if_neg (mt (least _).mpr notLeast), Binary64.number, value, Extended.ofUnpacked,
        toNat_one_append_mantissa, toNat_unpackMantissa]
      rfl

/-- The exact number of a double is that of its unpacked form. -/
theorem ofFloat_eq_ofUnpacked (x : Float) :
    Extended.ofFloat x = Extended.ofUnpacked x.toModel.unpack := by
  rw [Float.Model.unpack, ofUnpacked_unpack, ofFloat_eq_ofFields]
  rfl

/-! ### Which results of rounding are finite -/

/-- Bits stand for a finite number unless the exponent is all ones. -/
theorem isFinite_unpack_iff (b : BitVec Format.binary64.numBits) :
    (Extended.ofUnpacked (UnpackedFloat.unpack .binary64 b)).IsFinite ↔
      @unpackExponent .binary64 b ≠ -1#_ := by
  have greatest : @unpackExponent .binary64 b = -1#_ ↔ b.toNat / 2 ^ 52 % 2048 = 2047 := by
    rw [← BitVec.toNat_inj, toNat_unpackExponent]
    exact Iff.rfl
  rw [ofUnpacked_unpack, Ne, greatest, Binary64.ofFields]
  split
  · rename_i isGreatest
    refine iff_of_false ?_ (not_not.mpr isGreatest)
    rintro ⟨q, value⟩
    split at value
    · rw [Binary64.number] at value
      split at value <;> cases value
    · cases value
  · rename_i notGreatest
    refine iff_of_true ?_ notGreatest
    split <;> exact ⟨_, rfl⟩

/-- The double that an unpacked one is packed to. -/
def packed (u : UnpackedFloat) : Float := .ofModel (.pack u)

/-- A packed number is finite unless it got the highest exponent. -/
theorem isFinite_packed_iff (u : UnpackedFloat) :
    (Extended.ofFloat (packed u)).IsFinite ↔
      @unpackExponent .binary64 (UnpackedFloat.pack .binary64 u) ≠ -1#_ := by
  rw [ofFloat_eq_ofUnpacked]
  exact isFinite_unpack_iff _

theorem not_isFinite_packed_infinity (s : Sign) :
    ¬ (Extended.ofFloat (packed (.infinity s))).IsFinite := by
  rw [isFinite_packed_iff, UnpackedFloat.pack, packedInfinity, unpackExponent_packComponents]
  exact not_not.mpr rfl

theorem not_isFinite_packed_notANumber : ¬ (Extended.ofFloat (packed .notANumber)).IsFinite := by
  rw [isFinite_packed_iff, UnpackedFloat.pack, packedNaN, unpackExponent_packComponents]
  exact not_not.mpr rfl

theorem isFinite_packed_zero (s : Sign) : (Extended.ofFloat (packed (.zero s))).IsFinite := by
  rw [isFinite_packed_iff, UnpackedFloat.pack, packedZero, unpackExponent_packComponents]
  decide

/-- Packing overflows from the exponent 972 on. -/
theorem isFinite_packed_finite_iff (s : Sign) {m : Nat} {e : Int} (pos : 0 < m) :
    (Extended.ofFloat (packed (.finite s m e pos))).IsFinite ↔ e ≤ 971 := by
  have bias : Format.binary64.exponentBias = 1023 := rfl
  rw [isFinite_packed_iff, UnpackedFloat.pack]
  dsimp only
  split
  · rename_i large
    rw [packedInfinity, unpackExponent_packComponents]
    rw [bias] at large
    exact iff_of_false (not_not.mpr rfl) (by omega)
  · rename_i small
    rw [bias] at small
    have inRange : e ≤ 971 := by omega
    split
    · rw [unpackExponent_packComponents, bias]
      refine iff_of_true (fun greatest => ?_) inRange
      have number := congrArg BitVec.toNat greatest
      rw [BitVec.toNat_ofNat] at number
      have isGreatest : (-1#11).toNat = 2047 := rfl
      rw [isGreatest] at number
      omega
    · rw [unpackExponent_packComponents]
      exact iff_of_true (by decide) inRange

/-! ### Rounding a significand -/

/-- After shifting, the bits that were dropped tell how they compare with one half. -/
theorem shiftRight_succ (m j : Nat) :
    (ExtendedMantissa.mk m false false) >>> (j + 1) =
      ⟨m / 2 ^ (j + 1), m / 2 ^ j % 2 != 0, m % 2 ^ j != 0⟩ := by
  induction j with
  | zero => simp [HShiftRight.hShiftRight, Nat.repeat, ExtendedMantissa.shiftRightOne, Nat.mod_one]
  | succ j ih =>
      change ExtendedMantissa.shiftRightOne (ExtendedMantissa.mk m false false >>> (j + 1)) = _
      have dropped : m % 2 ^ (j + 1) = m % 2 ^ j + 2 ^ j * (m / 2 ^ j % 2) := Nat.mod_pow_succ
      have unit : 0 < 2 ^ j := Nat.two_pow_pos j
      rw [ih, ExtendedMantissa.shiftRightOne, Nat.div_div_eq_div_mul, ← Nat.pow_succ, dropped]
      rcases Nat.mod_two_eq_zero_or_one (m / 2 ^ j) with even | odd
      · simp [even]
      · simp [odd]

/-- The rounded mantissa of shifted digits is the quotient, rounded half to even. -/
theorem roundedMantissa_shiftRight (m k : Nat) :
    ((ExtendedMantissa.mk m false false) >>> k).roundedMantissa = roundHalfEven m (2 ^ k) := by
  cases k with
  | zero =>
      change m = roundHalfEven m 1
      simp [roundHalfEven, Nat.mod_one]
  | succ j =>
      have dropped : m % 2 ^ (j + 1) = m % 2 ^ j + 2 ^ j * (m / 2 ^ j % 2) := Nat.mod_pow_succ
      have double : 2 ^ (j + 1) = 2 * 2 ^ j := by rw [Nat.pow_succ, Nat.mul_comm]
      have low : m % 2 ^ j < 2 ^ j := Nat.mod_lt _ (Nat.two_pow_pos j)
      rw [shiftRight_succ, roundHalfEven, dropped]
      generalize m / 2 ^ (j + 1) = q
      generalize m % 2 ^ j = rest at *
      rw [double]
      rcases Nat.mod_two_eq_zero_or_one (m / 2 ^ j) with even | odd
      · -- Less than one half was dropped.
        have below : 2 * rest < 2 * 2 ^ j := by omega
        rw [even]
        by_cases nothing : rest = 0
        · simp [nothing, ExtendedMantissa.roundedMantissa, ExtendedMantissa.accuracy,
            Accuracy.roundToNearestEven]
        · simp [bne_iff_ne.mpr nothing, below, ExtendedMantissa.roundedMantissa,
            ExtendedMantissa.accuracy, Accuracy.roundToNearestEven]
      · rw [odd, Nat.mul_one]
        by_cases nothing : rest = 0
        · -- Exactly one half was dropped.
          rcases Nat.mod_two_eq_zero_or_one q with isEven | isOdd
          · simp [nothing, isEven, ExtendedMantissa.roundedMantissa, ExtendedMantissa.accuracy,
              Accuracy.roundToNearestEven]
          · simp [nothing, isOdd, ExtendedMantissa.roundedMantissa, ExtendedMantissa.accuracy,
              Accuracy.roundToNearestEven]
        · have above : ¬ 2 * (rest + 2 ^ j) < 2 * 2 ^ j := by omega
          have notHalf : ¬ 2 * (rest + 2 ^ j) = 2 * 2 ^ j := by omega
          simp [bne_iff_ne.mpr nothing, above, notHalf, ExtendedMantissa.roundedMantissa,
            ExtendedMantissa.accuracy, Accuracy.roundToNearestEven]

/-- The exponent to which a significand is rounded. -/
def target (m : Nat) (e : Int) : Int := max (m.log2 + 1 + e - 53) (-1074)

/-- Exact digits are shifted to the target exponent. -/
theorem shiftToTargetExponent_eq (m : Nat) (e : Int) :
    shiftToTargetExponent .binary64 m e .exact =
      ((ExtendedMantissa.mk m false false) >>> (target m e - e).toNat,
        e + (target m e - e).toNat) := rfl

/-- The significand after rounding. -/
def rounded (m : Nat) (e : Int) : Nat := roundHalfEven m (2 ^ (target m e - e).toNat)

/-- Digits that are shifted to their target have at most as many bits as a mantissa. -/
theorem log2_lt_of_target {m : Nat} {e : Int} (fits : e ≤ target m e) :
    m.log2 + 1 ≤ 53 + (target m e - e).toNat := by
  rw [target] at *
  omega

/-- A rounded mantissa is at most the first with one more bit. -/
theorem rounded_le {m : Nat} {e : Int} (fits : e ≤ target m e) : rounded m e ≤ 2 ^ 53 := by
  apply roundHalfEven_le_of_lt (Nat.two_pow_pos _)
  rw [← Nat.pow_add]
  exact Nat.lt_log2_self.trans_le (Nat.pow_le_pow_right Nat.two_pos (log2_lt_of_target fits))

/-- Rounding yields a significand of at most 53 digits at the target exponent; one that is
rounded up to a power of two moves to the next exponent. -/
theorem roundWithAccuracy_eq (s : Sign) {m : Nat} {e : Int} (fits : e ≤ target m e) :
    (rounded m e = 0 ∧ roundWithAccuracy .binary64 s m e .exact = .zero s) ∨
      (0 < rounded m e ∧ rounded m e < 2 ^ 53 ∧
        ∃ pos, roundWithAccuracy .binary64 s m e .exact =
          .finite s (rounded m e) (target m e) pos) ∨
      (rounded m e = 2 ^ 53 ∧ ∃ m' pos, roundWithAccuracy .binary64 s m e .exact =
          .finite s m' (target m e + 1) pos) := by
  have least : -1074 ≤ target m e := le_max_right _ _
  have arrives : e + (target m e - e).toNat = target m e := by omega
  have value := roundedMantissa_shiftRight m (target m e - e).toNat
  have atMost := rounded_le fits
  rw [roundWithAccuracy, shiftToTargetExponent_eq]
  dsimp only
  rw [value, arrives, shiftToTargetExponent_eq, ← rounded]
  generalize rounded m e = r at atMost
  generalize target m e = t at least
  rcases Nat.lt_or_ge r (2 ^ 53) with small | large
  · have digits : r.log2 ≤ 52 := by
      rcases Nat.eq_zero_or_pos r with rfl | positive
      · decide
      · exact Nat.le_of_lt_succ ((Nat.log2_lt positive.ne').mpr small)
    have stays : (target r t - t).toNat = 0 := by
      rw [target]
      omega
    rw [stays]
    change (_ ∧ (if h : r = 0 then _ else _) = _) ∨
      (_ ∧ _ ∧ ∃ _, (if h : r = 0 then _ else _) = _) ∨ _
    rcases Nat.eq_zero_or_pos r with rfl | positive
    · exact Or.inl ⟨rfl, dif_pos rfl⟩
    · refine Or.inr (Or.inl ⟨positive, small, positive, ?_⟩)
      rw [dif_neg positive.ne']
      congr 1
      exact Int.add_zero t
  · obtain rfl : r = 2 ^ 53 := le_antisymm atMost large
    have moves : (target (2 ^ 53) t - t).toNat = 1 := by
      rw [target, Nat.log2_two_pow]
      omega
    rw [moves]
    exact Or.inr (Or.inr ⟨rfl, 2 ^ 52, by decide, rfl⟩)

theorem roundsAway_pos : (0 : Rat) < roundsAway := by
  rw [roundsAway]
  positivity

/-- The bound is all ones, with one half more in the last place. -/
theorem roundsAway_eq : (roundsAway : Rat) = (2 ^ 54 - 1) * 2 ^ (970 : Int) := by
  rw [roundsAway]
  generalize isLast : (970 : Nat) = n
  have isLast' : (970 : Int) = n := by omega
  rw [isLast', zpow_natCast]
  push_cast
  norm_num

/-- The bound lies in the highest binade. -/
theorem roundsAway_between :
    (2 : Rat) ^ (1023 : Int) ≤ roundsAway ∧ (roundsAway : Rat) < 2 ^ (1024 : Int) := by
  have split : ∀ n : Nat, (2 : Rat) ^ ((970 + n : Nat) : Int) = 2 ^ n * 2 ^ (970 : Int) := by
    intro n
    rw [zpow_natCast, pow_add, mul_comm]
    rfl
  have scale : (0 : Rat) < 2 ^ (970 : Int) := by positivity
  rw [roundsAway_eq, show (1023 : Int) = ((970 + 53 : Nat) : Int) by rfl,
    show (1024 : Int) = ((970 + 54 : Nat) : Int) by rfl, split, split]
  generalize (2 : Rat) ^ (970 : Int) = u at scale
  constructor <;> norm_num <;> linarith

/-- What is rounded is finite where the significand it gets fits at the target exponent. -/
theorem isFinite_round_iff_rounded (s : Sign) {m : Nat} {e : Int} (fits : e ≤ target m e) :
    (Extended.ofFloat (packed (roundWithAccuracy .binary64 s m e .exact))).IsFinite ↔
      rounded m e = 0 ∨ (rounded m e < 2 ^ 53 ∧ target m e ≤ 971) ∨
        rounded m e = 2 ^ 53 ∧ target m e ≤ 970 := by
  rcases roundWithAccuracy_eq s fits with ⟨isZero, result⟩ | ⟨nonzero, small, pos, result⟩ |
    ⟨full, m', pos, result⟩
  · rw [result]
    exact iff_of_true (isFinite_packed_zero s) (Or.inl isZero)
  · rw [result, isFinite_packed_finite_iff]
    omega
  · rw [result, isFinite_packed_finite_iff]
    omega

/-- A number whose target exponent is below the last one is below the bound. -/
theorem lt_roundsAway_of_target_lt {m : Nat} {e : Int} (fits : e ≤ target m e)
    (low : target m e < 971) : (m : Rat) * 2 ^ e < roundsAway := by
  have digits := log2_lt_of_target fits
  have above : (m : Rat) < 2 ^ (m.log2 + 1) := by exact_mod_cast Nat.lt_log2_self
  have unit : (0 : Rat) < 2 ^ e := by positivity
  calc (m : Rat) * 2 ^ e < 2 ^ (m.log2 + 1) * 2 ^ e := mul_lt_mul_of_pos_right above unit
    _ = 2 ^ (((m.log2 + 1 : Nat) : Int) + e) := by rw [zpow_add₀ two_ne_zero, zpow_natCast]
    _ ≤ 2 ^ (1023 : Int) := zpow_le_zpow_right₀ one_le_two (by omega)
    _ ≤ roundsAway := roundsAway_between.1

/-- At the last exponent the number is below the bound unless it is rounded up to the power
of two that no double reaches. -/
theorem rounded_lt_iff_of_target_eq {m : Nat} {e : Int} (fits : e ≤ target m e)
    (last : target m e = 971) : rounded m e < 2 ^ 53 ↔ (m : Rat) * 2 ^ e < roundsAway := by
  have arrives : e + (target m e - e).toNat = 971 := by omega
  have scale : (2 : Rat) ^ e * 2 ^ (target m e - e).toNat = 2 * 2 ^ (970 : Int) := by
    rw [← zpow_natCast, ← zpow_add₀ two_ne_zero, arrives]
    exact zpow_one_add₀ two_ne_zero 970
  have rounds := @roundHalfEven_lt_iff m (2 ^ (target m e - e).toNat) (2 ^ 53)
    (Nat.two_pow_pos _) (by decide)
  rw [rounded, rounds, roundsAway_eq]
  generalize (target m e - e).toNat = k at scale
  have power : (0 : Rat) < 2 ^ k := by positivity
  have u : (0 : Rat) < 2 ^ (970 : Int) := by positivity
  generalize (2 : Rat) ^ (970 : Int) = unit at *
  rw [← mul_lt_mul_iff_of_pos_right power, mul_assoc, scale]
  have cast : 2 * m + 2 ^ k < 2 * (2 ^ 53 * 2 ^ k) ↔
      (2 * m + 2 ^ k : Rat) < 2 * (2 ^ 53 * 2 ^ k) := by
    rw [← Nat.cast_lt (α := Rat)]
    push_cast
    rfl
  rw [cast]
  generalize (2 : Rat) ^ k = p at *
  have regroup : (m : Rat) * (2 * unit) < (2 ^ 54 - 1) * unit * p ↔
      2 * (m : Rat) < (2 ^ 54 - 1) * p := by
    rw [show (m : Rat) * (2 * unit) = 2 * m * unit by ring,
      show (2 ^ 54 - 1) * unit * p = (2 ^ 54 - 1) * p * unit by ring]
    exact mul_lt_mul_iff_of_pos_right u
  rw [regroup]
  norm_num
  constructor <;> intro less <;> linarith

/-- A number whose target exponent is beyond the last one has more binary digits than any
double, and keeps 53 of them when it is rounded. -/
theorem roundsAway_le_of_lt_target {m : Nat} {e : Int} (positive : 0 < m)
    (fits : e ≤ target m e) (high : 971 < target m e) :
    2 ^ 52 ≤ rounded m e ∧ (roundsAway : Rat) ≤ m * 2 ^ e := by
  have exponent : target m e = m.log2 + 1 + e - 53 := by
    rw [target] at high ⊢
    omega
  have below : (2 : Rat) ^ m.log2 ≤ m := by exact_mod_cast Nat.log2_self_le positive.ne'
  have unit : (0 : Rat) < 2 ^ e := by positivity
  constructor
  · apply le_roundHalfEven_of_le (Nat.two_pow_pos _)
    rw [← Nat.pow_add]
    exact (Nat.pow_le_pow_right Nat.two_pos (by omega)).trans (Nat.log2_self_le positive.ne')
  · calc (roundsAway : Rat) ≤ 2 ^ (1024 : Int) := roundsAway_between.2.le
      _ ≤ 2 ^ ((m.log2 : Int) + e) := zpow_le_zpow_right₀ one_le_two (by omega)
      _ = 2 ^ m.log2 * 2 ^ e := by rw [zpow_add₀ two_ne_zero, zpow_natCast]
      _ ≤ m * 2 ^ e := mul_le_mul_of_nonneg_right below unit.le

/-- Below the bound the exponent of the rounded number is in the range of doubles, and from
the bound on it is not. -/
theorem isFinite_round_iff (s : Sign) {m : Nat} {e : Int} (positive : 0 < m)
    (fits : e ≤ target m e) :
    (Extended.ofFloat (packed (roundWithAccuracy .binary64 s m e .exact))).IsFinite ↔
      (m : Rat) * 2 ^ e < roundsAway := by
  have atMost := rounded_le fits
  rw [isFinite_round_iff_rounded s fits]
  rcases lt_trichotomy (target m e) 971 with low | last | high
  · exact iff_of_true (by omega) (lt_roundsAway_of_target_lt fits low)
  · -- At the last exponent the rounding decides.
    rw [← rounded_lt_iff_of_target_eq fits last]
    omega
  · obtain ⟨normal, large⟩ := roundsAway_le_of_lt_target positive fits high
    exact iff_of_false (by omega) (not_lt.mpr large)

/-- A rounded magnitude is finite exactly if it lies below the bound. -/
theorem isFinite_shiftedRound_iff (s : Sign) {m : Nat} {e : Int} (positive : 0 < m) :
    (Extended.ofFloat (packed (UnpackedFloat.round .binary64 s m e))).IsFinite ↔
      (m : Rat) * 2 ^ e < roundsAway := by
  -- Shifting to the left keeps the number and brings the exponent down to the target.
  have shifted : ∀ k : Nat, k = (e - target m e).toNat →
      ((Extended.ofFloat (packed (roundWithAccuracy .binary64 s (m <<< k) (e - k)
        .exact))).IsFinite ↔ (m : Rat) * 2 ^ e < roundsAway) := by
    intro k amount
    have grown : (m <<< k).log2 = m.log2 + k := by
      rw [Nat.shiftLeft_eq, Nat.log2_eq_iff (by positivity), Nat.add_right_comm, Nat.pow_add,
        Nat.pow_add]
      exact ⟨Nat.mul_le_mul_right _ (Nat.log2_self_le positive.ne'),
        Nat.mul_lt_mul_of_pos_right Nat.lt_log2_self (Nat.two_pow_pos k)⟩
    have same : target (m <<< k) (e - k) = target m e := by
      rw [target, target, grown]
      congr 1
      omega
    have number : ((m <<< k : Nat) : Rat) * 2 ^ (e - k) = m * 2 ^ e := by
      rw [Nat.shiftLeft_eq, zpow_sub₀ two_ne_zero, zpow_natCast]
      push_cast
      field_simp
    rw [isFinite_round_iff s _ (by rw [same]; omega), number]
    rw [Nat.shiftLeft_eq]
    positivity
  exact shifted _ rfl

/-- A rounded number is finite exactly if its magnitude lies below the bound. -/
theorem isFinite_normalize_iff (n e : Int) (zeroSign : Sign) :
    (Extended.ofFloat (packed (normalize .binary64 n e zeroSign))).IsFinite ↔
      |(n : Rat) * 2 ^ e| < roundsAway := by
  have unit : (0 : Rat) < 2 ^ e := by positivity
  rw [UnpackedFloat.normalize, abs_mul, abs_of_pos unit]
  rcases lt_trichotomy n 0 with negative | rfl | positive
  · have size : (((-n).toNat : Nat) : Rat) = |(n : Rat)| := by
      rw [abs_of_neg (by exact_mod_cast negative), ← Int.cast_natCast,
        Int.toNat_of_nonneg (by omega), Int.cast_neg]
    rw [compare_lt_iff_lt.mpr negative, ← size]
    exact isFinite_shiftedRound_iff _ (by omega)
  · rw [compare_eq_iff_eq.mpr rfl, Int.cast_zero, abs_zero, zero_mul]
    exact iff_of_true (isFinite_packed_zero _) roundsAway_pos
  · have size : ((n.toNat : Nat) : Rat) = |(n : Rat)| := by
      rw [abs_of_pos (by exact_mod_cast positive), ← Int.cast_natCast,
        Int.toNat_of_nonneg positive.le]
    rw [compare_gt_iff_gt.mpr positive, ← size]
    exact isFinite_shiftedRound_iff _ (by omega)

/-- The significands and exponents of finite doubles. -/
structure Canonical (m : Nat) (e : Int) : Prop where
  digits : m < 2 ^ 53
  least : -1074 ≤ e
  greatest : e ≤ 971
  normal : 2 ^ 52 ≤ m ∨ e = -1074

/-- The digits that a finite double is unpacked to are canonical. -/
theorem canonical_unpack {b : BitVec Format.binary64.numBits} {s : Sign} {m : Nat} {e : Int}
    {pos : 0 < m} (unpacked : UnpackedFloat.unpack .binary64 b = .finite s m e pos) :
    Canonical m e := by
  have bias : Format.binary64.exponentBias = 1023 := rfl
  have digits : (Format.binary64.mantissaBitsWithoutImplicit : Int) = 52 := rfl
  have fraction : (@unpackMantissa .binary64 b).toNat < 2 ^ 52 := BitVec.isLt _
  have exponent : (@unpackExponent .binary64 b).toNat < 2 ^ 11 := BitVec.isLt _
  rw [UnpackedFloat.unpack] at unpacked
  split at unpacked
  · split at unpacked <;> cases unpacked
  rename_i notGreatest
  have range : (@unpackExponent .binary64 b).toNat ≠ 2047 := fun greatest =>
    notGreatest (BitVec.toNat_inj.mp greatest)
  split at unpacked
  · rename_i least
    split at unpacked
    · cases unpacked
    · cases unpacked
      rw [least, bias]
      exact ⟨by omega, by decide, by decide, Or.inr rfl⟩
  · rename_i notLeast
    have nonzero : (@unpackExponent .binary64 b).toNat ≠ 0 := fun zero =>
      notLeast (BitVec.toNat_inj.mp zero)
    cases unpacked
    rw [toNat_one_append_mantissa, ← toNat_unpackMantissa, bias, digits]
    generalize (@unpackExponent .binary64 b).toNat = field at *
    generalize (@unpackMantissa .binary64 b).toNat = rest at *
    exact ⟨by omega, by omega, by omega, Or.inl (Nat.le_add_right _ _)⟩

/-! ### Sums and products of doubles -/

section Operations

variable {x y : Float}

/-- A finite double is a zero or a significand with an exponent. -/
theorem unpack_of_isFinite (finite : (Extended.ofFloat x).IsFinite) :
    (∃ s, x.toModel.unpack = .zero s ∧ Extended.ofFloat x = .finite 0) ∨
      ∃ s m e pos, x.toModel.unpack = .finite s m e pos ∧
        Extended.ofFloat x = .finite (s.apply m * 2 ^ e) ∧ Canonical m e := by
  have canonical := @canonical_unpack x.toModel.toBits.toBitVec
  rw [ofFloat_eq_ofUnpacked] at finite ⊢
  cases unpacked : x.toModel.unpack with
  | notANumber =>
      rw [unpacked] at finite
      obtain ⟨q, value⟩ := finite
      cases value
  | infinity s =>
      rw [unpacked] at finite
      obtain ⟨q, value⟩ := finite
      cases s <;> cases value
  | zero s => exact Or.inl ⟨s, rfl, rfl⟩
  | finite s m e pos => exact Or.inr ⟨s, m, e, pos, rfl, rfl, canonical unpacked⟩

/-- Any other double is an infinity or nan. -/
theorem unpack_of_not_isFinite (notFinite : ¬ (Extended.ofFloat x).IsFinite) :
    (∃ s, x.toModel.unpack = .infinity s) ∨ x.toModel.unpack = .notANumber := by
  rw [ofFloat_eq_ofUnpacked] at notFinite
  cases unpacked : x.toModel.unpack with
  | notANumber => exact Or.inr rfl
  | infinity s => exact Or.inl ⟨s, rfl⟩
  | zero s =>
      rw [unpacked] at notFinite
      exact absurd ⟨0, rfl⟩ notFinite
  | finite s m e pos =>
      rw [unpacked] at notFinite
      exact absurd ⟨_, rfl⟩ notFinite

/-- A product of doubles is the product of what they are unpacked to, packed. -/
theorem mul_eq_packed :
    x * y = packed (UnpackedFloat.mul .binary64 x.toModel.unpack y.toModel.unpack) := rfl

/-- A sum of doubles is the sum of what they are unpacked to, packed. -/
theorem add_eq_packed :
    x + y = packed (UnpackedFloat.add .binary64 x.toModel.unpack y.toModel.unpack) := rfl

/-- A sign leaves the magnitude. -/
theorem abs_apply (s : Sign) (m : Nat) : |((s.apply m : Int) : Rat)| = m := by
  cases s <;> simp [Sign.apply]

/-- The product of two significands is rounded at its own exponent or at a greater one. -/
theorem Canonical.le_target_mul {m m' : Nat} {e e' : Int} (canonical : Canonical m e)
    (canonical' : Canonical m' e') (positive : 0 < m) (positive' : 0 < m') :
    e + e' ≤ target (m * m') (e + e') := by
  rw [target]
  by_cases bothLeast : e = -1074 ∧ e' = -1074
  · omega
  · have large : 2 ^ 52 ≤ m * m' := by
      by_cases least : e = -1074
      · have normal' : 2 ^ 52 ≤ m' := canonical'.normal.resolve_right fun least' =>
          bothLeast ⟨least, least'⟩
        exact normal'.trans (Nat.le_mul_of_pos_left m' positive)
      · exact (canonical.normal.resolve_right least).trans (Nat.le_mul_of_pos_right m positive')
    have : 52 ≤ (m * m').log2 := (Nat.le_log2 (Nat.mul_pos positive positive').ne').mpr large
    omega

/-- The product of two finite doubles is finite exactly if the exact product is below the
bound. -/
theorem isFinite_mul_iff (finiteX : (Extended.ofFloat x).IsFinite)
    (finiteY : (Extended.ofFloat y).IsFinite) :
    (Extended.ofFloat (x * y)).IsFinite ↔
      |(Extended.ofFloat x).rational * (Extended.ofFloat y).rational| < roundsAway := by
  rw [mul_eq_packed]
  rcases unpack_of_isFinite finiteX with ⟨s, unpackX, valueX⟩ |
    ⟨s, m, e, posX, unpackX, valueX, canonicalX⟩
  · rw [valueX, Extended.rational_finite, zero_mul, abs_zero, unpackX]
    refine iff_of_true ?_ roundsAway_pos
    rcases unpack_of_isFinite finiteY with ⟨s', unpackY, _⟩ | ⟨s', _, _, _, unpackY, _⟩
    · rw [unpackY]
      exact isFinite_packed_zero _
    · rw [unpackY]
      exact isFinite_packed_zero _
  rcases unpack_of_isFinite finiteY with ⟨s', unpackY, valueY⟩ |
    ⟨s', m', e', posY, unpackY, valueY, canonicalY⟩
  · rw [valueY, Extended.rational_finite, mul_zero, abs_zero, unpackX, unpackY]
    exact iff_of_true (isFinite_packed_zero _) roundsAway_pos
  have size : |(s.apply m * 2 ^ e : Rat) * (s'.apply m' * 2 ^ e')| =
      ((m * m' : Nat) : Rat) * 2 ^ (e + e') := by
    have unit : ∀ n : Int, |(2 : Rat) ^ n| = 2 ^ n := fun n => abs_of_pos (by positivity)
    rw [abs_mul, abs_mul, abs_mul, abs_apply, abs_apply, unit, unit, zpow_add₀ two_ne_zero]
    push_cast
    ring
  rw [valueX, valueY, Extended.rational_finite, Extended.rational_finite, size, unpackX, unpackY]
  exact isFinite_round_iff (s * s') (Nat.mul_pos posX posY)
    (canonicalX.le_target_mul canonicalY posX posY)

/-- Every finite double is below the bound. -/
theorem abs_rational_lt (finite : (Extended.ofFloat x).IsFinite) :
    |(Extended.ofFloat x).rational| < roundsAway := by
  rcases unpack_of_isFinite finite with ⟨_, _, value⟩ | ⟨s, m, e, _, _, value, canonical⟩
  · rw [value, Extended.rational_finite, abs_zero]
    exact roundsAway_pos
  have unit : (0 : Rat) < 2 ^ e := by positivity
  have scale : (0 : Rat) < 2 ^ (970 : Int) := by positivity
  have digits : (m : Rat) < 2 ^ 53 - 1 / 2 := by
    have : m + 1 ≤ 2 ^ 53 := canonical.digits
    have : (m : Rat) + 1 ≤ 2 ^ 53 := by exact_mod_cast this
    linarith
  rw [value, Extended.rational_finite, abs_mul, abs_apply, abs_of_pos unit]
  calc (m : Rat) * 2 ^ e < (2 ^ 53 - 1 / 2) * 2 ^ e := mul_lt_mul_of_pos_right digits unit
    _ ≤ (2 ^ 53 - 1 / 2) * 2 ^ (971 : Int) :=
      mul_le_mul_of_nonneg_left (zpow_le_zpow_right₀ one_le_two canonical.greatest) (by norm_num)
    _ = roundsAway := by
      have double : (2 : Rat) ^ (971 : Int) = 2 * 2 ^ (970 : Int) :=
        zpow_one_add₀ two_ne_zero 970
      rw [roundsAway_eq, double]
      ring

/-- A double is unpacked and packed to itself. -/
theorem packed_unpack (x : Float) : packed x.toModel.unpack = x := by
  refine Float.toBits_inj.mp (UInt64.toBitVec_inj.mp ?_)
  exact pack_unpack_of_valid x.toModel.valid

/-- A significand that is shifted to a lesser exponent keeps its number. -/
theorem apply_shiftLeft_mul (s : Sign) (m : Nat) {e least : Int} (below : least ≤ e) :
    ((s.apply (m <<< (e - least).toNat : Nat) : Int) : Rat) * 2 ^ least = s.apply m * 2 ^ e := by
  have power : (2 : Rat) ^ e = 2 ^ (e - least).toNat * 2 ^ least := by
    rw [← zpow_natCast, ← zpow_add₀ two_ne_zero]
    congr 1
    omega
  rw [power, Nat.shiftLeft_eq]
  cases s
  · simp only [Sign.apply]
    push_cast
    ring
  · simp only [Sign.apply]
    push_cast
    ring

/-- The sum of two finite doubles is finite exactly if the exact sum is below the bound. -/
theorem isFinite_add_iff (finiteX : (Extended.ofFloat x).IsFinite)
    (finiteY : (Extended.ofFloat y).IsFinite) :
    (Extended.ofFloat (x + y)).IsFinite ↔
      |(Extended.ofFloat x).rational + (Extended.ofFloat y).rational| < roundsAway := by
  rw [add_eq_packed]
  rcases unpack_of_isFinite finiteX with ⟨s, unpackX, valueX⟩ |
    ⟨s, m, e, posX, unpackX, valueX, canonicalX⟩
  · rw [valueX, Extended.rational_finite, zero_add, unpackX]
    refine iff_of_true ?_ (abs_rational_lt finiteY)
    rcases unpack_of_isFinite finiteY with ⟨s', unpackY, _⟩ | ⟨s', _, _, _, unpackY, _⟩
    · rw [unpackY, UnpackedFloat.add]
      split
      · exact isFinite_packed_zero _
      · exact isFinite_packed_zero _
    · rw [unpackY, UnpackedFloat.add, ← unpackY, packed_unpack]
      exact finiteY
      all_goals exact nofun
  rcases unpack_of_isFinite finiteY with ⟨s', unpackY, valueY⟩ |
    ⟨s', m', e', posY, unpackY, valueY, canonicalY⟩
  · rw [valueY, Extended.rational_finite, add_zero, unpackX, unpackY, UnpackedFloat.add, ← unpackX,
      packed_unpack]
    exact iff_of_true finiteX (abs_rational_lt finiteX)
    all_goals exact nofun
  -- Both significands are shifted to the lesser exponent.
  have sum : (((s.apply (m <<< (e - min e e').toNat : Nat) +
      s'.apply (m' <<< (e' - min e e').toNat : Nat) : Int)) : Rat) * 2 ^ min e e' =
        s.apply m * 2 ^ e + s'.apply m' * 2 ^ e' := by
    rw [Int.cast_add, add_mul, apply_shiftLeft_mul s m (min_le_left e e'),
      apply_shiftLeft_mul s' m' (min_le_right e e')]
  rw [valueX, valueY, Extended.rational_finite, Extended.rational_finite, ← sum, unpackX, unpackY]
  exact isFinite_normalize_iff _ _ _

/-- Zeros add up to a zero. -/
theorem ofFloat_add_zero (zeroX : Extended.ofFloat x = .finite 0)
    (zeroY : Extended.ofFloat y = .finite 0) : Extended.ofFloat (x + y) = .finite 0 := by
  have isZero : ∀ {z : Float}, Extended.ofFloat z = .finite 0 →
      ∃ s, z.toModel.unpack = .zero s := by
    intro z zero
    rcases unpack_of_isFinite ⟨0, zero⟩ with ⟨s, unpacked, _⟩ | ⟨s, m, e, pos, _, value, _⟩
    · exact ⟨s, unpacked⟩
    · have size : |(s.apply m : Int) * (2 : Rat) ^ e| = 0 := by
        rw [Extended.finite.inj (value.symm.trans zero), abs_zero]
      have unit : (0 : Rat) < 2 ^ e := by positivity
      rw [abs_mul, abs_apply, abs_of_pos unit] at size
      have positive : (0 : Rat) < m := by exact_mod_cast pos
      exact absurd size (mul_pos positive unit).ne'
  obtain ⟨s, unpackX⟩ := isZero zeroX
  obtain ⟨s', unpackY⟩ := isZero zeroY
  rw [add_eq_packed, unpackX, unpackY]
  cases s <;> cases s' <;> decide +kernel

/-- What is added to an infinity or nan is an infinity or nan. -/
theorem not_isFinite_add_left (notFinite : ¬ (Extended.ofFloat x).IsFinite) :
    ¬ (Extended.ofFloat (x + y)).IsFinite := by
  rw [add_eq_packed]
  rcases unpack_of_not_isFinite notFinite with ⟨s, unpackX⟩ | unpackX
  · rw [unpackX]
    cases y.toModel.unpack with
    | notANumber => exact not_isFinite_packed_notANumber
    | infinity s' =>
        rw [UnpackedFloat.add]
        split
        · exact not_isFinite_packed_infinity s
        · exact not_isFinite_packed_notANumber
    | zero s' => exact not_isFinite_packed_infinity s
    | finite s' m e pos => exact not_isFinite_packed_infinity s
  · rw [unpackX]
    exact not_isFinite_packed_notANumber

/-- A sum is not finite if the second number is not. -/
theorem not_isFinite_add_right (notFinite : ¬ (Extended.ofFloat y).IsFinite) :
    ¬ (Extended.ofFloat (x + y)).IsFinite := by
  rw [add_eq_packed]
  rcases unpack_of_not_isFinite notFinite with ⟨s, unpackY⟩ | unpackY
  · rw [unpackY]
    cases x.toModel.unpack with
    | notANumber => exact not_isFinite_packed_notANumber
    | infinity s' =>
        rw [UnpackedFloat.add]
        split
        · exact not_isFinite_packed_infinity s'
        · exact not_isFinite_packed_notANumber
    | zero s' => exact not_isFinite_packed_infinity s
    | finite s' m e pos => exact not_isFinite_packed_infinity s
  · rw [unpackY]
    cases x.toModel.unpack <;> exact not_isFinite_packed_notANumber

end Operations

/-! ### Running sums -/

/-- A running sum of doubles from a start. -/
def runningSum (start : Float) (xs : List Float) : Float := xs.foldl (· + ·) start

/-- Every partial sum, rounded but for the last step, is below the bound. -/
def SumsBelow : Float → List Float → Prop
  | _, [] => True
  | s, x :: rest =>
      |(Extended.ofFloat s).rational + (Extended.ofFloat x).rational| < roundsAway ∧
        SumsBelow (s + x) rest

/-- A running sum does not become finite again. -/
theorem not_isFinite_runningSum {s : Float} (notFinite : ¬ (Extended.ofFloat s).IsFinite)
    (xs : List Float) : ¬ (Extended.ofFloat (runningSum s xs)).IsFinite := by
  induction xs generalizing s with
  | nil => exact notFinite
  | cons x rest ih => exact ih (not_isFinite_add_left notFinite)

/-- A running sum is finite exactly if all that is added is finite and every partial sum is
below the bound. -/
theorem isFinite_runningSum_iff {s : Float} (finite : (Extended.ofFloat s).IsFinite)
    (xs : List Float) :
    (Extended.ofFloat (runningSum s xs)).IsFinite ↔
      (∀ x ∈ xs, (Extended.ofFloat x).IsFinite) ∧ SumsBelow s xs := by
  induction xs generalizing s with
  | nil => exact iff_of_true finite ⟨by simp, trivial⟩
  | cons x rest ih =>
      change (Extended.ofFloat (runningSum (s + x) rest)).IsFinite ↔ _
      rw [List.forall_mem_cons, SumsBelow]
      by_cases isFinite : (Extended.ofFloat x).IsFinite
      · have below := isFinite_add_iff finite isFinite
        by_cases next : (Extended.ofFloat (s + x)).IsFinite
        · have inRange := below.mp next
          rw [ih next]
          tauto
        · have outOfRange := mt below.mpr next
          have infinite := not_isFinite_runningSum next rest
          tauto
      · have next : ¬ (Extended.ofFloat (s + x)).IsFinite := not_isFinite_add_right isFinite
        have infinite := not_isFinite_runningSum next rest
        tauto

/-- Zeros never leave the range. -/
theorem sumsBelow_replicate_zero {s x : Float} (zeroS : Extended.ofFloat s = .finite 0)
    (zeroX : Extended.ofFloat x = .finite 0) (times : Nat) :
    SumsBelow s (List.replicate times x) := by
  induction times generalizing s with
  | zero => trivial
  | succ n ih =>
      refine ⟨?_, ih (ofFloat_add_zero zeroS zeroX)⟩
      rw [zeroS, zeroX, Extended.rational_finite, add_zero, abs_zero]
      exact roundsAway_pos

end ArcSelection.Decimal
