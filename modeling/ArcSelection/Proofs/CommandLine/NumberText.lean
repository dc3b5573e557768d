import ArcSelection.CommandLine.Report
import ArcSelection.Proofs.Decimal.CostText
import ArcSelection.Proofs.Decimal.Overflow

/-!
# Numbers as readers see them

The objective and the costs of a report are shown through doubles. A number that is a double, as
every float, every boolean and every integer of at most 53 binary digits is, is shown as it is; any
other integer as a double nearest to it, and one that is beyond the doubles not at all.
-/

namespace ArcSelection.CommandLine

open Decimal

/-- A finite double lies below the bound. -/
theorem abs_lt_of_ofFloat {x : Float} {q : Rat} (value : Extended.ofFloat x = .finite q) :
    |q| < roundsAway := by
  have small := abs_rational_lt ⟨q, value⟩
  rwa [value, Extended.rational_finite] at small

/-- A number has a nearest double that it is shown as, if it is not beyond the doubles. -/
theorem toFloat_of_number? {v : Value} {p : Rat} (finite : v.number? = some (.finite p)) :
    (|p| < roundsAway → ∃ x q, v.toFloat = .ok x ∧ Extended.ofFloat x = .finite q ∧
      IsNearestDouble p q) ∧ (roundsAway ≤ |p| → v.toFloat = .error .tooLarge) := by
  cases v with
  | bool b =>
    obtain rfl : (if b then 1 else 0) = p := Extended.finite.inj (Option.some.inj finite)
    have value : Extended.ofFloat (if b then 1.0 else 0.0) = .finite (if b then 1 else 0) := by
      cases b <;> decide +kernel
    exact ⟨fun _ => ⟨_, _, rfl, value, isNearestDouble_self value⟩,
      fun beyond => absurd beyond (abs_lt_of_ofFloat value).not_ge⟩
  | int n =>
    obtain rfl : (n : Rat) = p := Extended.finite.inj (Option.some.inj finite)
    have size : |(n : Rat)| = (n.natAbs : Nat) := by rw [Nat.cast_natAbs, Int.cast_abs]
    have converts := ofInt?_isSome_iff n
    rw [size, Nat.cast_lt, Nat.cast_le, ← not_lt, ← converts]
    change (_ → ∃ x q, Value.floatOfInt n = .ok x ∧ _) ∧ (_ → Value.floatOfInt n = _)
    unfold Value.floatOfInt
    cases found : ofInt? n with
    | none => exact ⟨fun some => absurd some (by simp), fun _ => rfl⟩
    | some x =>
      obtain ⟨q, value, nearest⟩ := isNearestDouble_ofInt? found
      exact ⟨fun _ => ⟨x, q, rfl, value, nearest⟩, fun none => absurd rfl none⟩
  | float x =>
    have value : Extended.ofFloat x = .finite p := Option.some.inj finite
    exact ⟨fun _ => ⟨x, p, rfl, value, isNearestDouble_self value⟩,
      fun beyond => absurd beyond (abs_lt_of_ofFloat value).not_ge⟩
  | _ => cases finite

/-- A finite number is shown rounded to three decimals from the exact value of its nearest double,
with every digit of the integer part in groups of three; an integer beyond the doubles is
refused. -/
theorem numberText_showsRounded (v : Value) {p : Rat} (finite : v.number? = some (.finite p)) :
    (|p| < roundsAway → ∃ q text, IsNearestDouble p q ∧ numberText v = .ok text ∧
      ShowsRounded text q) ∧ (roundsAway ≤ |p| → numberText v = .error .tooLarge) := by
  obtain ⟨within, beyond⟩ := toFloat_of_number? finite
  refine ⟨fun small => ?_, fun large => ?_⟩
  · obtain ⟨x, q, converted, value, nearest⟩ := within small
    refine ⟨q, costText x, nearest, ?_, showsRounded_costText value⟩
    rw [numberText, converted]
    rfl
  · rw [numberText, beyond large]
    rfl

/-- A half of a thousandth goes to the even neighbour, and an integer of 310 digits is refused. -/
theorem numberText_showsRounded_half :
    (Value.float 1000.0625).number? = some (.finite (16001 / 16)) ∧
      numberText (.float 1000.0625) = .ok "1,000.062" ∧ ShowsRounded "1,000.062" (16001 / 16) ∧
      numberText (.int (10 ^ 309)) = .error .tooLarge := by
  have value : Extended.ofFloat 1000.0625 = .finite (16001 / 16) := by decide +kernel
  have number : (Value.float 1000.0625).number? = some (.finite (16001 / 16)) :=
    congrArg some value
  have shown : numberText (.float 1000.0625) = .ok "1,000.062" :=
    congrArg Except.ok (by decide +kernel)
  obtain ⟨q, text, nearest, found, rounded⟩ :=
    (numberText_showsRounded _ number).1 (abs_lt_of_ofFloat value)
  obtain rfl := nearest.eq ⟨_, value⟩
  obtain rfl := Except.ok.inj (found.symm.trans shown)
  refine ⟨number, shown, rounded, (numberText_showsRounded (.int (10 ^ 309)) rfl).2 ?_⟩
  rw [Int.cast_pow, abs_of_pos (by positivity)]
  exact_mod_cast (by decide +kernel : roundsAway ≤ 10 ^ 309)

/-- An integer that no double holds is not shown as it is. -/
theorem numberText_oddBeyondDigits :
    numberText (.int 9007199254740993) = .ok "9,007,199,254,740,992" ∧
      ¬ ShowsRounded "9,007,199,254,740,992" 9007199254740993 := by
  refine ⟨congrArg Except.ok (by decide +kernel), ?_⟩
  rintro ⟨l, m, text, nearest, reads, _⟩
  have number : readPlain? ("9,007,199,254,740,992".toList.filter (· != ',')) =
      some 9007199254740992 := by decide +kernel
  rw [← text, number] at reads
  have shown : (m : Rat) = 1000 * 9007199254740992 := by
    linarith [(eq_div_iff (by norm_num : (1000 : Rat) ≠ 0)).mp (Option.some.inj reads)]
  have distance := nearest.within
  rw [shown] at distance
  norm_num at distance

end ArcSelection.CommandLine
