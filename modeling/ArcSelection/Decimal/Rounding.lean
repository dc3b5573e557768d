/-!
# Rounding a quotient

A nonnegative quotient rounded to the nearest natural number, a half going to the even
neighbour.  Every number format of this library rounds through this one function.
-/

namespace ArcSelection.Decimal

/-- The natural number nearest to `num / den`, ties to even. -/
def roundHalfEven (num den : Nat) : Nat :=
  let q := num / den
  let twice := 2 * (num % den)
  if twice < den || (twice == den && q % 2 == 0) then q else q + 1

/-- The rounded quotient is the floor or its successor. -/
theorem roundHalfEven_eq_or (num den : Nat) :
    roundHalfEven num den = num / den ∨ roundHalfEven num den = num / den + 1 := by
  unfold roundHalfEven
  simp only
  split
  · exact Or.inl rfl
  · exact Or.inr rfl

end ArcSelection.Decimal
