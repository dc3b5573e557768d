import ArcSelection.Decimal.Reading
import ArcSelection.Decimal.Style
import ArcSelection.Proofs.Decimal.Nearest

/-!
# The text of a cost

A cost is laid out with its digits in groups of three and at most three places after the point.
Every such layout reads back exactly once the commas are removed, and the layout that is chosen
for a double reads as its value rounded to thousandths.
-/

namespace ArcSelection.Decimal

/-! ### Digits -/

/-- Digits that follow others shift these by their number. -/
theorem digitsValue_append (cs ds : List Char) :
    digitsValue (cs ++ ds) = digitsValue cs * 10 ^ ds.length + digitsValue ds := by
  induction ds using List.reverseRecOn with
  | nil => simp [digitsValue]
  | append_singleton ds c ih =>
    have last (es : List Char) :
        digitsValue (es ++ [c]) = 10 * digitsValue es + (c.toNat - '0'.toNat) := by
      simp [digitsValue]
    rw [← List.append_assoc, last, last, ih, List.length_append, List.length_singleton, pow_succ]
    ring

/-- A number is read from its digits. -/
theorem digitsValue_digitsOf (n : Nat) : digitsValue (digitsOf n) = n :=
  Nat.ofDigitChars_toDigits (by decide) (by decide)

theorem digitsOf_ne_nil (n : Nat) : digitsOf n ≠ [] := Nat.toDigits_ne_nil

theorem isDigit_of_mem_digitsOf {n : Nat} {c : Char} (member : c ∈ digitsOf n) :
    c.isDigit = true :=
  Nat.isDigit_of_mem_toDigits (by decide) (by decide) member

/-- A number below a thousand is read from three digits. -/
theorem digitsValue_threeDigits {n : Nat} (small : n < 1000) :
    digitsValue (threeDigits n) = n := by
  have digit (k : Nat) : (Nat.digitChar (k % 10)).toNat - '0'.toNat = k % 10 :=
    Nat.toNat_digitChar_sub_48_of_lt_ten (Nat.mod_lt _ (by decide))
  simp only [threeDigits, digitsValue, List.foldl_cons, List.foldl_nil, digit]
  omega

theorem isDigit_of_mem_threeDigits {n : Nat} {c : Char} (member : c ∈ threeDigits n) :
    c.isDigit = true := by
  have digit (k : Nat) : (Nat.digitChar (k % 10)).isDigit = true := by
    refine isDigit_of_mem_digitsOf (n := k % 10) ?_
    rw [digitsOf, Nat.toDigits_of_lt_base (Nat.mod_lt _ (by decide))]
    exact List.mem_singleton_self _
  simp only [threeDigits, List.mem_cons, List.not_mem_nil, or_false] at member
  rcases member with rfl | rfl | rfl <;> exact digit _

/-- What is dropped is a run of the character. -/
theorem exists_dropTrailing_append (c : Char) (cs : List Char) :
    ∃ k, dropTrailing c cs ++ List.replicate k c = cs := by
  have run : cs.rtakeWhile (· == c) = List.replicate (cs.rtakeWhile (· == c)).length c := by
    refine List.eq_replicate_iff.mpr ⟨rfl, fun d member => ?_⟩
    have dropped : (d == c) = true :=
      List.mem_takeWhile_imp (p := (· == c)) (List.mem_reverse.mp member)
    exact eq_of_beq dropped
  exact ⟨_, run ▸ List.rdropWhile_append_rtakeWhile⟩

/-- The last character is none of those that were dropped. -/
theorem getLast?_dropTrailing (c : Char) (cs : List Char) :
    (dropTrailing c cs).getLast? ≠ some c := by
  intro last
  rw [dropTrailing, List.getLast?_reverse] at last
  have kept := List.head?_dropWhile_not (· == c) cs.reverse
  rw [last] at kept
  simp at kept

/-- Nothing is dropped from a text that ends in another character. -/
theorem dropTrailing_eq_self {c : Char} {cs : List Char} (last : cs.getLast? ≠ some c) :
    dropTrailing c cs = cs := by
  refine List.rdropWhile_eq_self_iff.mpr fun nonempty isLast => last ?_
  rw [List.getLast?_eq_some_getLast nonempty, eq_of_beq isLast]

/-- A run of the character at the end is dropped. -/
theorem dropTrailing_append_replicate (c : Char) (cs : List Char) (k : Nat) :
    dropTrailing c (cs ++ List.replicate k c) = dropTrailing c cs := by
  rw [dropTrailing, List.reverse_append, List.reverse_replicate,
    List.dropWhile_append_of_pos fun d member => by simp [List.eq_of_mem_replicate member]]
  rfl

/-- Zeros at the end scale the value. -/
theorem digitsValue_append_zeros (cs : List Char) (k : Nat) :
    digitsValue (cs ++ List.replicate k '0') = digitsValue cs * 10 ^ k := by
  have zeros : digitsValue (List.replicate k '0') = 0 := by
    induction k with
    | zero => rfl
    | succ k ih => rw [List.replicate_succ, digitsValue, List.foldl_cons]; exact ih
  rw [digitsValue_append, zeros, List.length_replicate, Nat.add_zero]

/-! ### Reading plain notation -/

/-- The number with the given digits before and after its point. -/
def plainValue (negative : Bool) (whole places : List Char) : Rat :=
  (if negative then -1 else 1) * ((digitsValue (whole ++ places) : Rat) / 10 ^ places.length)

/-- The exact value of a number in plain notation: a sign, digits, and a point with further
digits if there is one. -/
def readPlain? (cs : List Char) : Option Rat :=
  let (negative, body) := splitSign cs
  let whole := body.takeWhile Char.isDigit
  if whole.isEmpty then none
  else
    match body.dropWhile Char.isDigit with
    | [] => some (plainValue negative whole [])
    | '.' :: places =>
        if places.isEmpty || !places.all Char.isDigit then none
        else some (plainValue negative whole places)
    | _ => none

/-- Places after a point, if there are any. -/
def pointed (places : List Char) : List Char :=
  if places.isEmpty then [] else '.' :: places

/-- The sign is split from the digits. -/
theorem splitSign_signed (negative : Bool) {c : Char} (cs : List Char)
    (digit : c.isDigit = true) : splitSign (signed negative (c :: cs)) = (negative, c :: cs) := by
  cases negative with
  | true => rfl
  | false =>
    unfold signed splitSign
    split
    · rename_i same
      cases same
      exact absurd digit (by decide)
    · rename_i same
      cases same
      exact absurd digit (by decide)
    · rfl

/-- A number in plain form is read as it is written. -/
theorem readPlain?_signed (negative : Bool) {whole places : List Char} (nonempty : whole ≠ [])
    (digits : ∀ c ∈ whole ++ places, c.isDigit = true) :
    readPlain? (signed negative (whole ++ pointed places)) =
      some (plainValue negative whole places) := by
  obtain ⟨c, cs, rfl⟩ := List.exists_cons_of_ne_nil nonempty
  have before : ∀ d ∈ c :: cs, d.isDigit = true := fun d member =>
    digits d (List.mem_append_left _ member)
  have stops : (pointed places).takeWhile Char.isDigit = [] ∧
      (pointed places).dropWhile Char.isDigit = pointed places := by
    unfold pointed
    split <;> exact ⟨rfl, rfl⟩
  rw [readPlain?, List.cons_append, splitSign_signed _ _ (before c (List.mem_cons_self ..)),
    ← List.cons_append]
  simp only [List.takeWhile_append_of_pos before, List.dropWhile_append_of_pos before, stops,
    List.append_nil, List.isEmpty_cons, Bool.false_eq_true, if_false]
  cases places with
  | nil => rfl
  | cons d ds =>
    have after : (d :: ds).all Char.isDigit = true := List.all_eq_true.mpr fun e member =>
      digits e (List.mem_append_right _ member)
    simp [pointed, after]

/-! ### Layouts -/

/-- A number as it is laid out for readers: a sign, digits in groups of three after a first
group that may be shorter, and at most three places that do not end in a zero. -/
structure Layout where
  negative : Bool
  first : List Char
  groups : List (List Char)
  places : List Char
  digits : ∀ c ∈ first ++ groups.flatten ++ places, c.isDigit = true
  first_size : 0 < first.length ∧ first.length ≤ 3
  groups_size : ∀ group ∈ groups, group.length = 3
  places_size : places.length ≤ 3
  places_end : places.getLast? ≠ some '0'

namespace Layout

/-- The digits before the point. -/
def whole (l : Layout) : List Char := l.first ++ l.groups.flatten

/-- The text: a comma before every group but the first, and a point before the places. -/
def text (l : Layout) : List Char :=
  signed l.negative (l.first ++ l.groups.flatMap (',' :: ·) ++ pointed l.places)

/-- The number that is laid out. -/
def value (l : Layout) : Rat := plainValue l.negative l.whole l.places

end Layout

/-- Digits have no commas. -/
theorem filter_comma_of_isDigit {cs : List Char} (digits : ∀ c ∈ cs, c.isDigit = true) :
    cs.filter (· != ',') = cs := by
  refine List.filter_eq_self.mpr fun c member => ?_
  rw [bne_iff_ne]
  rintro rfl
  exact absurd (digits ',' member) (by decide)

/-- Without the commas, groups are their digits. -/
theorem filter_comma_groups {groups : List (List Char)}
    (digits : ∀ c ∈ groups.flatten, c.isDigit = true) :
    (groups.flatMap (',' :: ·)).filter (· != ',') = groups.flatten := by
  induction groups with
  | nil => rfl
  | cons group groups ih =>
    rw [List.flatten_cons] at digits
    rw [List.flatMap_cons, List.filter_append, ih fun c member =>
      digits c (List.mem_append_right _ member), List.filter_cons_of_neg (by decide),
      filter_comma_of_isDigit fun c member => digits c (List.mem_append_left _ member),
      List.flatten_cons]

namespace Layout

/-- Without its commas every layout reads as the number that is laid out. -/
theorem readPlain?_text (l : Layout) : readPlain? (l.text.filter (· != ',')) = some l.value := by
  have digits := l.digits
  simp only [List.mem_append] at digits
  have first := filter_comma_of_isDigit fun c member => digits c (Or.inl (Or.inl member))
  have groups := filter_comma_groups fun c member => digits c (Or.inl (Or.inr member))
  have places := filter_comma_of_isDigit fun c member => digits c (Or.inr member)
  have point : (pointed l.places).filter (· != ',') = pointed l.places := by
    unfold pointed
    split
    · rfl
    · rw [List.filter_cons_of_pos (by decide), places]
  have sign (cs : List Char) :
      (signed l.negative cs).filter (· != ',') = signed l.negative (cs.filter (· != ',')) := by
    cases l.negative <;> rfl
  rw [text, sign, List.filter_append, List.filter_append, first, groups, point]
  have nonempty : l.whole ≠ [] := by
    rw [whole, ← List.length_pos_iff, List.length_append]
    have := l.first_size.1
    omega
  exact readPlain?_signed l.negative nonempty l.digits

end Layout

/-! ### The layout of a cost -/

/-- Grouping from the end gives groups of three after a first group that may be shorter. -/
theorem exists_groups {cs : List Char} (nonempty : cs ≠ []) :
    ∃ (first : List Char) (groups : List (List Char)),
      (groupReversed cs).reverse = first ++ groups.flatMap (',' :: ·) ∧
      cs.reverse = first ++ groups.flatten ∧
      (0 < first.length ∧ first.length ≤ 3) ∧ ∀ group ∈ groups, group.length = 3 := by
  induction cs using groupReversed.induct with
  | case1 a b c d rest ih =>
    obtain ⟨first, groups, text, digits, size, sizes⟩ := ih (List.cons_ne_nil d rest)
    refine ⟨first, groups ++ [[c, b, a]], ?_, ?_, size, ?_⟩
    · rw [groupReversed, List.flatMap_append, ← List.append_assoc, ← text]
      simp
    · rw [List.flatten_append, ← List.append_assoc, ← digits]
      simp
    · intro group member
      rcases List.mem_append.mp member with earlier | last
      · exact sizes group earlier
      · rw [List.mem_singleton.mp last]
        rfl
  | case2 short atMost =>
    refine ⟨short.reverse, [], ?_, ?_, ?_, fun _ member => absurd member List.not_mem_nil⟩
    · rw [groupReversed]
      · simp
      · exact atMost
    · simp
    · rw [List.length_reverse]
      match short with
      | [_] | [_, _] | [_, _, _] => simp
      | a :: b :: c :: d :: rest => exact (atMost a b c d rest rfl).elim

/-- The digits of the whole thousands and the places before the dropped zeros are all digits. -/
theorem plainValue_shown (negative : Bool) {units k : Nat} {shown : List Char}
    (places : shown ++ List.replicate k '0' = threeDigits (units % 1000)) :
    plainValue negative (digitsOf (units / 1000)) shown =
      (if negative then -1 else 1) * ((units : Rat) / 1000) := by
  have length : shown.length + k = 3 := by
    have := congrArg List.length places
    rwa [List.length_append, List.length_replicate] at this
  -- The zeros that were dropped would have scaled both the digits and the power of ten.
  have value : digitsValue (digitsOf (units / 1000) ++ shown) * 10 ^ k = units := calc
    digitsValue (digitsOf (units / 1000) ++ shown) * 10 ^ k
        = digitsValue (digitsOf (units / 1000) ++ threeDigits (units % 1000)) := by
      rw [← digitsValue_append_zeros, List.append_assoc, places]
    _ = units / 1000 * 10 ^ 3 + units % 1000 := by
      rw [digitsValue_append, digitsValue_digitsOf,
        digitsValue_threeDigits (Nat.mod_lt _ (by decide))]
      rfl
    _ = units := by omega
  have thousand : (1000 : Rat) = 10 ^ shown.length * 10 ^ k := by
    rw [← pow_add, length]
    norm_num
  rw [plainValue, thousand, ← value, Nat.cast_mul, Nat.cast_pow, Nat.cast_ofNat,
    mul_div_mul_right _ _ (pow_ne_zero k (by norm_num : (10 : Rat) ≠ 0)), value]

/-- What is dropped at the end of a number stops at its point: the zeros of the places are dropped,
and then the point if no place is left. -/
theorem withoutTrailing_append {before places : List Char} (pointless : '.' ∉ before)
    (digits : ∀ c ∈ places, c.isDigit = true) :
    withoutTrailing (before ++ '.' :: places) = before ++ pointed (dropTrailing '0' places) := by
  obtain ⟨k, split⟩ := exists_dropTrailing_append '0' places
  have kept := getLast?_dropTrailing '0' places
  generalize dropTrailing '0' places = shown at split kept ⊢
  have zeros : dropTrailing '0' (before ++ '.' :: places) = before ++ '.' :: shown := by
    have run : before ++ '.' :: places = (before ++ '.' :: shown) ++ List.replicate k '0' := by
      rw [← split]
      simp
    rw [run, dropTrailing_append_replicate]
    refine dropTrailing_eq_self ?_
    rw [List.getLast?_append_cons]
    cases shown with
    | nil => decide
    | cons c cs => rwa [List.getLast?_cons_cons]
  rw [withoutTrailing, if_pos (by simp), zeros]
  cases shown with
  | nil =>
      have last : before.getLast? ≠ some '.' := fun last => pointless (List.mem_of_getLast? last)
      have point := dropTrailing_append_replicate '.' before 1
      rw [dropTrailing_eq_self last] at point
      exact point.trans (List.append_nil before).symm
  | cons c cs =>
      refine dropTrailing_eq_self fun last => ?_
      rw [List.getLast?_append_cons, List.getLast?_cons_cons] at last
      have member : '.' ∈ places :=
        split ▸ List.mem_append_left _ (List.mem_of_getLast? last)
      exact absurd (digits '.' member) (by decide)

/-- Before the point there are digits and commas. -/
theorem point_notMem_grouped (n : Nat) : '.' ∉ grouped n := by
  obtain ⟨first, groups, grouping, digits, _⟩ :=
    exists_groups (List.reverse_ne_nil_iff.mpr (digitsOf_ne_nil n))
  rw [List.reverse_reverse] at digits
  have inDigits : '.' ∉ first ++ groups.flatten := by
    rw [← digits]
    exact fun member => absurd (isDigit_of_mem_digitsOf member) (by decide)
  intro member
  rw [grouped, grouping, List.mem_append, List.mem_flatMap] at member
  rcases member with early | ⟨group, listed, member⟩
  · exact inDigits (List.mem_append_left _ early)
  · have inGroup : '.' ∈ group := (List.mem_cons.mp member).resolve_left (by decide)
    exact inDigits (List.mem_append_right _ (List.mem_flatten.mpr ⟨group, listed, inGroup⟩))

/-- The text of a quotient loses zeros of its three places, and the point with the last of them. -/
theorem withoutTrailing_thousandths (negative : Bool) (num den : Nat) :
    withoutTrailing (thousandths negative num den) = signed negative
      (grouped (roundHalfEven (num * 1000) den / 1000) ++
        pointed (dropTrailing '0' (threeDigits (roundHalfEven (num * 1000) den % 1000)))) := by
  rw [thousandths]
  generalize roundHalfEven (num * 1000) den = units
  have digits : ∀ c ∈ threeDigits (units % 1000), c.isDigit = true :=
    fun c => isDigit_of_mem_threeDigits
  have pointless := point_notMem_grouped (units / 1000)
  cases negative with
  | false => exact withoutTrailing_append pointless digits
  | true =>
      have signedPointless : '.' ∉ '-' :: grouped (units / 1000) := by
        simpa using pointless
      exact withoutTrailing_append signedPointless digits

/-- The text of a quotient is a layout of its nearest number of thousandths. -/
theorem exists_layout (negative : Bool) (num den : Nat) :
    ∃ l : Layout, l.text = withoutTrailing (thousandths negative num den) ∧
      l.whole = digitsOf (roundHalfEven (num * 1000) den / 1000) ∧
      l.value = (if negative then -1 else 1) * ((roundHalfEven (num * 1000) den : Rat) / 1000) := by
  rw [withoutTrailing_thousandths]
  generalize roundHalfEven (num * 1000) den = units
  obtain ⟨first, groups, grouping, digits, size, sizes⟩ :=
    exists_groups (List.reverse_ne_nil_iff.mpr (digitsOf_ne_nil (units / 1000)))
  rw [List.reverse_reverse] at digits
  obtain ⟨k, places⟩ := exists_dropTrailing_append '0' (threeDigits (units % 1000))
  have kept := getLast?_dropTrailing '0' (threeDigits (units % 1000))
  simp only [grouped, grouping]
  generalize dropTrailing '0' (threeDigits (units % 1000)) = shown at places kept ⊢
  have length := congrArg List.length places
  rw [List.length_append] at length
  have allDigits : ∀ c ∈ first ++ groups.flatten ++ shown, c.isDigit = true := by
    intro c member
    rw [← digits] at member
    rcases List.mem_append.mp member with before | after
    · exact isDigit_of_mem_digitsOf before
    · exact isDigit_of_mem_threeDigits (places ▸ List.mem_append_left _ after)
  let l : Layout := ⟨negative, first, groups, shown, allDigits, size, sizes,
    (Nat.le_add_right ..).trans length.le, kept⟩
  have whole : l.whole = digitsOf (units / 1000) := digits.symm
  refine ⟨l, rfl, whole, ?_⟩
  rw [Layout.value, whole]
  exact plainValue_shown negative places

/-- The layout shows `q` rounded to `m` thousandths, ties to even, and has every digit of the
integer part. -/
structure Layout.Shows (l : Layout) (q : Rat) (m : Int) : Prop where
  nearest : IsNearest (1000 * q) m
  reads : readPlain? (l.text.filter (· != ',')) = some ((m : Rat) / 1000)
  whole : l.whole = digitsOf (m.natAbs / 1000)

/-- A text shows a number rounded to three decimals. -/
def ShowsRounded (text : String) (q : Rat) : Prop :=
  ∃ (l : Layout) (m : Int), text.toList = l.text ∧ l.Shows q m

/-- The text of a finite double shows its value. -/
theorem showsRounded_costText {x : Float} {q : Rat} (value : Extended.ofFloat x = .finite q) :
    ShowsRounded (costText x) q := by
  unfold Extended.ofFloat at value
  split at value
  · cases value
  · split at value <;> cases value
  rename_i d decoded
  cases value
  obtain ⟨l, text, whole, value⟩ := exists_layout d.negative d.numerator d.denominator
  have positive : 0 < d.denominator := Nat.pow_pos Nat.two_pos
  have rounded := isNearest_roundHalfEven (d.numerator * 1000) positive
  generalize roundHalfEven (d.numerator * 1000) d.denominator = units at rounded whole value
  refine ⟨l, (if d.negative then -1 else 1) * units, ?_, ?_, ?_, ?_⟩
  · rw [costText, threePlaces, decoded, text]
    exact String.toList_ofList
  · have scaled : 1000 * d.toRat =
        (if d.negative then -1 else 1) * ((d.numerator * 1000 : Nat) / (d.denominator : Rat)) := by
      rw [Dyadic.toRat, Rat.mkRat_eq_div]
      split <;> push_cast <;> ring
    rw [scaled]
    split
    · rw [neg_one_mul, neg_one_mul]
      exact rounded.neg
    · rw [one_mul, one_mul]
      exact rounded
  · rw [l.readPlain?_text, value, ← mul_div_assoc]
    split <;> push_cast <;> rfl
  · rw [whole]
    split <;> simp

-- The zeros of a whole number stay, and a zero keeps the sign of what was rounded.
example : costText 100.0 = "100" ∧ costText (-0.0004) = "-0" := by decide +kernel

end ArcSelection.Decimal
