import ArcSelection.Decimal.Shortest

/-!
# Number text

How a decimal number is laid out: positional or with an exponent, and what follows the
last digit.  `plain` is the text of a float in messages and files, `brief` the text of a
coefficient with six significant digits, and `costText` the grouped text of a cost.
-/

namespace ArcSelection.Decimal

/-- The layout decisions of one number format. -/
structure Style where
  /-- Numbers whose leading digit has this place value exponent or more get an exponent. -/
  positionalBelow : Int
  /-- Whether a whole number keeps a point and a zero. -/
  keepsPoint : Bool

/-- Floats read back exactly; positional from 10^-4 up to 10^16, with a point always. -/
def plainStyle : Style := ⟨16, true⟩

/-- Coefficients have six significant digits and drop a useless point. -/
def briefStyle : Style := ⟨6, false⟩

/-- A decimal exponent with its sign and at least two digits. -/
def exponentText (e : Int) : List Char :=
  let ds := digitsOf e.natAbs
  let padded := if ds.length < 2 then '0' :: ds else ds
  'e' :: (if e < 0 then '-' else '+') :: padded

/-- The text of a nonnegative decimal in a style. -/
def Style.render (style : Style) (d : Digits) : List Char :=
  if d.digits = 0 then
    if style.keepsPoint then ['0', '.', '0'] else ['0']
  else
    let ds := digitsOf d.digits
    let point : Int := d.exponent + ds.length
    if -4 ≤ point - 1 && point - 1 < style.positionalBelow then
      if point ≤ 0 then
        '0' :: '.' :: List.replicate (-point).toNat '0' ++ ds
      else if point ≥ ds.length then
        ds ++ List.replicate (point - ds.length).toNat '0' ++
          (if style.keepsPoint then ['.', '0'] else [])
      else ds.take point.toNat ++ '.' :: ds.drop point.toNat
    else
      match ds with
      | [] => []
      | [c] => c :: exponentText (point - 1)
      | c :: rest => c :: '.' :: rest ++ exponentText (point - 1)

/-- A sign in front of a text. -/
def signed (negative : Bool) (cs : List Char) : List Char :=
  if negative then '-' :: cs else cs

/-- The text of a float: the fewest digits that read back. -/
def plain (x : Float) : String :=
  match decode x with
  | .nan => "nan"
  | .infinite negative => String.ofList (signed negative ['i', 'n', 'f'])
  | .finite d => String.ofList (signed d.negative (plainStyle.render d.shortest))

/-- The text of a float with six significant digits. -/
def brief (x : Float) : String :=
  match decode x with
  | .nan => "nan"
  | .infinite negative => String.ofList (signed negative ['i', 'n', 'f'])
  | .finite d => String.ofList (signed d.negative (briefStyle.render (d.significant 6)))

/-- Puts a comma between groups of three, counted from the end; the argument is reversed. -/
def groupReversed : List Char -> List Char
  | a :: b :: c :: d :: rest => a :: b :: c :: ',' :: groupReversed (d :: rest)
  | short => short

/-- The digits of a number with a comma between groups of three. -/
def grouped (n : Nat) : List Char := (groupReversed (digitsOf n).reverse).reverse

/-- A number of thousandths as three digits after the point. -/
def threeDigits (n : Nat) : List Char :=
  [Nat.digitChar (n / 100 % 10), Nat.digitChar (n / 10 % 10), Nat.digitChar (n % 10)]

/-- Drops the characters equal to `c` at the end. -/
def dropTrailing (c : Char) (cs : List Char) : List Char :=
  (cs.reverse.dropWhile (· == c)).reverse

/-- The text of a finite number rounded to thousandths: grouped digits before the point, and
three places after it. -/
def thousandths (negative : Bool) (num den : Nat) : List Char :=
  let units := roundHalfEven (num * 1000) den
  signed negative (grouped (units / 1000) ++ '.' :: threeDigits (units % 1000))

/-- A text with a point loses the zeros at its end, and then the points. -/
def withoutTrailing (cs : List Char) : List Char :=
  if cs.contains '.' then dropTrailing '.' (dropTrailing '0' cs) else cs

/-- A float rounded to some decimal places, ties to even; a zero has no sign. -/
def toPlaces (places : Nat) (x : Float) : Float :=
  match decode x with
  | .finite d =>
      let units := roundHalfEven (d.numerator * Nat.pow 10 places) d.denominator
      nearest (d.negative && units != 0) units (Nat.pow 10 places)
  | _ => x

/-- The text of a float rounded to three decimals, ties to even on the exact value. -/
def threePlaces (x : Float) : List Char :=
  match decode x with
  | .nan => ['n', 'a', 'n']
  | .infinite negative => signed negative ['i', 'n', 'f']
  | .finite d => thousandths d.negative d.numerator d.denominator

/-- The text of a cost: at most three decimals, and no useless ones. -/
def costText (x : Float) : String := String.ofList (withoutTrailing (threePlaces x))

end ArcSelection.Decimal
