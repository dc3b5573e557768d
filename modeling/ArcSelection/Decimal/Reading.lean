import ArcSelection.Decimal.Binary64
import ArcSelection.Text.Blank
import ArcSelection.Text.Digit
import ArcSelection.Text.Letter

/-!
# Reading numbers from text

Blanks at both ends are dropped, digits of every script count as digits, and an
underscore may stand between two digits.  An integer is an optional sign and digits; a
float may also have a point, an exponent, or be a spelling of infinity or nan.
-/

namespace ArcSelection.Decimal

open ArcSelection.Text

/-- Rewrites every decimal digit as its ASCII form. -/
def asciiDigits (cs : List Char) : List Char :=
  cs.map fun c => match digitValue? c with
    | some v => Nat.digitChar v
    | none => c

/-- Removes underscores that stand between two digits; any other underscore is refused. -/
def dropUnderscores : (previous : Option Char) -> List Char -> Option (List Char)
  | _, [] => some []
  | previous, '_' :: rest =>
      match previous, rest with
      | some p, next :: _ =>
          if p.isDigit && next.isDigit then dropUnderscores (some '_') rest else none
      | _, _ => none
  | _, c :: rest => (dropUnderscores (some c) rest).map (c :: ·)

/-- The text of a number ready for reading: trimmed, in ASCII digits, without underscores. -/
def prepare? (s : String) : Option (List Char) :=
  dropUnderscores none (asciiDigits (trimNumber s.toList))

/-- Splits an optional sign off the front. -/
def splitSign : List Char -> Bool × List Char
  | '-' :: rest => (true, rest)
  | '+' :: rest => (false, rest)
  | cs => (false, cs)

/-- The value of a run of ASCII digits. -/
def digitsValue (cs : List Char) : Nat :=
  cs.foldl (fun n c => 10 * n + (c.toNat - '0'.toNat)) 0

/-- The most digits that an integer is read from or written in. -/
def maxIntegerDigits : Nat := 4300

/-- The integer written by a text. -/
def readInt? (s : String) : Option Int := do
  let cs <- prepare? s
  let (negative, ds) := splitSign cs
  if ds.isEmpty || !ds.all Char.isDigit || ds.length > maxIntegerDigits then none
  else
    let n := digitsValue ds
    some (if negative then -(n : Int) else (n : Int))

/-- The double nearest to `digits * 10 ^ exponent`.  Exponents far outside the range of
doubles are answered without computing the power. -/
def scaled (negative : Bool) (digits : Nat) (exponent : Int) : Float :=
  let size : Int := exponent + (Nat.toDigits 10 digits).length
  if digits = 0 || size < -400 then nearest negative 0 1
  else if size > 400 then infinity negative
  else nearest negative (digits * Nat.pow 10 exponent.toNat) (Nat.pow 10 (-exponent).toNat)

/-- Reads the exponent part of a float, which may be missing. -/
def readExponent? : List Char -> Option Int
  | [] => some 0
  | c :: rest =>
      if c = 'e' || c = 'E' then
        let (negative, ds) := splitSign rest
        if ds.isEmpty || !ds.all Char.isDigit then none
        else some (if negative then -(digitsValue ds : Int) else (digitsValue ds : Int))
      else none

/-- The float written by an unsigned decimal with optional point and exponent. -/
def readDecimal? (negative : Bool) (cs : List Char) : Option Float := do
  let whole := cs.takeWhile Char.isDigit
  let rest := cs.dropWhile Char.isDigit
  let (places, tail) := match rest with
    | '.' :: after => (after.takeWhile Char.isDigit, after.dropWhile Char.isDigit)
    | _ => ([], rest)
  if whole.isEmpty && places.isEmpty then none
  else
    let exponent <- readExponent? tail
    some (scaled negative (digitsValue (whole ++ places)) (exponent - places.length))

/-- The float written by a text. -/
def readFloat? (s : String) : Option Float := do
  let cs <- prepare? s
  let (negative, body) := splitSign cs
  match String.ofList (body.map Char.toLower) with
  | "inf" => some (infinity negative)
  | "infinity" => some (infinity negative)
  | "nan" => some notANumber
  | _ => readDecimal? negative body

end ArcSelection.Decimal
