import ArcSelection.Decimal.Reading
import ArcSelection.Yaml.Node

/-!
# The types of plain scalars

A scalar without quotes and tag gets its type from its text: a truth value, a float, an
integer, null, a moment, or else a text.  The readers of the types also serve scalars that
carry a tag.
-/

namespace ArcSelection.Yaml

/-- What a plain scalar is. -/
inductive ScalarType where
  | truth
  | float
  | integer
  | merge
  | null
  | moment
  | defaultValue
  | text
deriving DecidableEq

/-- The words for truth values. -/
def truthWords : List (String × Bool) :=
  [("yes", true), ("no", false), ("true", true), ("false", false), ("on", true),
   ("off", false)]

/-- Whether a text is a word in lower case, capitalised or in upper case. -/
def isSpelling (word text : String) : Bool :=
  text == word || text == word.capitalize || text == word.toUpper

/-- Whether a text is not empty and every character passes a test. -/
def isRun (test : Char -> Bool) (cs : List Char) : Bool := !cs.isEmpty && cs.all test

/-- A decimal digit or an underscore. -/
def isDigitOrBar (c : Char) : Bool := c.isDigit || c == '_'

/-- Whether a text is a digit followed by digits and underscores. -/
def isNumeral (cs : List Char) : Bool :=
  match cs with
  | c :: rest => c.isDigit && rest.all isDigitOrBar
  | [] => false

/-- The text after a sign, which may be missing. -/
def unsigned : List Char -> List Char
  | '+' :: cs => cs
  | '-' :: cs => cs
  | cs => cs

/-- The parts of a text between the places where a character stands. -/
def partsAt (separator : Char) : List Char -> List (List Char)
  | [] => [[]]
  | c :: cs =>
      if c = separator then [] :: partsAt separator cs
      else
        match partsAt separator cs with
        | part :: rest => (c :: part) :: rest
        | [] => [[c]]

/-- Whether a text is a number below sixty in one or two digits. -/
def isSixtieth : List Char -> Bool
  | [a] => a.isDigit
  | [a, b] => '0' ≤ a && a ≤ '5' && b.isDigit
  | _ => false

/-- Whether the text after the point of a float is digits with an exponent, which needs a
sign, or without. -/
def isFraction (cs : List Char) : Bool :=
  let places := cs.takeWhile isDigitOrBar
  match cs.drop places.length with
  | [] => true
  | e :: sign :: digits =>
      (e == 'e' || e == 'E') && (sign == '-' || sign == '+') && isRun Char.isDigit digits
  | _ => false

/-- Whether a text reads as a float. -/
def isFloatText (cs : List Char) : Bool :=
  let body := unsigned cs
  let whole := body.takeWhile (· != '.')
  let isInfinity := ["inf", "Inf", "INF"].any fun w => body == '.' :: w.toList
  let isNaN := ["nan", "NaN", "NAN"].any fun w => cs == '.' :: w.toList
  match body.drop whole.length with
  | '.' :: fraction =>
      if whole.isEmpty then
        isInfinity || isNaN ||
          (body.length == cs.length && isNumeral (fraction.take 1) && isFraction fraction)
      else
        match partsAt ':' whole with
        | [digits] => isNumeral digits && isFraction fraction
        | digits :: sixtieths =>
            isNumeral digits && sixtieths.all isSixtieth && fraction.all isDigitOrBar
        | [] => false
  | _ => false

/-- A hexadecimal digit or an underscore. -/
def isHexOrBar (c : Char) : Bool := (hexValue? c).isSome || c == '_'

/-- Whether a text reads as an integer. -/
def isIntegerText (cs : List Char) : Bool :=
  match unsigned cs with
  | ['0'] => true
  | '0' :: 'b' :: ds => isRun (fun c => c == '0' || c == '1' || c == '_') ds
  | '0' :: 'x' :: ds => isRun isHexOrBar ds
  | '0' :: ds => isRun (fun c => ('0' ≤ c && c ≤ '7') || c == '_') ds
  | body =>
      match partsAt ':' body with
      | digits :: sixtieths => isNumeral digits && sixtieths.all isSixtieth
      | [] => false

/-- A number at the front in one or two digits, and the rest. -/
def takeShort? (cs : List Char) : Option (Nat × List Char) :=
  let digits := (cs.take 2).takeWhile Char.isDigit
  if digits.isEmpty then none
  else some (Decimal.digitsValue digits, cs.drop digits.length)

/-- A number at the front in exactly so many digits, and the rest. -/
def takeExact? (width : Nat) (cs : List Char) : Option (Nat × List Char) :=
  let digits := (cs.take width).takeWhile Char.isDigit
  if digits.length = width then some (Decimal.digitsValue digits, cs.drop width) else none

/-- The text after a character, if it stands at the front. -/
def afterChar? (c : Char) : List Char -> Option (List Char)
  | d :: rest => if c = d then some rest else none
  | [] => none

/-- A space or a tab. -/
def isTabOrSpace (c : Char) : Bool := c == ' ' || c == '\t'

/-- The offset of a zone in minutes: none is written, or a letter for zero, or hours with
minutes or without. -/
def readZone? (cs : List Char) : Option (Option Int) :=
  match cs.dropWhile isTabOrSpace with
  | [] => if cs.isEmpty then some none else none
  | ['Z'] => some (some 0)
  | sign :: rest =>
      if sign == '+' || sign == '-' then do
        let (hours, rest) <- takeShort? rest
        let minutes <- match rest with
          | [] => some 0
          | _ => do
              let (minutes, rest) <- takeExact? 2 (<- afterChar? ':' rest)
              if rest.isEmpty then some minutes else none
        let offset : Int := 60 * hours + minutes
        return some (if sign == '-' then -offset else offset)
      else none

/-- The time of day and the zone of a moment on a date. -/
def readTime? (date : Date) (cs : List Char) : Option Moment := do
  let (hour, cs) <- takeShort? cs
  let (minute, cs) <- takeExact? 2 (<- afterChar? ':' cs)
  let (second, cs) <- takeExact? 2 (<- afterChar? ':' cs)
  let (places, cs) := match cs with
    | '.' :: cs => (cs.takeWhile Char.isDigit, cs.dropWhile Char.isDigit)
    | _ => ([], cs)
  let six := (places ++ List.replicate 6 '0').take 6
  return ⟨date, hour, minute, second, Decimal.digitsValue six, <- readZone? cs⟩

/-- The date or moment written by a text, in the calendar or not. -/
def readMoment? (text : String) : Option Value := do
  let cs := text.toList
  let (year, cs) <- takeExact? 4 cs
  let (month, cs) <- takeShort? (<- afterChar? '-' cs)
  let (day, rest) <- takeShort? (<- afterChar? '-' cs)
  let date : Date := ⟨year, month, day⟩
  if rest.isEmpty then some (.date date)
  else
    let time <- match rest with
      | c :: rest =>
          if c == 'T' || c == 't' then some rest
          else if isTabOrSpace c then some (rest.dropWhile isTabOrSpace)
          else none
      | [] => none
    return .moment (<- readTime? date time)

/-- Whether a text reads as a moment; in a date alone every number has all its digits. -/
def isMomentText (text : String) : Bool :=
  match readMoment? text with
  | some (.date _) => text.length = "0000-00-00".length
  | other => other.isSome

/-- The type that a plain text has. -/
def scalarType (text : String) : ScalarType :=
  let cs := text.toList
  if truthWords.any fun w => isSpelling w.1 text then .truth
  else if isFloatText cs then .float
  else if isIntegerText cs then .integer
  else if text == "<<" then .merge
  else if text == "" || text == "~" || isSpelling "null" text then .null
  else if isMomentText text then .moment
  else if text == "=" then .defaultValue
  else .text

/-- The truth value of a word in any case. -/
def readTruth (text : String) : Reading Value :=
  match truthWords.lookup text.toLower with
  | some b => .ok (.bool b)
  | none => .error .unknownAttributeType

/-- The text of a number without underscores. -/
def withoutBars (text : String) : List Char := text.toList.filter (· != '_')

/-- The digits of a base as a number; the fault shows the text they were taken from. -/
def readDigits (base : Nat) (source cs : List Char) : Reading Nat :=
  let value : Option Nat := cs.foldlM
    (fun n c => do
      let d <- hexValue? c
      if d < base then some (base * n + d) else none)
    0
  match cs.isEmpty, value with
  | false, some n => .ok n
  | _, _ => .error (.unreadableInteger base (String.ofList source))

/-- An integer in decimal digits. -/
def readPart (cs : List Char) : Reading Int :=
  match Decimal.readInt? (String.ofList cs) with
  | some n => .ok n
  | none => .error (.unreadableInteger 10 (String.ofList cs))

/-- The integer without sign written by a text. -/
def readMagnitude (cs : List Char) : Reading Int :=
  match cs with
  | [] => .error .noDigits
  | '0' :: 'b' :: ds => Int.ofNat <$> readDigits 2 ds ds
  | '0' :: 'x' :: ds => Int.ofNat <$> readDigits 16 ds ds
  | ['0'] => .ok 0
  | '0' :: 'o' :: ds => Int.ofNat <$> readDigits 8 cs ds
  | '0' :: ds => Int.ofNat <$> readDigits 8 cs ds
  | _ => do
      let parts <- (partsAt ':' cs).mapM readPart
      return parts.foldl (fun n d => 60 * n + d) 0

/-- The integer written by a text. -/
def readInteger (text : String) : Reading Value := do
  match withoutBars text with
  | [] => throw .noDigits
  | '-' :: cs => return .int (-(<- readMagnitude cs))
  | '+' :: cs => return .int (<- readMagnitude cs)
  | cs => return .int (<- readMagnitude cs)

/-- A float in decimal notation. -/
def readFloatPart (cs : List Char) : Reading Float :=
  match Decimal.readFloat? (String.ofList cs) with
  | some x => .ok x
  | none => .error (.unreadableReal (String.ofList cs))

/-- The float without sign written by a text in lower case.  The parts of a number in base
sixty are added from the last one on. -/
def readFloatMagnitude (cs : List Char) : Reading Float :=
  match String.ofList cs with
  | ".inf" => .ok (Decimal.infinity false)
  | ".nan" => .ok Decimal.notANumber
  | _ =>
      match partsAt ':' cs with
      | [_] => readFloatPart cs
      | parts => do
          let parts <- parts.mapM readFloatPart
          let (sum, _) := parts.reverse.foldl
            (fun (sum, base) x => (sum + x * base, base * 60.0)) ((0.0 : Float), (1.0 : Float))
          return sum

/-- The float written by a text. -/
def readFloat (text : String) : Reading Value := do
  match (withoutBars text).map Char.toLower with
  | [] => throw .noDigits
  | '-' :: cs => return .float (-(<- readFloatMagnitude cs))
  | '+' :: cs => return .float (<- readFloatMagnitude cs)
  | cs => return .float (<- readFloatMagnitude cs)

/-- The date or moment written by a text, which must be in the calendar. -/
def readMoment (text : String) : Reading Value :=
  match readMoment? text with
  | some (.date d) => d.fault?.elim (.ok (.date d)) fun f => .error (.notInCalendar f)
  | some (.moment m) => m.fault?.elim (.ok (.moment m)) fun f => .error (.notInCalendar f)
  | _ => .error .unsupported

/-- The value of a plain scalar.  The marks of merging and of default values have none. -/
def readPlain (text : String) : Reading Value :=
  match scalarType text with
  | .truth => readTruth text
  | .float => readFloat text
  | .integer => readInteger text
  | .null => .ok .null
  | .moment => readMoment text
  | .text => .ok (.text text)
  | .merge | .defaultValue => malformed

end ArcSelection.Yaml
