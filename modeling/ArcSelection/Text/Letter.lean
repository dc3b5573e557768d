/-!
# Letter case for keywords

Keywords are compared after mapping to one case with the full Unicode mapping.  Only
mappings that end in ASCII can make a text equal to a keyword, so this module maps the
ASCII letters and the few other characters whose mapping is ASCII, and leaves every
other character as it is.
-/

namespace ArcSelection.Text

/-- The upper-case form of a character, as far as it can reach ASCII. -/
def upperOf (c : Char) : List Char :=
  match c.toNat with
  | 0xDF => ['S', 'S']
  | 0x131 => ['I']
  | 0x17F => ['S']
  | 0xFB00 => ['F', 'F']
  | 0xFB01 => ['F', 'I']
  | 0xFB02 => ['F', 'L']
  | 0xFB03 => ['F', 'F', 'I']
  | 0xFB04 => ['F', 'F', 'L']
  | 0xFB05 => ['S', 'T']
  | 0xFB06 => ['S', 'T']
  | _ => [c.toUpper]

/-- The lower-case form of a character, as far as it can reach ASCII. -/
def lowerOf (c : Char) : Char :=
  if c.toNat = 0x212A then 'k' else c.toLower

/-- The upper-case form of a text. -/
def upper (s : String) : String := String.ofList (s.toList.flatMap upperOf)

/-- The lower-case form of a text. -/
def lower (s : String) : String := String.ofList (s.toList.map lowerOf)

end ArcSelection.Text
