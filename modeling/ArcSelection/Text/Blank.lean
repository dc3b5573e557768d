/-!
# White space

The characters that count as blank around a keyword: the Unicode white space characters
together with the four information separators.  Around a number the separators do not
count.
-/

namespace ArcSelection.Text

/-- The code points of the blank characters. -/
def blankCodes : List Nat :=
  [0x09, 0x0A, 0x0B, 0x0C, 0x0D, 0x1C, 0x1D, 0x1E, 0x1F, 0x20, 0x85, 0xA0, 0x1680,
   0x2000, 0x2001, 0x2002, 0x2003, 0x2004, 0x2005, 0x2006, 0x2007, 0x2008, 0x2009,
   0x200A, 0x2028, 0x2029, 0x202F, 0x205F, 0x3000]

/-- A character is blank when its code point is in the table. -/
def isBlank (c : Char) : Bool := blankCodes.contains c.toNat

/-- Whether a character is one of the four information separators. -/
def isSeparator (c : Char) : Bool := 0x1C ≤ c.toNat && c.toNat ≤ 0x1F

/-- The characters left after dropping those that pass a test at both ends. -/
def trimWhere (drops : Char -> Bool) (cs : List Char) : List Char :=
  ((cs.dropWhile drops).reverse.dropWhile drops).reverse

/-- The text left after dropping the blanks at both ends. -/
def trim (s : String) : String := String.ofList (trimWhere isBlank s.toList)

/-- The characters left after dropping the blanks around a number. -/
def trimNumber (cs : List Char) : List Char :=
  trimWhere (fun c => isBlank c && !isSeparator c) cs

end ArcSelection.Text
