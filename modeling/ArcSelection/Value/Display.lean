import ArcSelection.Value.Basic
import ArcSelection.Decimal.Reading
import ArcSelection.Decimal.Style
import ArcSelection.Text.Quoted

/-!
# The text of a value

`display` is the form used inside messages, with text in quotes; `plainText` is the form
used where a value stands for a name, which differs only in leaving a text bare and in
writing dates plainly.  An integer is written in a limited number of digits.
-/

namespace ArcSelection.Value

open ArcSelection.Decimal

mutual

/-- The text of a value with every text inside it quoted. -/
def display : Value -> String
  | .null => "None"
  | .bool b => if b then "True" else "False"
  | .int n => toString n
  | .float x => plain x
  | .text s => Text.quoted s
  | .date d => d.display
  | .moment m => m.display
  | .list items => "[" ++ String.intercalate ", " (displayItems items) ++ "]"
  | .tuple [item] => "(" ++ display item ++ ",)"
  | .tuple items => "(" ++ String.intercalate ", " (displayItems items) ++ ")"
  | .map entries => "\x7b" ++ String.intercalate ", " (displayEntries entries) ++ "\x7d"
  | .node n => n.display
  | .arc a => a.display

/-- The texts of a list of values. -/
def displayItems : List Value -> List String
  | [] => []
  | item :: rest => display item :: displayItems rest

/-- The texts of the entries of a map. -/
def displayEntries : List (Value × Value) -> List String
  | [] => []
  | (key, value) :: rest => (display key ++ ": " ++ display value) :: displayEntries rest

end

/-- Whether an integer is short enough to be written. -/
def isShort (n : Int) : Bool := (Nat.toDigits 10 n.natAbs).length ≤ Decimal.maxIntegerDigits

mutual

/-- Whether every integer in a value is short enough to be written. -/
def isWritable : Value -> Bool
  | .int n => isShort n
  | .list items | .tuple items => areWritable items
  | .map entries => areEntriesWritable entries
  | .node n => isShort n.id
  | .arc a => isShort a.id
  | _ => true

/-- Whether every integer in a list of values is short enough. -/
def areWritable : List Value -> Bool
  | [] => true
  | item :: rest => item.isWritable && areWritable rest

/-- Whether every integer in the entries of a map is short enough. -/
def areEntriesWritable : List (Value × Value) -> Bool
  | [] => true
  | (key, value) :: rest => key.isWritable && value.isWritable && areEntriesWritable rest

end

/-- The text of a value used as a name. -/
def plainText : Value -> String
  | .text s => s
  | .date d => d.text
  | .moment m => m.text
  | v => v.display

end ArcSelection.Value
