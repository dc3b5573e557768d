import ArcSelection.Identifier
import ArcSelection.Value.Date
import ArcSelection.Decimal.Extended

/-!
# Dynamic values

Property maps, configuration and documents hold values whose kind is only known when
they are used.  Integers are exact and floats are doubles; booleans count as the
integers zero and one wherever a number is wanted.  Maps keep their entries in the order
of first insertion.
-/

namespace ArcSelection

open ArcSelection.Decimal

/-- A value of any kind. -/
inductive Value where
  | null
  | bool (b : Bool)
  | int (n : Int)
  | float (x : Float)
  | text (s : String)
  | date (d : Date)
  | moment (m : Moment)
  | list (items : List Value)
  | tuple (items : List Value)
  | map (entries : List (Value × Value))
  | node (n : Node)
  | arc (a : Arc)
deriving Inhabited

/-- A property map: values by key, in insertion order. -/
abbrev Properties := List (Value × Value)

namespace Value

/-- The exact value of an integer or boolean. -/
def integer? : Value -> Option Int
  | .bool b => some (if b then 1 else 0)
  | .int n => some n
  | _ => none

/-- Integers, floats and booleans are numeric. -/
def isNumeric : Value -> Bool
  | .bool _ | .int _ | .float _ => true
  | _ => false

/-- Integers and floats are numbers; booleans are not. -/
def isNumber : Value -> Bool
  | .int _ | .float _ => true
  | _ => false

/-- The exact number a numeric value stands for. -/
def number? : Value -> Option Extended
  | .bool b => some (.finite (if b then 1 else 0))
  | .int n => some (.finite n)
  | .float x => some (Extended.ofFloat x)
  | _ => none

/-- How two numeric values compare: nothing when one of them is nan or not numeric. -/
def compare? (a b : Value) : Option Ordering := do
  (<- a.number?).compare? (<- b.number?)

mutual

/-- Whether two values are equal, as map keys or otherwise: numeric values by value,
lists, tuples and maps by their contents.  A nan equals nothing. -/
def same : Value -> Value -> Bool
  | .null, .null => true
  | .text s, .text t => s == t
  | .date d, .date e => d == e
  | .moment m, .moment n => m == n
  | .node n, .node m => n == m
  | .arc a, .arc b => a == b
  | .list xs, .list ys => sameItems xs ys
  | .tuple xs, .tuple ys => sameItems xs ys
  | .map xs, .map ys => xs.length == ys.length && sameEntries xs ys
  | a, b => compare? a b == some .eq

/-- Item by item equality. -/
def sameItems : List Value -> List Value -> Bool
  | [], [] => true
  | x :: xs, y :: ys => same x y && sameItems xs ys
  | _, _ => false

/-- Every entry of the first list has an equal one in the second. -/
def sameEntries : List (Value × Value) -> List (Value × Value) -> Bool
  | [], _ => true
  | (k, v) :: rest, ys =>
      (ys.any fun entry => same k entry.1 && same v entry.2) && sameEntries rest ys

end

instance : BEq Value := ⟨same⟩

mutual

/-- Whether a value may be a map key: lists and maps may not. -/
def isHashable : Value -> Bool
  | .list _ | .map _ => false
  | .tuple items => areHashable items
  | _ => true

/-- Whether every item may be a map key. -/
def areHashable : List Value -> Bool
  | [] => true
  | item :: items => item.isHashable && areHashable items

end

/-- Whether a value counts as true: not null, false, zero or empty. -/
def isTruthy : Value -> Bool
  | .null => false
  | .bool b => b
  | .int n => n != 0
  | .float x => !(x == 0.0)
  | .text s => s != ""
  | .list items | .tuple items => !items.isEmpty
  | .map entries => !entries.isEmpty
  | _ => true

end Value

end ArcSelection
