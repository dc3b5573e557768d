import ArcSelection.Decimal.Reading
import ArcSelection.Fault

/-!
# Arithmetic of costs and coefficients

Costs, coefficients, bounds and distances are added, multiplied and compared.  The
algorithms of this library do so through the class `Arithmetic`, so that they run on
dynamic values, where integers are exact, floats round and anything else is refused, and
mean the same on exact numbers, where nothing rounds.
-/

namespace ArcSelection

open ArcSelection.Decimal

/-- The operations on numbers that the algorithms need. -/
class Arithmetic (α : Type) where
  /-- Zero as the start of a sum. -/
  origin : α
  /-- One as the coefficient of a variable. -/
  unit : α
  /-- Minus one. -/
  minusOne : α
  /-- Positive infinity. -/
  top : α
  /-- Negative infinity. -/
  bottom : α
  /-- The number for a count. -/
  ofCount : Nat -> α
  /-- The sum. -/
  add : α -> α -> Except Fault α
  /-- The difference. -/
  sub : α -> α -> Except Fault α
  /-- The product. -/
  mul : α -> α -> Except Fault α
  /-- Whether the first number is less. -/
  less : α -> α -> Except Fault Bool
  /-- Whether the first number is less or equal. -/
  atMost : α -> α -> Except Fault Bool
  /-- Whether a number is nan. -/
  isNaN : α -> Bool
  /-- Whether a number is neither nan nor infinite. -/
  isFinite : α -> Bool
  /-- Whether a number is zero. -/
  isZero : α -> Bool
  /-- A number as a value for messages. -/
  toValue : α -> Value

namespace Arithmetic

variable {α : Type} [Arithmetic α]

/-- A number brought into the form that arithmetic results have. -/
def asReal (x : α) : Except Fault α := mul unit x

end Arithmetic

namespace Value

/-- The nearest double of an integer; integers beyond the range of doubles are refused. -/
def floatOfInt (n : Int) : Except Fault Float :=
  match ofInt? n with
  | some x => .ok x
  | none => .error .tooLarge

/-- A numeric value as a double; text is not numeric here. -/
def numericFloat : Value -> Except Fault Float
  | .float x => .ok x
  | .int n => floatOfInt n
  | .bool b => .ok (if b then 1.0 else 0.0)
  | _ => .error .wrongType

/-- A number read from any value: numeric values and the text of a float. -/
def toFloat : Value -> Except Fault Float
  | .text s =>
      match readFloat? s with
      | some x => .ok x
      | none => .error (.unreadableFloat s)
  | v => v.numericFloat

/-- Applies an operation exactly to integers and in doubles otherwise. -/
def arithmetic (exact : Int -> Int -> Int) (rounded : Float -> Float -> Float)
    (a b : Value) : Except Fault Value :=
  match a.integer?, b.integer? with
  | some n, some m => .ok (.int (exact n m))
  | _, _ => do
      let x <- a.numericFloat
      let y <- b.numericFloat
      return .float (rounded x y)

/-- The sum of two numeric values. -/
def add (a b : Value) : Except Fault Value := arithmetic (· + ·) (· + ·) a b

/-- The difference of two numeric values. -/
def sub (a b : Value) : Except Fault Value := arithmetic (· - ·) (· - ·) a b

/-- The product of two numeric values. -/
def mul (a b : Value) : Except Fault Value := arithmetic (· * ·) (· * ·) a b

/-- A comparison of two numeric values; any comparison with nan fails the test. -/
def comparing (test : Ordering -> Bool) (a b : Value) : Except Fault Bool :=
  if a.isNumeric && b.isNumeric then
    .ok (match a.compare? b with
      | some o => test o
      | none => false)
  else .error .wrongType

instance : Arithmetic Value where
  origin := .float 0.0
  unit := .float 1.0
  minusOne := .float (-1.0)
  top := .float (infinity false)
  bottom := .float (infinity true)
  ofCount n := .int n
  add := add
  sub := sub
  mul := mul
  less := comparing fun o => o == .lt
  atMost := comparing fun o => o != .gt
  isNaN v := v.number? == some .nan
  isFinite v := match v.number? with
    | some (.finite _) => true
    | _ => false
  isZero v := v.number? == some (.finite 0)
  toValue v := v

end Value

namespace Decimal.Extended

instance : Arithmetic Extended where
  origin := .finite 0
  unit := .finite 1
  minusOne := .finite (-1)
  top := .top
  bottom := .bottom
  ofCount n := .finite n
  add x y := .ok (x.add y)
  sub x y := .ok (x.add (y.mul (.finite (-1))))
  mul x y := .ok (x.mul y)
  less x y := .ok (x.compare? y == some .lt)
  atMost x y := .ok (x.compare? y == some .lt || x.compare? y == some .eq)
  isNaN x := x == .nan
  isFinite x := match x with
    | .finite _ => true
    | _ => false
  isZero x := x == .finite 0
  toValue x := match x with
    | .nan => .float notANumber
    | .top => .float (infinity false)
    | .bottom => .float (infinity true)
    | .finite q => .float (ofRat q)

end Decimal.Extended

end ArcSelection
