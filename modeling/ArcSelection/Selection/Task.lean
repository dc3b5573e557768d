import ArcSelection.Arithmetic
import ArcSelection.Value.Properties

/-!
# Selection tasks

A task asks for a set of arcs of least cost under bounds on the degrees of the nodes and
on the number of arcs.  A degree bound is absent, a constant, or a function of the node;
costs are weighted functions of the arc.  A configuration of dynamic values is checked
when the task is made and is fixed from then on.
-/

namespace ArcSelection

/-- The bounds on one kind of degree; an absent bound constrains nothing. -/
structure DegreeBounds (α : Type) where
  lower : Option (Node -> Except Fault α)
  upper : Option (Node -> Except Fault α)

/-- A cost function with its weight in the objective. -/
structure WeightedCost (α : Type) where
  cost : Arc -> Except Fault α
  weight : α

/-- A checked configuration. -/
structure SelectionTask (α : Type) where
  degree : DegreeBounds α
  inDegree : DegreeBounds α
  outDegree : DegreeBounds α
  /-- The least number of arcs. -/
  minimum : Nat
  /-- The greatest number of arcs; nothing means no limit. -/
  maximum : Option Nat
  costs : List (WeightedCost α)
  /-- Whether arcs may be selected in part. -/
  relaxed : Bool
  /-- The value from which on an arc counts as selected. -/
  threshold : α

/-- The bounds on degrees: a lower and an upper one for each kind of degree. -/
inductive DegreeKey where
  | minDegree
  | maxDegree
  | minInDegree
  | maxInDegree
  | minOutDegree
  | maxOutDegree
deriving DecidableEq

namespace DegreeKey

/-- Every key, in the order they are checked. -/
def all : List DegreeKey :=
  [.minDegree, .maxDegree, .minInDegree, .maxInDegree, .minOutDegree, .maxOutDegree]

/-- The word for a key. -/
def word : DegreeKey -> String
  | .minDegree => "min_degree"
  | .maxDegree => "max_degree"
  | .minInDegree => "min_in_degree"
  | .maxInDegree => "max_in_degree"
  | .minOutDegree => "min_out_degree"
  | .maxOutDegree => "max_out_degree"

/-- Whether a key bounds from below. -/
def isLower : DegreeKey -> Bool
  | .minDegree | .minInDegree | .minOutDegree => true
  | .maxDegree | .maxInDegree | .maxOutDegree => false

/-- The bound that constrains nothing. -/
def vacuous (k : DegreeKey) : Value := .float (Decimal.infinity k.isLower)

end DegreeKey

/-- A degree bound as it is configured. -/
inductive BoundInput where
  | value (v : Value)
  | function (f : Node -> Except Fault Value)

/-- An element of the list of costs as it is configured. -/
inductive CostInput where
  /-- A cost function with a weight. -/
  | function (f : Arc -> Except Fault Value) (weight : Value)
  /-- A cost function whose cost is no function. -/
  | constant (v : Value) (weight : Value)
  /-- Something that is no cost function. -/
  | raw (v : Value)

/-- A configuration of dynamic values. -/
structure TaskInput where
  minDegree : BoundInput
  maxDegree : BoundInput
  minInDegree : BoundInput
  maxInDegree : BoundInput
  minOutDegree : BoundInput
  maxOutDegree : BoundInput
  minArcs : Value
  maxArcs : Value
  costs : List CostInput
  relaxed : Value
  threshold : Value

namespace TaskInput

/-- The configuration with the given bounds on degrees and nothing else. -/
def bounded (bound : DegreeKey -> BoundInput) : TaskInput :=
  { minDegree := bound .minDegree, maxDegree := bound .maxDegree
    minInDegree := bound .minInDegree, maxInDegree := bound .maxInDegree
    minOutDegree := bound .minOutDegree, maxOutDegree := bound .maxOutDegree
    minArcs := .int 0, maxArcs := .float (Decimal.infinity false)
    costs := [], relaxed := .bool false, threshold := .null }

/-- No bounds and no costs. -/
def unbounded : TaskInput := bounded fun _ => .value .null

end TaskInput

namespace SelectionTask

/-- A number read from a value; the fault names what should have been one. -/
def readNumber (v : Value) (name : String) : Except Fault Value :=
  match v.toFloat with
  | .ok x => .ok (.float x)
  | .error _ => .error (.quoting v (.notRepresentable name v))

/-- The number that a function of the configuration answers with.  The name for it, which tells
what is asked and of which item, is made before the answer is read. -/
def askNumber {β : Type} (what : String) (item : β -> Value) (f : β -> Except Fault Value)
    (b : β) : Except Fault Value := do
  let v <- f b
  readNumber v (what ++ (<- (item b).toDisplay))

/-- The number that a bound answers with at a node. -/
def askBound (side : String) : (Node -> Except Fault Value) -> Node -> Except Fault Value :=
  askNumber (side ++ " degree bound of ") .node

/-- The cost of an arc. -/
def askCost : (Arc -> Except Fault Value) -> Arc -> Except Fault Value :=
  askNumber "Cost of " .arc

/-- Reads a degree bound.  A constant is read at once, and answers at every node. -/
def readBound (name side : String) :
    BoundInput -> Except Fault (Option (Node -> Except Fault Value))
  | .value .null => .ok none
  | .function f => .ok (some (askBound side f))
  | .value v =>
      if v.isNumber then do
        let x <- readNumber v name
        if Arithmetic.isNaN x then .error (.boundIsNaN name)
        else return some (askBound side fun _ => .ok x)
      else .error (.quoting v (.notBound name v))

/-- The two bounds on one kind of degree. -/
def readBounds (lowerKey upperKey : DegreeKey) (lower upper : BoundInput) :
    Except Fault (DegreeBounds Value) := do
  let l <- readBound lowerKey.word "Lower" lower
  let u <- readBound upperKey.word "Upper" upper
  return ⟨l, u⟩

/-- Whether a value is positive infinity. -/
def isTop (v : Value) : Bool := v.number? == some .top

/-- A finite arc count: a nonnegative integer up to the largest count. -/
def readFiniteCount (v : Value) (name : String) : Except Fault Nat :=
  match v with
  | .int n =>
      if n < 0 then .error (.quoting v (.notCount name v))
      else if n > Fault.maxArcCount then .error (.quoting v (.countTooLarge name v))
      else .ok n.toNat
  | _ => .error (.quoting v (.notCount name v))

/-- A greatest arc count: infinity for no limit, else a finite count. -/
def readCount (v : Value) (name : String) : Except Fault (Option Nat) :=
  if isTop v then .ok none else some <$> readFiniteCount v name

/-- Reads one weighted cost.  The weight must be a finite number. -/
def readCost : CostInput -> Except Fault (WeightedCost Value)
  | .raw v => .error (.quoting v (.notCostFunction v))
  | .constant _ _ => .error .costNotCallable
  | .function f weight => do
      let x <- weight.numericFloat
      if !Arithmetic.isFinite (Value.float x) then .error (.weightNotFinite weight)
      else return ⟨askCost f, .float x⟩

/-- The threshold used where none is given. -/
def defaultThreshold : Value := .float 0.5

/-- Reads a selection threshold: a number above zero and at most one. -/
def readThreshold (v : Value) : Except Fault Value :=
  let v := if v matches .null then defaultThreshold else v
  if v.isNumber && Value.compare? (.int 0) v == some .lt &&
      (v.compare? (.int 1) == some .lt || v.compare? (.int 1) == some .eq) then
    .float <$> v.numericFloat
  else .error (.quoting v (.badThreshold v))

/-- Refuses a least count above the greatest. -/
def checkCounts (minimum : Nat) : (maximum : Option Nat) -> Except Fault Unit
  | none => .ok ()
  | some m =>
      if minimum > m then .error (.countsCrossed (.int minimum) (.int m)) else .ok ()

/-- Checks a configuration: bounds, counts, costs and threshold, in this order. -/
def ofInput (input : TaskInput) : Except Fault (SelectionTask Value) := do
  let degree <- readBounds .minDegree .maxDegree input.minDegree input.maxDegree
  let inDegree <- readBounds .minInDegree .maxInDegree input.minInDegree input.maxInDegree
  let outDegree <-
    readBounds .minOutDegree .maxOutDegree input.minOutDegree input.maxOutDegree
  if isTop input.minArcs then throw .minimumNotFinite
  let minimum <- readFiniteCount input.minArcs "min_arc_count"
  let maximum <- readCount input.maxArcs "max_arc_count"
  checkCounts minimum maximum
  let costs <- input.costs.mapM readCost
  let threshold <- readThreshold input.threshold
  return { degree, inDegree, outDegree, minimum, maximum, costs
           relaxed := input.relaxed.isTruthy, threshold }

end SelectionTask

end ArcSelection
