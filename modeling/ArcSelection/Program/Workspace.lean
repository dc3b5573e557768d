import ArcSelection.Program.Problem

/-!
# Building problems step by step

A workspace holds problems under construction together with the variables and expressions
they are built from.  Constraints and objectives refer to expressions, so a term added to
an expression later shows in every constraint that refers to it.  `Workspace.problem`
reads off the problem as it stands.

Operands are variables, expressions or plain values; sums and products of plain values
are plain values.  What plain values do among themselves is given by the class `Scalar`, so
that a workspace of dynamic values and one of exact numbers are built by the same code.
-/

namespace ArcSelection

/-- Plain values that stand beside variables and expressions. -/
class Scalar (α : Type) extends Arithmetic α where
  /-- Whether a plain value can be an operand of a linear expression. -/
  isNumber : α -> Bool
  /-- A number as the constant of an expression. -/
  toConstant : α -> Except Fault α
  /-- The sum of two plain values. -/
  plainAdd : α -> α -> Except Fault α
  /-- The difference of two plain values. -/
  plainSub : α -> α -> Except Fault α
  /-- The product of two plain values. -/
  plainMul : α -> α -> Except Fault α
  /-- The negative of a plain value. -/
  plainNeg : α -> Except Fault α

namespace Value

/-- The sum of two plain values: numbers are added, texts and sequences joined. -/
def plainAdd : Value -> Value -> Except Fault Value
  | .text s, .text t => .ok (.text (s ++ t))
  | .list xs, .list ys => .ok (.list (xs ++ ys))
  | .tuple xs, .tuple ys => .ok (.tuple (xs ++ ys))
  | a, b => a.add b

/-- The product of two plain values: numbers are multiplied, texts and sequences repeated. -/
def plainMul (a b : Value) : Except Fault Value :=
  let repeated (v : Value) (n : Int) : Except Fault Value := match v with
    | .text s => .ok (.text (String.join (List.replicate n.toNat s)))
    | .list xs => .ok (.list (List.replicate n.toNat xs).flatten)
    | .tuple xs => .ok (.tuple (List.replicate n.toNat xs).flatten)
    | v => v.mul (.int n)
  match a.integer?, b.integer? with
  | some n, some m => .ok (.int (n * m))
  | some n, none => if b.isNumeric then a.mul b else repeated b n
  | none, some m => if a.isNumeric then a.mul b else repeated a m
  | none, none => a.mul b

/-- The negative of a plain value; that of a double keeps the sign of zero apart. -/
def plainNeg : Value -> Except Fault Value
  | .float x => .ok (.float (-x))
  | v => (Value.int 0).sub v

instance : Scalar Value where
  isNumber := isNumber
  toConstant v := .float <$> v.numericFloat
  plainAdd := plainAdd
  plainSub := sub
  plainMul := plainMul
  plainNeg := plainNeg

end Value

instance : Scalar Decimal.Extended where
  isNumber _ := true
  toConstant := .ok
  plainAdd := Arithmetic.add
  plainSub := Arithmetic.sub
  plainMul := Arithmetic.mul
  plainNeg := Arithmetic.mul Arithmetic.minusOne

/-- A constraint that refers to an expression of the workspace. -/
structure ConstraintDraft (α : Type := Value) where
  expression : Nat
  relation : Relation
  bound : α

/-- A problem under construction. -/
structure ProblemDraft (α : Type := Value) where
  /-- The variables by key. -/
  unknowns : OrderedMap Value Nat
  constraints : List (ConstraintDraft α)
  objective : Nat
  sense : Sense

/-- Variables, expressions and problems by position. -/
structure Workspace (α : Type := Value) where
  unknowns : Array (Variable Value α)
  expressions : Array (Expression Nat α)
  problems : Array (ProblemDraft α)

/-- Something an operation can be applied to. -/
inductive Operand (α : Type := Value) where
  | variable (position : Nat)
  | expression (position : Nat)
  | plain (v : α)

namespace Workspace

variable {α : Type}

/-- The workspace without content. -/
def empty : Workspace α := ⟨#[], #[], #[]⟩

/-- The variable at a position, if there is one. -/
def variableAt? (w : Workspace α) (i : Nat) : Option (Variable Value α) := w.unknowns[i]?

/-- The key of the variable at a position. -/
def keyAt (w : Workspace α) (i : Nat) : Value :=
  match w.variableAt? i with
  | some x => x.key
  | none => .null

/-- Stores an expression and returns its position. -/
def store (w : Workspace α) (e : Expression Nat α) : Nat × Workspace α :=
  (w.expressions.size, { w with expressions := w.expressions.push e })

/-- A number as the constant of an expression. -/
def constantOf (v : Value) : Except Fault Value := .float <$> v.toFloat

/-- Makes an expression from terms, later ones replacing earlier ones of one variable. -/
def makeExpression (terms : List (Nat × Value)) (constant : Value) :
    Except Fault (Expression Nat Value) := do
  return ⟨OrderedMap.ofList terms, <- constantOf constant⟩

variable [Scalar α]

/-- The expression at a position. -/
def expressionAt (w : Workspace α) (i : Nat) : Expression Nat α :=
  (w.expressions[i]?).getD .zero

/-- Starts a problem. -/
def newProblem (w : Workspace α) (sense : Sense) : Nat × Workspace α :=
  let (objective, w) := w.store .zero
  (w.problems.size, { w with problems := w.problems.push ⟨.empty, [], objective, sense⟩ })

/-- The variable of a problem with a key: the existing one, whatever its bounds, or a new
one whose lower bound must not exceed its upper. -/
def addVariable (w : Workspace α) (p : Nat) (x : Variable Value α) :
    Except Fault (Nat × Workspace α) :=
  match w.problems[p]? with
  | none => .error .unsupported
  | some draft =>
      if !x.key.isHashable then .error .wrongType
      else
        match draft.unknowns.get? x.key with
        | some i => .ok (i, w)
        | none => do
            if <- Arithmetic.less x.upper x.lower then
              throw (.boundsCrossed x.key (Arithmetic.toValue x.lower) (Arithmetic.toValue x.upper))
            let i := w.unknowns.size
            return (i, { w with
              unknowns := w.unknowns.push x
              problems := w.problems.set! p
                { draft with unknowns := draft.unknowns.insert x.key i } })

/-- The expression an operand stands for. -/
def toExpression (w : Workspace α) : Operand α -> Except Fault (Expression Nat α)
  | .variable i => .ok (.ofVariable i)
  | .expression i => .ok (w.expressionAt i)
  | .plain v =>
      if Scalar.isNumber v then do return .ofConstant (<- Scalar.toConstant v)
      else .error (.notLinear (Arithmetic.toValue v))

/-- Stores what an operand stands for as an expression of its own. -/
def copy (w : Workspace α) (a : Operand α) : Except Fault (Nat × Workspace α) := do
  return w.store (<- w.toExpression a)

/-- Puts an expression in the place of another. -/
def put (w : Workspace α) (i : Nat) (e : Expression Nat α) : Workspace α :=
  { w with expressions := w.expressions.set! i e }

/-- Adds a term to an expression in place. -/
def addTerm (w : Workspace α) (i : Nat) (x : Nat) (c : α) : Except Fault (Workspace α) := do
  return w.put i (<- (w.expressionAt i).addTerm x c)

/-- Adds one expression to another in place: its terms one by one, and then its constant. -/
def addTo (w : Workspace α) (i j : Nat) : Except Fault (Workspace α) := do
  let added := w.expressionAt j
  let w <- added.terms.entries.foldlM (fun w t => w.addTerm i t.1 t.2) w
  let sum := w.expressionAt i
  return w.put i { sum with constant := <- Arithmetic.add sum.constant added.constant }

/-- The expression at a position plus an operand: copies of both are added up. -/
def plus (w : Workspace α) (i : Nat) (b : Operand α) : Except Fault (Nat × Workspace α) := do
  let (sum, w) <- w.copy (.expression i)
  let (added, w) <- w.copy b
  return (sum, <- w.addTo sum added)

/-- The expression at a position times a number. -/
def times (w : Workspace α) (i : Nat) (c : α) : Except Fault (Nat × Workspace α) := do
  return w.store (<- (w.expressionAt i).scale c)

/-- The expression at a position minus an operand. -/
def minus (w : Workspace α) (i : Nat) (b : Operand α) : Except Fault (Nat × Workspace α) := do
  let (taken, w) <- w.copy b
  let (negative, w) <- w.times taken Arithmetic.minusOne
  w.plus i (.expression negative)

/-- Applies an operation of expressions to an operand.  Any but an expression is made one
first. -/
def lifted (w : Workspace α) (a : Operand α)
    (f : Workspace α -> Nat -> Except Fault (Nat × Workspace α)) :
    Except Fault (Operand α × Workspace α) := do
  let (i, w) <- match a with
    | .expression i => pure (i, w)
    | a => w.copy a
  let (result, w) <- f w i
  return (.expression result, w)

/-- An operation of plain values, which changes nothing. -/
def plainly (w : Workspace α) (r : Except Fault α) : Except Fault (Operand α × Workspace α) := do
  return (.plain (<- r), w)

/-- The sum of two operands.  The terms of the left one come first, except that a plain
value on the left joins the expression on the right. -/
def add (w : Workspace α) (a b : Operand α) : Except Fault (Operand α × Workspace α) :=
  match a, b with
  | .plain x, .plain y => w.plainly (Scalar.plainAdd x y)
  | .plain _, b => w.lifted b fun w i => w.plus i a
  | a, b => w.lifted a fun w i => w.plus i b

/-- The difference of two operands. -/
def sub (w : Workspace α) (a b : Operand α) : Except Fault (Operand α × Workspace α) :=
  match a, b with
  | .plain x, .plain y => w.plainly (Scalar.plainSub x y)
  | a, b => w.lifted a fun w i => w.minus i b

/-- The product of two operands, one of which must be a number. -/
def mul (w : Workspace α) (a b : Operand α) : Except Fault (Operand α × Workspace α) :=
  let scaled (e : Operand α) (v : α) :=
    if Scalar.isNumber v then w.lifted e fun w i => w.times i v else .error .wrongType
  match a, b with
  | .plain x, .plain y => w.plainly (Scalar.plainMul x y)
  | .plain x, b => scaled b x
  | a, .plain y => scaled a y
  | _, _ => .error .wrongType

/-- The negative of an operand. -/
def neg (w : Workspace α) : Operand α -> Except Fault (Operand α × Workspace α)
  | .plain v => w.plainly (Scalar.plainNeg v)
  | a => w.lifted a fun w i => w.times i Arithmetic.minusOne

/-- The constraint a draft stands for. -/
def constraint (w : Workspace α) (c : ConstraintDraft α) : Constraint Nat α :=
  ⟨w.expressionAt c.expression, c.relation, c.bound⟩

/-- Appends a constraint to a problem; its variables must belong to the problem. -/
def addConstraint (w : Workspace α) (p : Nat) (c : ConstraintDraft α) :
    Except Fault (Nat × Workspace α) :=
  match w.problems[p]? with
  | none => .error .unsupported
  | some draft =>
      let own := draft.unknowns.values
      match (w.expressionAt c.expression).terms.keys.find? fun x => !own.contains x with
      | some x => .error (.foreignVariable (w.keyAt x))
      | none =>
          let constraints := draft.constraints ++ [c]
          .ok (constraints.length,
            { w with problems := w.problems.set! p { draft with constraints } })

/-- Makes an expression the objective of a problem. -/
def setObjective (w : Workspace α) (p : Nat) (e : Nat) : Workspace α :=
  { w with problems := w.problems.modify p fun draft => { draft with objective := e } }

/-- The problem at a position as it stands. -/
def problem (w : Workspace α) (p : Nat) : Problem Nat Value α :=
  match w.problems[p]? with
  | none => .empty .minimize
  | some draft =>
      { unknowns := OrderedMap.ofList (draft.unknowns.values.filterMap fun i =>
          (w.variableAt? i).map fun x => (i, x))
        constraints := draft.constraints.map w.constraint
        objective := w.expressionAt draft.objective
        sense := draft.sense }

/-- The value of an expression when variables have values by key; absent ones are zero. -/
def evaluate (w : Workspace α) (e : Expression Nat α) (values : List (Value × α)) :
    Except Fault α :=
  let known := OrderedMap.ofList values
  e.evaluate fun x => .ok ((known.get? (w.keyAt x)).getD Arithmetic.origin)

/-- A number with six significant digits. -/
def briefText (v : Value) : Except Fault String :=
  match v with
  | .text _ => .error .notFormattable
  | v => Decimal.brief <$> v.numericFloat

/-- The text of an expression: its terms joined by plus signs, and its constant unless that
is zero and there are terms. -/
def display (w : Workspace) (e : Expression Nat Value) : Except Fault String := do
  let terms <- e.terms.entries.mapM fun (x, c) => do
    return (<- briefText c) ++ "*" ++ (w.keyAt x).display
  if e.constant.isTruthy || terms.isEmpty then
    return String.intercalate " + " (terms ++ [<- briefText e.constant])
  else return String.intercalate " + " terms

end Workspace

end ArcSelection
