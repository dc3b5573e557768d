import ArcSelection.Arithmetic
import ArcSelection.OrderedMap

/-!
# Linear expressions

A sum of coefficients times variables, and a constant.  Variables are known by an
identity of type `ι`; every variable has at most one term, and terms stay in the order in
which their variables first entered.
-/

namespace ArcSelection

/-- A linear expression over variables with identities of type `ι`. -/
structure Expression (ι α : Type) [BEq ι] where
  terms : OrderedMap ι α
  constant : α

namespace Expression

variable {ι α : Type} [BEq ι] [Arithmetic α]

/-- The expression zero. -/
def zero : Expression ι α := ⟨.empty, Arithmetic.origin⟩

/-- The expression that is one variable. -/
def ofVariable (x : ι) : Expression ι α :=
  ⟨OrderedMap.empty.insert x Arithmetic.unit, Arithmetic.origin⟩

/-- The expression that is one number. -/
def ofConstant (c : α) : Expression ι α := ⟨.empty, c⟩

/-- Adds a coefficient times a variable. -/
def addTerm (e : Expression ι α) (x : ι) (c : α) : Except Fault (Expression ι α) := do
  let sum <- Arithmetic.add ((e.terms.get? x).getD Arithmetic.origin) c
  return { e with terms := e.terms.insert x sum }

/-- Multiplies the coefficients of a list of terms. -/
def scaleTerms (terms : OrderedMap ι α) (c : α) : Except Fault (OrderedMap ι α) :=
  terms.entries.foldlM
    (fun acc t => do return acc.insert t.1 (<- Arithmetic.mul t.2 c)) .empty

/-- The product with a number. -/
def scale (e : Expression ι α) (c : α) : Except Fault (Expression ι α) := do
  let terms <- scaleTerms e.terms c
  return ⟨terms, <- Arithmetic.mul e.constant c⟩

/-- The value under an assignment: the constant plus the sum of the terms in order. -/
def evaluate (e : Expression ι α) (values : ι -> Except Fault α) : Except Fault α := do
  let sum <- e.terms.entries.foldlM
    (fun acc t => do Arithmetic.add acc (<- Arithmetic.mul t.2 (<- values t.1)))
    (Arithmetic.ofCount 0)
  Arithmetic.add e.constant sum

end Expression

end ArcSelection
