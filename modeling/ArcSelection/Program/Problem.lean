import ArcSelection.Keyword
import ArcSelection.Program.Expression

/-!
# Linear and integer programs

A problem has variables with bounds, linear constraints and a linear objective that is
minimised or maximised.  A variable has an identity, by which expressions refer to it, and
a key, by which solutions give its value; for a problem compiled from a graph both are
the arc.
-/

namespace ArcSelection

/-- The domain of a variable within its bounds. -/
inductive VariableType where
  | integer
  | real
deriving DecidableEq, Inhabited

namespace VariableType

/-- The name of a domain. -/
def name : VariableType -> String
  | .integer => "INTEGER"
  | .real => "REAL"

end VariableType

/-- How an expression is compared with a bound. -/
inductive Relation where
  | atMost
  | atLeast
  | equal
deriving DecidableEq, Inhabited

namespace Relation

/-- The name of a relation. -/
def name : Relation -> String
  | .atMost => "LESS_EQUAL"
  | .atLeast => "GREATER_EQUAL"
  | .equal => "EQUAL"

end Relation

/-- The direction of optimisation. -/
inductive Sense where
  | minimize
  | maximize
deriving DecidableEq, Inhabited

namespace Sense

/-- The name of a direction. -/
def name : Sense -> String
  | .minimize => "MINIMIZE"
  | .maximize => "MAXIMIZE"

end Sense

/-- A decision variable. -/
structure Variable (κ α : Type) where
  key : κ
  type : VariableType
  lower : α
  upper : α

/-- An expression compared with a bound. -/
structure Constraint (ι α : Type) [BEq ι] where
  expression : Expression ι α
  relation : Relation
  bound : α

/-- A linear or integer program. -/
structure Problem (ι κ α : Type) [BEq ι] where
  unknowns : OrderedMap ι (Variable κ α)
  constraints : List (Constraint ι α)
  objective : Expression ι α
  sense : Sense

/-- The outcome of solving a problem: its type and, with a solution, the value of the
objective and the values of the variables by key. -/
structure Solution (κ α : Type) where
  type : SolutionType
  objective : Option α
  values : List (κ × α)

namespace Solution

variable {κ α : Type} [BEq κ] [Arithmetic α]

/-- An outcome without a solution. -/
def without (type : SolutionType) : Solution κ α := ⟨type, none, []⟩

/-- The value of a variable by key; zero if there is none. -/
def value (s : Solution κ α) (k : κ) : α :=
  match s.values.find? fun e => e.1 == k with
  | some e => e.2
  | none => Arithmetic.origin

end Solution

/-- The part of a solution with dynamic keys that speaks of arcs. -/
def Solution.onArcs {α : Type} (s : Solution Value α) : Solution Arc α :=
  ⟨s.type, s.objective, s.values.filterMap fun (k, v) => match k with
    | .arc a => some (a, v)
    | _ => none⟩

namespace Constraint

variable {ι α : Type} [BEq ι] [Arithmetic α]

/-- Whether a number stands in the relation to the bound. -/
def admits (relation : Relation) (x bound : α) : Except Fault Bool :=
  match relation with
  | .atMost => Arithmetic.atMost x bound
  | .atLeast => Arithmetic.atMost bound x
  | .equal => do
      return (<- Arithmetic.atMost x bound) && (<- Arithmetic.atMost bound x)

end Constraint

namespace Problem

variable {ι κ α : Type} [BEq ι] [Arithmetic α]

/-- The problem without variables. -/
def empty (sense : Sense) : Problem ι κ α := ⟨.empty, [], .zero, sense⟩

end Problem

end ArcSelection
