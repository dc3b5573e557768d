import ArcSelection.Fault
import ArcSelection.Text.Blank
import ArcSelection.Text.Letter

/-!
# Keywords

The closed choices of the library: the direction of a new arc, the filter of a query, the
outcome of a solver and the shape of a drawn node.  Each has a name and a code, and is
read from text without regard to case or surrounding blanks.
-/

namespace ArcSelection

/-- Finds the keyword written by a text, among `all` by `name` after mapping the text. -/
def findKeyword {α : Type} (all : List α) (name : α -> String) (map : String -> String)
    (text : String) : Option α :=
  let wanted := map (Text.trim text)
  all.find? fun k => name k == wanted

/-- Whether a new arc is directed or behaves as an edge. -/
inductive Directedness where
  | directed
  | undirected
deriving DecidableEq, Inhabited

namespace Directedness

/-- Every choice, in the order of the codes. -/
def all : List Directedness := [.directed, .undirected]

/-- The name of a choice. -/
def name : Directedness -> String
  | .directed => "DIRECTED"
  | .undirected => "UNDIRECTED"

/-- The code of a choice. -/
def code : Directedness -> Nat
  | .directed => 1
  | .undirected => 2

/-- Reads a choice from its name. -/
def read (text : String) : Except Fault Directedness :=
  match findKeyword all name Text.upper text with
  | some k => .ok k
  | none => .error (.unknownKeyword "Directedness" text (all.map name))

end Directedness

/-- Which arcs a query wants to see.  The filter belongs to the query: edges pass every
filter, a directed arc passes `forward` at its tail and `backward` at its head. -/
inductive ArcFilter where
  | all
  | edge
  | forward
  | backward
deriving DecidableEq, Inhabited

namespace ArcFilter

/-- Every filter, in the order of the codes. -/
def choices : List ArcFilter := [.all, .edge, .forward, .backward]

/-- The name of a filter. -/
def name : ArcFilter -> String
  | .all => "ALL"
  | .edge => "EDGE"
  | .forward => "FORWARD"
  | .backward => "BACKWARD"

/-- The code of a filter. -/
def code : ArcFilter -> Nat
  | .all => 1
  | .edge => 2
  | .forward => 3
  | .backward => 4

/-- Reads a filter from its name. -/
def read (text : String) : Except Fault ArcFilter :=
  match findKeyword choices name Text.upper text with
  | some k => .ok k
  | none => .error (.unknownKeyword "ArcFilter" text (choices.map name))

end ArcFilter

/-- How the attempt to solve a problem ended. -/
inductive SolutionType where
  /-- No assignment satisfies the problem. -/
  | infeasible
  /-- The objective has no bound. -/
  | unbounded
  /-- Values that satisfy the problem but are not known to be the best. -/
  | feasible
  /-- Values that satisfy the problem and are the best. -/
  | optimal
deriving DecidableEq, Inhabited

namespace SolutionType

/-- Every outcome, in the order of the codes. -/
def all : List SolutionType := [.infeasible, .unbounded, .feasible, .optimal]

/-- The name of an outcome. -/
def name : SolutionType -> String
  | .infeasible => "INFEASIBLE"
  | .unbounded => "UNBOUNDED"
  | .feasible => "FEASIBLE"
  | .optimal => "OPTIMAL"

/-- The code of an outcome. -/
def code : SolutionType -> Nat
  | .infeasible => 1
  | .unbounded => 2
  | .feasible => 3
  | .optimal => 4

/-- Only feasible and optimal outcomes come with values. -/
def hasSolution : SolutionType -> Bool
  | .feasible | .optimal => true
  | .infeasible | .unbounded => false

/-- Reads an outcome from its name. -/
def read (text : String) : Except Fault SolutionType :=
  match findKeyword all name Text.upper text with
  | some k => .ok k
  | none => .error (.unknownKeyword "SolutionType" text (all.map name))

end SolutionType

/-- The shapes that diagram editors draw nodes in. -/
inductive NodeShape where
  | rectangle
  | roundRectangle
  | ellipse
  | parallelogram
  | hexagon
  | triangle
  | rectangle3d
  | octagon
  | diamond
  | trapezoid
  | trapezoid2
deriving DecidableEq, Inhabited

namespace NodeShape

/-- Every shape, in the order they are listed to users. -/
def all : List NodeShape :=
  [.rectangle, .roundRectangle, .ellipse, .parallelogram, .hexagon, .triangle,
   .rectangle3d, .octagon, .diamond, .trapezoid, .trapezoid2]

/-- The name of a shape. -/
def name : NodeShape -> String
  | .rectangle => "RECTANGLE"
  | .roundRectangle => "ROUND_RECTANGLE"
  | .ellipse => "ELLIPSE"
  | .parallelogram => "PARALLELOGRAM"
  | .hexagon => "HEXAGON"
  | .triangle => "TRIANGLE"
  | .rectangle3d => "RECTANGLE_3D"
  | .octagon => "OCTAGON"
  | .diamond => "DIAMOND"
  | .trapezoid => "TRAPEZOID"
  | .trapezoid2 => "TRAPEZOID_2"

/-- The word for a shape in graph files. -/
def word : NodeShape -> String
  | .rectangle => "rectangle"
  | .roundRectangle => "roundrectangle"
  | .ellipse => "ellipse"
  | .parallelogram => "parallelogram"
  | .hexagon => "hexagon"
  | .triangle => "triangle"
  | .rectangle3d => "rectangle3d"
  | .octagon => "octagon"
  | .diamond => "diamond"
  | .trapezoid => "trapezoid"
  | .trapezoid2 => "trapezoid2"

/-- The shape whose word is exactly the text. -/
def ofWord (text : String) : Except Fault NodeShape :=
  match all.find? fun s => s.word == text with
  | some s => .ok s
  | none => .error (.notShape text)

/-- Reads a shape from its word. -/
def read (text : String) : Except Fault NodeShape :=
  match findKeyword all word Text.lower text with
  | some k => .ok k
  | none => .error (.unknownShape text (all.map word))

end NodeShape

end ArcSelection
