/-!
# Node and arc identifiers

A node and an arc are each known by an integer, and the two kinds never mix: a node
is never equal to an arc or to a bare integer.  The id zero stands for "absent".
No arithmetic is defined on identifiers.
-/

namespace ArcSelection

/-- A node of a graph, known by its id. -/
structure Node where
  id : Int
deriving DecidableEq, Inhabited

/-- An arc of a graph, known by its id.  Whether it behaves as a directed arc or as an
edge is decided by the graph, not by the identifier. -/
structure Arc where
  id : Int
deriving DecidableEq, Inhabited

namespace Node

/-- The absent node. -/
def absent : Node := ⟨0⟩

/-- Every id but zero names a possible node. -/
def isValid (n : Node) : Bool := n.id != 0

/-- The text of a node in messages. -/
def display (n : Node) : String :=
  if n.id = 0 then "Node(invalid)" else "Node(" ++ toString n.id ++ ")"

end Node

namespace Arc

/-- The absent arc. -/
def absent : Arc := ⟨0⟩

/-- Every id but zero names a possible arc. -/
def isValid (a : Arc) : Bool := a.id != 0

/-- The text of an arc in messages. -/
def display (a : Arc) : String :=
  if a.id = 0 then "Arc(invalid)" else "Arc(" ++ toString a.id ++ ")"

end Arc

end ArcSelection
