import ArcSelection.Attempt
import ArcSelection.Graph.View.Selection

/-!
# Matchings

A matching is a selection in which every node touches at most one visible arc.  It keeps
an index from each matched node to its arc; an entry whose arc has left the base is not
seen.
-/

namespace ArcSelection

/-- The data of a matching: its selection and its index of matched nodes. -/
structure Matching where
  selection : Selection
  matched : OrderedMap Node Arc

namespace Matching

/-- The matching without arcs. -/
def empty : Matching := ⟨.empty, .empty⟩

/-- The visible arc at a node, as far as the index knows. -/
def matchedArc? (m : Matching) (base : Graph) (n : Node) : Option Arc :=
  (m.matched.get? n).filter base.hasArc

/-- Forgets the arc of a node if it is the given one. -/
def forget (matched : OrderedMap Node Arc) (n : Node) (a : Arc) : OrderedMap Node Arc :=
  if matched.get? n == some a then matched.erase n else matched

/-- Removes an arc. -/
def disable (m : Matching) (base : Graph) (a : Arc) : Matching :=
  if m.selection.isEnabled a then
    { selection := m.selection.enable a false
      matched := forget (forget m.matched (base.tail a) a) (base.head a) a }
  else m

/-- The reason why an arc of the base cannot join the matching. -/
def conflict? (m : Matching) (base : Graph) (a : Arc) : Option Fault :=
  if base.tail a = base.head a then some (.loopInMatching a)
  else
    [base.tail a, base.head a].findSome? fun n =>
      (m.matchedArc? base n).map fun other => .alreadyMatched n other

/-- Attempts to add an arc.  It must belong to the base, not be a loop, and have free ends; an
arc that is already on is left alone. -/
def tryEnable (base : Graph) (a : Arc) : Attempt Matching Unit := do
  let m <- get
  if m.selection.isEnabled a then return
  if !base.hasArc a then throw (.notInBase a)
  if let some fault := m.conflict? base a then throw fault
  modify fun m => { m with selection := m.selection.enable a true }
  modify fun m => { m with matched := m.matched.insert (base.tail a) a }
  modify fun m => { m with matched := m.matched.insert (base.head a) a }

/-- Attempts to switch an arc on or off. -/
def trySwitch (base : Graph) (a : Arc) (on : Bool) : Attempt Matching Unit :=
  if on then tryEnable base a else modify fun m => m.disable base a

/-- Adds an arc, unless that is refused. -/
def enable (m : Matching) (base : Graph) (a : Arc) : Except Fault Matching :=
  ((tryEnable base a).outcome m).map (·.2)

/-- The arc at a node if it passes a filter there, found through the index. -/
def incidentArcs (m : Matching) (base : Graph) (n : Node) (f : ArcFilter) : List Arc :=
  match m.matchedArc? base n with
  | some a => if base.passes a n f then [a] else []
  | none => []

/-- Whether every node of the base is matched. -/
def isPerfect (m : Matching) (base : Graph) : Bool :=
  base.allNodes fun n => (m.matchedArc? base n).isSome

/-- The queries of the matching over a base. -/
def graphOver (m : Matching) (base : Graph) : Graph :=
  { m.selection.graphOver base with
    incidentArcs := m.incidentArcs base
    incidentArcCount := fun n f => (m.incidentArcs base n f).length }

end Matching

end ArcSelection
