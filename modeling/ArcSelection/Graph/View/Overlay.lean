import ArcSelection.Attempt
import ArcSelection.Graph.Draw
import ArcSelection.Graph.Stored

/-!
# Overlays

An overlay adds nodes and arcs to a base graph without touching it.  Added arcs may join
nodes of the base; such an arc is hidden while one of its ends is missing.  Only what the
overlay owns can be deleted through it.
-/

namespace ArcSelection

/-- The data of an overlay: what it owns, and its arcs by each of their ends. -/
structure Overlay where
  nodes : OrderedSet Node
  arcs : OrderedMap Arc ArcRecord
  edges : OrderedSet Arc
  arcsAt : OrderedMap Node (OrderedSet Arc)
  properties : PropertyStore

namespace Overlay

/-- An overlay that adds nothing. -/
def empty : Overlay := ⟨.empty, .empty, .empty, .empty, .empty⟩

/-- Whether a node belongs to the overlay or the base. -/
def hasNode (o : Overlay) (base : Graph) (n : Node) : Bool :=
  o.nodes.contains n || base.hasNode n

/-- Whether both ends of a recorded arc are present. -/
def isAlive (o : Overlay) (base : Graph) (r : ArcRecord) : Bool :=
  o.hasNode base r.tail && o.hasNode base r.head

/-- Whether an arc is owned and both its ends are present. -/
def ownsAlive (o : Overlay) (base : Graph) (a : Arc) : Bool :=
  match o.arcs.get? a with
  | some r => o.isAlive base r
  | none => false

/-- The ends of owned arcs, and of the base's arcs otherwise. -/
def ends (o : Overlay) (base : Graph) : Ends where
  tail a := match o.arcs.get? a with
    | some r => r.tail
    | none => base.tail a
  head a := match o.arcs.get? a with
    | some r => r.head
    | none => base.head a
  isEdge a := if o.arcs.contains a then o.edges.contains a else base.isEdge a

/-- The owned arcs at a node, hidden ones included. -/
def ownAt (o : Overlay) (n : Node) : List Arc :=
  match o.arcsAt.get? n with
  | some as => as.keys
  | none => []

/-- The owned arcs that pass a filter of the whole graph and are not hidden. -/
def ownArcs (o : Overlay) (base : Graph) (f : ArcFilter) : List Arc :=
  (if f = .edge then o.edges.keys else o.arcs.keys).filter (o.ownsAlive base)

/-- The arcs at a node: the base's, then the owned ones in the order they were added. -/
def incidentArcs (o : Overlay) (base : Graph) (n : Node) (f : ArcFilter) : List Arc :=
  if o.hasNode base n then
    (if base.hasNode n then base.incidentArcs n f else []) ++
      (o.ownAt n).filter fun a => o.ownsAlive base a && (o.ends base).passes a n f
  else []

/-- The arcs between two nodes: the base's, then the owned ones. -/
def arcsBetween (o : Overlay) (base : Graph) (u v : Node) (f : ArcFilter) : List Arc :=
  if o.hasNode base u && o.hasNode base v then
    (if base.hasNode u && base.hasNode v then base.arcsBetween u v f else []) ++
      (o.ownAt u).filter fun a =>
        (o.ends base).joins a u v && (o.ends base).passes a u f
  else []

/-- The queries of the overlay over a base. -/
def graphOver (o : Overlay) (base : Graph) : Graph where
  toEnds := o.ends base
  hasNode := o.hasNode base
  hasArc a := match o.arcs.get? a with
    | some r => o.isAlive base r
    | none => base.hasArc a
  listNodes _ := base.nodes ++ o.nodes.keys
  allNodes test := base.allNodes test && o.nodes.keys.all test
  arcs f := base.arcs f ++ o.ownArcs base f
  incidentArcs := o.incidentArcs base
  arcsBetween := o.arcsBetween base
  nodeCount := base.nodeCount + o.nodes.size
  arcCount f := base.arcCount f + (o.ownArcs base f).length
  incidentArcCount n f := (o.incidentArcs base n f).length
  arcCountBetween u v f := (o.arcsBetween base u v f).length
  nodeProperties n := (o.properties.nodes.get? n).or (base.nodeProperties n)
  arcProperties a := (o.properties.arcs.get? a).or (base.arcProperties a)

/-- Whether an arc id is used by the overlay, hidden arcs included, or by the base. -/
def isArcTaken (o : Overlay) (base : Graph) (a : Arc) : Bool :=
  o.arcs.contains a || base.hasArc a

/-- Adds a node under a free id. -/
def putNode (o : Overlay) (n : Node) (properties : Option Properties) : Overlay :=
  { o with
    nodes := o.nodes.insert n ()
    properties := o.properties.attachNode n properties }

/-- Takes the first free draw for a node, or an explicit id, which must be free. -/
def claimNode (base : Graph) (draws : List Int) : Option Value -> Attempt Overlay (Node × List Int)
  | none => do
      let o <- get
      match allocate? (fun i => o.hasNode base ⟨i⟩) draws with
      | none => throw .noDrawsLeft
      | some r => return (⟨r.id⟩, r.rest)
  | some value =>
      match positiveId? value with
      | none => throw (.badOverlayId .node value)
      | some n => do
          if (<- get).hasNode base ⟨n⟩ then throw (.nodeInUse ⟨n⟩)
          return (⟨n⟩, draws)

/-- Attempts to add a node, under the given id if there is one and else under the first free
draw. -/
def tryAddNode (base : Graph) (draws : List Int) (id : Option Value)
    (properties : Option Properties) : Attempt Overlay (Node × List Int) := do
  let (n, rest) <- claimNode base draws id
  modify fun o => o.putNode n properties
  return (n, rest)

/-- Adds a node, under the given id if there is one and else under the first free draw. -/
def addNode (o : Overlay) (base : Graph) (draws : List Int) (id : Option Value)
    (properties : Option Properties) : Except Fault (Node × Overlay × List Int) :=
  ((tryAddNode base draws id properties).outcome o).map fun r => (r.1.1, r.2, r.1.2)

/-- Records an arc at one of its ends. -/
def index (m : OrderedMap Node (OrderedSet Arc)) (n : Node) (a : Arc) :
    OrderedMap Node (OrderedSet Arc) :=
  m.insert n (((m.get? n).getD .empty).insert a ())

/-- Forgets an arc at one of its ends, and the end with its last arc. -/
def unindex (m : OrderedMap Node (OrderedSet Arc)) (n : Node) (a : Arc) :
    OrderedMap Node (OrderedSet Arc) :=
  match m.get? n with
  | none => m
  | some as =>
      let rest := as.erase a
      if rest.isEmpty then m.erase n else m.insert n rest

/-- Adds an arc under a free id. -/
def putArc (o : Overlay) (a : Arc) (r : ArcRecord) (properties : Option Properties) :
    Overlay :=
  { o with
    arcs := o.arcs.insert a r
    edges := if r.isEdge then o.edges.insert a () else o.edges
    arcsAt := index (index o.arcsAt r.tail a) r.head a
    properties := o.properties.attachArc a properties }

/-- Takes the first free draw for an arc, or an explicit id, which must be free. -/
def claimArc (base : Graph) (draws : List Int) : Option Value -> Attempt Overlay (Arc × List Int)
  | none => do
      let o <- get
      match allocate? (fun i => o.isArcTaken base ⟨i⟩) draws with
      | none => throw .noDrawsLeft
      | some r => return (⟨r.id⟩, r.rest)
  | some value =>
      match positiveId? value with
      | none => throw (.badOverlayId .arc value)
      | some a => do
          if (<- get).isArcTaken base ⟨a⟩ then throw (.arcInUse ⟨a⟩)
          return (⟨a⟩, draws)

/-- Attempts to add an arc between nodes of the overlay or the base, under the given id if there
is one and else under the first free draw.  The ends are checked before the id. -/
def tryAddArc (base : Graph) (draws : List Int) (u v : Node) (direction : Directedness)
    (id : Option Value) (properties : Option Properties) : Attempt Overlay (Arc × List Int) := do
  if !(<- get).hasNode base u then throw (.noTail u)
  if !(<- get).hasNode base v then throw (.noHead v)
  let (a, rest) <- claimArc base draws id
  modify fun o => o.putArc a ⟨u, v, direction == .undirected⟩ properties
  return (a, rest)

/-- Adds an arc between nodes of the overlay or the base, under the given id if there is
one and else under the first free draw. -/
def addArc (o : Overlay) (base : Graph) (draws : List Int) (u v : Node)
    (direction : Directedness) (id : Option Value) (properties : Option Properties) :
    Except Fault (Arc × Overlay × List Int) :=
  ((tryAddArc base draws u v direction id properties).outcome o).map fun r =>
    (r.1.1, r.2, r.1.2)

/-- Removes an owned arc, and tells whether there was one. -/
def deleteArc (o : Overlay) (a : Arc) : Bool × Overlay :=
  match o.arcs.get? a with
  | none => (false, o)
  | some r =>
      (true,
        { o with
          arcs := o.arcs.erase a
          edges := o.edges.erase a
          arcsAt := unindex (unindex o.arcsAt r.tail a) r.head a
          properties := o.properties.setArc a none })

/-- Removes an owned node with the owned arcs at it, and tells whether there was one. -/
def deleteNode (o : Overlay) (n : Node) : Bool × Overlay :=
  if o.nodes.contains n then
    let bare := (o.ownAt n).foldl (fun p a => (p.deleteArc a).2) o
    (true,
      { bare with
        nodes := bare.nodes.erase n
        properties := bare.properties.setNode n none })
  else (false, o)

end Overlay

end ArcSelection
