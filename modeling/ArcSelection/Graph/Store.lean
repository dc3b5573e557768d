import ArcSelection.Graph.Complete
import ArcSelection.Graph.View.Matching
import ArcSelection.Graph.View.Overlay
import ArcSelection.Graph.View.Undirected

/-!
# Stacks of graphs

A store holds graphs that look at each other.  Each layer is a stored graph, a complete
graph, or a view over an earlier layer; several views may share a base.  The queries of a
layer are computed from the present state of the layers below, so a view sees every later
change of its base.
-/

namespace ArcSelection

/-- One graph of a store. -/
inductive Layer where
  | stored (g : StoredGraph)
  | complete (g : CompleteGraph)
  | undirected (view : UndirectedView) (base : Nat)
  | overlay (view : Overlay) (base : Nat)
  | selection (view : Selection) (base : Nat)
  | matching (view : Matching) (base : Nat)

namespace Layer

/-- The layer a view looks at. -/
def base? : Layer -> Option Nat
  | .stored _ | .complete _ => none
  | .undirected _ base | .overlay _ base | .selection _ base | .matching _ base => some base

/-- The queries of a layer, from those of its base. -/
def graph (layer : Layer) (base : Graph) : Graph :=
  match layer with
  | .stored g => g.graph
  | .complete g => g.graph
  | .undirected view _ => view.graphOver base
  | .overlay view _ => view.graphOver base
  | .selection view _ => view.graphOver base
  | .matching view _ => view.graphOver base

/-- Attempts to add a node to a layer, from the queries of its base. -/
def tryAddNode (base : Graph) (draws : List Int) (id : Option Value)
    (properties : Option Properties) : Attempt Layer (Node × List Int) := fun
  | .stored g => (do return (<- StoredGraph.tryAddNode id properties, draws)).on g .stored
  | .overlay o b => (Overlay.tryAddNode base draws id properties).on o (.overlay · b)
  | layer => .error .unsupported layer

/-- Attempts to add an arc to a layer. -/
def tryAddArc (base : Graph) (draws : List Int) (u v : Node) (direction : Directedness)
    (id : Option Value) (properties : Option Properties) : Attempt Layer (Arc × List Int) := fun
  | .stored g =>
      (do return (<- StoredGraph.tryAddArc u v direction id properties, draws)).on g .stored
  | .overlay o b =>
      (Overlay.tryAddArc base draws u v direction id properties).on o (.overlay · b)
  | layer => .error .unsupported layer

/-- Attempts to delete a node of a layer, and tells whether it was there. -/
def tryDeleteNode (n : Node) : Attempt Layer Bool := fun
  | .stored g => .ok (g.deleteNode n).1 (.stored (g.deleteNode n).2)
  | .overlay o b => .ok (o.deleteNode n).1 (.overlay (o.deleteNode n).2 b)
  | layer => .error .unsupported layer

/-- Attempts to delete an arc of a layer, and tells whether it was there. -/
def tryDeleteArc (a : Arc) : Attempt Layer Bool := fun
  | .stored g => .ok (g.deleteArc a).1 (.stored (g.deleteArc a).2)
  | .overlay o b => .ok (o.deleteArc a).1 (.overlay (o.deleteArc a).2 b)
  | layer => .error .unsupported layer

/-- Attempts to remove everything a layer owns. -/
def tryClear : Attempt Layer Unit := fun
  | .stored g => .ok () (.stored g.clear)
  | .overlay _ b => .ok () (.overlay .empty b)
  | layer => .error .unsupported layer

/-- Attempts to switch an arc of a selection or matching on or off. -/
def tryEnable (base : Graph) (a : Arc) (on : Bool) : Attempt Layer Unit := fun
  | .selection view b => .ok () (.selection (view.enable a on) b)
  | .matching view b => (Matching.trySwitch base a on).on view (.matching · b)
  | layer => .error .unsupported layer

/-- Attempts to change the properties a layer keeps itself. -/
def tryModifyProperties (f : PropertyStore -> PropertyStore) : Attempt Layer Unit := fun
  | .stored g => .ok () (.stored { g with properties := f g.properties })
  | .complete g => .ok () (.complete { g with properties := f g.properties })
  | .undirected view b => .ok () (.undirected { view with properties := f view.properties } b)
  | .overlay view b => .ok () (.overlay { view with properties := f view.properties } b)
  | layer => .error .readOnlyView layer

end Layer

/-- Layers by position.  A view looks at an earlier position. -/
structure Store where
  layers : List Layer

namespace Store

variable {α : Type}

/-- The store without layers. -/
def empty : Store := ⟨[]⟩

/-- The queries of the graph at a position; the empty graph if there is none. -/
def graph (s : Store) (i : Nat) : Graph :=
  match s.layers[i]? with
  | none => StoredGraph.empty.graph
  | some layer =>
      match layer.base? with
      | none => layer.graph StoredGraph.empty.graph
      | some b => if b < i then layer.graph (s.graph b) else StoredGraph.empty.graph
termination_by i

/-- The queries of the base of the graph at a position. -/
def baseGraph (s : Store) (i : Nat) : Graph :=
  match s.layers[i]? with
  | none => StoredGraph.empty.graph
  | some layer =>
      match layer.base? with
      | none => StoredGraph.empty.graph
      | some b => if b < i then s.graph b else StoredGraph.empty.graph

/-- Adds a layer and returns its position. -/
def add (s : Store) (layer : Layer) : Nat × Store :=
  (s.layers.length, ⟨s.layers ++ [layer]⟩)

/-- Replaces the layer at a position. -/
def set (s : Store) (i : Nat) (layer : Layer) : Store := ⟨s.layers.set i layer⟩

/-- Attempts a change of the layer at a position, from the queries of its base. -/
def within (i : Nat) (change : Graph -> Attempt Layer α) : Attempt Store α := fun s =>
  match s.layers[i]? with
  | none => .error .unsupported s
  | some layer => (change (s.baseGraph i)).on layer (s.set i)

/-- Attempts to add a node to the graph at a position. -/
def tryAddNode (i : Nat) (draws : List Int) (id : Option Value)
    (properties : Option Properties) : Attempt Store (Node × List Int) :=
  within i fun base => Layer.tryAddNode base draws id properties

/-- Attempts to add an arc to the graph at a position. -/
def tryAddArc (i : Nat) (draws : List Int) (u v : Node) (direction : Directedness)
    (id : Option Value) (properties : Option Properties) : Attempt Store (Arc × List Int) :=
  within i fun base => Layer.tryAddArc base draws u v direction id properties

/-- Attempts to delete a node of the graph at a position, and tells whether it was there. -/
def tryDeleteNode (i : Nat) (n : Node) : Attempt Store Bool :=
  within i fun _ => Layer.tryDeleteNode n

/-- Attempts to delete an arc of the graph at a position, and tells whether it was there. -/
def tryDeleteArc (i : Nat) (a : Arc) : Attempt Store Bool :=
  within i fun _ => Layer.tryDeleteArc a

/-- Attempts to remove everything the graph at a position owns. -/
def tryClear (i : Nat) : Attempt Store Unit := within i fun _ => Layer.tryClear

/-- Attempts to switch an arc of a selection or matching on or off. -/
def tryEnable (i : Nat) (a : Arc) (on : Bool) : Attempt Store Unit :=
  within i fun base => Layer.tryEnable base a on

/-- Adds a node to the graph at a position. -/
def addNode (s : Store) (i : Nat) (draws : List Int) (id : Option Value)
    (properties : Option Properties) : Except Fault (Node × Store × List Int) :=
  ((tryAddNode i draws id properties).outcome s).map fun r => (r.1.1, r.2, r.1.2)

/-- Adds an arc to the graph at a position. -/
def addArc (s : Store) (i : Nat) (draws : List Int) (u v : Node) (direction : Directedness)
    (id : Option Value) (properties : Option Properties) :
    Except Fault (Arc × Store × List Int) :=
  ((tryAddArc i draws u v direction id properties).outcome s).map fun r => (r.1.1, r.2, r.1.2)

/-- Deletes a node of the graph at a position, and tells whether it was there. -/
def deleteNode (s : Store) (i : Nat) (n : Node) : Except Fault (Bool × Store) :=
  (tryDeleteNode i n).outcome s

/-- Deletes an arc of the graph at a position, and tells whether it was there. -/
def deleteArc (s : Store) (i : Nat) (a : Arc) : Except Fault (Bool × Store) :=
  (tryDeleteArc i a).outcome s

/-- Removes everything the graph at a position owns. -/
def clear (s : Store) (i : Nat) : Except Fault Store := ((tryClear i).outcome s).map (·.2)

/-- Switches an arc of a selection or matching on or off. -/
def enable (s : Store) (i : Nat) (a : Arc) (on : Bool) : Except Fault Store :=
  ((tryEnable i a on).outcome s).map (·.2)

/-- Whether an arc of a selection or matching is switched on. -/
def isEnabled (s : Store) (i : Nat) (a : Arc) : Except Fault Bool :=
  match s.layers[i]? with
  | some (.selection view _) => .ok (view.isEnabled a)
  | some (.matching view _) => .ok (view.selection.isEnabled a)
  | _ => .error .unsupported

/-- The arc a matching gives a node. -/
def matchedArc (s : Store) (i : Nat) (n : Node) : Except Fault (Option Arc) :=
  match s.layers[i]? with
  | some (.matching view _) => .ok (view.matchedArc? (s.baseGraph i) n)
  | _ => .error .unsupported

/-- Whether a matching matches every node. -/
def isPerfect (s : Store) (i : Nat) : Except Fault Bool :=
  match s.layers[i]? with
  | some (.matching view _) => .ok (view.isPerfect (s.baseGraph i))
  | _ => .error .unsupported

/-- The complete graph at a position. -/
def completeAt (s : Store) (i : Nat) : Except Fault CompleteGraph :=
  match s.layers[i]? with
  | some (.complete g) => .ok g
  | _ => .error .unsupported

/-- Whether the graph at a position leaves its properties to its base. -/
def isReadOnly (s : Store) (i : Nat) : Bool :=
  match s.layers[i]? with
  | some (.selection _ _) | some (.matching _ _) => true
  | _ => false

/-- Attempts to attach a property map to a node of the graph at a position, or to detach it. -/
def trySetNodeProperties (i : Nat) (n : Node) (properties : Option Properties) :
    Attempt Store Unit := do
  if (<- get).isReadOnly i then throw .readOnlyView
  if !((<- get).graph i).hasNode n then throw (.foreignNode n)
  within i fun _ => Layer.tryModifyProperties fun p => p.setNode n properties

/-- Attempts to attach a property map to an arc of the graph at a position, or to detach it. -/
def trySetArcProperties (i : Nat) (a : Arc) (properties : Option Properties) :
    Attempt Store Unit := do
  if (<- get).isReadOnly i then throw .readOnlyView
  if !((<- get).graph i).hasArc a then throw (.foreignArc a)
  within i fun _ => Layer.tryModifyProperties fun p => p.setArc a properties

/-- Attaches a property map to a node of the graph at a position, or detaches it. -/
def setNodeProperties (s : Store) (i : Nat) (n : Node) (properties : Option Properties) :
    Except Fault Store :=
  ((trySetNodeProperties i n properties).outcome s).map (·.2)

/-- Attaches a property map to an arc of the graph at a position, or detaches it. -/
def setArcProperties (s : Store) (i : Nat) (a : Arc) (properties : Option Properties) :
    Except Fault Store :=
  ((trySetArcProperties i a properties).outcome s).map (·.2)

end Store

end ArcSelection
