import ArcSelection.Graph.Store
import ArcSelection.Proofs.Graph.Attempt

/-!
# Attempted changes of a store

What is attempted on one layer of a store does to the store what it does to the layer, and is
all or nothing as it is there.
-/

namespace ArcSelection

open Attempt

namespace Layer

variable (base : Graph) (draws : List Int) (id : Option Value) (properties : Option Properties)

/-- Nodes are added to stored graphs and overlays only. -/
theorem tryAddNode_apply (layer : Layer) :
    tryAddNode base draws id properties layer = settle layer (match layer with
      | .stored g => (g.addNode id properties).map fun r => ((r.1, draws), .stored r.2)
      | .overlay o b =>
          (o.addNode base draws id properties).map fun r => ((r.1, r.2.2), .overlay r.2.1 b)
      | _ => .error .unsupported) := by
  cases layer with
  | stored g =>
      simp only [tryAddNode, Attempt.on, bind, EStateM.bind, StoredGraph.addNode]
      rw [(StoredGraph.atomic_tryAddNode id properties).eq_settle g]
      cases (StoredGraph.tryAddNode id properties).outcome g <;> rfl
  | overlay o b =>
      simp only [tryAddNode, Attempt.on, Overlay.addNode]
      rw [(Overlay.atomic_tryAddNode base draws id properties).eq_settle o]
      cases (Overlay.tryAddNode base draws id properties).outcome o <;> rfl
  | _ => rfl

/-- Arcs are added to stored graphs and overlays only. -/
theorem tryAddArc_apply (u v : Node) (direction : Directedness) (layer : Layer) :
    tryAddArc base draws u v direction id properties layer = settle layer (match layer with
      | .stored g =>
          (g.addArc u v direction id properties).map fun r => ((r.1, draws), .stored r.2)
      | .overlay o b =>
          (o.addArc base draws u v direction id properties).map fun r =>
            ((r.1, r.2.2), .overlay r.2.1 b)
      | _ => .error .unsupported) := by
  cases layer with
  | stored g =>
      simp only [tryAddArc, Attempt.on, bind, EStateM.bind, StoredGraph.addArc]
      rw [(StoredGraph.atomic_tryAddArc id properties u v direction).eq_settle g]
      cases (StoredGraph.tryAddArc u v direction id properties).outcome g <;> rfl
  | overlay o b =>
      simp only [tryAddArc, Attempt.on, Overlay.addArc]
      rw [(Overlay.atomic_tryAddArc base draws id properties u v direction).eq_settle o]
      cases (Overlay.tryAddArc base draws u v direction id properties).outcome o <;> rfl
  | _ => rfl

/-- Arcs are switched in selections and matchings only. -/
theorem tryEnable_apply (a : Arc) (on : Bool) (layer : Layer) :
    tryEnable base a on layer = settle layer (match layer with
      | .selection view b => .ok ((), .selection (view.enable a on) b)
      | .matching view b =>
          ((Matching.trySwitch base a on).outcome view).map fun r => ((), .matching r.2 b)
      | _ => .error .unsupported) := by
  cases layer with
  | matching view b =>
      simp only [tryEnable, Attempt.on]
      rw [(Matching.atomic_trySwitch base a on).eq_settle view]
      cases (Matching.trySwitch base a on).outcome view <;> rfl
  | _ => rfl

/-- A refused node leaves the layer as it was. -/
theorem atomic_tryAddNode : (tryAddNode base draws id properties).Atomic :=
  atomic_of_settle fun layer => ⟨_, tryAddNode_apply base draws id properties layer⟩

/-- A refused arc leaves the layer as it was. -/
theorem atomic_tryAddArc (u v : Node) (direction : Directedness) :
    (tryAddArc base draws u v direction id properties).Atomic :=
  atomic_of_settle fun layer => ⟨_, tryAddArc_apply base draws id properties u v direction layer⟩

/-- A refused switch leaves the layer as it was. -/
theorem atomic_tryEnable (a : Arc) (on : Bool) : (tryEnable base a on).Atomic :=
  atomic_of_settle fun layer => ⟨_, tryEnable_apply base a on layer⟩

/-- A refused deletion of a node leaves the layer as it was. -/
theorem atomic_tryDeleteNode (n : Node) : (tryDeleteNode n).Atomic := by
  intro layer fault layer' refused
  cases layer <;> cases refused <;> rfl

/-- A refused deletion of an arc leaves the layer as it was. -/
theorem atomic_tryDeleteArc (a : Arc) : (tryDeleteArc a).Atomic := by
  intro layer fault layer' refused
  cases layer <;> cases refused <;> rfl

theorem atomic_tryClear : tryClear.Atomic := by
  intro layer fault layer' refused
  cases layer <;> cases refused <;> rfl

/-- A refused change of properties leaves the layer as it was. -/
theorem atomic_tryModifyProperties (f : PropertyStore → PropertyStore) :
    (tryModifyProperties f).Atomic := by
  intro layer fault layer' refused
  cases layer <;> cases refused <;> rfl

end Layer

namespace Store

variable {α : Type} (s : Store) (i : Nat)

/-- Putting the layer that is there changes nothing. -/
theorem set_eq_self {s : Store} {i : Nat} {layer : Layer} (found : s.layers[i]? = some layer) :
    s.set i layer = s := by
  obtain ⟨inside, rfl⟩ := List.getElem?_eq_some_iff.mp found
  rw [set, List.set_getElem_self]

/-- What is attempted within a store has the outcome that it has on the layer alone. -/
theorem outcome_within (change : Graph → Attempt Layer α) :
    (within i change).outcome s = match s.layers[i]? with
      | none => .error .unsupported
      | some layer =>
          ((change (s.baseGraph i)).outcome layer).map fun r => (r.1, s.set i r.2) := by
  cases found : s.layers[i]? with
  | none => simp [outcome, within, found]
  | some layer =>
      simp only [outcome, within, found, Attempt.on]
      cases change (s.baseGraph i) layer <;> rfl

/-- What is atomic on a layer is atomic within a store. -/
theorem atomic_within {change : Graph → Attempt Layer α} (atomic : ∀ base, (change base).Atomic) :
    (within i change).Atomic := by
  refine atomic_of_settle fun s => ?_
  unfold within
  cases found : s.layers[i]? with
  | none => exact ⟨.error .unsupported, rfl⟩
  | some layer => exact ⟨_, (atomic (s.baseGraph i)).on_eq (set_eq_self found)⟩

variable (draws : List Int) (id : Option Value) (properties : Option Properties)

/-- Adding a node is adding it to the layer at the position. -/
theorem addNode_eq : s.addNode i draws id properties = match s.layers[i]? with
    | some (.stored g) => do
        let (n, g) <- g.addNode id properties
        return (n, s.set i (.stored g), draws)
    | some (.overlay o b) => do
        let (n, o, draws) <- o.addNode (s.baseGraph i) draws id properties
        return (n, s.set i (.overlay o b), draws)
    | _ => .error .unsupported := by
  rw [addNode, tryAddNode, outcome_within]
  cases s.layers[i]? with
  | none => rfl
  | some layer =>
      simp only [outcome_of_settle (Layer.tryAddNode_apply ..)]
      cases layer with
      | stored g => dsimp only; cases g.addNode id properties <;> rfl
      | overlay o b =>
          dsimp only
          cases o.addNode (s.baseGraph i) draws id properties <;> rfl
      | _ => rfl

/-- Adding an arc is adding it to the layer at the position. -/
theorem addArc_eq (u v : Node) (direction : Directedness) :
    s.addArc i draws u v direction id properties = match s.layers[i]? with
    | some (.stored g) => do
        let (a, g) <- g.addArc u v direction id properties
        return (a, s.set i (.stored g), draws)
    | some (.overlay o b) => do
        let (a, o, draws) <- o.addArc (s.baseGraph i) draws u v direction id properties
        return (a, s.set i (.overlay o b), draws)
    | _ => .error .unsupported := by
  rw [addArc, tryAddArc, outcome_within]
  cases s.layers[i]? with
  | none => rfl
  | some layer =>
      simp only [outcome_of_settle (Layer.tryAddArc_apply ..)]
      cases layer with
      | stored g => dsimp only; cases g.addArc u v direction id properties <;> rfl
      | overlay o b =>
          dsimp only
          cases o.addArc (s.baseGraph i) draws u v direction id properties <;> rfl
      | _ => rfl

/-- Deleting a node is deleting it from the layer at the position. -/
theorem deleteNode_eq (n : Node) : s.deleteNode i n = match s.layers[i]? with
    | some (.stored g) => .ok ((g.deleteNode n).1, s.set i (.stored (g.deleteNode n).2))
    | some (.overlay o b) => .ok ((o.deleteNode n).1, s.set i (.overlay (o.deleteNode n).2 b))
    | _ => .error .unsupported := by
  rw [deleteNode, tryDeleteNode, outcome_within]
  cases s.layers[i]? with
  | none => rfl
  | some layer => cases layer <;> rfl

/-- Deleting an arc is deleting it from the layer at the position. -/
theorem deleteArc_eq (a : Arc) : s.deleteArc i a = match s.layers[i]? with
    | some (.stored g) => .ok ((g.deleteArc a).1, s.set i (.stored (g.deleteArc a).2))
    | some (.overlay o b) => .ok ((o.deleteArc a).1, s.set i (.overlay (o.deleteArc a).2 b))
    | _ => .error .unsupported := by
  rw [deleteArc, tryDeleteArc, outcome_within]
  cases s.layers[i]? with
  | none => rfl
  | some layer => cases layer <;> rfl

/-- Clearing is clearing the layer at the position. -/
theorem clear_eq : s.clear i = match s.layers[i]? with
    | some (.stored g) => .ok (s.set i (.stored g.clear))
    | some (.overlay _ b) => .ok (s.set i (.overlay .empty b))
    | _ => .error .unsupported := by
  rw [clear, tryClear, outcome_within]
  cases s.layers[i]? with
  | none => rfl
  | some layer => cases layer <;> rfl

/-- Switching an arc is switching it in the layer at the position. -/
theorem enable_eq (a : Arc) (on : Bool) : s.enable i a on = match s.layers[i]? with
    | some (.selection view b) => .ok (s.set i (.selection (view.enable a on) b))
    | some (.matching view b) =>
        if on then do
          let view <- view.enable (s.baseGraph i) a
          return s.set i (.matching view b)
        else .ok (s.set i (.matching (view.disable (s.baseGraph i) a) b))
    | _ => .error .unsupported := by
  rw [enable, tryEnable, outcome_within]
  cases s.layers[i]? with
  | none => rfl
  | some layer =>
      simp only [outcome_of_settle (Layer.tryEnable_apply ..)]
      cases layer with
      | matching view b =>
          cases on with
          | false => rfl
          | true =>
              simp only [Matching.trySwitch, Matching.enable, if_true]
              cases (Matching.tryEnable (s.baseGraph i) a).outcome view <;> rfl
      | _ => rfl

/-- A refused node leaves the store as it was. -/
theorem atomic_tryAddNode : (tryAddNode i draws id properties).Atomic :=
  atomic_within i fun base => Layer.atomic_tryAddNode base draws id properties

/-- A refused arc leaves the store as it was. -/
theorem atomic_tryAddArc (u v : Node) (direction : Directedness) :
    (tryAddArc i draws u v direction id properties).Atomic :=
  atomic_within i fun base => Layer.atomic_tryAddArc base draws id properties u v direction

/-- A refused deletion of a node leaves the store as it was. -/
theorem atomic_tryDeleteNode (n : Node) : (tryDeleteNode i n).Atomic :=
  atomic_within i fun _ => Layer.atomic_tryDeleteNode n

/-- A refused deletion of an arc leaves the store as it was. -/
theorem atomic_tryDeleteArc (a : Arc) : (tryDeleteArc i a).Atomic :=
  atomic_within i fun _ => Layer.atomic_tryDeleteArc a

theorem atomic_tryClear : (tryClear i).Atomic := atomic_within i fun _ => Layer.atomic_tryClear

/-- A refused switch leaves the store as it was. -/
theorem atomic_tryEnable (a : Arc) (on : Bool) : (tryEnable i a on).Atomic :=
  atomic_within i fun base => Layer.atomic_tryEnable base a on

/-- The store with changed properties of the graph at a position, if that keeps properties. -/
def modifyProperties (f : PropertyStore → PropertyStore) : Except Fault Store :=
  match s.layers[i]? with
  | some (.stored g) => .ok (s.set i (.stored { g with properties := f g.properties }))
  | some (.complete g) => .ok (s.set i (.complete { g with properties := f g.properties }))
  | some (.undirected view b) =>
      .ok (s.set i (.undirected { view with properties := f view.properties } b))
  | some (.overlay view b) =>
      .ok (s.set i (.overlay { view with properties := f view.properties } b))
  | some _ => .error .readOnlyView
  | none => .error .unsupported

/-- A change of properties within the store is that of the layer at the position. -/
theorem within_tryModifyProperties_apply (f : PropertyStore → PropertyStore) :
    within i (fun _ => Layer.tryModifyProperties f) s =
      settle s ((s.modifyProperties i f).map fun next => ((), next)) := by
  have atomic := atomic_within i fun _ : Graph => Layer.atomic_tryModifyProperties f
  rw [atomic.eq_settle, outcome_within, modifyProperties]
  cases s.layers[i]? with
  | none => rfl
  | some layer => cases layer <;> rfl

/-- Properties of a node are written after the node has been found. -/
theorem trySetNodeProperties_apply (n : Node) :
    trySetNodeProperties i n properties s = settle s (
      if s.isReadOnly i then .error .readOnlyView
      else if !(s.graph i).hasNode n then .error (.foreignNode n)
      else (s.modifyProperties i fun p => p.setNode n properties).map fun next => ((), next)) := by
  simp only [trySetNodeProperties, get_bind_apply, check_apply]
  cases s.isReadOnly i with
  | true => rfl
  | false =>
      cases (s.graph i).hasNode n with
      | false => rfl
      | true => exact s.within_tryModifyProperties_apply i _

/-- Properties of an arc are written after the arc has been found. -/
theorem trySetArcProperties_apply (a : Arc) :
    trySetArcProperties i a properties s = settle s (
      if s.isReadOnly i then .error .readOnlyView
      else if !(s.graph i).hasArc a then .error (.foreignArc a)
      else (s.modifyProperties i fun p => p.setArc a properties).map fun next => ((), next)) := by
  simp only [trySetArcProperties, get_bind_apply, check_apply]
  cases s.isReadOnly i with
  | true => rfl
  | false =>
      cases (s.graph i).hasArc a with
      | false => rfl
      | true => exact s.within_tryModifyProperties_apply i _

/-- Properties are set for a node that is there, unless the layer is read-only. -/
theorem setNodeProperties_eq (n : Node) : s.setNodeProperties i n properties =
    if s.isReadOnly i then .error .readOnlyView
    else if !(s.graph i).hasNode n then .error (.foreignNode n)
    else s.modifyProperties i fun p => p.setNode n properties := by
  rw [setNodeProperties, outcome_of_settle (s.trySetNodeProperties_apply i properties n)]
  split
  · rfl
  · split
    · rfl
    · cases s.modifyProperties i fun p => p.setNode n properties <;> rfl

/-- Properties are set for an arc that is there, unless the layer is read-only. -/
theorem setArcProperties_eq (a : Arc) : s.setArcProperties i a properties =
    if s.isReadOnly i then .error .readOnlyView
    else if !(s.graph i).hasArc a then .error (.foreignArc a)
    else s.modifyProperties i fun p => p.setArc a properties := by
  rw [setArcProperties, outcome_of_settle (s.trySetArcProperties_apply i properties a)]
  split
  · rfl
  · split
    · rfl
    · cases s.modifyProperties i fun p => p.setArc a properties <;> rfl

end Store

end ArcSelection
