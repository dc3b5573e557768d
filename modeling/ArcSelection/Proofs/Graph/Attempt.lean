import ArcSelection.Graph.Stored
import ArcSelection.Graph.View.Matching
import ArcSelection.Graph.View.Overlay
import ArcSelection.Proofs.Attempt

/-!
# Attempted changes of graphs

What a call that can be refused does to a graph or a view, with each refusal in its place.  No
refusal comes after a write, so every such call is all or nothing.
-/

namespace ArcSelection

open Attempt

namespace StoredGraph

variable (g : StoredGraph) (id : Option Value) (properties : Option Properties)

/-- A node is written after its id has been accepted. -/
theorem tryAddNode_apply : tryAddNode id properties g = settle g (match id with
    | none => .ok (g.pushNode properties)
    | some value =>
        match positiveId? value with
        | none => .error (.badId .node value)
        | some n =>
            if g.nodes.contains ⟨n⟩ then .error (.nodeInUse ⟨n⟩)
            else .ok (⟨n⟩, g.putNode ⟨n⟩ properties)) := by
  cases id with
  | none => rfl
  | some value =>
      cases positive : positiveId? value with
      | none => simp only [tryAddNode, claimNode, positive, throw_bind_apply, settle]
      | some n =>
          simp only [tryAddNode, claimNode, positive, bind_assoc, get_bind_apply]
          cases g.nodes.contains ⟨n⟩ <;> rfl

/-- A node is added under its id, if that is free, or under the next free one. -/
theorem addNode_eq : g.addNode id properties = match id with
    | none => .ok (g.pushNode properties)
    | some value =>
        match positiveId? value with
        | none => .error (.badId .node value)
        | some n =>
            if g.nodes.contains ⟨n⟩ then .error (.nodeInUse ⟨n⟩)
            else .ok (⟨n⟩, g.putNode ⟨n⟩ properties) :=
  outcome_of_settle (g.tryAddNode_apply id properties)

variable (u v : Node) (direction : Directedness)

/-- An arc is written after its ends have been found and its id has been accepted. -/
theorem tryAddArc_apply : tryAddArc u v direction id properties g = settle g (
    if !g.nodes.contains u then .error (.noTail u)
    else if !g.nodes.contains v then .error (.noHead v)
    else match id with
    | none => .ok (g.pushArc ⟨u, v, direction == .undirected⟩ properties)
    | some value =>
        match positiveId? value with
        | none => .error (.badId .arc value)
        | some a =>
            if g.arcs.contains ⟨a⟩ then .error (.arcInUse ⟨a⟩)
            else .ok (⟨a⟩, g.putArc ⟨a⟩ ⟨u, v, direction == .undirected⟩ properties)) := by
  simp only [tryAddArc, get_bind_apply, check_apply]
  cases g.nodes.contains u with
  | false => rfl
  | true =>
      cases g.nodes.contains v with
      | false => rfl
      | true =>
          cases id with
          | none => rfl
          | some value =>
              cases positive : positiveId? value with
              | none => simp [claimArc, positive, settle]
              | some a =>
                  simp only [claimArc, positive, bind_assoc, get_bind_apply]
                  cases g.arcs.contains ⟨a⟩ <;> rfl

/-- An arc is added between nodes, under its id, if that is free, or under the next free one. -/
theorem addArc_eq : g.addArc u v direction id properties =
    if !g.nodes.contains u then .error (.noTail u)
    else if !g.nodes.contains v then .error (.noHead v)
    else match id with
    | none => .ok (g.pushArc ⟨u, v, direction == .undirected⟩ properties)
    | some value =>
        match positiveId? value with
        | none => .error (.badId .arc value)
        | some a =>
            if g.arcs.contains ⟨a⟩ then .error (.arcInUse ⟨a⟩)
            else .ok (⟨a⟩, g.putArc ⟨a⟩ ⟨u, v, direction == .undirected⟩ properties) :=
  outcome_of_settle (g.tryAddArc_apply id properties u v direction)

/-- A refused node leaves the graph as it was. -/
theorem atomic_tryAddNode : (tryAddNode id properties).Atomic :=
  atomic_of_settle fun g => ⟨_, g.tryAddNode_apply id properties⟩

/-- A refused arc leaves the graph as it was. -/
theorem atomic_tryAddArc : (tryAddArc u v direction id properties).Atomic :=
  atomic_of_settle fun g => ⟨_, g.tryAddArc_apply id properties u v direction⟩

end StoredGraph

namespace Overlay

variable (o : Overlay) (base : Graph) (draws : List Int) (id : Option Value)
  (properties : Option Properties)

/-- A node is written after an id has been found or accepted. -/
theorem tryAddNode_apply : (tryAddNode base draws id properties) o = settle o (match id with
    | none =>
        match allocate? (fun i => o.hasNode base ⟨i⟩) draws with
        | none => .error .noDrawsLeft
        | some r => .ok ((⟨r.id⟩, r.rest), o.putNode ⟨r.id⟩ properties)
    | some value =>
        match positiveId? value with
        | none => .error (.badOverlayId .node value)
        | some n =>
            if o.hasNode base ⟨n⟩ then .error (.nodeInUse ⟨n⟩)
            else .ok ((⟨n⟩, draws), o.putNode ⟨n⟩ properties)) := by
  cases id with
  | none =>
      simp only [tryAddNode, claimNode, bind_assoc, get_bind_apply]
      cases allocate? (fun i => o.hasNode base ⟨i⟩) draws <;> rfl
  | some value =>
      cases positive : positiveId? value with
      | none => simp only [tryAddNode, claimNode, positive, throw_bind_apply, settle]
      | some n =>
          simp only [tryAddNode, claimNode, positive, bind_assoc, get_bind_apply]
          cases o.hasNode base ⟨n⟩ <;> rfl

/-- A node is added under its id, if that is free, or under the first free one that is drawn. -/
theorem addNode_eq : o.addNode base draws id properties = match id with
    | none =>
        match allocate? (fun i => o.hasNode base ⟨i⟩) draws with
        | none => .error .noDrawsLeft
        | some r => .ok (⟨r.id⟩, o.putNode ⟨r.id⟩ properties, r.rest)
    | some value =>
        match positiveId? value with
        | none => .error (.badOverlayId .node value)
        | some n =>
            if o.hasNode base ⟨n⟩ then .error (.nodeInUse ⟨n⟩)
            else .ok (⟨n⟩, o.putNode ⟨n⟩ properties, draws) := by
  rw [addNode, outcome_of_settle (o.tryAddNode_apply base draws id properties)]
  repeat' split
  all_goals rfl

variable (u v : Node) (direction : Directedness)

/-- An arc is written after its ends have been found and an id has been found or accepted. -/
theorem tryAddArc_apply :
    (tryAddArc base draws u v direction id properties) o = settle o (
    if !o.hasNode base u then .error (.noTail u)
    else if !o.hasNode base v then .error (.noHead v)
    else match id with
    | none =>
        match allocate? (fun i => o.isArcTaken base ⟨i⟩) draws with
        | none => .error .noDrawsLeft
        | some d =>
            .ok ((⟨d.id⟩, d.rest), o.putArc ⟨d.id⟩ ⟨u, v, direction == .undirected⟩ properties)
    | some value =>
        match positiveId? value with
        | none => .error (.badOverlayId .arc value)
        | some a =>
            if o.isArcTaken base ⟨a⟩ then .error (.arcInUse ⟨a⟩)
            else .ok ((⟨a⟩, draws),
              o.putArc ⟨a⟩ ⟨u, v, direction == .undirected⟩ properties)) := by
  simp only [tryAddArc, get_bind_apply, check_apply]
  cases o.hasNode base u with
  | false => rfl
  | true =>
      cases o.hasNode base v with
      | false => rfl
      | true =>
          cases id with
          | none =>
              simp only [claimArc, bind_assoc, get_bind_apply]
              cases allocate? (fun i => o.isArcTaken base ⟨i⟩) draws <;> rfl
          | some value =>
              cases positive : positiveId? value with
              | none => simp [claimArc, positive, settle]
              | some a =>
                  simp only [claimArc, positive, bind_assoc, get_bind_apply]
                  cases o.isArcTaken base ⟨a⟩ <;> rfl

/-- An arc is added between nodes, under its id, if that is free, or under the first free one that
is drawn. -/
theorem addArc_eq : o.addArc base draws u v direction id properties =
    if !o.hasNode base u then .error (.noTail u)
    else if !o.hasNode base v then .error (.noHead v)
    else match id with
    | none =>
        match allocate? (fun i => o.isArcTaken base ⟨i⟩) draws with
        | none => .error .noDrawsLeft
        | some d =>
            .ok (⟨d.id⟩, o.putArc ⟨d.id⟩ ⟨u, v, direction == .undirected⟩ properties, d.rest)
    | some value =>
        match positiveId? value with
        | none => .error (.badOverlayId .arc value)
        | some a =>
            if o.isArcTaken base ⟨a⟩ then .error (.arcInUse ⟨a⟩)
            else .ok (⟨a⟩, o.putArc ⟨a⟩ ⟨u, v, direction == .undirected⟩ properties, draws) := by
  rw [addArc, outcome_of_settle (o.tryAddArc_apply base draws id properties u v direction)]
  repeat' split
  all_goals rfl

/-- A refused node leaves the overlay as it was. -/
theorem atomic_tryAddNode : (tryAddNode base draws id properties).Atomic :=
  atomic_of_settle fun o => ⟨_, o.tryAddNode_apply base draws id properties⟩

/-- A refused arc leaves the overlay as it was. -/
theorem atomic_tryAddArc : (tryAddArc base draws u v direction id properties).Atomic :=
  atomic_of_settle fun o => ⟨_, o.tryAddArc_apply base draws id properties u v direction⟩

end Overlay

namespace Matching

variable (m : Matching) (base : Graph) (a : Arc)

/-- The selection and the index are written after the arc and both its ends have been checked. -/
theorem tryEnable_apply : tryEnable base a m = settle m (
    if m.selection.isEnabled a then .ok ((), m)
    else if !base.hasArc a then .error (.notInBase a)
    else match m.conflict? base a with
    | some fault => .error fault
    | none =>
        .ok ((), {
          selection := m.selection.enable a true
          matched := (m.matched.insert (base.tail a) a).insert (base.head a) a })) := by
  simp only [tryEnable, get_bind_apply, check_apply]
  cases m.selection.isEnabled a with
  | true => rfl
  | false =>
      cases base.hasArc a with
      | false => rfl
      | true => cases m.conflict? base a <;> rfl

/-- An arc is enabled if the base has it and no conflict is found. -/
theorem enable_eq : m.enable base a =
    if m.selection.isEnabled a then .ok m
    else if !base.hasArc a then .error (.notInBase a)
    else match m.conflict? base a with
    | some fault => .error fault
    | none =>
        .ok {
          selection := m.selection.enable a true
          matched := (m.matched.insert (base.tail a) a).insert (base.head a) a } := by
  rw [enable, outcome_of_settle (m.tryEnable_apply base a)]
  repeat' split
  all_goals rfl

/-- A refused switch leaves the matching as it was. -/
theorem atomic_trySwitch (on : Bool) : (trySwitch base a on).Atomic := by
  cases on with
  | false => exact atomic_of_settle fun m => ⟨.ok ((), m.disable base a), rfl⟩
  | true => exact atomic_of_settle fun m => ⟨_, m.tryEnable_apply base a⟩

end Matching

end ArcSelection
