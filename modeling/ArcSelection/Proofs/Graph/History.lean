import ArcSelection.Proofs.Graph.StoredChange

/-!
# Histories of a stored graph

A history is a list of calls, refused ones included.  A call that is refused has made all its
checks before its first write, so it leaves the graph as it was; and every call keeps the parts
of the graph in agreement, so they agree after every history.
-/

namespace ArcSelection

/-- A call that changes a graph. -/
inductive Change where
  | addNode (id : Option Value) (properties : Option Properties)
  | addArc (u v : Node) (direction : Directedness) (id : Option Value)
      (properties : Option Properties)
  | deleteNode (n : Node)
  | deleteArc (a : Arc)
  | clear
  | setNodeProperties (n : Node) (properties : Option Properties)
  | setArcProperties (a : Arc) (properties : Option Properties)

namespace StoredGraph

open Attempt

/-- The graph a call makes of a stored graph, or why it is refused. -/
def perform (g : StoredGraph) : Change → Except Fault StoredGraph
  | .addNode id properties => (g.addNode id properties).map (·.2)
  | .addArc u v direction id properties => (g.addArc u v direction id properties).map (·.2)
  | .deleteNode n => .ok (g.deleteNode n).2
  | .deleteArc a => .ok (g.deleteArc a).2
  | .clear => .ok g.clear
  | .setNodeProperties n properties =>
      if g.nodes.contains n then
        .ok { g with properties := g.properties.setNode n properties }
      else .error (.foreignNode n)
  | .setArcProperties a properties =>
      if g.arcs.contains a then .ok { g with properties := g.properties.setArc a properties }
      else .error (.foreignArc a)

/-- Attempts a call, check by check and write by write. -/
def attempt : Change → Attempt StoredGraph Unit
  | .addNode id properties => do let _ <- tryAddNode id properties
  | .addArc u v direction id properties => do let _ <- tryAddArc u v direction id properties
  | .deleteNode n => modify fun g => (g.deleteNode n).2
  | .deleteArc a => modify fun g => (g.deleteArc a).2
  | .clear => modify clear
  | .setNodeProperties n properties => do
      if !(<- get).nodes.contains n then throw (.foreignNode n)
      modify fun g => { g with properties := g.properties.setNode n properties }
  | .setArcProperties a properties => do
      if !(<- get).arcs.contains a then throw (.foreignArc a)
      modify fun g => { g with properties := g.properties.setArc a properties }

/-- The graph a call leaves, whether it is performed or refused on its way. -/
def after (g : StoredGraph) (change : Change) : StoredGraph := (attempt change).left g

/-- The graph after a history. -/
def afterAll (g : StoredGraph) (changes : List Change) : StoredGraph := changes.foldl after g

variable {g next : StoredGraph}

/-- An attempted call is performed as a whole or changes nothing. -/
theorem attempt_apply (g : StoredGraph) (change : Change) :
    attempt change g = settle g ((g.perform change).map fun next => ((), next)) := by
  cases change with
  | addNode id properties => exact (atomic_tryAddNode id properties).drop_apply g
  | addArc u v direction id properties =>
      exact (atomic_tryAddArc id properties u v direction).drop_apply g
  | deleteNode n => rfl
  | deleteArc a => rfl
  | clear => rfl
  | setNodeProperties n properties =>
      simp only [attempt, perform, get_bind_apply, check_apply]
      cases g.nodes.contains n <;> rfl
  | setArcProperties a properties =>
      simp only [attempt, perform, get_bind_apply, check_apply]
      cases g.arcs.contains a <;> rfl

/-- A call leaves what it makes of the graph, and the graph as it was if it is refused. -/
theorem after_eq (g : StoredGraph) (change : Change) :
    g.after change = match g.perform change with
      | .ok next => next
      | .error _ => g := by
  rw [after, left_of_settle (g.attempt_apply change)]
  cases g.perform change <;> rfl

/-- A call that is not refused keeps the parts of the graph in agreement. -/
theorem Consistent.perform (consistent : g.Consistent) {change : Change}
    (performed : g.perform change = .ok next) : next.Consistent := by
  cases change with
  | addNode id properties =>
      obtain ⟨⟨n, g'⟩, added, rfl⟩ := Fallible.map_eq_ok_iff.mp performed
      exact consistent.addNode added
  | addArc u v direction id properties =>
      obtain ⟨⟨a, g'⟩, added, rfl⟩ := Fallible.map_eq_ok_iff.mp performed
      exact consistent.addArc added
  | deleteNode n =>
      cases performed
      exact consistent.deleteNode n
  | deleteArc a =>
      cases performed
      exact consistent.deleteArc a
  | clear =>
      cases performed
      exact consistent.clear
  | setNodeProperties n properties =>
      simp only [StoredGraph.perform] at performed
      split at performed
      · cases performed
        exact consistent.setNodeProperties ‹_› properties
      · cases performed
  | setArcProperties a properties =>
      simp only [StoredGraph.perform] at performed
      split at performed
      · cases performed
        exact consistent.setArcProperties ‹_› properties
      · cases performed

/-- A change keeps a graph consistent. -/
theorem Consistent.after (consistent : g.Consistent) (change : Change) :
    (g.after change).Consistent := by
  rw [after_eq]
  split
  · exact consistent.perform ‹_›
  · exact consistent

/-- Changes keep a graph consistent. -/
theorem Consistent.afterAll (consistent : g.Consistent) (changes : List Change) :
    (g.afterAll changes).Consistent := by
  induction changes generalizing g with
  | nil => exact consistent
  | cons change changes ih => exact ih (consistent.after change)

/-- A refused node is told as a bad value. -/
theorem kind_of_addNode_refused {id : Option Value} {properties : Option Properties}
    {fault : Fault} (refused : g.addNode id properties = .error fault) :
    fault.kind = .invalid := by
  cases id with
  | none => cases refused
  | some value =>
      simp only [addNode_eq] at refused
      split at refused
      · cases refused
        rfl
      · split at refused <;> cases refused
        rfl

/-- A refused arc is told as a bad value. -/
theorem kind_of_addArc_refused {u v : Node} {direction : Directedness} {id : Option Value}
    {properties : Option Properties} {fault : Fault}
    (refused : g.addArc u v direction id properties = .error fault) : fault.kind = .invalid := by
  rw [addArc_eq] at refused
  split at refused
  · cases refused
    rfl
  · split at refused
    · cases refused
      rfl
    · cases id with
      | none => cases refused
      | some value =>
          dsimp only at refused
          split at refused
          · cases refused
            rfl
          · split at refused <;> cases refused
            rfl

/-- A call is refused because of what it asks for. -/
theorem kind_of_refused {change : Change} {fault : Fault}
    (refused : g.perform change = .error fault) : fault.kind = .invalid := by
  cases change with
  | addNode id properties => exact kind_of_addNode_refused (Fallible.map_eq_error_iff.mp refused)
  | addArc u v direction id properties =>
      exact kind_of_addArc_refused (Fallible.map_eq_error_iff.mp refused)
  | deleteNode n => cases refused
  | deleteArc a => cases refused
  | clear => cases refused
  | setNodeProperties n properties =>
      simp only [perform] at refused
      split at refused <;> cases refused
      rfl
  | setArcProperties a properties =>
      simp only [perform] at refused
      split at refused <;> cases refused
      rfl

/-- After every history the parts of the graph agree, and a further call is performed or
refused as invalid; refused, it leaves the whole graph as it was. -/
theorem consistent_afterAll (changes : List Change) :
    (empty.afterAll changes).Consistent ∧
      ∀ change, (∃ next, (empty.afterAll changes).perform change = .ok next ∧
          (empty.afterAll changes).after change = next) ∨
        ∃ fault, (empty.afterAll changes).perform change = .error fault ∧
          fault.kind = .invalid ∧
          (empty.afterAll changes).after change = empty.afterAll changes := by
  refine ⟨consistent_empty.afterAll changes, fun change => ?_⟩
  cases performed : (empty.afterAll changes).perform change with
  | ok next => exact .inl ⟨next, rfl, by rw [after_eq, performed]⟩
  | error fault => exact .inr ⟨fault, rfl, kind_of_refused performed, by rw [after_eq, performed]⟩

end StoredGraph

end ArcSelection
