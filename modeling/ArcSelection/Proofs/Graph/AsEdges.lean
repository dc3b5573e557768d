import ArcSelection.Proofs.Graph.History
import ArcSelection.Proofs.Graph.View

/-!
# The undirected view and the graph built with edges

Two graphs are built by one history, the second with every arc added as an edge. Call by
call the second is the first with every arc recorded as an edge, refused calls included:
whether an arc is an edge decides about no end, no id and no place in a list, only about
which arcs pass a filter. Deleting a node asks for the arcs that pass the filter `all`,
which every arc does. Where the parts of a graph agree, the arcs a query of the second
graph finds are recorded, so they are edges and pass every filter, as they do in the
undirected view of the first.
-/

namespace ArcSelection

/-- The record of the same arc as an edge. -/
def ArcRecord.asEdge (r : ArcRecord) : ArcRecord := { r with isEdge := true }

/-- The same call, with an arc added as an edge. -/
def Change.asEdge : Change → Change
  | .addArc u v _ id properties => .addArc u v .undirected id properties
  | change => change

namespace StoredGraph

/-- The same graph with every arc recorded as an edge. -/
def asEdges (g : StoredGraph) : StoredGraph :=
  { g with
    arcs := g.arcs.mapValues fun _ r => r.asEdge
    edges := g.arcs.mapValues fun _ _ => () }

variable {g : StoredGraph}

/-! ### One call -/

theorem freshArc_asEdges : g.asEdges.freshArc = g.freshArc := by
  simp [freshArc, asEdges]

/-- Adding a node commutes with reading arcs as edges. -/
theorem addNode_asEdges (id : Option Value) (properties : Option Properties) :
    g.asEdges.addNode id properties =
      (g.addNode id properties).map fun added => (added.1, added.2.asEdges) := by
  cases id with
  | none => rfl
  | some value =>
      simp only [addNode_eq]
      split
      · rfl
      · change (if g.nodes.contains _ then _ else _) = _
        split <;> rfl

/-- Putting an arc commutes with reading arcs as edges. -/
theorem putArc_asEdges (a : Arc) (r : ArcRecord) (properties : Option Properties) :
    g.asEdges.putArc a r.asEdge properties = (g.putArc a r properties).asEdges := by
  simp [putArc, asEdges, ArcRecord.asEdge, OrderedMap.mapValues_insert]

theorem pushArc_asEdges (r : ArcRecord) (properties : Option Properties) :
    g.asEdges.pushArc r.asEdge properties =
      ((g.pushArc r properties).1, (g.pushArc r properties).2.asEdges) := by
  simp only [pushArc, freshArc_asEdges, putArc_asEdges]
  rfl

/-- Adding an arc in any direction is adding an edge, where arcs are read as edges. -/
theorem addArc_asEdges (u v : Node) (direction : Directedness) (id : Option Value)
    (properties : Option Properties) :
    g.asEdges.addArc u v .undirected id properties =
      (g.addArc u v direction id properties).map fun added => (added.1, added.2.asEdges) := by
  have record : (⟨u, v, Directedness.undirected == .undirected⟩ : ArcRecord) =
      ArcRecord.asEdge ⟨u, v, direction == .undirected⟩ := rfl
  have nodes : g.asEdges.nodes = g.nodes := rfl
  have arcs (a : Arc) : g.asEdges.arcs.contains a = g.arcs.contains a :=
    OrderedMap.contains_mapValues _
  simp only [addArc_eq, record, nodes, arcs, pushArc_asEdges, putArc_asEdges]
  split
  · rfl
  · split
    · rfl
    · cases id with
      | none => rfl
      | some value =>
          dsimp only
          split
          · rfl
          · split <;> rfl

/-- Deleting an arc commutes with reading arcs as edges. -/
theorem deleteArc_asEdges (a : Arc) :
    g.asEdges.deleteArc a = ((g.deleteArc a).1, (g.deleteArc a).2.asEdges) := by
  have recorded : g.asEdges.arcs.get? a = (g.arcs.get? a).map ArcRecord.asEdge :=
    OrderedMap.get?_mapValues _
  cases found : g.arcs.get? a with
  | none => simp [deleteArc, recorded, found]
  | some r =>
      simp only [deleteArc, recorded, found, Option.map_some]
      simp [asEdges, ArcRecord.asEdge, OrderedMap.mapValues_erase]

/-- Deleting arcs commutes with reading arcs as edges. -/
theorem deleteArcs_asEdges (as : List Arc) :
    as.foldl (fun h a => (h.deleteArc a).2) g.asEdges =
      (as.foldl (fun h a => (h.deleteArc a).2) g).asEdges := by
  induction as generalizing g with
  | nil => rfl
  | cons a as ih => rw [List.foldl_cons, deleteArc_asEdges, ih, List.foldl_cons]

/-- Deleting a node commutes with reading arcs as edges. -/
theorem deleteNode_asEdges (n : Node) :
    g.asEdges.deleteNode n = ((g.deleteNode n).1, (g.deleteNode n).2.asEdges) := by
  have nodes : g.asEdges.nodes = g.nodes := rfl
  -- Every arc passes the filter `all`, so the same arcs are deleted in the same order.
  have incident : g.asEdges.incidentArcs n .all = g.incidentArcs n .all := rfl
  simp only [deleteNode, nodes, incident, deleteArcs_asEdges]
  split <;> rfl

/-- A call made with edges does to the graph with edges what it does to the other graph, and
is refused with the same fault. -/
theorem perform_asEdge (change : Change) :
    g.asEdges.perform change.asEdge = (g.perform change).map asEdges := by
  cases change with
  | addNode id properties =>
      simp only [Change.asEdge, perform, addNode_asEdges]
      cases g.addNode id properties <;> rfl
  | addArc u v direction id properties =>
      simp only [Change.asEdge, perform, addArc_asEdges u v direction]
      cases g.addArc u v direction id properties <;> rfl
  | deleteNode n => simp only [Change.asEdge, perform, deleteNode_asEdges, Except.map]
  | deleteArc a => simp only [Change.asEdge, perform, deleteArc_asEdges, Except.map]
  | clear => rfl
  | setNodeProperties n properties =>
      have nodes : g.asEdges.nodes = g.nodes := rfl
      simp only [Change.asEdge, perform, nodes]
      split <;> rfl
  | setArcProperties a properties =>
      have arcs : g.asEdges.arcs.contains a = g.arcs.contains a := OrderedMap.contains_mapValues _
      simp only [Change.asEdge, perform, arcs]
      split <;> rfl

/-- Any call commutes with reading arcs as edges. -/
theorem after_asEdge (change : Change) :
    g.asEdges.after change.asEdge = (g.after change).asEdges := by
  rw [after_eq, after_eq, perform_asEdge]
  cases g.perform change <;> rfl

/-- The history made with edges leads to the same graph with every arc recorded as an edge. -/
theorem afterAll_asEdge (changes : List Change) :
    g.asEdges.afterAll (changes.map Change.asEdge) = (g.afterAll changes).asEdges := by
  induction changes generalizing g with
  | nil => rfl
  | cons change changes ih =>
      change (g.asEdges.after change.asEdge).afterAll _ = _
      rw [after_asEdge, ih]
      rfl

end StoredGraph

/-! ### The queries -/

/-- Two graphs answer every query with the same values and the same lists in the same order;
about the kind of an arc, and which filters it passes, for the arcs that are present. -/
structure Graph.AnswersAlike (g h : Graph) : Prop where
  nodes : g.nodes = h.nodes
  allNodes : g.allNodes = h.allNodes
  arcs : ∀ f, g.arcs f = h.arcs f
  incidentArcs : ∀ u f, g.incidentArcs u f = h.incidentArcs u f
  arcsBetween : ∀ u v f, g.arcsBetween u v f = h.arcsBetween u v f
  nodeCount : g.nodeCount = h.nodeCount
  arcCount : ∀ f, g.arcCount f = h.arcCount f
  incidentArcCount : ∀ u f, g.incidentArcCount u f = h.incidentArcCount u f
  arcCountBetween : ∀ u v f, g.arcCountBetween u v f = h.arcCountBetween u v f
  hasNode : ∀ n, g.hasNode n = h.hasNode n
  hasArc : ∀ a, g.hasArc a = h.hasArc a
  tail : ∀ a, g.tail a = h.tail a
  head : ∀ a, g.head a = h.head a
  other : ∀ a n, g.other a n = h.other a n
  isEdge : ∀ a, g.hasArc a = true → g.isEdge a = h.isEdge a
  passes : ∀ a n f, g.hasArc a = true → g.passes a n f = h.passes a n f
  nodeProperties : ∀ n, g.nodeProperties n = h.nodeProperties n
  arcProperties : ∀ a, g.arcProperties a = h.arcProperties a

namespace StoredGraph

variable {g : StoredGraph}

/-- The tail stays where arcs are read as edges. -/
theorem tail_asEdges (a : Arc) : g.asEdges.ends.tail a = g.ends.tail a := by
  simp only [ends, asEdges, OrderedMap.get?_mapValues]
  cases g.arcs.get? a <;> rfl

/-- The head stays where arcs are read as edges. -/
theorem head_asEdges (a : Arc) : g.asEdges.ends.head a = g.ends.head a := by
  simp only [ends, asEdges, OrderedMap.get?_mapValues]
  cases g.arcs.get? a <;> rfl

/-- An edge passes every filter. -/
theorem passes_asEdges {a : Arc} (present : g.arcs.contains a = true) (n : Node) (f : ArcFilter) :
    g.asEdges.ends.passes a n f = true := by
  have isEdge : g.asEdges.ends.isEdge a = true := (OrderedMap.contains_mapValues _).trans present
  cases f <;> simp [Ends.passes, isEdge]

/-- Where arcs are read as edges, the arcs at a node are all of them. -/
theorem Consistent.incidentArcs_asEdges (consistent : g.Consistent) (n : Node) (f : ArcFilter) :
    g.asEdges.incidentArcs n f = g.incidentArcs n .all := by
  have filtered : g.asEdges.incidentArcs n f =
      (g.incidentArcs n .all).filter fun a => g.asEdges.ends.passes a n f := by
    have nodes : g.asEdges.nodes = g.nodes := rfl
    simp only [incidentArcs, nodes]
    cases g.nodes.get? n with
    | none => rfl
    | some around => exact (congrArg (List.filter _) (List.filter_true _)).symm
  rw [filtered, List.filter_eq_self]
  intro a listed
  have present := ((consistent.lawful.mem_incidentArcs n .all a).mp listed).1
  exact passes_asEdges ((consistent.lawful.mem_arcs a).mp present) n f

/-- Where arcs are read as edges, the arcs between nodes are all of them. -/
theorem Consistent.arcsBetween_asEdges (consistent : g.Consistent) (u v : Node)
    (f : ArcFilter) : g.asEdges.arcsBetween u v f = g.arcsBetween u v .all := by
  have filtered : g.asEdges.arcsBetween u v f =
      (g.arcsBetween u v .all).filter fun a => g.asEdges.ends.passes a u f := by
    have nodes : g.asEdges.nodes = g.nodes := rfl
    have arcsFrom (u v : Node) : g.asEdges.arcsFrom u v = g.arcsFrom u v := rfl
    simp only [arcsBetween, nodes, arcsFrom]
    split
    · exact (congrArg (List.filter _) (List.filter_true _)).symm
    · rfl
  rw [filtered, List.filter_eq_self]
  intro a listed
  have present := ((consistent.lawful.mem_arcsBetween u v .all a).mp listed).1
  exact passes_asEdges ((consistent.lawful.mem_arcs a).mp present) u f

/-- Where the parts of a graph agree, its undirected view answers as the same graph with
every arc recorded as an edge. -/
theorem Consistent.answersAlike_asEdges (consistent : g.Consistent) :
    (UndirectedView.fresh.graphOver g.graph).AnswersAlike g.asEdges.graph where
  nodes := rfl
  allNodes := rfl
  arcs f := by cases f <;> exact (OrderedMap.keys_mapValues _).symm
  incidentArcs u f := (consistent.incidentArcs_asEdges u f).symm
  arcsBetween u v f := (consistent.arcsBetween_asEdges u v f).symm
  nodeCount := rfl
  arcCount f := by cases f <;> exact (OrderedMap.size_mapValues _).symm
  incidentArcCount u f := congrArg List.length (consistent.incidentArcs_asEdges u f).symm
  arcCountBetween u v f := congrArg List.length (consistent.arcsBetween_asEdges u v f).symm
  hasNode _ := rfl
  hasArc _ := (OrderedMap.contains_mapValues _).symm
  tail a := (tail_asEdges a).symm
  head a := (head_asEdges a).symm
  other a n := by
    change g.ends.other a n = g.asEdges.ends.other a n
    simp only [Ends.other, tail_asEdges, head_asEdges]
  isEdge a present := ((OrderedMap.contains_mapValues _).trans present).symm
  passes a n f present := (UndirectedView.passes_eq _ a n f).trans (passes_asEdges present n f).symm
  nodeProperties _ := rfl
  arcProperties _ := rfl

/-- After every history the undirected view of the graph answers as the graph that the same
history builds when every arc is added as an edge. -/
theorem undirected_answersAlike (changes : List Change) :
    (UndirectedView.fresh.graphOver (empty.afterAll changes).graph).AnswersAlike
      (empty.afterAll (changes.map Change.asEdge)).graph := by
  have built : empty.afterAll (changes.map Change.asEdge) = (empty.afterAll changes).asEdges :=
    afterAll_asEdge (g := empty) changes
  rw [built]
  exact (consistent_empty.afterAll changes).answersAlike_asEdges

end StoredGraph

end ArcSelection
