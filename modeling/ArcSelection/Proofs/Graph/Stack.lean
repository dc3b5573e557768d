import ArcSelection.Proofs.Graph.Complete
import ArcSelection.Proofs.Graph.Store
import ArcSelection.Proofs.Graph.View

/-!
# Stacks of views answer lawfully

Views stand on each other, in any order and to any depth, and at the bottom on a stored or
a complete graph. Whatever happened to the graphs of a store, the queries of a stack agree
with each other, as long as no overlay in it owns a node or an arc that its base has.
-/

namespace ArcSelection

/-- An overlay is apart from its base if the base has none of its keys. -/
theorem Overlay.apart_of_keys {o : Overlay} {base : Graph}
    (nodes : ∀ n ∈ o.nodes.keys, base.hasNode n = false)
    (arcs : ∀ a ∈ o.arcs.keys, base.hasArc a = false) : o.Apart base where
  node n has := nodes n ((OrderedMap.mem_keys_iff _ _).mpr has)
  arc a has := arcs a ((OrderedMap.mem_keys_iff _ _).mpr has)

namespace Store

/-- The graph at a position is a stack: a stored or complete graph, or an undirected view,
an overlay or a selection over a stack. An overlay owns nothing that its base has; nothing
is asked of the past. -/
inductive Stack (s : Store) : Nat → Prop
  | stored {i : Nat} {g : StoredGraph} (found : s.layers[i]? = some (.stored g)) : Stack s i
  | complete {i : Nat} {g : CompleteGraph} (found : s.layers[i]? = some (.complete g)) : Stack s i
  | undirected {i base : Nat} {view : UndirectedView}
      (found : s.layers[i]? = some (.undirected view base)) (below : Stack s base) : Stack s i
  | overlay {i base : Nat} {view : Overlay} (found : s.layers[i]? = some (.overlay view base))
      (apart : view.Apart (s.graph base)) (below : Stack s base) : Stack s i
  | selection {i base : Nat} {view : Selection}
      (found : s.layers[i]? = some (.selection view base)) (below : Stack s base) : Stack s i

variable {s : Store} {i : Nat}

/-- Every graph of a stack is lawful. -/
theorem Sound.lawful (sound : s.Sound) (stack : s.Stack i) : (s.graph i).Lawful := by
  induction stack with
  | stored found =>
      rw [graph_of_ground found rfl]
      exact StoredGraph.Consistent.lawful (sound _ _ found)
  | complete found =>
      rw [graph_of_ground found rfl]
      exact CompleteGraph.lawful _
  | undirected found _ lawful =>
      rw [graph_of_view found rfl ((sound _ _ found).base_lt rfl)]
      exact UndirectedView.lawful _ lawful
  | overlay found apart _ lawful =>
      rw [graph_of_view found rfl ((sound _ _ found).base_lt rfl)]
      have kept := sound _ _ found
      exact Overlay.lawful_graphOver kept.1 apart lawful
  | selection found _ lawful =>
      rw [graph_of_view found rfl ((sound _ _ found).base_lt rfl)]
      exact Selection.lawful _ lawful

/-- After every history the queries of every stack agree with each other. -/
theorem lawful_afterAll (events : List Event) {i : Nat}
    (stack : (empty.afterAll events).Stack i) : ((empty.afterAll events).graph i).Lawful :=
  (sound_empty.afterAll events).lawful stack

/-- An undirected view of a selection over an overlay that joins its own node to one of
two stored nodes. The other one is deleted at last, and hides an arc of the overlay. -/
def layeredEvents : List Event :=
  [.stored, .change 0 [] (.addNode none none), .change 0 [] (.addNode none none),
    .change 0 [] (.addArc ⟨1⟩ ⟨1⟩ .directed none none),
    .change 0 [] (.addArc ⟨1⟩ ⟨2⟩ .directed none none),
    .overlay 0, .change 1 [7] (.addNode none none),
    .change 1 [8] (.addArc ⟨7⟩ ⟨1⟩ .undirected none none),
    .change 1 [9] (.addArc ⟨2⟩ ⟨7⟩ .directed none none),
    .selection 1, .enable 2 ⟨1⟩ true, .enable 2 ⟨8⟩ true, .enable 2 ⟨9⟩ true,
    .undirected 2, .change 0 [] (.deleteNode ⟨2⟩)]

section Evaluation

-- The queries are defined by recursion on positions, which is opened to evaluate them here.
unseal graph

/-- Four layers are a stack. -/
theorem lawful_afterAll_layeredEvents :
    (empty.afterAll layeredEvents).Stack 3 ∧
      ((empty.afterAll layeredEvents).graph 3).Lawful := by
  have stack : (empty.afterAll layeredEvents).Stack 3 := by
    refine .undirected rfl (.selection rfl (.overlay rfl ?_ (.stored rfl)))
    exact Overlay.apart_of_keys (by decide) (by decide)
  exact ⟨stack, lawful_afterAll layeredEvents stack⟩

end Evaluation

end Store

end ArcSelection
