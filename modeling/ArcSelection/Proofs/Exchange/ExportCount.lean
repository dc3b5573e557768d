import ArcSelection.Exchange.Export
import ArcSelection.Proofs.Exchange.Export

/-!
# What is lost when a graph is written

Writing a graph under names that can serve as names never fails, and every arc becomes an
edge of its own, since the key of an edge is the id of its arc. Nodes are merged when they
share a name, so there are as many of them as the graph has exactly if no two nodes of the
graph share one. Equality of names is used only in the order in which the nodes are written;
nothing is asked of it.
-/

namespace ArcSelection

/-- The graph can be written under the names, which need not tell its nodes apart. -/
structure Writable (g : Graph) (names : Option NodeNames) : Prop where
  lists : g.ListsArcs
  nodes_nodup : g.nodes.Nodup
  hashable : ∀ n ∈ g.nodes, (exportName names n).isHashable = true
  present : ∀ n ∈ g.nodes, exportName names n ≠ .null
  attributes : ∀ n ∈ g.nodes, ∀ p, g.nodeProperties n = some p → isNodeAttributes p = true

/-- No node has the name of a later one. -/
def NamedApart (names : Option NodeNames) (nodes : List Node) : Prop :=
  nodes.Pairwise fun n m => (exportName names n == exportName names m) = false

/-- Names are apart with one more if it is apart from those before. -/
theorem namedApart_append_singleton {names : Option NodeNames} {nodes : List Node} {n : Node} :
    NamedApart names (nodes ++ [n]) ↔ NamedApart names nodes ∧
      ∀ m ∈ nodes, (exportName names m == exportName names n) = false := by
  simp [NamedApart, List.pairwise_append]

/-- A name that a node has already merges the attributes into this node. -/
theorem NamedGraph.addNode_of_known (g : NamedGraph) {name : Value} {i : Nat}
    (hashable : name.isHashable = true) (known : g.position? name = some i)
    (attributes : Properties) : g.addNode name attributes = .ok (i, g.mergeNode i attributes) := by
  simp [addNode, hashable, known]

variable {g : Graph} {names : Option NodeNames}

/-- The nodes written so far: as many as there were, each under its name, or fewer because
two of them share a name. -/
structure NodesWritten (names : Option NodeNames) (done : List Node) (s : Export) : Prop where
  noEdges : s.graph.edges = []
  placed : ∀ n, s.placed.lookup n = none ↔ n ∉ done
  nodes : NamedApart names done ∧ s.graph.nodes.map (·.1) = done.map (exportName names) ∨
    ¬ NamedApart names done ∧ s.graph.nodes.length < done.length

theorem nodesWritten_empty : NodesWritten names [] ⟨.empty true true, []⟩ :=
  ⟨rfl, fun _ => by simp, .inl ⟨.nil, rfl⟩⟩

/-- While every node is written under its name, a name is known exactly if an earlier node
has it. -/
theorem NodesWritten.position?_eq_none_iff {done : List Node} {s : Export} {name : Value}
    (same : s.graph.nodes.map (·.1) = done.map (exportName names)) :
    s.graph.position? name = none ↔ ∀ m ∈ done, (exportName names m == name) = false := by
  have names : (∀ x ∈ s.graph.nodes.map (·.1), (x == name) = false) ↔
      ∀ x ∈ done.map (exportName names), (x == name) = false := by rw [same]
  simpa [NamedGraph.position?, List.findIdx?_eq_none_iff] using names

namespace Writable

variable (writable : Writable g names)

include writable

/-- The properties of a node can be passed on. -/
theorem isNodeAttributes_getD {n : Node} (listed : n ∈ g.nodes) :
    isNodeAttributes ((g.nodeProperties n).getD []) = true := by
  cases found : g.nodeProperties n with
  | none => rfl
  | some p => exact writable.attributes n listed p found

/-- A node is entered under its name, or merged with one of that name. -/
theorem enterNode {done rest : List Node} {n : Node} {s : Export}
    (split : g.nodes = done ++ n :: rest) (written : NodesWritten names done s) :
    ∃ next, Export.enterNode g names s n = .ok next ∧ NodesWritten names (done ++ [n]) next := by
  have listed : n ∈ g.nodes := by simp [split]
  have new : n ∉ done := Fallible.not_mem_done writable.nodes_nodup split
  have hashable := writable.hashable n listed
  have placed (i : Nat) (m : Node) :
      ((n, i) :: s.placed).lookup m = none ↔ m ∉ done ++ [n] := by
    rw [List.lookup_cons]
    by_cases same : m = n
    · simp [same]
    · have other : (m == n) = false := by simpa using same
      simp [other, same, written.placed m]
  rw [Export.enterNode]
  simp only [writable.isNodeAttributes_getD listed, (written.placed n).mpr new, Bool.not_true,
    Bool.false_eq_true, if_false]
  cases known : s.graph.position? (exportName names n) with
  | none =>
      rw [NamedGraph.addNode_of_new _ hashable (writable.present n listed) known]
      refine ⟨_, rfl, written.noEdges, placed _, ?_⟩
      rcases written.nodes with ⟨apart, same⟩ | ⟨shared, fewer⟩
      · have unshared := (NodesWritten.position?_eq_none_iff same).mp known
        exact .inl ⟨namedApart_append_singleton.mpr ⟨apart, unshared⟩, by simp [same]⟩
      · refine .inr ⟨fun apart => shared (namedApart_append_singleton.mp apart).1, ?_⟩
        simpa using fewer
  | some i =>
      rw [NamedGraph.addNode_of_known _ hashable known]
      refine ⟨_, rfl, written.noEdges, placed _, .inr ?_⟩
      rcases written.nodes with ⟨_, same⟩ | ⟨shared, fewer⟩
      · have count : s.graph.nodes.length = done.length := by simpa using congrArg List.length same
        refine ⟨fun apart => ?_, by simp [NamedGraph.mergeNode, count]⟩
        have unshared := (namedApart_append_singleton.mp apart).2
        cases known.symm.trans ((NodesWritten.position?_eq_none_iff same).mpr unshared)
      · refine ⟨fun apart => shared (namedApart_append_singleton.mp apart).1, ?_⟩
        simpa [NamedGraph.mergeNode] using fewer.trans (Nat.lt_succ_self _)

end Writable

/-- The arcs written so far, beside the nodes. -/
structure ArcsWritten (g : Graph) (nodes : List (Value × Properties)) (done : List Arc)
    (s : Export) : Prop where
  nodes : s.graph.nodes = nodes
  keys : s.graph.edges.map (·.key) = done.map fun a => .int a.id
  placed : ∀ n ∈ g.nodes, ∃ i, s.placed.lookup n = some i

namespace Writable

variable (writable : Writable g names)

include writable

/-- An arc is entered as an edge of its own. -/
theorem enterArc {nodes : List (Value × Properties)} {done rest : List Arc} {a : Arc} {s : Export}
    (split : g.arcs .all = done ++ a :: rest) (written : ArcsWritten g nodes done s) :
    ∃ next, Export.enterArc g names s a = .ok next ∧ ArcsWritten g nodes (done ++ [a]) next := by
  have listed : a ∈ g.arcs .all := by simp [split]
  have new : a ∉ done := Fallible.not_mem_done writable.lists.nodup split
  obtain ⟨i, tail⟩ := written.placed _ (writable.lists.tail_mem a listed)
  obtain ⟨j, head⟩ := written.placed _ (writable.lists.head_mem a listed)
  have unused (x y : Nat) :
      s.graph.edges.any (fun f => s.graph.joins x y f && f.key == .int a.id) = false := by
    rw [List.any_eq_false]
    intro f member
    have keyed : f.key ∈ done.map fun a => Value.int a.id :=
      written.keys ▸ List.mem_map_of_mem member
    obtain ⟨b, before, key⟩ := List.mem_map.mp keyed
    rw [Bool.and_eq_true, not_and, ← key, Value.int_beq_iff]
    rintro - same
    obtain rfl : b = a := congrArg Arc.mk same
    exact new before
  have tailPlaced : s.place names (g.tail a) = .ok (i, s) := by rw [Export.place, tail]
  have headPlaced : s.place names (g.head a) = .ok (j, s) := by rw [Export.place, head]
  rw [Export.enterArc, tailPlaced]
  change ∃ next, (s.place names (g.head a) >>= _) = _ ∧ _
  rw [headPlaced]
  refine ⟨_, rfl, ?_, ?_, written.placed⟩
  · simp only [NamedGraph.putEdge, unused, Bool.false_eq_true, if_false]
    exact written.nodes
  · simp only [NamedGraph.putEdge, unused, Bool.false_eq_true, if_false]
    simp [written.keys]

/-- The graph is written with an edge for every arc, and with a node for every node exactly if
no two nodes share a name. -/
theorem exists_toNamed : ∃ N, g.toNamed names = .ok N ∧
    N.edges.length = (g.arcs .all).length ∧
    (N.nodes.length = g.nodes.length ↔ NamedApart names g.nodes) := by
  obtain ⟨nodes, enteredNodes, nodesWritten⟩ := Fallible.foldlM_ok (NodesWritten names)
    nodesWritten_empty fun done n rest s split written => writable.enterNode split written
  have start : ArcsWritten g nodes.graph.nodes [] nodes := by
    refine ⟨rfl, by simp [nodesWritten.noEdges], fun n listed => ?_⟩
    have placed := (not_congr (nodesWritten.placed n)).mpr (not_not_intro listed)
    exact Option.ne_none_iff_exists'.mp placed
  obtain ⟨final, enteredArcs, arcsWritten⟩ := Fallible.foldlM_ok (ArcsWritten g nodes.graph.nodes)
    start fun done a rest s split written => writable.enterArc split written
  refine ⟨final.graph, ?_, ?_, ?_⟩
  · rw [Graph.toNamed, Graph.toExport, enteredNodes]
    change (List.foldlM _ nodes _ >>= _) = _
    rw [enteredArcs]
    rfl
  · simpa using congrArg List.length arcsWritten.keys
  · rw [arcsWritten.nodes]
    rcases nodesWritten.nodes with ⟨apart, same⟩ | ⟨shared, fewer⟩
    · exact iff_of_true (by simpa using congrArg List.length same) apart
    · exact iff_of_false fewer.ne shared

end Writable

end ArcSelection
