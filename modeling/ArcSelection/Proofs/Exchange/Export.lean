import ArcSelection.Exchange.Export
import ArcSelection.Proofs.Exchange.EdgeOrder
import ArcSelection.Proofs.Fallible
import ArcSelection.Proofs.Graph.Lawful
import ArcSelection.Proofs.Value.Properties

/-!
# Writing a graph with names

A graph whose nodes have names that can be told apart is written node for node and arc for
arc: the nodes in the order in which the graph lists them, a node that is listed again
only once, and the arcs in theirs.
-/

namespace ArcSelection

/-- The graph can be written node for node and arc for arc: it lists each arc once, between
nodes it lists; the names can be told apart, and what is known of a node can serve as its
attributes. -/
structure Nameable (g : Graph) (names : Option NodeNames) : Prop where
  lists : g.ListsArcs
  hashable : ∀ n ∈ g.nodes, (exportName names n).isHashable = true
  present : ∀ n ∈ g.nodes, exportName names n ≠ .null
  apart : ∀ n ∈ g.nodes, ∀ m ∈ g.nodes, n ≠ m →
    (exportName names n == exportName names m) = false
  nodeProperties : ∀ n ∈ g.nodes, ∀ p, g.nodeProperties n = some p →
    Properties.Keyed reservedNodeAttributes p

/-- The graph can be written under the names and read back: beside `Nameable`, no property map
is empty, and no arc has a property under the name that is used for its direction. -/
structure Exchangeable (g : Graph) (names : Option NodeNames) : Prop where
  lists : g.ListsArcs
  hashable : ∀ n ∈ g.nodes, (exportName names n).isHashable = true
  present : ∀ n ∈ g.nodes, exportName names n ≠ .null
  apart : ∀ n ∈ g.nodes, ∀ m ∈ g.nodes, n ≠ m →
    (exportName names n == exportName names m) = false
  nodeProperties : ∀ n ∈ g.nodes, ∀ p, g.nodeProperties n = some p →
    p ≠ [] ∧ Properties.Keyed reservedNodeAttributes p
  arcProperties : ∀ a ∈ g.arcs .all, ∀ p, g.arcProperties a = some p →
    p ≠ [] ∧ Properties.Keyed [directedAttribute] p

/-- A name that no node has becomes a new last node. -/
theorem NamedGraph.addNode_of_new (g : NamedGraph) {name : Value}
    (hashable : name.isHashable = true) (present : name ≠ .null)
    (new : g.position? name = none) (attributes : Properties) :
    g.addNode name attributes =
      .ok (g.nodes.length, { g with nodes := g.nodes ++ [(name, attributes)] }) := by
  unfold addNode
  rw [new]
  cases name with
  | null => exact absurd rfl present
  | _ => simp [hashable]

variable {g : Graph} {names : Option NodeNames}

/-- The nodes in the order in which they are written. -/
def writtenNodes (g : Graph) : List Node := g.nodes.eraseDups

theorem mem_writtenNodes {n : Node} : n ∈ writtenNodes g ↔ n ∈ g.nodes := List.mem_eraseDups

theorem nodup_writtenNodes : (writtenNodes g).Nodup := nodup_eraseDups _

/-- A node as it is written. -/
def writtenNode (g : Graph) (names : Option NodeNames) (n : Node) : Value × Properties :=
  (exportName names n, (g.nodeProperties n).getD [])

/-- An arc as it is written. -/
def writtenArc (g : Graph) (names : Option NodeNames) (a : Arc) : NamedEdge :=
  ⟨(writtenNodes g).idxOf (g.tail a), (writtenNodes g).idxOf (g.head a),
    exportName names (g.tail a), exportName names (g.head a), .int a.id,
    Properties.put ((g.arcProperties a).getD []) directedAttribute (.bool !(g.isEdge a))⟩

/-- What is written of a graph. -/
def written (g : Graph) (names : Option NodeNames) : NamedGraph :=
  ⟨true, true, (writtenNodes g).map (writtenNode g names), (g.arcs .all).map (writtenArc g names)⟩

/-- A node is found at its position. -/
theorem getElem?_written_nodes {n : Node} (listed : n ∈ g.nodes) :
    (written g names).nodes[(writtenNodes g).idxOf n]? = some (writtenNode g names n) := by
  rw [written, List.getElem?_map, List.getElem?_idxOf (mem_writtenNodes.mpr listed),
    Option.map_some]

namespace Exchangeable

/-- A graph that can be exchanged can be named. -/
theorem nameable (exchangeable : Exchangeable g names) : Nameable g names where
  lists := exchangeable.lists
  hashable := exchangeable.hashable
  present := exchangeable.present
  apart := exchangeable.apart
  nodeProperties n listed p found := (exchangeable.nodeProperties n listed p found).2

/-- The properties of an arc have keys of its own. -/
theorem arcAttributes_keyed (exchangeable : Exchangeable g names) {a : Arc}
    (listed : a ∈ g.arcs .all) :
    Properties.Keyed [directedAttribute] ((g.arcProperties a).getD []) := by
  cases found : g.arcProperties a with
  | none => exact ⟨nofun, .nil⟩
  | some p => exact (exchangeable.arcProperties a listed p found).2

end Exchangeable

namespace Nameable

/-- The properties of a node have keys of its own. -/
theorem attributes_keyed (nameable : Nameable g names) {n : Node} (listed : n ∈ g.nodes) :
    Properties.Keyed reservedNodeAttributes ((g.nodeProperties n).getD []) := by
  cases found : g.nodeProperties n with
  | none => exact ⟨nofun, .nil⟩
  | some p => exact nameable.nodeProperties n listed p found

/-- Keys that are not reserved can be passed on. -/
theorem isNodeAttributes_of_keyed {p : Properties}
    (keyed : Properties.Keyed reservedNodeAttributes p) : isNodeAttributes p = true := by
  rw [isNodeAttributes, List.all_eq_true]
  intro e member
  obtain ⟨key, isText, free⟩ := keyed.texts e member
  simpa [isText] using free

/-- The nodes written so far, and where they are. -/
structure Placed (g : Graph) (names : Option NodeNames) (nodes : List Node) (s : Export) :
    Prop where
  graph : s.graph = ⟨true, true, nodes.eraseDups.map (writtenNode g names), []⟩
  placed : ∀ n i, s.placed.lookup n = some i ↔ nodes.eraseDups[i]? = some n

/-- A node that is written again is merged with itself, and nothing changes. -/
theorem enterNode_again (nameable : Nameable g names) {done : List Node} {n : Node} {s : Export}
    (listed : n ∈ g.nodes) (early : n ∈ done) (placed : Placed g names done s) :
    ∃ next, Export.enterNode g names s n = .ok next ∧ Placed g names (done ++ [n]) next := by
  have keyed := nameable.attributes_keyed listed
  have same : (done ++ [n]).eraseDups = done.eraseDups := by
    simp [eraseDups_append_singleton, early]
  obtain ⟨i, found⟩ := List.mem_iff_getElem?.mp (List.mem_eraseDups.mpr early)
  rw [Export.enterNode]
  simp only [isNodeAttributes_of_keyed keyed, Bool.not_true, Bool.false_eq_true, if_false]
  rw [(placed.placed n i).mpr found]
  refine ⟨_, rfl, ?_, by simpa [same] using placed.placed⟩
  rw [same, placed.graph, NamedGraph.mergeNode]
  refine congrArg (NamedGraph.mk true true · []) (List.ext_getElem? fun j => ?_)
  rw [List.getElem?_modify]
  by_cases here : i = j
  · subst here
    simp [found, writtenNode, keyed.update_self]
  · simp [here]

/-- A node that is new is written at the end. -/
theorem enterNode_new (nameable : Nameable g names) {done : List Node} {n : Node} {s : Export}
    (listed : n ∈ g.nodes) (within : ∀ m ∈ done, m ∈ g.nodes) (early : n ∉ done)
    (placed : Placed g names done s) :
    ∃ next, Export.enterNode g names s n = .ok next ∧ Placed g names (done ++ [n]) next := by
  have attributes := isNodeAttributes_of_keyed (nameable.attributes_keyed listed)
  have missing : s.placed.lookup n = none := by
    rw [Option.eq_none_iff_forall_ne_some]
    intro i found
    exact early (List.mem_eraseDups.mp (List.mem_of_getElem? ((placed.placed n i).mp found)))
  have new : s.graph.position? (exportName names n) = none := by
    rw [NamedGraph.position?, placed.graph, List.findIdx?_eq_none_iff]
    intro node member
    obtain ⟨m, before, rfl⟩ := List.mem_map.mp member
    have listedBefore : m ∈ done := List.mem_eraseDups.mp before
    exact nameable.apart m (within m listedBefore) n listed fun same => early (same ▸ listedBefore)
  have grown : (done ++ [n]).eraseDups = done.eraseDups ++ [n] := by
    simp [eraseDups_append_singleton, early]
  rw [Export.enterNode]
  simp only [attributes, Bool.not_true, Bool.false_eq_true, if_false]
  rw [missing]
  dsimp only
  rw [NamedGraph.addNode_of_new _ (nameable.hashable n listed) (nameable.present n listed) new]
  refine ⟨_, rfl, ?_, fun m i => ?_⟩
  · simp [placed.graph, grown, writtenNode]
  · rw [grown, getElem?_append_singleton, List.lookup_cons, placed.graph]
    simp only [List.length_map]
    by_cases same : m = n
    · subst same
      have elsewhere : done.eraseDups[i]? ≠ some m := fun found =>
        early (List.mem_eraseDups.mp (List.mem_of_getElem? found))
      by_cases here : done.eraseDups.length = i <;> simp [here, elsewhere]
    · have other : (m == n) = false := by simpa using same
      rw [other]
      simp only [placed.placed m i]
      split
      · rename_i here
        simp [← here, Ne.symm same]
      · exact Iff.rfl

/-- A node is entered behind those before it. -/
theorem enterNode (nameable : Nameable g names) {done rest : List Node} {n : Node}
    {s : Export} (split : g.nodes = done ++ n :: rest) (placed : Placed g names done s) :
    ∃ next, Export.enterNode g names s n = .ok next ∧ Placed g names (done ++ [n]) next := by
  have listed : n ∈ g.nodes := by simp [split]
  by_cases early : n ∈ done
  · exact nameable.enterNode_again listed early placed
  · exact nameable.enterNode_new listed (fun m member => by simp [split, member]) early placed

/-- The nodes and the arcs written so far. -/
structure Entered (g : Graph) (names : Option NodeNames) (arcs : List Arc) (s : Export) :
    Prop where
  graph : s.graph =
    ⟨true, true, (writtenNodes g).map (writtenNode g names), arcs.map (writtenArc g names)⟩
  placed : ∀ n ∈ g.nodes, s.placed.lookup n = some ((writtenNodes g).idxOf n)

/-- An arc is entered behind those before it. -/
theorem enterArc (nameable : Nameable g names) {done rest : List Arc} {a : Arc}
    {s : Export} (split : g.arcs .all = done ++ a :: rest) (entered : Entered g names done s) :
    ∃ next, Export.enterArc g names s a = .ok next ∧ Entered g names (done ++ [a]) next := by
  have listed : a ∈ g.arcs .all := by simp [split]
  have place : ∀ n ∈ g.nodes, s.place names n = .ok ((writtenNodes g).idxOf n, s) := by
    intro n member
    rw [Export.place, entered.placed n member]
  have new : a ∉ done := Fallible.not_mem_done nameable.lists.nodup split
  have unseen : s.graph.edges.any (fun f => s.graph.joins (writtenArc g names a).source
      (writtenArc g names a).target f && f.key == (writtenArc g names a).key) = false := by
    rw [List.any_eq_false, entered.graph]
    intro f member
    obtain ⟨b, before, rfl⟩ := List.mem_map.mp member
    rw [Bool.and_eq_true, not_and]
    intro _ same
    obtain rfl : b = a := congrArg Arc.mk (Value.int_beq_iff.mp same)
    exact new before
  refine ⟨{ s with graph := s.graph.putEdge (writtenArc g names a) }, ?_, ?_, entered.placed⟩
  · rw [Export.enterArc, place _ (nameable.lists.tail_mem a listed)]
    change (s.place names (g.head a) >>= _) = _
    rw [place _ (nameable.lists.head_mem a listed)]
    rfl
  · rw [NamedGraph.putEdge]
    simp only [unseen, Bool.false_eq_true, if_false]
    rw [entered.graph]
    simp

/-- The graph is written as it is, and every node is where it was first listed. -/
theorem exists_toExport (nameable : Nameable g names) :
    ∃ e, g.toExport names = .ok e ∧ e.graph = written g names ∧
      ∀ n ∈ g.nodes, e.placed.lookup n = some ((writtenNodes g).idxOf n) := by
  have begins : Placed g names [] ⟨.empty true true, []⟩ := ⟨rfl, fun n i => by simp⟩
  obtain ⟨nodes, writtenNodes, placed⟩ := Fallible.foldlM_ok (Placed g names) begins
    fun done n rest s split holds => nameable.enterNode split holds
  have entered : Entered g names [] nodes := by
    refine ⟨placed.graph, fun n listed => ?_⟩
    rw [placed.placed]
    exact List.getElem?_idxOf (mem_writtenNodes.mpr listed)
  obtain ⟨arcs, writtenArcs, entered⟩ := Fallible.foldlM_ok (Entered g names) entered
    fun done a rest s split holds => nameable.enterArc split holds
  refine ⟨arcs, ?_, entered.graph, entered.placed⟩
  rw [Graph.toExport, writtenNodes]
  exact writtenArcs

/-- A graph is written as it is told here. -/
theorem toNamed_eq (nameable : Nameable g names) :
    g.toNamed names = .ok (written g names) := by
  obtain ⟨e, exported, graph, _⟩ := nameable.exists_toExport
  rw [Graph.toNamed, exported]
  exact congrArg Except.ok graph

/-- The edges are spelled with the names of the nodes. -/
theorem spelled (nameable : Nameable g names) : (written g names).Spelled where
  directed := rfl
  source e member := by
    obtain ⟨a, listed, rfl⟩ := List.mem_map.mp member
    exact ⟨_, getElem?_written_nodes (nameable.lists.tail_mem a listed), rfl⟩
  target e member := by
    obtain ⟨a, listed, rfl⟩ := List.mem_map.mp member
    exact ⟨_, getElem?_written_nodes (nameable.lists.head_mem a listed), rfl⟩

end Nameable

end ArcSelection
