import ArcSelection.Proofs.Exchange.ExportCount
import ArcSelection.Proofs.Exchange.Imported
import ArcSelection.Proofs.Graph.History
import Mathlib

/-!
# Writing an edited graph under the names it came with

A graph is made of a graph with names, is changed, and is written again with the table of
names. The nodes that were made have the first ids, and a node with a later id is named by
its id. Such a name can be told from every other name of this kind, but it can equal a name
that was a number to begin with. The two nodes are then merged, and this is the only way in
which anything is lost.
-/

namespace ArcSelection

/-- The property map that a call gives to a node. -/
def Change.nodeProperties? : Change → Option Properties
  | .addNode _ properties | .setNodeProperties _ properties => properties
  | _ => none

namespace StoredGraph

variable {g next : StoredGraph} {n : Node} {p : Properties}

/-- Deleting arcs leaves the properties of nodes. -/
theorem nodeProperties_deleteArcs (as : List Arc) :
    (as.foldl (fun h a => (h.deleteArc a).2) g).properties.nodes = g.properties.nodes := by
  induction as generalizing g with
  | nil => rfl
  | cons a as ih =>
      rw [List.foldl_cons, ih, deleteArc]
      split
      · rfl
      · exact PropertyStore.nodes_setArc

/-- A map that a node has after a call it had before, or the call gave it. -/
theorem nodeProperties_of_perform {change : Change} (performed : g.perform change = .ok next)
    (found : next.properties.nodes.get? n = some p) :
    g.properties.nodes.get? n = some p ∨ change.nodeProperties? = some p := by
  cases change with
  | addNode id properties =>
      obtain ⟨⟨m, g'⟩, added, rfl⟩ := Fallible.map_eq_ok_iff.mp performed
      have state : g'.properties = g.properties.attachNode m properties := by
        obtain ⟨_, ⟨_, _, rfl⟩ | ⟨_, rfl⟩⟩ := addNode_cases added <;> rfl
      rw [state, PropertyStore.get?_attachNode] at found
      split at found
      · exact (Option.or_eq_some_iff.mp found).symm.imp_left And.right
      · exact .inl found
  | addArc u v direction id properties =>
      obtain ⟨⟨a, g'⟩, added, rfl⟩ := Fallible.map_eq_ok_iff.mp performed
      have state : g'.properties.nodes = g.properties.nodes := by
        obtain ⟨_, _, _, ⟨_, _, rfl⟩ | ⟨_, rfl⟩⟩ := addArc_cases added <;>
          exact PropertyStore.nodes_attachArc
      exact .inl (state ▸ found)
  | deleteNode m =>
      cases performed
      unfold deleteNode at found
      split at found
      · simp only [PropertyStore.setNode, nodeProperties_deleteArcs, OrderedMap.get?_erase,
          Option.ite_none_left_eq_some] at found
        exact .inl found.2
      · exact .inl found
  | deleteArc a =>
      cases performed
      exact .inl (nodeProperties_deleteArcs [a] ▸ found)
  | clear =>
      cases performed
      cases found
  | setNodeProperties m properties =>
      simp only [perform] at performed
      split at performed <;> cases performed
      cases properties with
      | none =>
          simp only [PropertyStore.setNode, OrderedMap.get?_erase,
            Option.ite_none_left_eq_some] at found
          exact .inl found.2
      | some properties =>
          simp only [PropertyStore.setNode, OrderedMap.get?_insert] at found
          split at found
          · exact .inr found
          · exact .inl found
  | setArcProperties a properties =>
      simp only [perform] at performed
      split at performed <;> cases performed
      exact .inl (by simpa using found)

/-- A map that a node has after a history it had before, or a call gave it. -/
theorem nodeProperties_of_afterAll {changes : List Change}
    (found : (g.afterAll changes).properties.nodes.get? n = some p) :
    g.properties.nodes.get? n = some p ∨ ∃ change ∈ changes, change.nodeProperties? = some p := by
  induction changes generalizing g with
  | nil => exact .inl found
  | cons change changes ih =>
      rcases ih found with early | ⟨later, member, given⟩
      · rw [after_eq] at early
        split at early
        · exact (nodeProperties_of_perform ‹_› early).imp_right fun given =>
            ⟨change, List.mem_cons_self, given⟩
        · exact .inl early
      · exact .inr ⟨later, List.mem_cons_of_mem change member, given⟩

end StoredGraph

theorem Node.exists_nth {n : Node} (positive : 0 < n.id) : ∃ i, n = .nth i := by
  obtain ⟨id⟩ := n
  obtain ⟨i, rfl⟩ := Int.eq_succ_of_zero_lt positive
  exact ⟨i, rfl⟩

namespace Imported

variable {nodes : List ((Value × Properties) × Nat)} {s : Import} {n m : Node} {i : Nat}

/-- The nodes that were made have the names they come from. -/
theorem name_nth (imported : Imported nodes s) (inside : i < nodes.length) :
    s.names.name (.nth i) = nodes[i].1.1 := by
  rw [NodeNames.name_nth imported.names (by simpa using inside), List.getElem_map]

/-- Every later node is named by its id. -/
theorem name_of_later (imported : Imported nodes s) (later : nodes.length < n.id) :
    s.names.name n = .int n.id := by
  have missing : s.names.names.get? n = none := by
    rw [Option.eq_none_iff_forall_ne_some]
    intro name found
    obtain ⟨i, listed, rfl⟩ := imported.names.get?_back.mp found
    have inside := (List.getElem?_eq_some_iff.mp listed).1
    rw [List.length_map] at inside
    have : (Node.nth i).id = (i + 1 : Nat) := rfl
    omega
  rw [NodeNames.name, missing, Option.getD_none]

end Imported

namespace NamedGraph

variable {N : NamedGraph} {n m : Node}

theorem length_sortedNodes : N.sortedNodes.length = N.nodes.length := by
  simp [sortedNodes]

namespace WellFormed

variable (wellFormed : N.WellFormed)

include wellFormed

/-- A node has the name it comes from, or it is a later node and is named by its id. -/
theorem name_cases (positive : 0 < n.id) :
    n.id ≤ N.nodes.length ∧ (∃ i, ∃ inside : i < N.namesByText.length, n = .nth i ∧
        N.imported.names.name n = N.namesByText[i]) ∨
      N.nodes.length < n.id ∧ N.imported.names.name n = .int n.id := by
  rw [← length_sortedNodes]
  rcases lt_or_ge (N.sortedNodes.length : Int) n.id with later | early
  · exact .inr ⟨later, wellFormed.imported.name_of_later later⟩
  · obtain ⟨i, rfl⟩ := Node.exists_nth positive
    have inside : i < N.sortedNodes.length := Nat.succ_le_iff.mp (Int.ofNat_le.mp early)
    refine .inl ⟨early, i, by simpa [namesByText] using inside, rfl, ?_⟩
    rw [wellFormed.imported.name_nth inside]
    simp [namesByText]

/-- The names of nodes can serve as names. -/
theorem isHashable_name (positive : 0 < n.id) :
    (N.imported.names.name n).isHashable = true ∧ N.imported.names.name n ≠ .null := by
  rcases wellFormed.name_cases positive with ⟨_, i, inside, _, named⟩ | ⟨_, named⟩
  · have listed : N.namesByText[i] ∈ N.names :=
      namesByText_perm.mem_iff.mp (List.getElem_mem inside)
    rw [named]
    exact ⟨wellFormed.hashable _ listed, wellFormed.present _ listed⟩
  · rw [named]
    exact ⟨by simp [Value.isHashable], by simp⟩

/-- Names of nodes are equal in either order. -/
theorem name_beq_comm (first : 0 < n.id) (second : 0 < m.id) :
    (N.imported.names.name n == N.imported.names.name m) =
      (N.imported.names.name m == N.imported.names.name n) :=
  Value.beq_comm_of_hashable (wellFormed.isHashable_name first).1
    (wellFormed.isHashable_name second).1

/-- Two nodes share a name only if one has the name it comes from and the other does not. -/
theorem name_apart (different : n ≠ m) (first : 0 < n.id) (second : 0 < m.id)
    (alike : n.id ≤ N.nodes.length ↔ m.id ≤ N.nodes.length) :
    (N.imported.names.name n == N.imported.names.name m) = false := by
  rcases wellFormed.name_cases first with ⟨early, i, inside, rfl, named⟩ | ⟨later, named⟩ <;>
    rcases wellFormed.name_cases second with
      ⟨early', j, inside', rfl, named'⟩ | ⟨later', named'⟩
  · have apart := List.pairwise_iff_getElem.mp wellFormed.apart_namesByText
    rw [named, named']
    rcases Nat.lt_or_gt_of_ne fun same => different (congrArg Node.nth same) with less | more
    · exact (apart i j inside inside' less).1
    · exact (apart j i inside' inside more).2
  · exact absurd (alike.mp early) (by omega)
  · exact absurd (alike.mpr early') (by omega)
  · rw [named, named', ← Bool.not_eq_true, Value.int_beq_iff]
    exact fun same => different (congrArg Node.mk same)

/-- Nodes are told apart by their names exactly if no name that a node comes with is the id
of a later node. -/
theorem namedApart_iff {nodes : List Node} (nodup : nodes.Nodup)
    (positive : ∀ n ∈ nodes, 0 < n.id) :
    NamedApart (some N.imported.names) nodes ↔
      ∀ n ∈ nodes, ∀ m ∈ nodes, n.id ≤ N.nodes.length → N.nodes.length < m.id →
        (N.imported.names.name n == .int m.id) = false := by
  have later {m : Node} (late : N.nodes.length < m.id) :
      N.imported.names.name m = .int m.id :=
    wellFormed.imported.name_of_later (length_sortedNodes ▸ late)
  constructor
  · intro apart n listed m listed' early late
    obtain ⟨i, inside, rfl⟩ := List.getElem_of_mem listed
    obtain ⟨j, inside', rfl⟩ := List.getElem_of_mem listed'
    have ordered := List.pairwise_iff_getElem.mp apart
    rw [← later late]
    rcases Nat.lt_trichotomy i j with less | rfl | more
    · exact ordered i j inside inside' less
    · omega
    · rw [wellFormed.name_beq_comm (positive _ listed) (positive _ listed')]
      exact ordered j i inside' inside more
  · intro distinct
    refine nodup.pairwise_of_forall_ne fun n listed m listed' different => ?_
    have first := positive n listed
    have second := positive m listed'
    change (N.imported.names.name n == N.imported.names.name m) = false
    by_cases early : n.id ≤ N.nodes.length <;> by_cases early' : m.id ≤ N.nodes.length
    · exact wellFormed.name_apart different first second (iff_of_true early early')
    · rw [later (not_le.mp early')]
      exact distinct n listed m listed' early (not_le.mp early')
    · rw [wellFormed.name_beq_comm first second, later (not_le.mp early)]
      exact distinct m listed' n listed early' (not_le.mp early)
    · exact wellFormed.name_apart different first second (iff_of_false early early')

end WellFormed

variable {changes : List Change}

/-- Changes keep an imported graph consistent. -/
theorem WellFormed.consistent_edited (wellFormed : N.WellFormed) (changes : List Change) :
    (N.imported.graph.afterAll changes).Consistent := by
  obtain ⟨arcs, lists⟩ := wellFormed.imported.graph
  exact lists.consistent.afterAll changes

/-- A node keeps a map it came with, or has one that a call gave it. -/
theorem WellFormed.isNodeAttributes_edited (wellFormed : N.WellFormed)
    (attributes : ∀ n ∈ N.nodes, isNodeAttributes n.2 = true)
    (given : ∀ change ∈ changes, ∀ p, change.nodeProperties? = some p → isNodeAttributes p = true)
    {p : Properties}
    (found : (N.imported.graph.afterAll changes).properties.nodes.get? n = some p) :
    isNodeAttributes p = true := by
  rcases StoredGraph.nodeProperties_of_afterAll found with start | ⟨change, member, gave⟩
  · obtain ⟨arcs, lists⟩ := wellFormed.imported.graph
    have has := lists.consistent.nodeProperties n (OrderedMap.contains_of_get? start)
    obtain ⟨i, rfl⟩ := Node.exists_nth (lists.consistent.nodeIds n has)
    simp only [lists.nodeProperties, List.getElem?_map, Option.join_eq_some_iff,
      Option.map_eq_some_iff] at start
    obtain ⟨made, listed, unempty⟩ := start
    have source : made ∈ N.nodes.zipIdx :=
      (List.mergeSort_perm _ _).mem_iff.mp (List.mem_of_getElem? listed)
    have kept : made.1.2 = p := by
      unfold Properties.unlessEmpty at unempty
      split at unempty
      · cases unempty
      · exact Option.some.inj unempty
    exact kept ▸ attributes made.1 (List.fst_mem_of_mem_zipIdx source)
  · exact given change member p gave

/-- Writing an imported graph that was edited, under the names it came with, never fails, and
loses no arc. It loses no node exactly if no name that a node came with is the id of a node added
later. -/
theorem WellFormed.exists_toNamed_edited (wellFormed : N.WellFormed) {s : Import}
    (imported : N.toImport = .ok s)
    (attributes : ∀ n ∈ N.nodes, isNodeAttributes n.2 = true)
    (given : ∀ change ∈ changes, ∀ p, change.nodeProperties? = some p →
      isNodeAttributes p = true) :
    ∃ M, (s.graph.afterAll changes).graph.toNamed (some s.names) = .ok M ∧
      M.edges.length = (s.graph.afterAll changes).graph.arcCount .all ∧
      (M.nodes.length = (s.graph.afterAll changes).graph.nodeCount ↔
        ∀ n ∈ (s.graph.afterAll changes).graph.nodes,
          ∀ m ∈ (s.graph.afterAll changes).graph.nodes,
            n.id ≤ N.nodes.length → N.nodes.length < m.id →
              (s.names.name n == .int m.id) = false) := by
  obtain ⟨_, rfl⟩ := toImport_eq_ok_iff.mp imported
  have consistent := wellFormed.consistent_edited changes
  have lawful := consistent.lawful
  have positive : ∀ n ∈ (N.imported.graph.afterAll changes).graph.nodes, 0 < n.id :=
    fun n listed => consistent.nodeIds n ((lawful.mem_nodes n).mp listed)
  have writable : Writable (N.imported.graph.afterAll changes).graph (some N.imported.names) :=
    { lists := lawful.toListsArcs
      nodes_nodup := lawful.nodes_nodup
      hashable := fun n listed => (wellFormed.isHashable_name (positive n listed)).1
      present := fun n listed => (wellFormed.isHashable_name (positive n listed)).2
      attributes := fun n _ p found => wellFormed.isNodeAttributes_edited attributes given found }
  obtain ⟨M, written, edges, nodes⟩ := writable.exists_toNamed
  refine ⟨M, written, edges.trans (OrderedMap.length_keys _), ?_⟩
  rw [← wellFormed.namedApart_iff lawful.nodes_nodup positive, ← nodes]
  exact iff_of_eq (congrArg _ (OrderedMap.length_keys _).symm)

/-- A road between a depot and a customer who is named by a number. -/
def numberedRoad : NamedGraph :=
  ⟨false, false, [(.text "depot", []), (.int 7, [])],
    [⟨0, 1, .text "depot", .int 7, .int 0, []⟩]⟩

theorem wellFormed_numberedRoad : numberedRoad.WellFormed := by
  have added : (empty false false).addEdge (.text "depot") (.int 7) none [] =
      .ok numberedRoad := by cbv
  exact (wellFormed_empty false false).addEdge added

/-- The depot is deleted, and another one is joined to the customer. -/
def depotMoved : List Change :=
  [.deleteNode ⟨2⟩, .addNode none (some [(.text "kind", .text "depot")]),
    .addArc ⟨3⟩ ⟨1⟩ .directed none none]

/-- The name of the customer is no id, so nothing is lost. -/
theorem exists_toNamed_edited_depotMoved :
    numberedRoad.WellFormed ∧ (∀ n ∈ numberedRoad.nodes, isNodeAttributes n.2 = true) ∧
      (∀ change ∈ depotMoved, ∀ p, change.nodeProperties? = some p →
        isNodeAttributes p = true) ∧
      ∃ s M, numberedRoad.toImport = .ok s ∧
        (s.graph.afterAll depotMoved).graph.toNamed (some s.names) = .ok M ∧
        M.edges.length = 1 ∧ M.nodes.length = 2 := by
  have attributes : ∀ n ∈ numberedRoad.nodes, isNodeAttributes n.2 = true := by decide
  have given : ∀ change ∈ depotMoved, ∀ p, change.nodeProperties? = some p →
      isNodeAttributes p = true := by
    simp [depotMoved, Change.nodeProperties?, isNodeAttributes, reservedNodeAttributes]
  have spellable : numberedRoad.Spellable := by
    intro name listed
    have known : name = .text "depot" ∨ name = .int 7 := by
      simpa [names, numberedRoad] using listed
    rcases known with rfl | rfl <;> rfl
  have imported := spellable.toImport_eq
  refine ⟨wellFormed_numberedRoad, attributes, given, numberedRoad.imported, ?_⟩
  obtain ⟨M, written, edges, nodes⟩ :=
    wellFormed_numberedRoad.exists_toNamed_edited imported attributes given
  have arcCount : (numberedRoad.imported.graph.afterAll depotMoved).graph.arcCount .all = 1 := by
    cbv
  have listed : (numberedRoad.imported.graph.afterAll depotMoved).graph.nodes = [⟨1⟩, ⟨3⟩] := by
    cbv
  have nodeCount : (numberedRoad.imported.graph.afterAll depotMoved).graph.nodeCount = 2 :=
    (OrderedMap.length_keys _).symm.trans (congrArg List.length listed)
  refine ⟨M, imported, written, edges.trans arcCount, (nodes.mpr ?_).trans nodeCount⟩
  have apart : (numberedRoad.imported.names.name ⟨1⟩ == .int 3) = false := by cbv
  have made : numberedRoad.nodes.length = 2 := rfl
  rw [listed, made]
  simp [apart]

/-- A graph with one node, which is named by the number two. -/
def namedTwo : NamedGraph := ⟨true, true, [(.int 2, [])], []⟩

/-- A node that is added has the id two, and is merged into the node with this name. -/
theorem toNamed_edited_namedTwo :
    ∃ s, namedTwo.toImport = .ok s ∧
      (s.graph.afterAll [.addNode none none]).graph.nodes = [⟨1⟩, ⟨2⟩] ∧
      (s.graph.afterAll [.addNode none none]).graph.toNamed (some s.names) =
        .ok ⟨true, true, [(.int 2, [])], []⟩ := by
  have spellable : namedTwo.Spellable := by
    intro name listed
    cases List.mem_singleton.mp listed
    rfl
  refine ⟨namedTwo.imported, spellable.toImport_eq, ?_, ?_⟩ <;> cbv

end NamedGraph

end ArcSelection
