import ArcSelection.Exchange.Import
import ArcSelection.Proofs.Fallible
import ArcSelection.Proofs.Graph.Growth
import ArcSelection.Proofs.NumberedTable
import ArcSelection.Proofs.Value.Equality

/-!
# What is made of a graph with names

A graph with names that was built by its own operations tells its nodes apart by their names,
and its edges join nodes it has. What is made of it numbers the nodes from one on in the order
of the texts of their names, and the table gives each number the name it comes from. Every
other node is named by its id.
-/

namespace ArcSelection

namespace NamedGraph

/-- The names of the nodes in order. -/
def names (g : NamedGraph) : List Value := g.nodes.map (·.1)

/-- The names can serve as names and can be told apart, and the edges join nodes. -/
structure WellFormed (g : NamedGraph) : Prop where
  hashable : ∀ name ∈ g.names, name.isHashable = true
  present : ∀ name ∈ g.names, name ≠ .null
  apart : g.names.Pairwise fun a b => (a == b) = false
  edges : ∀ e ∈ g.edges, e.source < g.names.length ∧ e.target < g.names.length

/-! ### Building a graph with names -/

theorem wellFormed_empty (directed parallel : Bool) : (empty directed parallel).WellFormed :=
  ⟨nofun, nofun, .nil, nofun⟩

variable {g g' : NamedGraph} {name u v : Value} {attributes : Properties} {i : Nat}

/-- Merging attributes leaves the names. -/
theorem names_mergeNode (g : NamedGraph) (i : Nat) (attributes : Properties) :
    (g.mergeNode i attributes).names = g.names := by
  refine List.ext_getElem? fun j => ?_
  simp only [names, mergeNode, List.getElem?_map, List.getElem?_modify]
  split <;> simp [Function.comp_def]

/-- A node that is added is known already, or comes last under its name. -/
theorem addNode_cases (added : g.addNode name attributes = .ok (i, g')) :
    g'.edges = g.edges ∧ (i < g.names.length ∧ g'.names = g.names ∨
      i = g.names.length ∧ g'.names = g.names ++ [name] ∧ name.isHashable = true ∧
        name ≠ .null ∧ ∀ other ∈ g.names, (other == name) = false) := by
  unfold addNode at added
  split at added
  · cases added
  · rename_i hashable
    split at added
    · rename_i known
      cases added
      obtain ⟨inside, _⟩ := List.findIdx?_eq_some_iff_getElem.mp known
      exact ⟨rfl, .inl ⟨by simpa [names] using inside, names_mergeNode g i attributes⟩⟩
    · rename_i new
      split at added
      · cases added
      · rename_i present
        cases added
        refine ⟨rfl, .inr ⟨by simp [names], by simp [names], by simpa using hashable, ?_, ?_⟩⟩
        · rintro rfl
          exact present rfl
        · simpa [names, position?] using new

/-- A name that is added keeps a graph well formed. -/
theorem WellFormed.addNode (wellFormed : g.WellFormed)
    (added : g.addNode name attributes = .ok (i, g')) :
    g'.WellFormed ∧ i < g'.names.length ∧ g.names.length ≤ g'.names.length := by
  obtain ⟨edges, ⟨inside, same⟩ | ⟨rfl, grown, hashable, present, new⟩⟩ := addNode_cases added
  · refine ⟨⟨?_, ?_, ?_, ?_⟩, same ▸ inside, same ▸ le_rfl⟩
    · exact same ▸ wellFormed.hashable
    · exact same ▸ wellFormed.present
    · exact same ▸ wellFormed.apart
    · exact same ▸ edges ▸ wellFormed.edges
  · refine ⟨⟨?_, ?_, ?_, ?_⟩, by simp [grown], by simp [grown]⟩
    · simpa [grown, or_imp, forall_and, hashable] using wellFormed.hashable
    · simpa [grown, or_imp, forall_and, present] using wellFormed.present
    · rw [grown, List.pairwise_append]
      exact ⟨wellFormed.apart, List.pairwise_singleton _ _, by simpa using new⟩
    · intro e member
      obtain ⟨source, target⟩ := wellFormed.edges e (edges ▸ member)
      simp only [grown, List.length_append, List.length_singleton]
      omega

/-- An edge that is put between nodes keeps a graph well formed. -/
theorem WellFormed.putEdge (wellFormed : g.WellFormed) {e : NamedEdge}
    (source : e.source < g.names.length) (target : e.target < g.names.length) :
    (g.putEdge e).WellFormed := by
  have names : (g.putEdge e).names = g.names := by
    simp only [NamedGraph.putEdge]
    split <;> rfl
  refine ⟨names ▸ wellFormed.hashable, names ▸ wellFormed.present, names ▸ wellFormed.apart, ?_⟩
  intro f member
  rw [names]
  simp only [NamedGraph.putEdge] at member
  split at member
  · obtain ⟨f, former, rfl⟩ := List.mem_map.mp member
    have kept := wellFormed.edges f former
    split <;> exact kept
  · rcases List.mem_append.mp member with former | isLast
    · exact wellFormed.edges f former
    · exact List.mem_singleton.mp isLast ▸ ⟨source, target⟩

/-- An edge that is added keeps a graph well formed. -/
theorem WellFormed.addEdge (wellFormed : g.WellFormed) {key : Option Value}
    (added : g.addEdge u v key attributes = .ok g') : g'.WellFormed := by
  obtain ⟨⟨i, g₁⟩, first, added⟩ := Fallible.bind_eq_ok_iff.mp added
  obtain ⟨⟨j, g₂⟩, second, added⟩ := Fallible.bind_eq_ok_iff.mp added
  obtain ⟨wellFormed₁, source, _⟩ := wellFormed.addNode first
  obtain ⟨wellFormed₂, target, grown⟩ := wellFormed₁.addNode second
  dsimp only at added
  generalize (if g₂.parallel then key.getD (g₂.freeKey i j) else .int 0) = used at added
  split at added
  · cases added
  · cases added
    exact wellFormed₂.putEdge (source.trans_le grown) target

/-- An edge that is listed is an edge, seen from one of its ends. -/
theorem exists_edge_of_listed {e : NamedEdge} (listed : e ∈ g.edgesInOrder) :
    ∃ f ∈ g.edges, e.attributes = f.attributes ∧
      (e.source = f.source ∧ e.target = f.target ∨ e.source = f.target ∧ e.target = f.source) := by
  obtain ⟨⟨n, i⟩, _, grouped⟩ := List.mem_flatMap.mp listed
  obtain ⟨j, _, shared⟩ := List.mem_flatMap.mp grouped
  obtain ⟨f, around, rfl⟩ := List.mem_map.mp shared
  have leaving : f ∈ g.edgesFrom i := (List.mem_filter.mp around).1
  unfold edgesFrom at leaving
  split at leaving
  · exact ⟨f, (List.mem_filter.mp leaving).1, rfl, .inl ⟨rfl, rfl⟩⟩
  · obtain ⟨former, member, turned⟩ := List.mem_filterMap.mp (List.mem_filter.mp leaving).1
    split at turned
    · cases turned
      exact ⟨f, member, rfl, .inl ⟨rfl, rfl⟩⟩
    · split at turned
      · cases turned
        exact ⟨former, member, rfl, .inr ⟨rfl, rfl⟩⟩
      · cases turned

/-- Every edge that is listed joins nodes. -/
theorem WellFormed.edgesInOrder (wellFormed : g.WellFormed) {e : NamedEdge}
    (listed : e ∈ g.edgesInOrder) : e.source < g.names.length ∧ e.target < g.names.length := by
  obtain ⟨f, member, _, ⟨source, target⟩ | ⟨source, target⟩⟩ := exists_edge_of_listed listed
  · exact source ▸ target ▸ wellFormed.edges f member
  · exact source ▸ target ▸ (wellFormed.edges f member).symm

/-! ### The order of the texts -/

/-- Every name has a text to be sorted by. -/
def Spellable (g : NamedGraph) : Prop := ∀ name ∈ g.names, name.isWritable = true

/-- The nodes with their positions, in the order of the texts of their names. -/
def sortedNodes (g : NamedGraph) : List ((Value × Properties) × Nat) :=
  g.nodes.zipIdx.mergeSort fun a b => decide (a.1.1.plainText ≤ b.1.1.plainText)

/-- What is made of a graph whose names have texts. -/
def imported (g : NamedGraph) : Import :=
  g.edgesInOrder.foldl (Import.enterEdge g.directed) (g.sortedNodes.foldl Import.enterNode .start)

/-- A value that can be written has its text for a name. -/
theorem toName_of_writable {v : Value} (writable : v.isWritable = true) :
    v.toName = .ok v.plainText := by
  rw [Value.toName, if_pos writable]

theorem mem_names_of_mem_zipIdx {n : (Value × Properties) × Nat} (member : n ∈ g.nodes.zipIdx) :
    n.1.1 ∈ g.names :=
  List.mem_map_of_mem (List.fst_mem_of_mem_zipIdx member)

/-- Names that have texts are sorted by them. -/
theorem Spellable.nodesByText_eq (spellable : g.Spellable) :
    g.nodesByText = .ok g.sortedNodes := by
  have texts : (g.nodes.zipIdx.mapM fun n => return (<- n.1.1.toName, n)) =
      (.ok (g.nodes.zipIdx.map fun n => (n.1.1.plainText, n)) : Except Fault _) := by
    refine Fallible.mapM_eq_map fun n member => ?_
    rw [toName_of_writable (spellable _ (mem_names_of_mem_zipIdx member))]
    rfl
  have sorted : ((g.nodes.zipIdx.map fun n => (n.1.1.plainText, n)).mergeSort fun a b =>
      decide (a.1 ≤ b.1)).map (·.2) = g.sortedNodes := by
    have names : (g.nodes.zipIdx.map fun n => (n.1.1.plainText, n)).map (·.2) =
        g.nodes.zipIdx := by
      rw [List.map_map]
      exact List.map_id _
    refine (List.map_mergeSort (s := fun a b => decide (a.1.1.plainText ≤ b.1.1.plainText))
      fun a listed b listed' => ?_).trans (congrArg (List.mergeSort · _) names)
    obtain ⟨_, _, rfl⟩ := List.mem_map.mp listed
    obtain ⟨_, _, rfl⟩ := List.mem_map.mp listed'
    rfl
  rw [nodesByText, texts, ← sorted]
  rfl

/-- What is made of a graph with names, if these have texts. -/
theorem Spellable.toImport_eq (spellable : g.Spellable) : g.toImport = .ok g.imported := by
  rw [toImport, spellable.nodesByText_eq]
  rfl

/-- A graph with a name that has no text is refused. -/
theorem toImport_of_not_spellable (unspellable : ¬ g.Spellable) :
    g.toImport = .error .integerTooLong := by
  have refused : (g.nodes.zipIdx.mapM fun n => return (<- n.1.1.toName, n) :
      Except Fault _) = .error .integerTooLong := by
    cases mapped : (g.nodes.zipIdx.mapM fun n => return (<- n.1.1.toName, n) :
        Except Fault (List (String × (Value × Properties) × Nat))) with
    | error fault =>
        obtain ⟨n, _, failed⟩ := Fallible.exists_error_of_mapM_error mapped
        rcases Fallible.bind_eq_error_iff.mp failed with unnamed | ⟨_, _, done⟩
        · unfold Value.toName at unnamed
          split at unnamed <;> cases unnamed
          rfl
        · cases done
    | ok texts =>
        refine absurd (fun name member => ?_) unspellable
        obtain ⟨n, listed, rfl⟩ := List.mem_map.mp member
        obtain ⟨i, inside, rfl⟩ := List.getElem_of_mem listed
        have indexed : (g.nodes[i], i) ∈ g.nodes.zipIdx :=
          List.mem_zipIdx_iff_getElem?.mpr (List.getElem?_eq_getElem inside)
        obtain ⟨_, computed⟩ := Fallible.ok_of_mapM_ok mapped _ indexed
        obtain ⟨_, named, _⟩ := Fallible.bind_eq_ok_iff.mp computed
        unfold Value.toName at named
        split at named
        · assumption
        · cases named
  rw [toImport, nodesByText, refused]
  rfl

/-- Only a graph whose names have texts is imported. -/
theorem toImport_eq_ok_iff {s : Import} :
    g.toImport = .ok s ↔ g.Spellable ∧ s = g.imported := by
  by_cases spellable : g.Spellable
  · rw [spellable.toImport_eq, Except.ok.injEq]
    exact ⟨fun same => ⟨spellable, same.symm⟩, fun same => same.2.symm⟩
  · rw [toImport_of_not_spellable spellable]
    exact ⟨nofun, fun found => absurd found.1 spellable⟩

/-- The names in the order in which the nodes are made. -/
def namesByText (g : NamedGraph) : List Value := g.sortedNodes.map (·.1.1)

/-- Sorting by text leaves the names. -/
theorem namesByText_perm : g.namesByText.Perm g.names := by
  have nodes : g.nodes.zipIdx.map (·.1.1) = g.names := by
    rw [names, ← List.zipIdx_map_fst 0 g.nodes, List.map_map]
    simp
  exact nodes ▸ (List.mergeSort_perm _ _).map _

/-- All names can be spelled exactly if the sorted ones can. -/
theorem spellable_iff : g.Spellable ↔ ∀ name ∈ g.namesByText, name.isWritable = true := by
  simp only [Spellable, namesByText_perm.mem_iff]

/-- Whatever the order, names can be told apart in both directions. -/
theorem WellFormed.apart_namesByText (wellFormed : g.WellFormed) :
    g.namesByText.Pairwise fun a b => (a == b) = false ∧ (b == a) = false := by
  refine (namesByText_perm.pairwise_iff fun {a b} apart => apart.symm).mpr ?_
  refine wellFormed.apart.imp_of_mem fun {a b} left right apart => ⟨apart, ?_⟩
  rwa [Value.beq_comm_of_hashable (wellFormed.hashable b right) (wellFormed.hashable a left)]

end NamedGraph

/-! ### What is made of it -/

/-- A node has the name it is numbered under. -/
theorem NodeNames.name_nth {m : NodeNames} {names : List Value}
    (numbered : Numbered Node.nth m.nodes m.names names) {i : Nat} (inside : i < names.length) :
    m.name (.nth i) = names[i] := by
  have found : m.names.get? (.nth i) = some names[i] :=
    numbered.get?_back.mpr ⟨i, List.getElem?_eq_getElem inside, rfl⟩
  rw [NodeNames.name, found, Option.getD_some]

/-- The nodes have been made, and some arcs between them. -/
structure Imported (nodes : List ((Value × Properties) × Nat)) (s : Import) : Prop where
  graph : ∃ arcs, s.graph.Lists (nodes.map fun n => Properties.unlessEmpty n.1.2) arcs
  names : Numbered Node.nth s.names.nodes s.names.names (nodes.map (·.1.1))
  placed : ∀ n ∈ nodes, s.graph.nodes.contains (s.nodeAt n.2) = true

theorem imported_start : Imported [] .start := ⟨⟨[], .empty⟩, .empty, nofun⟩

namespace Imported

variable {nodes done : List ((Value × Properties) × Nat)} {n : (Value × Properties) × Nat}
  {s : Import} {e : NamedEdge}

/-- A new name gets the next node. -/
theorem enterNode (imported : Imported done s)
    (new : ∀ name ∈ done.map (·.1.1), (name == n.1.1) = false) :
    Imported (done ++ [n]) (s.enterNode n) := by
  obtain ⟨arcs, graph⟩ := imported.graph
  have node : (s.graph.pushNode (Properties.unlessEmpty n.1.2)).1 = .nth done.length := by
    rw [graph.pushNode_fst, List.length_map]
  have grown := graph.pushNode (Properties.unlessEmpty n.1.2)
  refine ⟨⟨arcs, by simpa [Import.enterNode] using grown⟩, ?_, fun m member => ?_⟩
  · have numbered := imported.names.insert Node.nth_injective new
    rw [List.length_map, ← node] at numbered
    simpa [Import.enterNode, NodeNames.put] using numbered
  · have kept : ∀ k, s.graph.nodes.contains k = true →
        (s.enterNode n).graph.nodes.contains k = true := by
      intro k has
      simp only [Import.enterNode, StoredGraph.pushNode, StoredGraph.putNode,
        OrderedMap.contains_insert, has, Bool.or_true]
    rw [Import.nodeAt, show (s.enterNode n).placed = (n.2, .nth done.length) :: s.placed by
      rw [← node]; rfl, List.lookup_cons]
    by_cases same : m.2 = n.2
    · have isLast : (s.enterNode n).graph.nodes.contains (.nth done.length) = true := by
        refine grown.contains_nodes.mpr ?_
        simp
      simpa [same] using isLast
    · have early : m ∈ done := by
        refine (List.mem_append.mp member).resolve_right fun isLast => same ?_
        rw [List.mem_singleton.mp isLast]
      have other : (m.2 == n.2) = false := by simpa using same
      rw [other]
      exact kept _ (imported.placed m early)

/-- An edge between nodes that have been made changes neither their numbers nor their names. -/
theorem enterEdge (imported : Imported nodes s) {directed : Bool}
    (source : ∃ n ∈ nodes, n.2 = e.source) (target : ∃ n ∈ nodes, n.2 = e.target) :
    Imported nodes (s.enterEdge directed e) := by
  obtain ⟨n, isSource, fromHere⟩ := source
  obtain ⟨m, isTarget, toThere⟩ := target
  obtain ⟨arcs, graph⟩ := imported.graph
  have tail := fromHere ▸ imported.placed n isSource
  have head := toThere ▸ imported.placed m isTarget
  refine ⟨⟨_, graph.pushArc (r := ⟨s.nodeAt e.source, s.nodeAt e.target, _⟩) tail head _⟩,
    imported.names, fun k member => ?_⟩
  have kept : (s.enterEdge directed e).graph.nodes.contains (s.nodeAt k.2) =
      s.graph.nodes.contains (s.nodeAt k.2) := by
    simp [Import.enterEdge, StoredGraph.pushArc]
  exact kept.trans (imported.placed k member)

end Imported

namespace NamedGraph.WellFormed

variable {g : NamedGraph} (wellFormed : g.WellFormed)

include wellFormed

/-- The nodes are imported in the order of their texts. -/
theorem imported_sortedNodes :
    Imported g.sortedNodes (g.sortedNodes.foldl Import.enterNode .start) := by
  refine foldl_invariant Imported imported_start fun done n rest s split imported => ?_
  refine imported.enterNode fun name early => ?_
  have apart := wellFormed.apart_namesByText
  rw [namesByText, split, List.map_append, List.pairwise_append] at apart
  exact (apart.2.2 name early n.1.1 (by simp)).1

/-- Every node of a graph with names is made and numbered under its name. -/
theorem imported : Imported g.sortedNodes g.imported := by
  have position : ∀ i < g.names.length, ∃ n ∈ g.sortedNodes, n.2 = i := by
    intro i inside
    have bound : i < g.nodes.length := by simpa [names] using inside
    have listed : (g.nodes[i], i) ∈ g.nodes.zipIdx :=
      List.mem_zipIdx_iff_getElem?.mpr (List.getElem?_eq_getElem bound)
    exact ⟨_, (List.mergeSort_perm _ _).mem_iff.mpr listed, rfl⟩
  refine foldl_invariant (fun _ s => Imported g.sortedNodes s) wellFormed.imported_sortedNodes
    fun done e rest s split imported => ?_
  obtain ⟨source, target⟩ := wellFormed.edgesInOrder (e := e) (by simp [split])
  exact imported.enterEdge (position _ source) (position _ target)

end NamedGraph.WellFormed

end ArcSelection
