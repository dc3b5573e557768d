import ArcSelection.GraphML.Load
import ArcSelection.GraphML.Reading
import ArcSelection.Proofs.Exchange.Made

/-!
# What is loaded from a graph file

Any reader may be used that yields graphs whose names can be told apart: the graph made of what it
reads is consistent, whatever the file holds. The reader of the library is one of these, since it
adds the nodes and edges of a file one by one, also those of nested graphs.
-/

namespace ArcSelection.GraphML

open Fallible
open ArcSelection.Xml (Element)

variable {keys : DataKeys} {g next : NamedGraph} {e : Element}

/-- Reading an edge keeps a graph well formed. -/
theorem wellFormed_readEdge (wellFormed : g.WellFormed)
    (read : readEdge keys g e = .ok next) : next.WellFormed := by
  rw [readEdge] at read
  dsimp only at read
  generalize (e.value? "directed" == some (if g.directed then "false" else "true")) = against
    at read
  cases against with
  | true => cases read
  | false =>
      obtain ⟨data, _, added⟩ := bind_eq_ok_iff.mp read
      exact wellFormed.addEdge added

/-- The contents of a graph are well formed if nodes are read so. -/
theorem wellFormed_readContents {depth : Nat}
    (nodes : ∀ {g next e}, g.WellFormed → readNode keys depth g e = .ok next →
      next.WellFormed)
    (wellFormed : g.WellFormed) (read : readContents keys depth e g = .ok next) :
    next.WellFormed := by
  rw [readContents] at read
  split at read
  · cases read
  · obtain ⟨withNodes, nodesRead, rest⟩ := bind_eq_ok_iff.mp read
    obtain ⟨withEdges, edgesRead, rest⟩ := bind_eq_ok_iff.mp rest
    obtain ⟨_, _, made⟩ := bind_eq_ok_iff.mp rest
    cases made
    have nodesKept : withNodes.WellFormed :=
      foldlM_keeps (fun _ _ _ kept step => nodes kept step) wellFormed nodesRead
    exact foldlM_keeps (fun _ _ _ kept step => wellFormed_readEdge kept step) nodesKept edgesRead

/-- A node is added under its name, and the graph that it holds is read if it is a group. -/
theorem exists_added_of_readNode {depth : Nat} (read : readNode keys depth g e = .ok next) :
    ∃ data i grown, g.addNode (nameIn e "id") data = .ok (i, grown) ∧ (next = grown ∨
      ∃ d inner, depth = d + 1 ∧ readContents keys d inner grown = .ok next) := by
  rw [readNode] at read
  obtain ⟨data, _, rest⟩ := bind_eq_ok_iff.mp read
  cases attributes : isNodeAttributes data with
  | false =>
      rw [attributes] at rest
      cases rest
  | true =>
      rw [attributes] at rest
      obtain ⟨⟨i, grown⟩, added, rest⟩ := bind_eq_ok_iff.mp rest
      refine ⟨data, i, grown, added, ?_⟩
      dsimp only at rest
      split at rest
      · split at rest
        · exact Or.inr ⟨_, _, rfl, rest⟩
        · cases rest
      · cases rest
        exact Or.inl rfl

/-- Reading a node keeps a graph well formed. -/
theorem wellFormed_readNode (depth : Nat) {g next : NamedGraph} {e : Element}
    (wellFormed : g.WellFormed) (read : readNode keys depth g e = .ok next) :
    next.WellFormed := by
  induction depth generalizing g next e with
  | zero =>
      obtain ⟨data, i, grown, added, rfl | ⟨d, inner, deeper, _⟩⟩ := exists_added_of_readNode read
      · exact (wellFormed.addNode added).1
      · cases deeper
  | succ depth ih =>
      obtain ⟨data, i, grown, added, rfl | ⟨d, inner, deeper, rest⟩⟩ :=
        exists_added_of_readNode read
      · exact (wellFormed.addNode added).1
      · cases deeper
        exact wellFormed_readContents ih (wellFormed.addNode added).1 rest

/-- What is read first from a file is a graph with names that can be told apart. -/
theorem wellFormed_readFirst {text : String} (read : readFirst text = .ok g) :
    g.WellFormed := by
  have each : ∀ {text : String} {gs : List NamedGraph}, readGraphs text = .ok gs →
      ∀ g ∈ gs, g.WellFormed := by
    intro text gs graphs g member
    rw [readGraphs, readCharacters] at graphs
    split at graphs
    · cases graphs
    · cases graphs
    · cases graphs
    · obtain ⟨keys, _, mapped⟩ := bind_eq_ok_iff.mp graphs
      obtain ⟨e, _, graph⟩ := mem_of_mapM_ok mapped g member
      exact wellFormed_readContents (wellFormed_readNode _)
        (NamedGraph.wellFormed_empty _ _) graph
  obtain ⟨gs, graphs, rest⟩ := bind_eq_ok_iff.mp read
  cases gs with
  | cons first others =>
      cases rest
      exact each graphs g List.mem_cons_self
  | nil =>
      obtain ⟨again, graphsAgain, rest⟩ := bind_eq_ok_iff.mp rest
      cases again with
      | cons first others =>
          cases rest
          exact each graphsAgain g List.mem_cons_self
      | nil => cases rest

/-- A text that is given by its characters is read from them. -/
theorem readFirst_ofList {characters : List Char} {others : List NamedGraph}
    (read : readCharacters characters.length (Xml.contentOf characters) =
      .ok (g :: others)) : readFirst (String.ofList characters) = .ok g := by
  have graphs : readGraphs (String.ofList characters) = .ok (g :: others) := by
    rwa [readGraphs, String.toList_ofList, String.length_ofList]
  rw [readFirst, graphs]
  rfl

theorem wellFormed_withoutShapes (wellFormed : g.WellFormed) : (withoutShapes g).WellFormed := by
  have names : (withoutShapes g).names = g.names := by
    simp [withoutShapes, NamedGraph.names, Function.comp_def]
  exact ⟨names ▸ wellFormed.hashable, names ▸ wellFormed.present, names ▸ wellFormed.apart,
    names ▸ wellFormed.edges⟩

/-- What is read is a graph: its names can be told apart, and its edges join its nodes. -/
def Reader.ReadsGraphs (read : Reader) : Prop :=
  ∀ text g, read text = .ok g → g.WellFormed

/-- The reader of the library yields graphs. -/
theorem readsGraphs_readFirst : Reader.ReadsGraphs readFirst :=
  fun _ _ => wellFormed_readFirst

/-- A file is loaded exactly if a graph with names that have texts and with readable shapes is
read from it, and then the loaded graph is made of that graph without the shapes. -/
theorem load_eq_ok_iff {read : Reader} {file text : String} {l : Loaded} :
    load read file text = .ok l ↔
      ∃ g shapes, read text = .ok g ∧ readShapes g = .ok shapes ∧ (withoutShapes g).Spellable ∧
        l = ⟨(withoutShapes g).imported.graph, (withoutShapes g).imported.names,
          .ofList (shapes.map fun s => ((withoutShapes g).imported.nodeAt s.1, s.2))⟩ := by
  have passed : ∀ g, (read text).mapError (loadFault file) = .ok g ↔ read text = .ok g := by
    intro g
    cases read text <;> simp [Except.mapError]
  constructor
  · intro loaded
    obtain ⟨g, found, rest⟩ := bind_eq_ok_iff.mp loaded
    obtain ⟨shapes, shaped, rest⟩ := bind_eq_ok_iff.mp rest
    obtain ⟨made, imported, ended⟩ := bind_eq_ok_iff.mp rest
    obtain ⟨spellable, rfl⟩ := NamedGraph.toImport_eq_ok_iff.mp imported
    exact ⟨g, shapes, (passed g).mp found, shaped, spellable, (Except.ok.inj ended).symm⟩
  · rintro ⟨g, shapes, found, shaped, spellable, rfl⟩
    exact bind_eq_ok_iff.mpr ⟨g, (passed g).mpr found, bind_eq_ok_iff.mpr ⟨shapes, shaped,
      bind_eq_ok_iff.mpr ⟨_, spellable.toImport_eq, rfl⟩⟩⟩

/-- A graph that is loaded is lawful. -/
theorem lawful_of_load {read : Reader} (graphs : read.ReadsGraphs) {file text : String}
    {l : Loaded} (loaded : load read file text = .ok l) : l.graph.graph.Lawful := by
  obtain ⟨g, shapes, found, _, _, rfl⟩ := load_eq_ok_iff.mp loaded
  exact (wellFormed_withoutShapes (graphs text g found)).lists_made.consistent.lawful

end ArcSelection.GraphML
