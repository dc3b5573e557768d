import ArcSelection.Proofs.Exchange.RoundTrip
import ArcSelection.Proofs.GraphML.Loaded
import ArcSelection.Proofs.GraphML.Saved

/-!
# Loading a saved graph

A graph that was saved is loaded as the same graph with other ids, whatever writer and reader
preserve the graphs that a file can tell. The order of the file is not the one of the graph. The
loaded graph is compared with the graph as it would be read back without a file, once its
attributes are those that a file keeps and its nodes are named by the texts of their names.
-/

namespace ArcSelection

namespace NamedGraph

/-- The graph with its edges node by node and neighbour by neighbour. -/
def inOrder (g : NamedGraph) : NamedGraph := { g with edges := g.edgesInOrder }

variable {g : NamedGraph}

/-- Edges that are in order stay as they are. -/
theorem Spelled.edgesInOrder_inOrder (spelled : g.Spelled) :
    g.inOrder.edgesInOrder = g.edgesInOrder := by
  have kept : ∀ e ∈ g.inOrder.edges, e ∈ g.edges :=
    fun e member => spelled.edgesInOrder_perm.mem_iff.mp member
  have again : g.inOrder.Spelled :=
    ⟨spelled.directed, fun e member => spelled.source e (kept e member),
      fun e member => spelled.target e (kept e member)⟩
  rw [again.edgesInOrder_eq, inOrder, spelled.edgesInOrder_eq]
  exact nodeByNode_nodeByNode List.nodup_range

/-- Edges in order are imported as the edges are. -/
theorem Spelled.imported_inOrder (spelled : g.Spelled) : g.inOrder.imported = g.imported := by
  rw [imported, imported, spelled.edgesInOrder_inOrder]
  rfl

end NamedGraph

namespace Properties

theorem unlessEmpty_eq_some_iff {p q : Properties} :
    unlessEmpty p = some q ↔ p = q ∧ q ≠ [] := by
  cases p with
  | nil =>
      refine ⟨nofun, ?_⟩
      rintro ⟨rfl, nonempty⟩
      exact absurd rfl nonempty
  | cons e rest =>
      refine ⟨fun same => ?_, fun same => congrArg some same.1⟩
      cases same
      exact ⟨rfl, List.cons_ne_nil _ _⟩

end Properties

/-- Every shape is read back from the word for it. -/
theorem NodeShape.read_word (s : NodeShape) : NodeShape.read s.word = .ok s := by
  cases s <;> rfl

namespace GraphML

/-- The names that a file tells are texts. -/
theorem spellable_filed (n : NamedGraph) : (withoutShapes (filed n)).Spellable := by
  intro name member
  rw [NamedGraph.names, withoutShapes, filed, List.map_map, List.map_map] at member
  obtain ⟨_, _, rfl⟩ := List.mem_map.mp member
  rfl

/-- The properties that come back from a file. -/
def keptProperties (p : Option Properties) : Option Properties :=
  Properties.unlessEmpty (kept (p.getD []))

/-- The graph with its properties as they come back from a file. -/
def keptGraph (g : Graph) : Graph :=
  { g with
    nodeProperties := fun n => keptProperties (g.nodeProperties n)
    arcProperties := fun a => keptProperties (g.arcProperties a) }

/-- The nodes under the texts of their names. -/
def textNames (g : Graph) (names : Option NodeNames) : NodeNames :=
  ⟨.empty, .ofList (g.nodes.map fun n => (n, .text (exportName names n).plainText))⟩

/-- The loaded graph is the saved one with other ids: every property map is what a file keeps of
it, every node is named by the text of its name, and the nodes with shapes have the same ones. -/
structure Restores (g : Graph) (names : Option NodeNames) (shapes : OrderedMap Node NodeShape)
    (l : Loaded) (node : Node → Node) (arc : Arc → Arc) : Prop where
  nodes : Set.BijOn node {n | n ∈ g.nodes} {n | n ∈ l.graph.graph.nodes}
  nodeNames : Pairs g.nodes (fun n => .text (exportName names n).plainText) node
    l.names.nodes l.names.names
  nodeProperties : ∀ n ∈ g.nodes,
    l.graph.graph.nodeProperties (node n) = keptProperties (g.nodeProperties n)
  arcs : Set.BijOn arc {a | a ∈ g.arcs .all} {a | a ∈ l.graph.graph.arcs .all}
  tail : ∀ a ∈ g.arcs .all, l.graph.graph.tail (arc a) = node (g.tail a)
  head : ∀ a ∈ g.arcs .all, l.graph.graph.head (arc a) = node (g.head a)
  isEdge : ∀ a ∈ g.arcs .all, l.graph.graph.isEdge (arc a) = g.isEdge a
  arcProperties : ∀ a ∈ g.arcs .all,
    l.graph.graph.arcProperties (arc a) = keptProperties (g.arcProperties a)
  shapes : ∀ m s, l.shapes.get? m = some s ↔ ∃ n ∈ g.nodes, node n = m ∧ shapes.get? n = some s

/-- Shapes that are found with positions are those of the nodes at these positions. -/
theorem get?_shapesPlaced {g : Graph} {shapes : OrderedMap Node NodeShape} {place : Nat → Node}
    {node : Node → Node} (injective : Set.InjOn node {n | n ∈ g.nodes})
    (placed : ∀ n ∈ writtenNodes g, place ((writtenNodes g).idxOf n) = node n) {m : Node}
    {s : NodeShape} :
    (OrderedMap.ofList (((writtenNodes g).flatMap fun n =>
      ((shapeIn shapes.entries n).map fun s => ((writtenNodes g).idxOf n, s)).toList).map
        fun s => (place s.1, s.2))).get? m = some s ↔
      ∃ n ∈ g.nodes, node n = m ∧ shapes.get? n = some s := by
  have entries : ((writtenNodes g).flatMap fun n =>
      ((shapeIn shapes.entries n).map fun s => ((writtenNodes g).idxOf n, s)).toList).map
        (fun s => (place s.1, s.2)) =
      (writtenNodes g).flatMap fun n => ((shapes.get? n).map fun s => (node n, s)).toList := by
    rw [List.map_flatMap]
    refine List.flatMap_congr fun n member => ?_
    rw [← placed n member]
    change _ = ((shapeIn shapes.entries n).map _).toList
    cases shapeIn shapes.entries n <;> rfl
  rw [entries, OrderedMap.get?_ofList_flatMap nodup_writtenNodes]
  · simp only [mem_writtenNodes]
  · intro a first b second same
    exact injective (mem_writtenNodes.mp first) (mem_writtenNodes.mp second) same

end GraphML

namespace Savable

open GraphML Fallible

variable {g : Graph} {names : Option NodeNames} {shapes : OrderedMap Node NodeShape}
  (savable : Savable g names shapes)

include savable

/-- The graph is written as it is told above. -/
theorem save_eq (write : Writer) :
    save write g names shapes = write (saved g names shapes.entries) := by
  obtain ⟨e, exported, graph, placed⟩ := savable.nameable.exists_toExport
  rw [save, exported]
  exact congrArg (· >>= write) (savable.addShapes_eq graph placed)

/-- A node goes by the text of its name. -/
theorem exportName_textNames {n : Node} (listed : n ∈ g.nodes) :
    exportName (some (textNames g names)) n = .text (exportName names n).plainText := by
  have distinct : (g.nodes.map fun n => (n, Value.text (exportName names n).plainText)).Pairwise
      fun a b => (a.1 == b.1) = false :=
    List.pairwise_map.mpr (savable.lawful.nodes_nodup.imp fun different => by simpa using different)
  have found : (textNames g names).names.get? n = some (.text (exportName names n).plainText) := by
    rw [← OrderedMap.mem_entries_iff, textNames, OrderedMap.entries_ofList distinct]
    exact List.mem_map.mpr ⟨n, listed, rfl⟩
  rw [exportName, NodeNames.name, found, Option.getD_some]

/-- What comes back of a graph can be exchanged. -/
theorem exchangeable : Exchangeable (keptGraph g) (some (textNames g names)) where
  lists := ⟨savable.lawful.nodup, savable.lawful.tail_mem, savable.lawful.head_mem⟩
  hashable n listed := by rw [savable.exportName_textNames listed]; rfl
  present n listed := by rw [savable.exportName_textNames listed]; exact nofun
  apart n listed m listed' different := by
    rw [savable.exportName_textNames listed, savable.exportName_textNames listed',
      ← Bool.not_eq_true, Value.text_beq_iff]
    exact fun same => savable.namesApart.texts n listed m listed' different (Value.text.inj same).symm
  nodeProperties n listed p found := by
    obtain ⟨rfl, nonempty⟩ := Properties.unlessEmpty_eq_some_iff.mp found
    have storable := savable.storable_node listed
    exact ⟨nonempty, keyed_kept storable.apart fun e member reserved =>
      storable.free e member (List.mem_cons_of_mem _ reserved)⟩
  arcProperties a listed p found := by
    obtain ⟨rfl, nonempty⟩ := Properties.unlessEmpty_eq_some_iff.mp found
    have storable := savable.storable_arc listed
    exact ⟨nonempty, keyed_kept storable.apart storable.free⟩

/-! ### What is read of the file -/

/-- Without the shape, a node has the properties that are kept. -/
theorem without_savedAttributes {n : Node} (listed : n ∈ g.nodes)
    (entries : List (Node × NodeShape)) :
    Properties.without (savedNode g names entries n).2 shapeAttribute =
      kept ((g.nodeProperties n).getD []) := by
  have storable := savable.storable_node listed
  have keyed := keyed_kept storable.apart storable.free
  have none : ∀ e ∈ kept ((g.nodeProperties n).getD []), (!(e.1 == .text shapeAttribute)) = true := by
    intro e member
    obtain ⟨key, isText, free⟩ := keyed.texts e member
    rw [Bool.not_eq_true', ← Bool.not_eq_true, isText, Value.beq_text_iff]
    rintro same
    cases same
    exact free List.mem_cons_self
  rw [savedNode, Properties.without, List.filter_append, List.filter_eq_self.mpr none]
  cases shapeIn entries n with
  | none => exact List.append_nil _
  | some s => simp [shapeEntry]

/-- The shape of a node is found with its name. -/
theorem value?_savedAttributes {n : Node} (listed : n ∈ g.nodes)
    (entries : List (Node × NodeShape)) :
    Properties.value? (savedNode g names entries n).2 shapeAttribute =
      (shapeIn entries n).map fun s => .text s.word := by
  have storable := savable.storable_node listed
  have none : Properties.value? (kept ((g.nodeProperties n).getD [])) shapeAttribute = none :=
    (keyed_kept storable.apart storable.free).value?_eq_none List.mem_cons_self
  rw [savedNode, Properties.value?_append_of_none none]
  cases shapeIn entries n with
  | none => rfl
  | some s => simp [Properties.value?, shapeEntry]

/-- An arc is told by a file as it would be written of the graph that comes back. -/
theorem writtenArc_keptGraph {a : Arc} (listed : a ∈ g.arcs .all) :
    writtenArc (keptGraph g) (some (textNames g names)) a = respelled (savedArc g names a) := by
  have tail := savable.exportName_textNames (savable.lawful.tail_mem a listed)
  have head := savable.exportName_textNames (savable.lawful.head_mem a listed)
  have attributes := put_kept (savable.storable_arc listed) (List.mem_singleton_self _)
    (.bool !(g.isEdge a))
  have properties : (keptGraph g).arcProperties a = keptProperties (g.arcProperties a) := rfl
  rw [savedArc, ← attributes, writtenArc, properties, keptProperties,
    Properties.getD_unlessEmpty]
  change NamedEdge.mk _ _ (exportName _ (g.tail a)) (exportName _ (g.head a)) _ _ = _
  rw [tail, head]
  rfl

/-- Without the shapes, a file tells what would be written of the graph that comes back. -/
theorem withoutShapes_filed (entries : List (Node × NodeShape)) :
    withoutShapes (filed (saved g names entries)) =
      (written (keptGraph g) (some (textNames g names))).inOrder := by
  have nodes : (withoutShapes (filed (saved g names entries))).nodes =
      (written (keptGraph g) (some (textNames g names))).nodes := by
    simp only [withoutShapes, filed, saved, written, List.map_map]
    refine List.map_congr_left fun n listed => ?_
    have isNode := mem_writtenNodes.mp listed
    have attributes := savable.without_savedAttributes isNode entries
    have name := savable.exportName_textNames isNode
    have properties : (keptGraph g).nodeProperties n = keptProperties (g.nodeProperties n) := rfl
    rw [Function.comp_apply, Function.comp_apply, attributes, writtenNode, name, properties,
      keptProperties, Properties.getD_unlessEmpty]
    rfl
  have edges : (written (keptGraph g) (some (textNames g names))).edges =
      (saved g names entries).edges.map respelled := by
    rw [written, saved, List.map_map]
    exact List.map_congr_left fun a listed => savable.writtenArc_keptGraph listed
  have order : (filed (saved g names entries)).edges =
      (written (keptGraph g) (some (textNames g names))).edgesInOrder := by
    have count : (saved g names entries).nodes.length =
        (written (keptGraph g) (some (textNames g names))).nodes.length := by
      rw [← nodes]
      simp [withoutShapes, filed]
    have grouped : nodeByNode ((List.range (saved g names entries).nodes.length).map id)
        NamedEdge.source NamedEdge.target ((saved g names entries).edges.map respelled) =
          (nodeByNode (List.range (saved g names entries).nodes.length) NamedEdge.source
            NamedEdge.target (saved g names entries).edges).map respelled :=
      nodeByNode_map Function.injective_id (fun _ _ => rfl) (fun _ _ => rfl)
    rw [List.map_id] at grouped
    rw [filed, (savable.spelled_saved entries).edgesInOrder_eq,
      savable.exchangeable.nameable.spelled.edgesInOrder_eq, edges, ← count, grouped]
  exact congrArg₂ (NamedGraph.mk true true) nodes order

/-- The shapes are found with the positions of their nodes. -/
theorem readShapes_filed (entries : List (Node × NodeShape)) :
    readShapes (filed (saved g names entries)) = .ok ((writtenNodes g).flatMap fun n =>
      ((shapeIn entries n).map fun s => ((writtenNodes g).idxOf n, s)).toList) := by
  have positions : (filed (saved g names entries)).nodes.zipIdx = (writtenNodes g).map fun n =>
      (((.text (exportName names n).plainText, (savedNode g names entries n).2) :
        Value × Properties), (writtenNodes g).idxOf n) := by
    rw [filed, saved, List.map_map, List.zipIdx_map, zipIdx_eq_map_idxOf nodup_writtenNodes,
      List.map_map]
    rfl
  rw [readShapes, positions, List.mapM_map, List.flatMap_def]
  refine bind_eq_ok_iff.mpr ⟨_, mapM_eq_map fun n listed => ?_, rfl⟩
  have value := savable.value?_savedAttributes (mem_writtenNodes.mp listed) entries
  rw [Function.comp_apply]
  dsimp only
  rw [value]
  cases shapeIn entries n with
  | none => rfl
  | some s => exact bind_eq_ok_iff.mpr ⟨s, s.read_word, rfl⟩

/-- **A graph that is saved is loaded as it is**, with any writer and reader that preserve the
graphs that a file can tell, if they keep the texts that it is spelled with. -/
theorem load_save {keeps : String → Prop} {write : Writer} {read : Reader}
    (preserves : Preserves keeps write read)
    (kept : ∀ text ∈ textsOf (saved g names shapes.entries), keeps text) (file : String) :
    ∃ text l node arc, save write g names shapes = .ok text ∧ load read file text = .ok l ∧
      Restores g names shapes l node arc := by
  obtain ⟨text, spelled, told⟩ := preserves _ (savable.portable_saved shapes.entries) kept
  obtain ⟨arcs, perm, back⟩ := savable.exchangeable.readSoFar_imported
  have listed : ∀ a, a ∈ arcs ↔ a ∈ g.arcs .all := fun a => perm.mem_iff
  have nodup : arcs.Nodup := perm.nodup_iff.mpr savable.lawful.nodup
  have imported : (withoutShapes (filed (saved g names shapes.entries))).imported =
      (written (keptGraph g) (some (textNames g names))).imported := by
    rw [savable.withoutShapes_filed, savable.exchangeable.nameable.spelled.imported_inOrder]
  have loaded : load read file text = .ok _ := load_eq_ok_iff.mpr
    ⟨_, _, told, savable.readShapes_filed shapes.entries, spellable_filed _, rfl⟩
  rw [imported] at loaded
  refine ⟨_, _, readNode (keptGraph g) (some (textNames g names)), fun a => .nth (arcs.idxOf a),
    (savable.save_eq write).trans spelled, loaded, ?_⟩
  have nodes := back.bijOn_nodes
  have placed : ∀ n ∈ writtenNodes g,
      (written (keptGraph g) (some (textNames g names))).imported.nodeAt
        ((writtenNodes g).idxOf n) = readNode (keptGraph g) (some (textNames g names)) n :=
    fun n member => back.placed n (mem_readOrder.mpr (mem_writtenNodes.mp member))
  exact {
    nodes := nodes
    nodeNames := (back.nameTable.pairs nodup_readOrder fun n => mem_readOrder).congr
      fun n isNode => savable.exportName_textNames isNode
    nodeProperties n := back.nodeProperties
    arcs := by simpa only [listed] using back.bijOn_arcs nodup
    tail a member := (back.record ((listed a).mpr member)).1
    head a member := (back.record ((listed a).mpr member)).2.1
    isEdge a member := (back.record ((listed a).mpr member)).2.2.1
    arcProperties a member := (back.record ((listed a).mpr member)).2.2.2
    shapes m s := get?_shapesPlaced nodes.injOn placed }

end Savable

/-! ### A graph that is saved and loaded -/

namespace GraphML

open Fallible
open ArcSelection.Xml (Element)

/-- A document is read from its characters. -/
theorem readFirst_document {e : Element} {g : NamedGraph} {others : List NamedGraph}
    (read : readCharacters e.documentCharacters.length
      (Xml.contentOf e.documentCharacters) = .ok (g :: others)) :
    readFirst e.document = .ok g := by
  rw [e.document_eq]
  exact readFirst_ofList read

/-- A depot with stops and a shop with a note that says nothing. An edge with a cost joins them,
and a road leads around the depot. -/
def tour : StoredGraph :=
  let depot := (StoredGraph.empty.pushNode (some [(.text "stops", .list [.int 1, .null])])).2
  let both := (depot.pushNode (some [(.text "note", .null)])).2
  let joined := (both.pushArc ⟨⟨2⟩, ⟨1⟩, true⟩ (some [(.text "cost", .int 3)])).2
  (joined.pushArc ⟨⟨1⟩, ⟨1⟩, false⟩ (some [(.int 5, .bool true)])).2

/-- The depot is named by a text, the shop by a number. -/
def tourNames : NodeNames := (NodeNames.empty.put (.text "b") ⟨1⟩).put (.int 7) ⟨2⟩

/-- The shop is drawn as a diamond. -/
def tourShapes : OrderedMap Node NodeShape := .ofList [(⟨2⟩, .diamond)]

/-- The tour lists its nodes and arcs. -/
theorem lists_tour : tour.Lists
    [some [(.text "stops", .list [.int 1, .null])], some [(.text "note", .null)]]
    [(⟨⟨2⟩, ⟨1⟩, true⟩, some [(.text "cost", .int 3)]),
      (⟨⟨1⟩, ⟨1⟩, false⟩, some [(.int 5, .bool true)])] :=
  (((StoredGraph.Lists.empty.pushNode _).pushNode _).pushArc rfl rfl _).pushArc rfl rfl _

theorem namesApart_tour : NamesApart tour.graph (some tourNames) := by
  have nodes : tour.graph.nodes = [⟨1⟩, ⟨2⟩] := by decide
  have depot : exportName (some tourNames) ⟨1⟩ = .text "b" := rfl
  have shop : exportName (some tourNames) ⟨2⟩ = .int 7 := rfl
  have digit : (Value.int 7).plainText = "7" := by decide +kernel
  refine ⟨?_, ?_, ?_, ?_, ?_⟩ <;>
    simp only [nodes, List.forall_mem_cons, List.not_mem_nil, false_implies, implies_true,
      and_true, depot, shop]
  · exact ⟨rfl, rfl⟩
  · exact ⟨nofun, nofun⟩
  · exact ⟨⟨fun h => absurd rfl h, fun _ => rfl⟩, fun _ => rfl, fun h => absurd rfl h⟩
  · rw [digit]
    exact ⟨⟨fun h => absurd rfl h, fun _ => by decide⟩, fun _ => by decide, fun h => absurd rfl h⟩
  · rw [digit]
    exact ⟨by decide, by decide⟩

/-- The tour can be saved. -/
theorem savable_tour : Savable tour.graph (some tourNames) tourShapes := by
  have nodes : tour.graph.nodes = [⟨1⟩, ⟨2⟩] := by decide
  have arcs : tour.graph.arcs .all = [⟨1⟩, ⟨2⟩] := by decide
  refine ⟨lists_tour.consistent.lawful, ?_, ?_, ?_, ?_, ?_⟩
  · rintro _ ⟨⟩
    exact namesApart_tour
  · simp only [nodes, List.forall_mem_cons, List.not_mem_nil, false_implies, implies_true, and_true]
    refine ⟨fun p found => ?_, fun p found => ?_⟩ <;> cases found <;>
      exact fun e member => ⟨_, congrArg Prod.fst (List.mem_singleton.mp member)⟩
  · simp only [nodes, List.forall_mem_cons, List.not_mem_nil, false_implies, implies_true, and_true]
    refine ⟨fun p found => ?_, fun p found => ?_⟩ <;> cases found
    · have printable : (Value.list [.int 1, .null]).plainText.toList.all Text.isPrintable = true := by
        decide +kernel
      exact Properties.storable_singleton (by decide) fun _ => ⟨rfl, _,
        scalar_of_isWritable (by decide +kernel), by decide +kernel, List.all_eq_true.mp printable⟩
    · exact Properties.storable_singleton (by decide) fun present => absurd rfl present
  · simp only [arcs, List.forall_mem_cons, List.not_mem_nil, false_implies, implies_true, and_true]
    refine ⟨fun p found => ?_, fun p found => ?_⟩ <;> cases found
    · exact Properties.storable_singleton (by decide) fun _ => ⟨rfl, _, rfl, trivial⟩
    · exact Properties.storable_singleton (by decide +kernel) fun _ =>
        ⟨by decide +kernel, _, rfl, trivial⟩
  · intro n s found
    cases List.mem_singleton.mp ((tourShapes.mem_entries_iff n s).mpr found)
    decide

/-- The root of the file of the graph. -/
def tourRoot : Element := rootElement (saved tour.graph (some tourNames) tourShapes.entries)

/-- Whether the tour was read, with its names as texts. -/
def isTour : Except Fault (List NamedGraph) → Bool
  | .ok [⟨true, true, [(.text "b", [(.text "stops", .text "[1, None]")]),
      (.text "7", [(.text "shape", .text "diamond")])],
      [⟨0, 0, .text "b", .text "b", .int 2,
        [(.text "5", .bool true), (.text "directed", .bool true)]⟩,
      ⟨1, 0, .text "7", .text "b", .int 1,
        [(.text "cost", .int 3), (.text "directed", .bool false)]⟩]⟩] => true
  | _ => false

/-- The file of the graph is read as it was written. -/
theorem readFirst_tour : ∃ text,
    write (saved tour.graph (some tourNames) tourShapes.entries) = .ok text ∧
      readFirst text = .ok (filed (saved tour.graph (some tourNames) tourShapes.entries)) := by
  have told : isTour (readCharacters tourRoot.documentCharacters.length
      (Xml.contentOf tourRoot.documentCharacters)) = true := by decide +kernel
  unfold isTour at told
  split at told
  · next read => exact ⟨_, if_pos (by decide +kernel), readFirst_document read⟩
  · cases told

/-- A text of printable characters, not more than an integer may have digits. -/
def IsLegible (text : String) : Prop :=
  text.length ≤ Decimal.maxIntegerDigits ∧ text.toList.all Text.isPrintable = true

/-- The tour is saved as the library writes it, and loaded from that. -/
theorem load_save_tour :
    Savable tour.graph (some tourNames) tourShapes ∧ Preserves IsLegible stored retrieved ∧
      (∀ text ∈ textsOf (saved tour.graph (some tourNames) tourShapes.entries), IsLegible text) ∧
      stored (saved tour.graph (some tourNames) tourShapes.entries) =
        write (saved tour.graph (some tourNames) tourShapes.entries) ∧
      ∃ text l node arc, save stored tour.graph (some tourNames) tourShapes = .ok text ∧
        load retrieved "g.graphml" text = .ok l ∧
        Restores tour.graph (some tourNames) tourShapes l node arc := by
  obtain ⟨text, written, read⟩ := readFirst_tour
  have legible : ∀ text ∈ textsOf (saved tour.graph (some tourNames) tourShapes.entries),
      IsLegible text := by
    unfold IsLegible
    decide +kernel
  exact ⟨savable_tour, preserves_stored_retrieved IsLegible, legible,
    (stored_of_readFirst written read).trans written.symm,
    savable_tour.load_save (preserves_stored_retrieved IsLegible) legible "g.graphml"⟩

/-! ### Names and keys that are in the way -/

/-- Two nodes without properties. -/
def twins : StoredGraph := (StoredGraph.empty.pushNode none).2.pushNode none |>.2

/-- Names that are equal, with different texts. -/
def twinNames : NodeNames := (NodeNames.empty.put (.int 1) ⟨1⟩).put (.bool true) ⟨2⟩

/-- The one node that is written of the twins. -/
def mergedTwins : NamedGraph := ⟨true, true, [(.int 1, [])], []⟩

/-- The merged twins are a graph that a file can tell. -/
theorem portable_mergedTwins : Portable mergedTwins where
  toWellFormed := ⟨by decide, by simp [mergedTwins, NamedGraph.names],
    List.pairwise_singleton _ _, List.forall_mem_nil _⟩
  toSpelled := ⟨rfl, List.forall_mem_nil _, List.forall_mem_nil _⟩
  parallel := rfl
  nonempty := by
    simpa [mergedTwins, NamedGraph.names] using Value.plainText_int_ne_empty 1
  texts := List.pairwise_singleton _ _
  keys := List.forall_mem_nil _
  keysApart := .nil
  nodeAttributes v member := by
    cases List.mem_singleton.mp member
    exact ⟨⟨List.forall_mem_nil _, .nil⟩, List.forall_mem_nil _⟩
  edgeAttributes := List.forall_mem_nil _

/-- A node with a number for a key. -/
def numbered : StoredGraph := (StoredGraph.empty.pushNode (some [(.int 5, .int 1)])).2

/-- Of nodes whose names are equal, one is left. Null is no name, and a key that is no text is
refused. -/
theorem load_save_twins :
    Preserves (fun _ => True) stored retrieved ∧
    ((exportName (some twinNames) ⟨1⟩).plainText = "1" ∧
      (exportName (some twinNames) ⟨2⟩).plainText = "True" ∧
      ∃ text l, save stored twins.graph (some twinNames) .empty = .ok text ∧
        load retrieved "g.graphml" text = .ok l ∧ l.graph.graph.nodes.length = 1) ∧
    save stored twins.graph (some (twinNames.put .null ⟨2⟩)) .empty = .error .absentName ∧
    save stored numbered.graph none .empty = .error .wrongType := by
  have preserves := preserves_stored_retrieved fun _ => True
  obtain ⟨text, written, read⟩ := preserves mergedTwins portable_mergedTwins fun _ _ => trivial
  have exported : twins.graph.toExport (some twinNames) =
      .ok ⟨mergedTwins, [(⟨2⟩, 0), (⟨1⟩, 0)]⟩ := rfl
  have shaped : addShapes twins.graph ⟨mergedTwins, [(⟨2⟩, 0), (⟨1⟩, 0)]⟩ .empty =
      .ok mergedTwins := rfl
  have saved : save stored twins.graph (some twinNames) .empty = .ok text := by
    rw [save, exported]
    exact (congrArg (· >>= stored) shaped).trans written
  have wellFormed : (withoutShapes (filed mergedTwins)).WellFormed :=
    ⟨by simp [withoutShapes, filed, mergedTwins, NamedGraph.names, Value.isHashable],
      by simp [withoutShapes, filed, mergedTwins, NamedGraph.names],
      List.pairwise_singleton _ _, nofun⟩
  refine ⟨preserves, ⟨by decide +kernel, by decide +kernel, text, _, saved,
    load_eq_ok_iff.mpr ⟨_, [], read, rfl, spellable_filed _, rfl⟩, ?_⟩, rfl, rfl⟩
  rw [wellFormed.lists_made.graph_nodes, List.length_map, List.length_range,
    NamedGraph.length_madeNodes]
  rfl

end GraphML

end ArcSelection
