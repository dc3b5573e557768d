import ArcSelection.GraphML.Save
import ArcSelection.Proofs.Exchange.Export
import ArcSelection.Proofs.GraphML.Portable

/-!
# What a graph file is written from

Saving a graph writes it with names, sanitizes all attributes and enters the shapes one by one.
What comes out is told here node by node and arc by arc. It is a graph that a file can tell
(`Savable.portable_saved`).
-/

namespace ArcSelection

/-- The names of the nodes can serve as names, and they differ, also by their texts, of which none
is empty. -/
structure NamesApart (g : Graph) (names : Option NodeNames) : Prop where
  hashable : ∀ n ∈ g.nodes, (exportName names n).isHashable = true
  present : ∀ n ∈ g.nodes, exportName names n ≠ .null
  apart : ∀ n ∈ g.nodes, ∀ m ∈ g.nodes, n ≠ m →
    (exportName names n == exportName names m) = false
  texts : ∀ n ∈ g.nodes, ∀ m ∈ g.nodes, n ≠ m →
    (exportName names n).plainText ≠ (exportName names m).plainText
  nonempty : ∀ n ∈ g.nodes, (exportName names n).plainText ≠ ""

/-- The text of an integer is not empty. -/
theorem Value.plainText_int_ne_empty (n : Int) : (Value.int n).plainText ≠ "" := by
  change n.repr ≠ ""
  rw [Int.repr_eq_if]
  split
  · exact Nat.repr_ne_empty
  · exact fun empty => by simp at empty

/-- The ids of nodes always tell them apart. -/
theorem namesApart_none (g : Graph) : NamesApart g none where
  hashable _ _ := rfl
  present _ _ := nofun
  apart n _ m _ different := by
    rw [← Bool.not_eq_true, exportName, exportName, Value.int_beq_iff]
    exact fun same => different (congrArg Node.mk same)
  texts n _ m _ different same := different (congrArg Node.mk (Int.repr_inj.mp same))
  nonempty n _ := Value.plainText_int_ne_empty n.id

/-- The graph can be saved under the names with the shapes: it is lawful, the names, if there are
any, tell the nodes apart, the keys of node properties are texts, no property is in the way of the
names that a file uses for itself, and only nodes of the graph have shapes. -/
structure Savable (g : Graph) (names : Option NodeNames) (shapes : OrderedMap Node NodeShape) :
    Prop where
  lawful : g.Lawful
  naming : ∀ m, names = some m → NamesApart g (some m)
  nodeKeys : ∀ n ∈ g.nodes, ∀ p, g.nodeProperties n = some p → ∀ e ∈ p, ∃ key, e.1 = .text key
  nodeProperties : ∀ n ∈ g.nodes, ∀ p, g.nodeProperties n = some p →
    Properties.Storable (GraphML.shapeAttribute :: reservedNodeAttributes) p
  arcProperties : ∀ a ∈ g.arcs .all, ∀ p, g.arcProperties a = some p →
    Properties.Storable [directedAttribute] p
  shapes : ∀ n s, shapes.get? n = some s → n ∈ g.nodes

namespace GraphML

open Fallible

variable {g : Graph} {names : Option NodeNames} {shapes : OrderedMap Node NodeShape}

/-- The first shape that a list of entries has for a node. -/
def shapeIn (entries : List (Node × NodeShape)) (n : Node) : Option NodeShape :=
  (entries.find? fun e => e.1 == n).map (·.2)

/-- A shape as an attribute, if there is one. -/
def shapeEntry (s : Option NodeShape) : Properties :=
  (s.map fun s => (.text shapeAttribute, .text s.word)).toList

/-- A node as it is saved, with the shape it has in a list of entries. -/
def savedNode (g : Graph) (names : Option NodeNames) (entries : List (Node × NodeShape))
    (n : Node) : Value × Properties :=
  (exportName names n, kept ((g.nodeProperties n).getD []) ++ shapeEntry (shapeIn entries n))

/-- An arc as it is saved. -/
def savedArc (g : Graph) (names : Option NodeNames) (a : Arc) : NamedEdge :=
  { writtenArc g names a with
    attributes := kept ((g.arcProperties a).getD []) ++
      [(.text directedAttribute, .bool !(g.isEdge a))] }

/-- What is saved of a graph, with the shapes in a list of entries. -/
def saved (g : Graph) (names : Option NodeNames) (entries : List (Node × NodeShape)) :
    NamedGraph :=
  ⟨true, true, (writtenNodes g).map (savedNode g names entries),
    (g.arcs .all).map (savedArc g names)⟩

theorem names_saved (g : Graph) (names : Option NodeNames) (entries : List (Node × NodeShape)) :
    (saved g names entries).names = (writtenNodes g).map (exportName names) :=
  List.map_map

/-- The word for a shape is kept. -/
theorem isPlain_shape (s : NodeShape) : IsPlain (.text s.word) := by
  have printable : s.word.toList.all Text.isPrintable = true := by cases s <;> decide +kernel
  exact ⟨by cases s <;> decide, List.all_eq_true.mp printable⟩

end GraphML

namespace Savable

open GraphML Fallible

variable {g : Graph} {names : Option NodeNames} {shapes : OrderedMap Node NodeShape}
  (savable : Savable g names shapes)

include savable

/-- The nodes go by names that are apart, or by their ids. -/
theorem namesApart : NamesApart g names := by
  cases names with
  | none => exact namesApart_none g
  | some m => exact savable.naming m rfl

/-- A graph that can be saved can be named. -/
theorem nameable : Nameable g names where
  lists := savable.lawful.toListsArcs
  hashable := savable.namesApart.hashable
  present := savable.namesApart.present
  apart := savable.namesApart.apart
  nodeProperties n listed p found := by
    have storable := savable.nodeProperties n listed p found
    refine ⟨fun e member => ?_, storable.distinct⟩
    obtain ⟨key, isText⟩ := savable.nodeKeys n listed p found e member
    have free := storable.free e member
    rw [isText] at free
    exact ⟨key, isText, fun reserved => free (List.mem_cons_of_mem _ reserved)⟩

/-- The properties of a node can be stored. -/
theorem storable_node {n : Node} (listed : n ∈ g.nodes) :
    Properties.Storable (shapeAttribute :: reservedNodeAttributes)
      ((g.nodeProperties n).getD []) := by
  cases found : g.nodeProperties n with
  | none => exact Properties.storable_nil _
  | some p => exact savable.nodeProperties n listed p found

/-- The properties of an arc can be stored. -/
theorem storable_arc {a : Arc} (listed : a ∈ g.arcs .all) :
    Properties.Storable [directedAttribute] ((g.arcProperties a).getD []) := by
  cases found : g.arcProperties a with
  | none => exact Properties.storable_nil _
  | some p => exact savable.arcProperties a listed p found

/-- Sanitizing gives what is saved without shapes. -/
theorem sanitizeGraph_written : sanitizeGraph (written g names) = .ok (saved g names []) := by
  have nodes : (written g names).nodes.mapM (fun n => return (n.1, ← sanitize n.2)) =
      (.ok (saved g names []).nodes : Except Fault _) := by
    rw [written, saved, List.mapM_map]
    refine mapM_eq_map fun n listed => ?_
    have storable := savable.storable_node (mem_writtenNodes.mp listed)
    refine bind_eq_ok_iff.mpr ⟨_, sanitize_eq storable.apart storable.told, ?_⟩
    rw [savedNode, shapeIn, List.find?_nil, Option.map_none]
    exact congrArg (fun q => Except.ok (exportName names n, q)) (List.append_nil _).symm
  have edges : (written g names).edges.mapM
      (fun e => return { e with attributes := ← sanitize e.attributes }) =
      (.ok (saved g names []).edges : Except Fault _) := by
    rw [written, saved, List.mapM_map]
    refine mapM_eq_map fun a listed => ?_
    exact bind_eq_ok_iff.mpr ⟨_, sanitize_put (savable.storable_arc listed) _, rfl⟩
  exact bind_eq_ok_iff.mpr ⟨_, nodes, bind_eq_ok_iff.mpr ⟨_, edges, rfl⟩⟩

/-- Entering the shape of a node puts it behind its other attributes. -/
theorem mergeNode_saved {done : List (Node × NodeShape)} {n : Node} {s : NodeShape}
    (listed : n ∈ g.nodes) (new : shapeIn done n = none) :
    (saved g names done).mergeNode ((writtenNodes g).idxOf n)
      [(.text shapeAttribute, .text s.word)] = saved g names (done ++ [(n, s)]) := by
  have storable := savable.storable_node listed
  have reserved : shapeAttribute ∈ shapeAttribute :: reservedNodeAttributes := List.mem_cons_self
  have last : ∀ m, shapeIn (done ++ [(n, s)]) m =
      (shapeIn done m).or (if n = m then some s else none) := by
    intro m
    rw [shapeIn, shapeIn, List.find?_append, Option.map_or]
    by_cases same : n = m <;> simp [same]
  refine congrArg (NamedGraph.mk true true · _) ?_
  refine modify_map_idxOf nodup_writtenNodes (mem_writtenNodes.mpr listed) ?_ fun m other => ?_
  · have entry := put_kept storable reserved (.text s.word)
    simp [savedNode, last, new, shapeEntry, ← entry, Properties.put]
  · simp [savedNode, last, Ne.symm other]

/-- What is written is the graph with its attributes as they are kept, and with the shapes. -/
theorem addShapes_eq {e : Export} (graph : e.graph = written g names)
    (placed : ∀ n ∈ g.nodes, e.placed.lookup n = some ((writtenNodes g).idxOf n)) :
    addShapes g e shapes = .ok (saved g names shapes.entries) := by
  have step : ∀ done entry rest s, shapes.entries = done ++ entry :: rest →
      s = saved g names done → ∃ next, enterShape g e s entry = .ok next ∧
        next = saved g names (done ++ [entry]) := by
    rintro done ⟨n, shape⟩ rest s split rfl
    have listed : n ∈ g.nodes :=
      savable.shapes n shape ((shapes.mem_entries_iff n shape).mp (by simp [split]))
    have new : shapeIn done n = none := by
      rw [shapeIn, Option.map_eq_none_iff, List.find?_eq_none]
      have distinct := shapes.distinct
      rw [split] at distinct
      intro entry early
      simpa using (List.pairwise_append.mp distinct).2.2 entry early (n, shape) List.mem_cons_self
    refine ⟨_, ?_, savable.mergeNode_saved listed new⟩
    rw [enterShape, (savable.lawful.mem_nodes n).mp listed, placed n listed]
  obtain ⟨s, entered, rfl⟩ := foldlM_ok (fun done s => s = saved g names done) rfl step
  rw [addShapes, graph, savable.sanitizeGraph_written]
  exact entered

/-! ### What is saved can be told -/

/-- What is saved is well formed. -/
theorem wellFormed_saved (entries : List (Node × NodeShape)) :
    (saved g names entries).WellFormed := by
  have apart := savable.namesApart
  have listed : ∀ n ∈ writtenNodes g, n ∈ g.nodes := fun n => mem_writtenNodes.mp
  have placed : ∀ n ∈ g.nodes, (writtenNodes g).idxOf n < (saved g names entries).names.length :=
    fun n isNode => by
      rw [names_saved, List.length_map]
      exact List.idxOf_lt_length_of_mem (mem_writtenNodes.mpr isNode)
  refine ⟨?_, ?_, ?_, fun e member => ?_⟩
  · rw [names_saved, List.forall_mem_map]
    exact fun n member => apart.hashable n (listed n member)
  · rw [names_saved, List.forall_mem_map]
    exact fun n member => apart.present n (listed n member)
  · rw [names_saved]
    exact List.pairwise_map.mpr (nodup_writtenNodes.imp_of_mem fun first second different =>
      apart.apart _ (listed _ first) _ (listed _ second) different)
  · obtain ⟨a, isArc, rfl⟩ := List.mem_map.mp member
    exact ⟨placed _ (savable.lawful.tail_mem a isArc), placed _ (savable.lawful.head_mem a isArc)⟩

/-- What is saved spells its edges as its nodes. -/
theorem spelled_saved (entries : List (Node × NodeShape)) : (saved g names entries).Spelled where
  directed := rfl
  source e member := by
    obtain ⟨a, listed, rfl⟩ := List.mem_map.mp member
    refine ⟨savedNode g names entries (g.tail a), ?_, rfl⟩
    have known := mem_writtenNodes.mpr (savable.lawful.tail_mem a listed)
    exact (List.getElem?_map ..).trans (congrArg _ (List.getElem?_idxOf known))
  target e member := by
    obtain ⟨a, listed, rfl⟩ := List.mem_map.mp member
    refine ⟨savedNode g names entries (g.head a), ?_, rfl⟩
    have known := mem_writtenNodes.mpr (savable.lawful.head_mem a listed)
    exact (List.getElem?_map ..).trans (congrArg _ (List.getElem?_idxOf known))

/-- The attributes of a node as they are saved can be told. -/
theorem savedNode_attributes {n : Node} (listed : n ∈ g.nodes)
    (entries : List (Node × NodeShape)) :
    Properties.Keyed reservedNodeAttributes (savedNode g names entries n).2 ∧
      ∀ a ∈ (savedNode g names entries n).2, IsPlain a.2 := by
  have storable := savable.storable_node listed
  have keyed := keyed_kept storable.apart storable.free
  have plain := fun e => isPlain_of_mem_kept (e := e) storable.told
  rw [savedNode]
  cases shapeIn entries n with
  | none =>
      rw [shapeEntry, Option.map_none, Option.toList_none, List.append_nil]
      refine ⟨⟨fun e member => ?_, keyed.distinct⟩, plain⟩
      obtain ⟨key, isText, free⟩ := keyed.texts e member
      exact ⟨key, isText, fun reserved => free (List.mem_cons_of_mem _ reserved)⟩
  | some s =>
      refine ⟨keyed.concat (by decide) _, fun e member => ?_⟩
      rcases List.mem_append.mp member with kept | isShape
      · exact plain e kept
      · obtain rfl := List.mem_singleton.mp isShape
        exact isPlain_shape s

/-- What is saved is a graph that a file can tell. -/
theorem portable_saved (entries : List (Node × NodeShape)) :
    Portable (saved g names entries) where
  toWellFormed := savable.wellFormed_saved entries
  toSpelled := savable.spelled_saved entries
  parallel := rfl
  nonempty := by
    rw [names_saved, List.forall_mem_map]
    exact fun n member => savable.namesApart.nonempty n (mem_writtenNodes.mp member)
  texts := by
    rw [names_saved]
    exact List.pairwise_map.mpr (nodup_writtenNodes.imp_of_mem fun first second different =>
      savable.namesApart.texts _ (mem_writtenNodes.mp first) _ (mem_writtenNodes.mp second)
        different)
  keys e member := by
    obtain ⟨a, _, rfl⟩ := List.mem_map.mp member
    exact ⟨a.id, rfl⟩
  keysApart := by
    refine List.pairwise_map.mpr (savable.lawful.nodup.imp fun different _ _ same => ?_)
    exact different (congrArg Arc.mk (Value.int.inj same))
  nodeAttributes v member := by
    obtain ⟨n, listed, rfl⟩ := List.mem_map.mp member
    exact savable.savedNode_attributes (mem_writtenNodes.mp listed) entries
  edgeAttributes e member := by
    obtain ⟨a, listed, rfl⟩ := List.mem_map.mp member
    have storable := savable.storable_arc listed
    have keyed := keyed_kept storable.apart storable.free
    refine ⟨keyed.concat List.not_mem_nil _, fun entry isEntry => ?_⟩
    rcases List.mem_append.mp isEntry with kept | isMark
    · exact isPlain_of_mem_kept storable.told kept
    · obtain rfl := List.mem_singleton.mp isMark
      trivial

end Savable

end ArcSelection
