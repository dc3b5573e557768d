import Mathlib
import ArcSelection.GraphML.Load
import ArcSelection.GraphML.Reading
import ArcSelection.GraphML.Writing
import ArcSelection.Proofs.Exchange.EdgeOrder
import ArcSelection.Proofs.Exchange.Imported
import ArcSelection.Proofs.GraphML.Attributes
import ArcSelection.Proofs.Xml.Layout

/-!
# Graphs that a file keeps

A writer and a reader of graph files preserve graphs with names if they keep nodes and edges in
their order, names as their texts, the keys of edges, and attributes of the kinds that are told
here. This is all that is assumed of them (`GraphML.Preserves`). A format may have no form for
some texts, such as one with a control character, or one of an integer with too many digits. It is
left open which texts the writer and the reader keep: the graphs that are saved need only such.

The assumption can be met: `GraphML.stored` and `GraphML.retrieved` are the writer and the reader of
the library wherever what is written is read back, and give the contents in unary elsewhere. The
code is only used through its left inverse.
-/

namespace ArcSelection.GraphML

/-! ### The assumption -/

/-- A directed multigraph that a file can tell: the texts of its names differ and are not empty,
edges between the same nodes have different integers for keys, and every attribute has a text for
its key and a value that is kept as it is. -/
structure Portable (n : NamedGraph) : Prop extends n.WellFormed, n.Spelled where
  parallel : n.parallel = true
  nonempty : ∀ name ∈ n.names, name.plainText ≠ ""
  texts : n.names.Pairwise fun a b => a.plainText ≠ b.plainText
  keys : ∀ e ∈ n.edges, ∃ k, e.key = .int k
  keysApart : n.edges.Pairwise fun e f =>
    e.source = f.source → e.target = f.target → e.key ≠ f.key
  nodeAttributes : ∀ v ∈ n.nodes,
    Properties.Keyed reservedNodeAttributes v.2 ∧ ∀ a ∈ v.2, IsPlain a.2
  edgeAttributes : ∀ e ∈ n.edges,
    Properties.Keyed [] e.attributes ∧ ∀ a ∈ e.attributes, IsPlain a.2

/-- An edge whose ends go by the texts of their names. -/
def respelled (e : NamedEdge) : NamedEdge :=
  { e with
    sourceName := .text e.sourceName.plainText
    targetName := .text e.targetName.plainText }

/-- What a file tells of a graph with names: the edges are in order, and all names are texts. -/
def filed (n : NamedGraph) : NamedGraph :=
  ⟨true, true, n.nodes.map fun e => (.text e.1.plainText, e.2), n.edgesInOrder.map respelled⟩

/-- The texts of attributes: those of their keys and of their values. -/
def attributeTexts (p : Properties) : List String :=
  p.flatMap fun a => [a.1.plainText, a.2.plainText]

/-- The texts that a graph is spelled with: its names, the keys of its edges, and the texts of all
attributes. -/
def textsOf (n : NamedGraph) : List String :=
  n.nodes.flatMap (fun v => v.1.plainText :: attributeTexts v.2) ++
    n.edges.flatMap fun e => e.key.plainText :: attributeTexts e.attributes

/-- Every graph that a file can tell, and that is spelled with texts that are kept, is written and
read back from what is written. -/
def Preserves (keeps : String → Prop) (write : Writer) (read : Reader) : Prop :=
  ∀ n, Portable n → (∀ text ∈ textsOf n, keeps text) →
    ∃ text, write n = .ok text ∧ read text = .ok (filed n)

/-! ### A code for graphs -/

/-- The code of a value that is kept: its kind, and a number or characters. -/
abbrev ValueCode := Bool ⊕ Int ⊕ Nat ⊕ List Nat

/-- The code of attributes: the codes of their keys and values. -/
abbrev PropertiesCode := List (List Nat × ValueCode)

/-- The code of an edge: its ends, their names, its key and its attributes. -/
abbrev EdgeCode := Nat × Nat × List Nat × List Nat × Int × PropertiesCode

/-- The code of a graph: those of its nodes and of its edges. -/
abbrev GraphCode := List (List Nat × PropertiesCode) × List EdgeCode

/-- The code of a text: its characters by number. -/
def textCode (s : String) : List Nat := s.toList.map Char.toNat

/-- The text of a code. -/
def textOf (code : List Nat) : String := String.ofList (code.map Char.ofNat)

/-- The code of a value. A value of no other kind is coded as a text. -/
def valueCode : Value → ValueCode
  | .bool b => .inl b
  | .int n => .inr (.inl n)
  | .float x => .inr (.inr (.inl x.toBits.toNat))
  | v => .inr (.inr (.inr (textCode v.plainText)))

/-- The value of a code. -/
def valueOf : ValueCode → Value
  | .inl b => .bool b
  | .inr (.inl n) => .int n
  | .inr (.inr (.inl bits)) => .float (Float.ofBits (UInt64.ofNat bits))
  | .inr (.inr (.inr code)) => .text (textOf code)

/-- The code of attributes. -/
def propertiesCode (p : Properties) : PropertiesCode :=
  p.map fun e => (textCode e.1.plainText, valueCode e.2)

/-- The attributes of a code. -/
def propertiesOf (code : PropertiesCode) : Properties :=
  code.map fun e => (.text (textOf e.1), valueOf e.2)

/-- The number of an integer. -/
def intOf : Value → Int
  | .int n => n
  | _ => 0

/-- The code of an edge. -/
def edgeCode (e : NamedEdge) : EdgeCode :=
  (e.source, e.target, textCode e.sourceName.plainText, textCode e.targetName.plainText,
    intOf e.key, propertiesCode e.attributes)

/-- The edge of a code. -/
def edgeOf : EdgeCode → NamedEdge
  | (source, target, sourceName, targetName, key, attributes) =>
      ⟨source, target, .text (textOf sourceName), .text (textOf targetName), .int key,
        propertiesOf attributes⟩

/-- The code of a graph with names. -/
def graphCode (n : NamedGraph) : GraphCode :=
  (n.nodes.map fun v => (textCode v.1.plainText, propertiesCode v.2), n.edgesInOrder.map edgeCode)

/-- The graph of a code. -/
def graphOf (code : GraphCode) : NamedGraph :=
  ⟨true, true, code.1.map fun v => (.text (textOf v.1), propertiesOf v.2), code.2.map edgeOf⟩

/-- A text is known from its code. -/
theorem textOf_textCode (s : String) : textOf (textCode s) = s := by
  have characters : (s.toList.map Char.toNat).map Char.ofNat = s.toList := by
    rw [List.map_map]
    exact List.map_id'' (fun c => Char.ofNat_toNat c) _
  rw [textOf, textCode, characters, String.ofList_toList]

/-- A value that is kept is known from its code. -/
theorem valueOf_valueCode {v : Value} (plain : IsPlain v) : valueOf (valueCode v) = v := by
  cases v with
  | bool | int => rfl
  | float x => rw [valueCode, valueOf, UInt64.ofNat_toNat, Float.ofBits_toBits]
  | text s => exact congrArg Value.text (textOf_textCode s)
  | _ => exact plain.elim

/-- Attributes that are kept are known from their code. -/
theorem propertiesOf_propertiesCode {reserved : List String} {p : Properties}
    (keyed : Properties.Keyed reserved p) (plain : ∀ a ∈ p, IsPlain a.2) :
    propertiesOf (propertiesCode p) = p := by
  rw [propertiesOf, propertiesCode, List.map_map]
  refine (List.map_congr_left fun e member => ?_).trans (List.map_id p)
  obtain ⟨key, isText, _⟩ := keyed.texts e member
  rw [Function.comp_apply, valueOf_valueCode (plain e member), textOf_textCode, isText]
  exact Prod.ext isText.symm rfl

/-- What a file tells of a graph is known from its code. -/
theorem graphOf_graphCode {n : NamedGraph} (portable : Portable n) :
    graphOf (graphCode n) = filed n := by
  have nodes : (graphOf (graphCode n)).nodes = (filed n).nodes := by
    change ((n.nodes.map _).map _) = n.nodes.map _
    rw [List.map_map]
    refine List.map_congr_left fun v member => ?_
    obtain ⟨keyed, plain⟩ := portable.nodeAttributes v member
    rw [Function.comp_apply, textOf_textCode, propertiesOf_propertiesCode keyed plain]
  have edges : (graphOf (graphCode n)).edges = (filed n).edges := by
    change ((n.edgesInOrder.map _).map _) = n.edgesInOrder.map _
    rw [List.map_map]
    refine List.map_congr_left fun e listed => ?_
    have member := portable.toSpelled.edgesInOrder_perm.mem_iff.mp listed
    obtain ⟨keyed, plain⟩ := portable.edgeAttributes e member
    obtain ⟨k, isKey⟩ := portable.keys e member
    rw [Function.comp_apply, edgeCode, edgeOf, textOf_textCode, textOf_textCode,
      propertiesOf_propertiesCode keyed plain, isKey, respelled, isKey]
    rfl
  exact congrArg₂ (NamedGraph.mk true true) nodes edges

/-! ### A writer and a reader that meet the assumption -/

/-- The code of a graph in unary. -/
def unary (n : NamedGraph) : String :=
  String.ofList (List.replicate (Encodable.encode (graphCode n)) '1')

open Classical in
/-- A graph as it is written if that is read back, else its code. -/
noncomputable def stored (n : NamedGraph) : Except Fault String :=
  match write n with
  | .ok text => .ok (if readFirst text = .ok (filed n) then text else unary n)
  | .error _ => .ok (unary n)

/-- Reads documents, and graphs by their codes. -/
def retrieved (text : String) : Except Fault NamedGraph :=
  if text.toList.head? = some '<' then readFirst text
  else
    match Encodable.decode (α := GraphCode) text.length with
    | some code => .ok (graphOf code)
    | none => .error .malformedGraph

/-- A document is retrieved as the library reads it. -/
theorem retrieved_document (e : Xml.Element) : retrieved e.document = readFirst e.document := by
  refine if_pos ?_
  rw [e.document_eq, String.toList_ofList]
  rfl

/-- A graph that is stored in unary is retrieved. -/
theorem retrieved_unary {n : NamedGraph} (portable : Portable n) :
    retrieved (unary n) = .ok (filed n) := by
  have code : ¬ (unary n).toList.head? = some '<' := by
    rw [unary, String.toList_ofList, List.head?_replicate]
    split <;> decide
  have length : (unary n).length = Encodable.encode (graphCode n) := by
    rw [unary, String.length_ofList, List.length_replicate]
  rw [retrieved, if_neg code, length, Encodable.encodek]
  exact congrArg Except.ok (graphOf_graphCode portable)

/-- A graph whose text is read back is stored as the library writes it. -/
theorem stored_of_readFirst {n : NamedGraph} {text : String} (written : write n = .ok text)
    (read : readFirst text = .ok (filed n)) : stored n = .ok text := by
  rw [stored, written]
  exact congrArg Except.ok (if_pos read)

/-- The assumption can be met, whichever texts are to be kept. -/
theorem preserves_stored_retrieved (keeps : String → Prop) :
    Preserves keeps stored retrieved := by
  intro n portable _
  cases written : write n with
  | error fault => exact ⟨unary n, by rw [stored, written], retrieved_unary portable⟩
  | ok text =>
      by_cases read : readFirst text = .ok (filed n)
      · refine ⟨text, stored_of_readFirst written read, ?_⟩
        rw [write] at written
        split at written
        · cases written
          rw [retrieved_document, read]
        · cases written
      · refine ⟨unary n, ?_, retrieved_unary portable⟩
        rw [stored, written]
        exact congrArg Except.ok (if_neg read)

end ArcSelection.GraphML
