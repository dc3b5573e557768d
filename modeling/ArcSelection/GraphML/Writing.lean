import ArcSelection.Exchange.Export
import ArcSelection.GraphML.Vocabulary
import ArcSelection.Xml.Layout

/-!
# A writer of graph files

A key is declared for every combination of name, type and scope, numbered in the order of first
use and listed newest first.  An integer can be too long to be written.
-/

namespace ArcSelection.GraphML

open ArcSelection.Xml (Element Name)

/-- What attributes belong to. -/
inductive Scope where
  | node
  | edge
deriving DecidableEq

/-- A key of a file. -/
structure Key where
  name : String
  type : DataType
  scope : Scope
deriving DecidableEq

namespace Key

/-- The key of an attribute. -/
def ofEntry (scope : Scope) (e : Value × Value) : Key :=
  ⟨e.1.plainText, .ofValue e.2, scope⟩

/-- The declaration of a key under a number. -/
def declaration (k : Key) (number : Nat) : Element :=
  .mk ⟨"", "key"⟩
    [(⟨"", "id"⟩, "d" ++ toString number),
     (⟨"", "for"⟩, match k.scope with
        | .node => "node"
        | .edge => "edge"),
     (⟨"", "attr.name"⟩, k.name), (⟨"", "attr.type"⟩, k.type.word)]
    "" []

end Key

/-- The keys of a graph in the order of first use, nodes before edges. -/
def keysOf (g : NamedGraph) : List Key :=
  (g.nodes.flatMap (fun n => n.2.map (Key.ofEntry .node)) ++
    g.edgesInOrder.flatMap fun e => e.attributes.map (Key.ofEntry .edge)).eraseDups

/-- The data elements of attributes. -/
def dataElements (keys : List Key) (scope : Scope) (p : Properties) : List Element :=
  p.map fun e =>
    .mk ⟨"", "data"⟩
      [(⟨"", "key"⟩, "d" ++ toString (keys.idxOf (Key.ofEntry scope e)))] e.2.plainText []

/-- The element of a node. -/
def nodeElement (keys : List Key) (n : Value × Properties) : Element :=
  .mk ⟨"", "node"⟩ [(⟨"", "id"⟩, n.1.plainText)] "" (dataElements keys .node n.2)

/-- The element of an edge. -/
def edgeElement (keys : List Key) (e : NamedEdge) : Element :=
  .mk ⟨"", "edge"⟩
    [(⟨"", "source"⟩, e.sourceName.plainText), (⟨"", "target"⟩, e.targetName.plainText),
     (⟨"", "id"⟩, e.key.plainText)]
    "" (dataElements keys .edge e.attributes)

/-- The root element of a graph with names. -/
def rootElement (g : NamedGraph) : Element :=
  let keys := keysOf g
  .mk ⟨"", "graphml"⟩
    [(⟨"", "xmlns"⟩, space), (⟨"", "xmlns:xsi"⟩, instanceSpace),
     (⟨"", "xsi:schemaLocation"⟩, schema)]
    ""
    ((keys.zipIdx.map fun (k, i) => k.declaration i).reverse ++
      [.mk ⟨"", "graph"⟩ [(⟨"", "edgedefault"⟩, "directed")] ""
        (g.nodes.map (nodeElement keys) ++ g.edgesInOrder.map (edgeElement keys))])

/-- Whether no integer is too long for the names, ids and values to be spelled out. -/
def isWritable (g : NamedGraph) : Bool :=
  (g.nodes.all fun n => n.1.isWritable && n.2.all (·.2.isWritable)) &&
    g.edges.all fun e => e.key.isWritable && e.attributes.all (·.2.isWritable)

/-- Spells out a graph with names. -/
def write (g : NamedGraph) : Except Fault String :=
  if isWritable g then .ok (rootElement g).document else .error .integerTooLongForFile

end ArcSelection.GraphML
