/-!
# Elements

A document is a tree of elements.  An element has a name in a namespace, attributes, the
text before its first child, and its children; the text after a child is not kept.
-/

namespace ArcSelection.Xml

/-- A local name with its namespace, which is empty for names without one. -/
structure Name where
  space : String
  tag : String
deriving DecidableEq, Inhabited

/-- An element of a document. -/
inductive Element where
  | mk (name : Name) (attributes : List (Name × String)) (text : String)
      (children : List Element)
deriving Inhabited

namespace Element

/-- The name of an element. -/
def name : Element -> Name
  | mk name _ _ _ => name

/-- The attributes in the order they were written. -/
def attributes : Element -> List (Name × String)
  | mk _ attributes _ _ => attributes

/-- The text before the first child. -/
def text : Element -> String
  | mk _ _ text _ => text

/-- The children in order. -/
def children : Element -> List Element
  | mk _ _ _ children => children

/-- The value of an attribute without a namespace. -/
def value? (e : Element) (tag : String) : Option String :=
  e.attributes.lookup ⟨"", tag⟩

/-- The children with a name. -/
def named (e : Element) (name : Name) : List Element :=
  e.children.filter fun c => c.name == name

/-- The first child with a name. -/
def first? (e : Element) (name : Name) : Option Element := (e.named name).head?

/-- The first child with the second name of a child with the first. -/
def second? (e : Element) (outer inner : Name) : Option Element :=
  ((e.named outer).flatMap fun c => c.named inner).head?

end Element

end ArcSelection.Xml
