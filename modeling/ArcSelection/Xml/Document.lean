import ArcSelection.Xml.Element
import ArcSelection.Xml.Prolog

/-!
# Reading documents

The tokens of a document are nested into elements.  Every tag has its partner, there is
one root with nothing but blanks after it, every namespace in use is declared, and no
element has an attribute twice.
-/

namespace ArcSelection.Xml

/-- The namespaces in force by their short names; the empty one is the default. -/
abbrev Scope := List (String × String)

/-- The namespaces in force at the start. -/
def outerScope : Scope := [("xml", "http://www.w3.org/XML/1998/namespace")]

/-- A written name as its short namespace name, if it has one, and its local name. -/
def splitName? (s : String) : Option (Option String × String) :=
  match (pieces ':' s.toList).map String.ofList with
  | [tag] => if tag.isEmpty then none else some (none, tag)
  | [space, tag] => if space.isEmpty || tag.isEmpty then none else some (some space, tag)
  | _ => none

/-- The namespace an attribute declares: its short name and its name.  Only the default
namespace may be taken back. -/
def declaration? (a : String × String) : Option (String × String) := do
  match <- splitName? a.1 with
  | (none, "xmlns") => some ("", a.2)
  | (some "xmlns", short) => some (short, a.2)
  | _ => none

/-- Whether a declaration is allowed. -/
def isDeclarable (d : String × String) : Bool :=
  d.1.isEmpty || (!d.2.isEmpty && d.1 != "xmlns" && (d.1 != "xml" || outerScope.contains d))

/-- The full name of a written name; a name without namespace gets the given one. -/
def resolve? (scope : Scope) (space : String) (s : String) : Option Name := do
  match <- splitName? s with
  | (none, tag) => some ⟨space, tag⟩
  | (some short, tag) => do
      let space <- scope.lookup short
      some ⟨space, tag⟩

/-- An element that has been opened, with what has been read of it. -/
structure Frame where
  written : String
  name : Name
  attributes : List (Name × String)
  scope : Scope
  text : List Char
  /-- The children read so far, the last one first. -/
  children : List Element

namespace Frame

/-- The frame of an opening tag inside a scope. -/
def open? (scope : Scope) (written : String) (attributes : List (String × String)) :
    Option Frame := do
  let declared := attributes.filterMap declaration?
  if !declared.all isDeclarable then none
  else
    let scope := declared ++ scope
    let name <- resolve? scope ((scope.lookup "").getD "") written
    let others <- (attributes.filter fun a => (declaration? a).isNone).mapM fun a => do
      return ((<- resolve? scope "" a.1), a.2)
    if (attributes.map (·.1)).Nodup && (others.map (·.1)).Nodup then
      some ⟨written, name, others, scope, [], []⟩
    else none

/-- The element of a frame. -/
def element (f : Frame) : Element :=
  .mk f.name f.attributes (String.ofList f.text) f.children.reverse

/-- Adds a child. -/
def addChild (f : Frame) (e : Element) : Frame := { f with children := e :: f.children }

/-- Adds character data; it counts only before the first child. -/
def addText (f : Frame) (text : List Char) : Frame :=
  if f.children.isEmpty then { f with text := f.text ++ text } else f

end Frame

/-- What has been read: the open elements, the innermost first, or the finished root. -/
inductive Progress where
  | inside (frame : Frame) (outer : List Frame)
  | before
  | done (root : Element)

/-- Puts a finished element where it belongs. -/
def finish (e : Element) : List Frame -> Progress
  | [] => .done e
  | f :: outer => .inside (f.addChild e) outer

/-- Reads one more token. -/
def Progress.next? : Progress -> Token -> Option Progress
  | .before, .opening name attributes isEmpty => do
      let f <- Frame.open? outerScope name attributes
      return if isEmpty then finish f.element [] else .inside f []
  | .inside g outer, .opening name attributes isEmpty => do
      let f <- Frame.open? g.scope name attributes
      return if isEmpty then finish f.element (g :: outer) else .inside f (g :: outer)
  | .inside f outer, .closing name =>
      if f.written = name then some (finish f.element outer) else none
  | .inside f outer, .data text _ => some (.inside (f.addText text) outer)
  | p, .data text isLiteral => if isLiteral && text.all isSpace then some p else none
  | _, _ => none

/-- The root of a document with the given characters. -/
def readDocument? (content : List Char) : Option Element := do
  match <- (<- documentTokens? content).foldlM Progress.next? .before with
  | .done root => some root
  | _ => none

end ArcSelection.Xml
