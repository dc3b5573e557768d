import ArcSelection.Xml.Element

/-!
# Written documents

A document is written with one element per line, indented by two spaces for each level.
An element without children keeps its text on its line, and one without text as well is
written as an empty tag.  Names are written as they are, so that prefixes and namespace
declarations are up to the caller.
-/

namespace ArcSelection.Xml

/-- A character inside text. -/
def escapeText : Char -> List Char
  | '&' => "&amp;".toList
  | '<' => "&lt;".toList
  | '>' => "&gt;".toList
  | c => [c]

/-- A character inside an attribute value. -/
def escapeAttribute : Char -> List Char
  | '"' => "&quot;".toList
  | '\r' => "&#13;".toList
  | '\n' => "&#10;".toList
  | '\t' => "&#09;".toList
  | c => escapeText c

/-- Escapes every character of a text. -/
def escaped (escape : Char -> List Char) (s : String) : String :=
  String.ofList (s.toList.flatMap escape)

/-- An attribute with a blank in front. -/
def attributeText (a : Name × String) : String :=
  " " ++ a.1.tag ++ "=\"" ++ escaped escapeAttribute a.2 ++ "\""

/-- The start of a line at a level. -/
def lineStart (level : Nat) : String :=
  "\n" ++ String.ofList (List.replicate (2 * level) ' ')

namespace Element

mutual

/-- The text of an element at a level. -/
def render (level : Nat) : Element -> String
  | mk name attributes text children =>
      let head := "<" ++ name.tag ++ String.join (attributes.map attributeText)
      if children.isEmpty then
        if text.isEmpty then head ++ " />"
        else head ++ ">" ++ escaped escapeText text ++ "</" ++ name.tag ++ ">"
      else
        head ++ ">" ++ renderChildren level children ++ lineStart level ++ "</" ++
          name.tag ++ ">"

/-- The texts of the children of an element at a level, each on a line of its own. -/
def renderChildren (level : Nat) : List Element -> String
  | [] => ""
  | c :: rest => lineStart (level + 1) ++ render (level + 1) c ++ renderChildren level rest

end

/-- The text of a document with its declaration. -/
def document (e : Element) : String :=
  "<?xml version='1.0' encoding='utf-8'?>\n" ++ e.render 0 ++ "\n"

end Element

end ArcSelection.Xml
