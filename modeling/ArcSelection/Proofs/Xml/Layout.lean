import ArcSelection.Xml.Layout

/-!
# The characters of a document

A document is put together from texts.  Its characters are told here as a list, so that a
document can be followed character by character.
-/

namespace ArcSelection.Xml

/-- The characters of an attribute with a blank in front. -/
def attributeCharacters (a : Name × String) : List Char :=
  " ".toList ++ a.1.tag.toList ++ "=\"".toList ++ a.2.toList.flatMap escapeAttribute ++
    "\"".toList

/-- The characters of an attribute. -/
theorem toList_attributeText (a : Name × String) :
    (attributeText a).toList = attributeCharacters a := by
  simp [attributeText, attributeCharacters, escaped]

theorem toList_lineStart (level : Nat) :
    (lineStart level).toList = '\n' :: List.replicate (2 * level) ' ' := by
  simp [lineStart]

namespace Element

mutual

/-- The characters of an element at a level. -/
def characters (level : Nat) : Element → List Char
  | mk name attributes text children =>
      let head := "<".toList ++ name.tag.toList ++ attributes.flatMap attributeCharacters
      if children.isEmpty then
        if text.isEmpty then head ++ " />".toList
        else head ++ ">".toList ++ text.toList.flatMap escapeText ++ "</".toList ++
          name.tag.toList ++ ">".toList
      else
        head ++ ">".toList ++ childrenCharacters level children ++
          '\n' :: List.replicate (2 * level) ' ' ++ "</".toList ++ name.tag.toList ++ ">".toList

/-- The characters of the children of an element at a level. -/
def childrenCharacters (level : Nat) : List Element → List Char
  | [] => []
  | c :: rest =>
      '\n' :: List.replicate (2 * (level + 1)) ' ' ++ c.characters (level + 1) ++
        childrenCharacters level rest

end

mutual

/-- An element is rendered by its characters. -/
theorem toList_render (level : Nat) : (e : Element) → (e.render level).toList = e.characters level
  | mk name attributes text children => by
      have attributesText : (String.join (attributes.map attributeText)).toList =
          attributes.flatMap attributeCharacters := by
        rw [String.toList_join, List.flatMap_map]
        exact congrArg (attributes.flatMap ·) (funext toList_attributeText)
      have inner := toList_renderChildren level children
      rw [render, characters]
      split
      · split <;> simp [attributesText, escaped]
      · simp [attributesText, inner, toList_lineStart]

/-- Children are rendered by their characters. -/
theorem toList_renderChildren (level : Nat) :
    (children : List Element) → (renderChildren level children).toList =
      childrenCharacters level children
  | [] => rfl
  | c :: rest => by
      have first := toList_render (level + 1) c
      have others := toList_renderChildren level rest
      simp [renderChildren, childrenCharacters, toList_lineStart, first, others]

end

/-- The characters of a document with its declaration. -/
def documentCharacters (e : Element) : List Char :=
  "<?xml version='1.0' encoding='utf-8'?>\n".toList ++ e.characters 0 ++ "\n".toList

/-- A document is the text of its characters. -/
theorem document_eq (e : Element) : e.document = String.ofList e.documentCharacters := by
  have ends : e.document.toList = ("<?xml version='1.0' encoding='utf-8'?>\n" ++
      e.render 0).toList ++ "\n".toList := String.toList_append
  have starts := (String.toList_append).trans (congrArg
    ("<?xml version='1.0' encoding='utf-8'?>\n".toList ++ ·) (toList_render 0 e))
  refine String.toList_inj.mp ?_
  exact ends.trans ((congrArg (· ++ "\n".toList) starts).trans String.toList_ofList.symm)

end Element

end ArcSelection.Xml
