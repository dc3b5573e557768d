import ArcSelection.OrderedMap
import ArcSelection.Yaml.Plain

/-!
# The value of a document

Sequences become lists and mappings become maps, in which the last value of a key counts.
A merge key puts the entries of other mappings in front.  Only the standard tags have a
meaning, and sets and binary data are not read.
-/

namespace ArcSelection.Yaml

/-- Whether a node is the mark of merging. -/
def isMerge : Node -> Bool
  | .plain text => scalarType text == .merge
  | .tagged tag _ => tag == standardTag "merge"
  | _ => false

/-- A key of a mapping; the mark of a default value is a text there. -/
def keyNode : Node -> Node
  | .plain "=" => .tagged (standardTag "str") "="
  | n => n

/-- The entries of a mapping with merged mappings put in front, to a depth.  Of several
mappings merged at once the first counts most. -/
def mergedEntries : (depth : Nat) -> List (Node × Node) -> Reading (List (Node × Node))
  | 0, _ => malformed
  | depth + 1, entries => do
      let merged <- (entries.filter fun e => isMerge e.1).mapM fun e =>
        match e.2 with
        | .mapping _ inner => mergedEntries depth inner
        | .sequence _ items => do
            let parts <- items.mapM fun n => match n with
              | .mapping _ inner => mergedEntries depth inner
              | _ => malformed
            return parts.reverse.flatten
        | _ => malformed
      let own := entries.filter fun e => !isMerge e.1
      return merged.flatten ++ own.map fun e => (keyNode e.1, e.2)

/-- The value of a scalar with a tag. -/
def readTagged (tag text : String) : Reading Value :=
  if tag == standardTag "str" then .ok (.text text)
  else if tag == standardTag "int" then readInteger text
  else if tag == standardTag "float" then readFloat text
  else if tag == standardTag "bool" then readTruth text
  else if tag == standardTag "null" then .ok .null
  else if tag == standardTag "timestamp" then readMoment text
  else malformed

namespace Node

/-- The value of a node, to a depth. -/
def toValue : (depth : Nat) -> Node -> Reading Value
  | 0, _ => malformed
  | _, .plain text => readPlain text
  | _, .tagged tag text => readTagged tag text
  | depth + 1, .sequence tag items =>
      if tag == standardTag "seq" then do return .list (<- items.mapM (toValue depth))
      else if tag == standardTag "omap" || tag == standardTag "pairs" then do
        let pairs <- items.mapM fun n => match n with
          | .mapping _ [(k, v)] => do
              return Value.tuple [<- toValue depth k, <- toValue depth v]
          | _ => malformed
        return .list pairs
      else malformed
  | depth + 1, .mapping tag entries =>
      if tag == standardTag "map" then do
        let entries <- (<- mergedEntries (depth + 1) entries).mapM fun e => do
          let k <- toValue depth e.1
          if !k.isHashable then malformed
          else return (k, <- toValue depth e.2)
        return .map (OrderedMap.ofList entries).entries
      else malformed

end Node

/-- The value of the document in a text; a text without a document is null. -/
def readDocument (text : String) : Reading Value := do
  match <- readRoot text with
  | none => return .null
  | some root => root.toValue (text.length + 2)

end ArcSelection.Yaml
