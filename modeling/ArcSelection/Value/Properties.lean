import ArcSelection.Fault
import ArcSelection.OrderedMap

/-!
# Property maps

A property map is a list of entries with distinct keys in the order of first insertion.
The operations below keep that form: setting a key that is present changes its value in
place, and any other key goes last.
-/

namespace ArcSelection

/-- The name that a value stands for; a value that cannot be written stands for none. -/
def Value.toName (v : Value) : Except Fault String :=
  if v.isWritable then .ok v.plainText else .error .integerTooLong

/-- The text that shows a value; a value that cannot be written has none. -/
def Value.toDisplay (v : Value) : Except Fault String :=
  if v.isWritable then .ok v.display else .error .integerTooLong

namespace Properties

/-- The value of a text key. -/
def value? (p : Properties) (key : String) : Option Value :=
  (p.find? fun e => e.1 == .text key).map (·.2)

/-- Removes a text key. -/
def without (p : Properties) (key : String) : Properties :=
  p.filter fun e => !(e.1 == .text key)

/-- Sets every entry of the second map in the first. -/
def update (p q : Properties) : Properties :=
  (OrderedMap.ofList (p ++ q)).entries

/-- Sets a text key. -/
def put (p : Properties) (key : String) (v : Value) : Properties :=
  update p [(.text key, v)]

/-- The map unless it is empty. -/
def unlessEmpty (p : Properties) : Option Properties :=
  if p.isEmpty then none else some p

/-- Writes every key as the name it stands for; keys that come to share a name are
refused. -/
def normalize (p : Properties) : Except Fault (OrderedMap String Value) :=
  p.foldlM
    (fun m e => do
      let name <- e.1.toName
      if m.contains name then throw (.duplicateKey name) else return m.insert name e.2)
    .empty

end Properties

end ArcSelection
