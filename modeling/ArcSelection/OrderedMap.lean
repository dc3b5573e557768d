/-!
# Maps in insertion order

A finite map kept as its entries in the order of first insertion.  Setting a key that is
present changes its value in place; erasing a key and setting it again puts it last.  No
two entries have equal keys.
-/

namespace ArcSelection

/-- A map whose entries stay in the order of first insertion. -/
structure OrderedMap (κ : Type) (ν : Type) [BEq κ] where
  entries : List (κ × ν)
  distinct : entries.Pairwise fun a b => (a.1 == b.1) = false

namespace OrderedMap

variable {κ ν : Type} [BEq κ]

/-- The map without entries. -/
def empty : OrderedMap κ ν := ⟨[], List.Pairwise.nil⟩

instance : Inhabited (OrderedMap κ ν) := ⟨empty⟩

/-- The value of a key. -/
def get? (m : OrderedMap κ ν) (k : κ) : Option ν :=
  (m.entries.find? fun e => e.1 == k).map (·.2)

/-- Whether a key has a value. -/
def contains (m : OrderedMap κ ν) (k : κ) : Bool := m.entries.any fun e => e.1 == k

/-- The keys in insertion order. -/
def keys (m : OrderedMap κ ν) : List κ := m.entries.map (·.1)

/-- The values in insertion order of their keys. -/
def values (m : OrderedMap κ ν) : List ν := m.entries.map (·.2)

/-- The number of entries. -/
def size (m : OrderedMap κ ν) : Nat := m.entries.length

/-- Whether there are no entries. -/
def isEmpty (m : OrderedMap κ ν) : Bool := m.entries.isEmpty

/-- Changes the value of every entry in place. -/
def mapValues {μ : Type} (m : OrderedMap κ ν) (f : κ -> ν -> μ) : OrderedMap κ μ where
  entries := m.entries.map fun e => (e.1, f e.1 e.2)
  distinct := by
    rw [List.pairwise_map]
    exact m.distinct

/-- Keeps the entries that pass a test. -/
def filter (m : OrderedMap κ ν) (keep : κ -> ν -> Bool) : OrderedMap κ ν where
  entries := m.entries.filter fun e => keep e.1 e.2
  distinct := m.distinct.filter _

/-- Removes a key. -/
def erase (m : OrderedMap κ ν) (k : κ) : OrderedMap κ ν := m.filter fun k' _ => !(k' == k)

/-- Changes the value of a key in place, if it is present. -/
def modify (m : OrderedMap κ ν) (k : κ) (f : ν -> ν) : OrderedMap κ ν :=
  m.mapValues fun k' v => if k' == k then f v else v

/-- Adds an entry for a key that is not present. -/
def append (m : OrderedMap κ ν) (k : κ) (v : ν) (h : m.contains k = false) :
    OrderedMap κ ν where
  entries := m.entries ++ [(k, v)]
  distinct := by
    rw [List.pairwise_append]
    refine ⟨m.distinct, List.pairwise_singleton _ _, ?_⟩
    intro e he f hf
    rw [List.mem_singleton] at hf
    subst hf
    simp only [contains, List.any_eq_false] at h
    simpa using h e he

/-- Sets the value of a key: in place if it is present, else in a new last entry. -/
def insert (m : OrderedMap κ ν) (k : κ) (v : ν) : OrderedMap κ ν :=
  if h : m.contains k = false then m.append k v h else m.modify k fun _ => v

/-- The map with the given entries, later ones setting earlier ones. -/
def ofList (entries : List (κ × ν)) : OrderedMap κ ν :=
  entries.foldl (fun m e => m.insert e.1 e.2) empty

end OrderedMap

/-- A set of keys in insertion order. -/
abbrev OrderedSet (κ : Type) [BEq κ] := OrderedMap κ Unit

end ArcSelection
