import ArcSelection.ProblemFile.Reading
import ArcSelection.Proofs.Decimal.Integer
import Mathlib.Tactic.MkIffOfInductiveProp

/-!
# The grammar of problem files

Which documents describe a problem, stated by looking at the document alone: at the kinds
of its values, at the keys of its mappings, and at the names that its keys and items stand
for.  A value stands for a name unless it holds an integer of too many digits.  A section
that is missing and one that counts as false say the same (`content?`).
-/

namespace ArcSelection

namespace Value

/-- The numbers that a double can hold. -/
def FitsFloat : Value → Prop
  | .int n => n.natAbs < Decimal.roundsAway
  | .float _ => True
  | _ => False

/-- The numbers that a finite double can hold. -/
def FitsFinite : Value → Prop
  | .int n => n.natAbs < Decimal.roundsAway
  | .float x => x.isFinite = true
  | _ => False

theorem FitsFinite.fitsFloat {v : Value} (fits : v.FitsFinite) : v.FitsFloat := by
  cases v with
  | int n => exact fits
  | float x => exact trivial
  | _ => cases fits

/-- The booleans. -/
def IsBool : Value → Prop
  | .bool _ => True
  | _ => False

/-- The limits a solver takes: none, or a number from zero on that a double can hold. -/
def IsLimit : Value → Prop
  | .null => True
  | .int n => 0 ≤ n ∧ n.natAbs < Decimal.roundsAway
  | .float x => x ≥ 0.0
  | _ => False

theorem IsLimit.fitsFloat {v : Value} (limit : v.IsLimit) (isNumber : v.isNumber = true) :
    v.FitsFloat := by
  cases v with
  | int n => exact limit.2
  | float x => trivial
  | _ => cases isNumber

/-- The limits on the nodes of a search: none, or a count that 32 bits can hold. -/
def IsNodeLimit : Value → Prop
  | .null => True
  | .int n => 0 ≤ n ∧ n ≤ 2 ^ 31 - 1
  | _ => False

/-- The arc counts: none, infinity, or an integer up to which doubles are exact. -/
def IsArcCount : Value → Prop
  | .null => True
  | .int n => 0 ≤ n ∧ n ≤ 2 ^ 53
  | v => SelectionTask.isTop v = true

/-- The names of nodes in a list: neither lists nor mappings. -/
def IsNodeName : Value → Prop
  | .list _ | .map _ => False
  | v => v.isWritable = true

/-- The descriptions of nodes: none, or a mapping. -/
def IsDescription : Value → Prop
  | .null | .map _ => True
  | _ => False

end Value

namespace ProblemFile

/-- The entries of a mapping. -/
def fields : Value → Properties
  | .map entries => entries
  | _ => []

/-- A section that is missing or a mapping. -/
def MappingOrMissing : Option Value → Prop
  | none | some (.map _) => True
  | some _ => False

/-- The entries of a section that is a mapping; a missing one has none. -/
def sectionFields (section? : Option Value) : Properties := (section?.map fields).getD []

/-- Every key is a text of a list. -/
def KeysAmong (allowed : List String) (data : Properties) : Prop :=
  ∀ e ∈ data, ∃ key ∈ allowed, e.1 = .text key

/-- Every key stands for a name, and no two for the same. -/
def KeysNamed (data : Properties) : Prop :=
  (∀ e ∈ data, e.1.isWritable = true) ∧ (data.map fun e => e.1.plainText).Nodup

/-- A key that is missing or has a value of some kind. -/
def IfGiven (data : Properties) (key : String) (Kind : Value → Prop) : Prop :=
  ∀ v, Properties.value? data key = some v → Kind v

/-- The names that a section lists as nodes. -/
def listedNames : Option Value → List String
  | some (.list items) => items.map Value.plainText
  | some (.map entries) => entries.map fun e => e.1.plainText
  | _ => []

/-- The names of the ends of an arc entry, the source first. -/
def endNames (entry : Value) : List String :=
  ["source", "target"].filterMap fun key =>
    (Properties.value? (fields entry) key).map Value.plainText

/-- The names that a section mentions as ends of arcs. -/
def arcEndNames : Option Value → List String
  | some (.list items) => items.flatMap endNames
  | _ => []

/-- Every mention of a node in the nodes and arcs of a document. -/
def mentions (document : Value) : List String :=
  listedNames (content? (fields document) "nodes") ++
    arcEndNames (content? (fields document) "arcs")

/-- The nodes: a list of names or a mapping of names to descriptions. -/
def NodesFormed : Option Value → Prop
  | none => True
  | some (.list items) =>
      (∀ v ∈ items, v.IsNodeName) ∧ (items.map Value.plainText).Nodup
  | some (.map entries) => KeysNamed entries ∧ ∀ e ∈ entries, e.2.IsDescription
  | some _ => False

/-- An arc: a mapping with both ends, and a direction and a cost if they are given. -/
structure ArcFormed (entry : Value) : Prop where
  mapping : ∃ entries, entry = .map entries
  source : ∃ v, Properties.value? (fields entry) "source" = some v ∧ v.isWritable = true
  target : ∃ v, Properties.value? (fields entry) "target" = some v ∧ v.isWritable = true
  directed : IfGiven (fields entry) "directed" Value.IsBool
  cost : IfGiven (fields entry) costProperty Value.FitsFinite

/-- The arcs: a list of arcs. -/
def ArcsFormed : Option Value → Prop
  | none => True
  | some (.list items) => ∀ entry ∈ items, ArcFormed entry
  | some _ => False

/-- One bound of a mapping: that of all other nodes, or that of a node with a known name. -/
def BoundFormed (names : List String) (key : String) (v : Value) : Prop :=
  if key = defaultKey then v = .null ∨ v.FitsFloat else key ∈ names ∧ v.FitsFloat

/-- A bound on a degree: none, a number, or a mapping of names to bounds. -/
def DegreeFormed (names : List String) : Value → Prop
  | .null => True
  | .map entries => KeysNamed entries ∧ ∀ e ∈ entries, BoundFormed names e.1.plainText e.2
  | v => v.FitsFloat

/-- The constraints of a problem whose nodes have the given names. -/
@[mk_iff]
structure ConstraintsFormed (names : List String) (data : Properties) : Prop where
  keys : KeysAmong constraintKeys data
  degrees : ∀ k : DegreeKey, IfGiven data k.word (DegreeFormed names)
  minimum : IfGiven data "min_arc_count" Value.IsArcCount
  maximum : IfGiven data "max_arc_count" Value.IsArcCount

/-- The options of the solver. -/
@[mk_iff]
structure OptionsFormed (data : Properties) : Prop where
  keys : KeysAmong SolverOptions.names data
  timeLimit : IfGiven data "time_limit" Value.IsLimit
  gap : IfGiven data "mip_rel_gap" Value.IsLimit
  nodeLimit : IfGiven data "node_limit" Value.IsNodeLimit
  presolve : IfGiven data "presolve" Value.IsBool
  display : IfGiven data "disp" Value.IsBool

/-- The documents that describe a problem. -/
@[mk_iff]
structure Formed (document : Value) : Prop where
  top : document = .null ∨ ∃ entries, document = .map entries
  keys : KeysAmong sections (fields document)
  nodes : NodesFormed (content? (fields document) "nodes")
  arcs : ArcsFormed (content? (fields document) "arcs")
  constraintsMapping : MappingOrMissing (content? (fields document) "constraints")
  constraints : ConstraintsFormed (mentions document)
    (sectionFields (content? (fields document) "constraints"))
  relaxed : IfGiven (fields document) "relaxed" Value.IsBool
  threshold : IfGiven (fields document) "selection_threshold" fun v =>
    v = .null ∨ v.isNumber = true
  solverMapping : MappingOrMissing (content? (fields document) "solver")
  solver : OptionsFormed (sectionFields (content? (fields document) "solver"))

end ProblemFile

end ArcSelection
