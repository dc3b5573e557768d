import ArcSelection.Proofs.Graph.Growth
import ArcSelection.Proofs.Listing
import ArcSelection.Proofs.NumberedTable
import ArcSelection.Proofs.ProblemFile.Acceptance
import ArcSelection.Proofs.Value.Properties

/-!
# The graph of a problem file

What a document that is read says about the graph: its nodes are the names the document
mentions, in the order of first mention, and its arcs are the entries of the arcs section,
in their order.  Nodes and arcs are numbered from one on, so that a name and an entry are
tied to a node and an arc by position alone (`Node.nth`, `Arc.nth`).

The invariant of the reader is `Naming.Holds`: the graph and both name tables are told by
the names mentioned so far.
-/

namespace ArcSelection

namespace ProblemFile

/-- The names of the nodes, in the order of first mention. -/
def nodeNames (document : Value) : List String := (mentions document).eraseDups

/-- The entries of an arcs section. -/
def listed : Option Value → List Value
  | some (.list items) => items
  | _ => []

/-- The arc entries. -/
def arcEntries (document : Value) : List Value := listed (content? (fields document) "arcs")

/-- The entries of the constraints section. -/
def constraintFields (document : Value) : Properties :=
  sectionFields (content? (fields document) "constraints")

/-- The property map that a nodes section gives to a name: none, or one with entries. -/
def description (section? : Option Value) (name : String) : Option Properties :=
  match section? with
  | some (.map entries) =>
      (entries.find? fun e => e.1.plainText == name).bind fun e =>
        Properties.unlessEmpty (fields e.2)
  | _ => none

/-- The properties of an arc entry that are no part of the arc itself. -/
def otherProperties (entry : Properties) : Properties :=
  (((Properties.without entry "source").without "target").without "directed").without costProperty

/-- The ends, the kind and the properties of an arc are those of its entry. -/
structure ArcDescribed (p : ProblemFile) (a : Arc) (entry : Properties) : Prop where
  tail : ∃ v, Properties.value? entry "source" = some v ∧
    p.names.nodes.get? (.text v.plainText) = some (p.graph.graph.tail a)
  head : ∃ v, Properties.value? entry "target" = some v ∧
    p.names.nodes.get? (.text v.plainText) = some (p.graph.graph.head a)
  isEdge : p.graph.graph.isEdge a = true ↔
    Properties.value? entry "directed" = some (.bool false)
  /-- An entry without a cost has the cost zero. -/
  cost : ∃ x, ((Properties.value? entry costProperty).getD (.float 0.0)).numericFloat = .ok x ∧
    p.graph.graph.arcProperties a =
      some (otherProperties entry ++ [(.text costProperty, .float x)]) ∧
    p.cost a = .ok (.float x)

/-- The graph and its names are those that a document describes. -/
structure Describes (document : Value) (p : ProblemFile) : Prop where
  nodes : p.graph.graph.nodes = (List.range (nodeNames document).length).map Node.nth
  /-- Both name tables hold these names in this order and nothing else. -/
  names : Numbered Node.nth p.names.nodes p.names.names ((nodeNames document).map Value.text)
  inverse : ∀ name n, p.names.nodes.get? name = some n ↔ p.names.names.get? n = some name
  nodeProperties : ∀ i name, (nodeNames document)[i]? = some name →
    p.graph.graph.nodeProperties (.nth i) =
      description (content? (fields document) "nodes") name
  arcs : p.graph.graph.arcs .all = (List.range (arcEntries document).length).map Arc.nth
  arcDescribed : ∀ i entry, (arcEntries document)[i]? = some entry →
    ArcDescribed p (.nth i) (fields entry)

namespace Naming

/-- The graph and the names are those of the names mentioned so far and of some arcs; what
describes a node is known by its name. -/
structure Holds (describe : String → Option Properties) (s : Naming) (mentioned : List String)
    (arcs : List (ArcRecord × Option Properties)) : Prop where
  lists : s.graph.Lists (mentioned.eraseDups.map describe) arcs
  table : Numbered Node.nth s.names.nodes s.names.names (mentioned.eraseDups.map Value.text)

variable {describe : String → Option Properties} {s : Naming} {mentioned : List String}
  {arcs : List (ArcRecord × Option Properties)}

theorem holds_start : start.Holds describe [] [] := ⟨.empty, .empty⟩

/-- The tables of names are inverse to each other. -/
theorem Holds.inverse (holds : s.Holds describe mentioned arcs) (name : Value) (n : Node) :
    s.names.nodes.get? name = some n ↔ s.names.names.get? n = some name := by
  refine holds.table.inverse (fun k listed k' => ?_) name n
  obtain ⟨text, _, rfl⟩ := List.mem_map.mp listed
  exact Value.text_beq_iff

/-- A name stands for the node at the position of its first mention. -/
theorem Holds.get?_nodes (holds : s.Holds describe mentioned arcs) {name : String} {n : Node} :
    s.names.nodes.get? (.text name) = some n ↔
      ∃ i, mentioned.eraseDups[i]? = some name ∧ n = .nth i := by
  rw [holds.inverse, holds.table.get?_back]
  simp

/-- A name that was not mentioned stands for no node. -/
theorem Holds.get?_eq_none (holds : s.Holds describe mentioned arcs) {name : String}
    (new : name ∉ mentioned) : s.names.nodes.get? (.text name) = none := by
  rw [Option.eq_none_iff_forall_ne_some]
  intro n found
  obtain ⟨i, known, _⟩ := holds.get?_nodes.mp found
  exact new (List.mem_eraseDups.mp (List.mem_of_getElem? known))

/-- A node that is pushed for a new name is the next of both tables. -/
theorem Holds.push (holds : s.Holds describe mentioned arcs) {name : String}
    (new : name ∉ mentioned) :
    Holds describe ⟨(s.graph.pushNode (describe name)).2,
      s.names.put (.text name) (s.graph.pushNode (describe name)).1⟩ (mentioned ++ [name]) arcs := by
  have grown : (mentioned ++ [name]).eraseDups = mentioned.eraseDups ++ [name] := by
    simp [eraseDups_append_singleton, new]
  have apart : ∀ k ∈ mentioned.eraseDups.map Value.text, (k == .text name) = false := by
    intro k listed
    obtain ⟨text, early, rfl⟩ := List.mem_map.mp listed
    rw [← Bool.not_eq_true, Value.beq_text_iff]
    intro same
    cases same
    exact new (List.mem_eraseDups.mp early)
  constructor
  · rw [grown, List.map_append]
    exact holds.lists.pushNode (describe name)
  · have pushed := holds.lists.pushNode_fst (describe name)
    rw [List.length_map] at pushed
    have table := holds.table.insert Node.nth_injective apart
    rw [List.length_map, ← pushed] at table
    rw [grown, List.map_append]
    exact table

/-- Asking for the node of a name mentions it, and gives the node at its position. -/
theorem Holds.nodeFor (holds : s.Holds describe mentioned arcs) {name : String}
    (plain : name ∉ mentioned → describe name = none) :
    (s.nodeFor name).2.Holds describe (mentioned ++ [name]) arcs ∧
      ∃ i, (mentioned ++ [name]).eraseDups[i]? = some name ∧ (s.nodeFor name).1 = .nth i := by
  by_cases member : name ∈ mentioned
  · obtain ⟨i, known⟩ := List.mem_iff_getElem?.mp (List.mem_eraseDups.mpr member)
    have state : s.nodeFor name = (.nth i, s) := by
      rw [Naming.nodeFor, holds.get?_nodes.mpr ⟨i, known, rfl⟩]
    have same : (mentioned ++ [name]).eraseDups = mentioned.eraseDups := by
      simp [eraseDups_append_singleton, member]
    rw [state]
    refine ⟨⟨?_, ?_⟩, i, ?_, rfl⟩
    · rw [same]; exact holds.lists
    · rw [same]; exact holds.table
    · rw [same]; exact known
  · have state : s.nodeFor name = ((s.graph.pushNode (describe name)).1,
        ⟨(s.graph.pushNode (describe name)).2,
          s.names.put (.text name) (s.graph.pushNode (describe name)).1⟩) := by
      rw [Naming.nodeFor, holds.get?_eq_none member, plain member]
    have grown : (mentioned ++ [name]).eraseDups = mentioned.eraseDups ++ [name] := by
      simp [eraseDups_append_singleton, member]
    rw [state]
    refine ⟨holds.push member, mentioned.eraseDups.length, ?_, ?_⟩
    · simp [grown]
    · simpa using holds.lists.pushNode_fst (describe name)

/-- The name of a value is its text. -/
theorem eq_plainText_of_toName {v : Value} {name : String} (named : v.toName = .ok name) :
    name = v.plainText := by
  have judged := toName_judges v
  rw [named] at judged
  exact judged.2

/-- Listing a name mentions it. -/
theorem Holds.addListed (holds : s.Holds describe mentioned arcs) {v : Value} {next : Naming}
    (plain : describe v.plainText = none) (added : s.addListed v = .ok next) :
    next.Holds describe (mentioned ++ [v.plainText]) arcs := by
  have fromName : ∀ name, v.toName = .ok name → (s.nodeFor name).2 = next →
      next.Holds describe (mentioned ++ [v.plainText]) arcs := by
    rintro name named rfl
    obtain rfl := eq_plainText_of_toName named
    exact (holds.nodeFor fun _ => plain).1
  unfold Naming.addListed at added
  split at added
  · cases added
  · cases added
  · obtain ⟨name, named, rest⟩ := Fallible.bind_eq_ok_iff.mp added
    split at rest
    · cases rest
    · cases rest
      exact fromName name named rfl

/-- Describing a new name mentions it, with its description. -/
theorem Holds.addDescribed (holds : s.Holds describe mentioned arcs) {e : String × Value}
    {next : Naming} (new : e.1 ∉ mentioned)
    (described : describe e.1 = Properties.unlessEmpty (fields e.2))
    (added : s.addDescribed e = .ok next) : next.Holds describe (mentioned ++ [e.1]) arcs := by
  obtain ⟨name, v⟩ := e
  cases v with
  | null =>
      cases added
      exact (holds.nodeFor fun _ => described).1
  | map properties =>
      cases added
      have state : ((s.nodeFor name).2.describe (s.nodeFor name).1 properties) =
          ⟨(s.graph.pushNode (describe name)).2,
            s.names.put (.text name) (s.graph.pushNode (describe name)).1⟩ := by
        have isDescription : describe name = Properties.unlessEmpty properties := described
        rw [Naming.nodeFor, holds.get?_eq_none new, Naming.describe, isDescription]
        cases Properties.unlessEmpty properties <;> rfl
      change ((s.nodeFor name).2.describe (s.nodeFor name).1 properties).Holds _ _ _
      rw [state]
      exact holds.push new
  | _ => cases added

/-- The section of nodes mentions the names that it lists, with their descriptions. -/
theorem holds_of_addNodes {section? : Option Value} (added : start.addNodes section? = .ok s) :
    s.Holds (description section?) (listedNames section?) [] := by
  rcases section? with _ | v
  · cases added
    exact holds_start
  cases v with
  | list items =>
      refine Fallible.invariant_of_foldlM_ok
        (fun done s => s.Holds (fun _ => none) (done.map Value.plainText) []) ?_ holds_start added
      intro done v s next holds stepped
      simpa using holds.addListed rfl stepped
  | map entries =>
      obtain ⟨byName, normal, folded⟩ := Fallible.bind_eq_ok_iff.mp added
      have judged := normalize_judges entries
      rw [normal] at judged
      have named : byName.entries = entries.map fun e => (e.1.plainText, e.2) := judged.2
      have described : ∀ name, description (some (.map entries)) name =
          (byName.get? name).bind fun v => Properties.unlessEmpty (fields v) := fun name => by
        rw [OrderedMap.get?, named, List.find?_map, Option.map_map, Option.bind_map]
        rfl
      have all : s.Holds (description (some (.map entries))) (byName.entries.map (·.1)) [] := by
        refine Fallible.invariant_of_foldlM_ok_at
          (fun done s => s.Holds (description (some (.map entries))) (done.map (·.1)) []) ?_
          holds_start folded
        intro done e rest s next split holds stepped
        have apart := byName.distinct
        rw [split, List.pairwise_append] at apart
        have new : e.1 ∉ done.map (·.1) := by
          intro early
          obtain ⟨e', member, same⟩ := List.mem_map.mp early
          simpa [same] using apart.2.2 e' member e List.mem_cons_self
        have found : byName.get? e.1 = some e.2 :=
          (OrderedMap.mem_entries_iff ..).mp (by simp [split])
        have grown := holds.addDescribed new (by rw [described, found, Option.bind_some]) stepped
        simpa using grown
      simpa [named, listedNames, Function.comp_def] using all
  | _ => cases added

/-- A record and properties are those of an arc entry whose ends have been mentioned. -/
structure Records (mentioned : List String) (entry : Properties) (r : ArcRecord)
    (properties : Option Properties) : Prop where
  tail : ∃ v, Properties.value? entry "source" = some v ∧
    ∃ i, mentioned.eraseDups[i]? = some v.plainText ∧ r.tail = .nth i
  head : ∃ v, Properties.value? entry "target" = some v ∧
    ∃ i, mentioned.eraseDups[i]? = some v.plainText ∧ r.head = .nth i
  isEdge : r.isEdge = true ↔ Properties.value? entry "directed" = some (.bool false)
  cost : ∃ x, ((Properties.value? entry costProperty).getD (.float 0.0)).numericFloat = .ok x ∧
    properties = some (otherProperties entry ++ [(.text costProperty, .float x)])

/-- Names mentioned later take later positions. -/
theorem position_stays {i : Nat} {name : String} (known : mentioned.eraseDups[i]? = some name)
    (more : List String) : (mentioned ++ more).eraseDups[i]? = some name := by
  rw [List.eraseDups_append,
    List.getElem?_append_left (List.getElem?_eq_some_iff.mp known).1, known]

/-- A record stays right when more names are mentioned. -/
theorem Records.mono {entry : Properties} {r : ArcRecord} {properties : Option Properties}
    (records : Records mentioned entry r properties) (more : List String) :
    Records (mentioned ++ more) entry r properties := by
  obtain ⟨⟨v, source, i, known, tail⟩, ⟨w, target, j, known', head⟩, isEdge, cost⟩ := records
  exact ⟨⟨v, source, i, position_stays known more, tail⟩,
    ⟨w, target, j, position_stays known' more, head⟩, isEdge, cost⟩

/-- An arc is an edge exactly if it is said not to be directed. -/
theorem isDirected_of_readDirected {entry : Properties} {directed : Bool}
    (reads : readDirected entry = .ok directed) :
    (!directed) = true ↔ Properties.value? entry "directed" = some (.bool false) := by
  rw [readDirected] at reads
  split at reads
  · rename_i absent
    cases reads
    simp [absent]
  · rename_i given
    cases reads
    simp [given]
  · cases reads

/-- The cost is the number that is given, or zero. -/
theorem numericFloat_of_readCost {entry : Properties} {x : Float}
    (reads : readCost entry = .ok x) :
    ((Properties.value? entry costProperty).getD (.float 0.0)).numericFloat = .ok x := by
  rw [readCost] at reads
  generalize (Properties.value? entry costProperty).getD (.float 0.0) = v at reads ⊢
  by_cases isNumber : v.isNumber = true
  · simp only [isNumber, Bool.not_true, Bool.false_eq_true, if_false] at reads
    obtain ⟨y, isBounded, rest⟩ := Fallible.bind_eq_ok_iff.mp reads
    have judged := bounded_judges isNumber costProperty
    rw [isBounded] at judged
    split at rest
    · cases rest
      exact judged.2
    · cases rest
  · simp only [isNumber] at reads
    cases reads

/-- An arc has the properties that are given, and then the cost. -/
theorem arcProperties_eq (entry : Properties) (x : Float) :
    arcProperties entry x = otherProperties entry ++ [(.text costProperty, .float x)] := by
  rw [arcProperties, otherProperties]
  simp only [Properties.without, List.filter_filter]
  refine congrArg (· ++ _) (List.filter_congr ?_)
  rintro ⟨k, v⟩ -
  cases k with
  | text s =>
      change (!arcKeys.contains s) = (!(s == costProperty) &&
        (!(s == "directed") && (!(s == "target") && !(s == "source"))))
      simp only [arcKeys, List.contains_cons, List.contains_nil, Bool.or_false, Bool.not_or]
      ac_rfl
  | _ => rfl

/-- An entry mentions its ends and adds an arc that records it. -/
theorem Holds.addArc (holds : s.Holds describe mentioned arcs) {entry : Value} {next : Naming}
    (plain : ∀ name ∉ mentioned, describe name = none) (added : s.addArc entry = .ok next) :
    ∃ r properties, next.Holds describe (mentioned ++ endNames entry) (arcs ++ [(r, properties)]) ∧
      Records (mentioned ++ endNames entry) (fields entry) r properties := by
  cases entry with
  | map entry =>
      unfold Naming.addArc at added
      dsimp only at added
      split at added
      · rename_i source target hasSource hasTarget
        obtain ⟨directed, readsDirection, added⟩ := Fallible.bind_eq_ok_iff.mp added
        obtain ⟨x, readsCost, added⟩ := Fallible.bind_eq_ok_iff.mp added
        obtain ⟨tailName, named, added⟩ := Fallible.bind_eq_ok_iff.mp added
        obtain rfl := eq_plainText_of_toName named
        obtain ⟨headName, named', added⟩ := Fallible.bind_eq_ok_iff.mp added
        obtain rfl := eq_plainText_of_toName named'
        cases added
        obtain ⟨holdsTail, i, known, isTail⟩ := holds.nodeFor (plain source.plainText)
        obtain ⟨holdsBoth, j, known', isHead⟩ := holdsTail.nodeFor
          fun new => plain target.plainText fun early => new (List.mem_append_left _ early)
        replace known := position_stays known [target.plainText]
        have ends : mentioned ++ endNames (.map entry) =
            mentioned ++ [source.plainText] ++ [target.plainText] := by
          simp [endNames, fields, hasSource, hasTarget]
        have inside : ∀ {k name}, (mentioned ++ [source.plainText] ++
            [target.plainText]).eraseDups[k]? = some name →
            ((s.nodeFor source.plainText).2.nodeFor target.plainText).2.graph.nodes.contains
              (.nth k) = true := fun {k name} found =>
          holdsBoth.lists.contains_nodes.mpr (by
            simpa using (List.getElem?_eq_some_iff.mp found).1)
        rw [ends]
        refine ⟨⟨(s.nodeFor source.plainText).1,
          ((s.nodeFor source.plainText).2.nodeFor target.plainText).1, !directed⟩,
          some (arcProperties entry x), ⟨?_, holdsBoth.table⟩, ?_⟩
        · exact holdsBoth.lists.pushArc (isTail ▸ inside known) (isHead ▸ inside known') _
        · exact ⟨⟨source, hasSource, i, known, isTail⟩, ⟨target, hasTarget, j, known', isHead⟩,
            isDirected_of_readDirected readsDirection, x, numericFloat_of_readCost readsCost,
            congrArg some (arcProperties_eq entry x)⟩
      · cases added
  | _ => cases added

/-- The section of arcs mentions the ends of all entries and adds an arc for each. -/
theorem Holds.addArcs (holds : s.Holds describe mentioned []) {section? : Option Value}
    {next : Naming} (plain : ∀ name ∉ mentioned, describe name = none)
    (added : s.addArcs section? = .ok next) :
    ∃ arcs, next.Holds describe (mentioned ++ arcEndNames section?) arcs ∧
      List.Forall₂ (fun entry e =>
        Records (mentioned ++ arcEndNames section?) (fields entry) e.1 e.2)
        (listed section?) arcs := by
  rcases section? with _ | v
  · cases added
    exact ⟨[], by simpa [arcEndNames] using holds, .nil⟩
  cases v with
  | list items =>
      refine Fallible.invariant_of_foldlM_ok
        (fun done s => ∃ arcs, s.Holds describe (mentioned ++ done.flatMap endNames) arcs ∧
          List.Forall₂ (fun entry e =>
            Records (mentioned ++ done.flatMap endNames) (fields entry) e.1 e.2) done arcs)
        ?_ ⟨[], by simpa using holds, .nil⟩ added
      rintro done entry s next ⟨arcs, holds, recorded⟩ stepped
      obtain ⟨r, properties, holdsNext, records⟩ := holds.addArc
        (fun name new => plain name fun early => new (List.mem_append_left _ early)) stepped
      have names : mentioned ++ (done ++ [entry]).flatMap endNames =
          mentioned ++ done.flatMap endNames ++ endNames entry := by simp
      rw [names]
      exact ⟨arcs ++ [(r, properties)], holdsNext, List.rel_append
        (recorded.imp fun _ _ earlier => earlier.mono (endNames entry)) (.cons records .nil)⟩
  | _ => cases added

end Naming

/-- Names that no section lists have no properties. -/
theorem description_eq_none {section? : Option Value} {name : String}
    (new : name ∉ listedNames section?) : description section? name = none := by
  rcases section? with _ | v
  · rfl
  cases v with
  | map entries =>
      have missed : entries.find? (fun e => e.1.plainText == name) = none := by
        rw [List.find?_eq_none]
        intro e member same
        exact new (List.mem_map.mpr ⟨e, member, beq_iff_eq.mp same⟩)
      rw [description, missed, Option.bind_none]
  | _ => rfl

/-- What is read from the sections of a document: the nodes and the arcs are all that is
drawn, and the constraints give the bounds. -/
structure ReadFrom (document : Value) (p : ProblemFile) : Prop where
  drawn : ∃ named : Naming, Naming.start.addNodes (content? (fields document) "nodes") = .ok named ∧
    named.addArcs (content? (fields document) "arcs") = .ok ⟨p.graph, p.names⟩
  bounds : readDegrees p.names (constraintFields document) = .ok p.bounds
  minimum : readCount (constraintFields document) "min_arc_count" (some 0) = .ok p.minimum
  maximum : readCount (constraintFields document) "max_arc_count" none = .ok p.maximum

/-- What is read of a document is read as it says. -/
theorem readFrom_of_ofDocument {document : Value} {p : ProblemFile}
    (read : ofDocument document = .ok p) : ReadFrom document p := by
  obtain ⟨data, isTop, read⟩ := Fallible.bind_eq_ok_iff.mp read
  have judged := top_judges document
  rw [isTop] at judged
  obtain rfl : data = fields document := judged.2
  obtain ⟨-, -, read⟩ := Fallible.bind_eq_ok_iff.mp read
  obtain ⟨named, addedNodes, read⟩ := Fallible.bind_eq_ok_iff.mp read
  obtain ⟨drawn, addedArcs, read⟩ := Fallible.bind_eq_ok_iff.mp read
  obtain ⟨constraints, isMapping, read⟩ := Fallible.bind_eq_ok_iff.mp read
  have judged := mapping_judges (fields document) "constraints"
  rw [isMapping] at judged
  obtain rfl : constraints = constraintFields document := judged.2
  obtain ⟨-, -, read⟩ := Fallible.bind_eq_ok_iff.mp read
  obtain ⟨bounds, degrees, read⟩ := Fallible.bind_eq_ok_iff.mp read
  iterate 3 obtain ⟨_, -, read⟩ := Fallible.bind_eq_ok_iff.mp read
  obtain ⟨minimum, least, read⟩ := Fallible.bind_eq_ok_iff.mp read
  obtain ⟨maximum, most, read⟩ := Fallible.bind_eq_ok_iff.mp read
  obtain ⟨_, -, made⟩ := Fallible.bind_eq_ok_iff.mp read
  cases made
  exact ⟨⟨named, addedNodes, addedArcs⟩, degrees, least, most⟩

/-- An arc that was recorded for an entry is the arc the entry describes. -/
theorem arcDescribed_of_records {p : ProblemFile} {describe : String → Option Properties}
    {mentioned : List String} {arcs : List (ArcRecord × Option Properties)}
    (holds : Naming.Holds describe ⟨p.graph, p.names⟩ mentioned arcs) {i : Nat} {r : ArcRecord}
    {properties : Option Properties} (found : arcs[i]? = some (r, properties))
    {entry : Properties} (records : Naming.Records mentioned entry r properties) :
    ArcDescribed p (.nth i) entry := by
  obtain ⟨tail, head, isEdge, stored⟩ := holds.lists.graph_record found
  obtain ⟨⟨v, hasSource, j, known, isTail⟩, ⟨w, hasTarget, k, known', isHead⟩, marks, x, reads,
    rfl⟩ := records
  refine ⟨⟨v, hasSource, holds.get?_nodes.mpr ⟨j, known, ?_⟩⟩,
    ⟨w, hasTarget, holds.get?_nodes.mpr ⟨k, known', ?_⟩⟩, ?_, x, reads, stored, ?_⟩
  · exact tail.trans isTail
  · exact head.trans isHead
  · rw [isEdge]
    exact marks
  · have value : Properties.value? (otherProperties entry ++ [(.text costProperty, .float x)])
        costProperty = some (.float x) := by
      rw [otherProperties, Properties.value?_append_of_none (Properties.value?_without _ _)]
      rfl
    change p.graph.properties.arcs.get? (.nth i) = _ at stored
    rw [cost, stored, Option.getD_some, value]
    rfl

/-- The graph, the names and the costs of a document that is read are those it describes. -/
theorem describes_of_ofDocument {document : Value} {p : ProblemFile}
    (read : ofDocument document = .ok p) : Describes document p := by
  obtain ⟨named, addedNodes, addedArcs⟩ := (readFrom_of_ofDocument read).drawn
  obtain ⟨arcs, holds, recorded⟩ :=
    (Naming.holds_of_addNodes addedNodes).addArcs (fun _ => description_eq_none) addedArcs
  refine ⟨?_, holds.table, holds.inverse, fun i name known => ?_, ?_,
    fun i entry listed => ?_⟩
  · exact holds.lists.graph_nodes.trans (by rw [List.length_map]; rfl)
  · refine (holds.lists.nodeProperties i).trans ?_
    change (mentions document).eraseDups[i]? = some name at known
    change ((mentions document).eraseDups.map _)[i]?.join = _
    rw [List.getElem?_map, known, Option.map_some, Option.join_some]
  · exact holds.lists.graph_arcs.trans (by rw [← recorded.length_eq]; rfl)
  · obtain ⟨inside, rfl⟩ := List.getElem?_eq_some_iff.mp listed
    have inside' : i < arcs.length := recorded.length_eq ▸ inside
    exact arcDescribed_of_records holds (List.getElem?_eq_getElem inside') (recorded.get inside inside')

/-- A node with a label, one without, and one that is mentioned as the end of an edge only. -/
def threeNames : Value :=
  .map [
    (.text "nodes", .map [(.text "a", .map [(.text "label", .text "start")]), (.text "b", .null)]),
    (.text "arcs", .list [
      .map [(.text "source", .text "a"), (.text "target", .text "b"), (.text "cost", .float 2.5)],
      .map [(.text "source", .text "b"), (.text "target", .text "c"),
        (.text "directed", .bool false), (.text "lanes", .int 2)]])]

/-- Three names are described, of which one is listed. -/
theorem describes_of_ofDocument_threeNames :
    ∃ p, ofDocument threeNames = .ok p ∧ Describes threeNames p :=
  ⟨_, rfl, describes_of_ofDocument rfl⟩

end ProblemFile

end ArcSelection
