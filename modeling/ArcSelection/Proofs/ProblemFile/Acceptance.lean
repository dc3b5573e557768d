import ArcSelection.Proofs.Fallible
import ArcSelection.Proofs.OrderedMap
import ArcSelection.Proofs.ProblemFile.Grammar
import ArcSelection.Proofs.Value.Properties
import Mathlib.Data.List.Induction

/-!
# Documents that are read

A document is read into a problem exactly if it is `Formed`, and is refused as a bad value
otherwise.  Each part of the reader is shown to judge its part of the grammar (`Judges`),
and what it passes on to the next part is said in terms of the document: the names that
are known after the nodes and arcs are those that the document mentions.
-/

namespace ArcSelection

namespace ProblemFile

/-- A reader that has a good result exactly if a condition holds, and otherwise refuses the
document as a bad value. -/
def Judges {α : Type} (x : Except Fault α) (Condition : Prop) (Good : α → Prop) : Prop :=
  match x with
  | .ok a => Condition ∧ Good a
  | .error fault => ¬ Condition ∧ fault.kind.label = "ValueError"

namespace Judges

variable {α β σ : Type} {x : Except Fault α} {P Q : Prop} {Good : α → Prop}

/-- What is judged can be said in other words. -/
theorem congr (judges : Judges x P Good) (same : P ↔ Q) : Judges x Q Good :=
  propext same ▸ judges

/-- What is known of an accepted result may be weakened. -/
theorem weaken {Weak : α → Prop} (judges : Judges x P Good) (weaker : ∀ a, Good a → Weak a) :
    Judges x P Weak := by
  cases x with
  | error fault => exact judges
  | ok a => exact ⟨judges.1, weaker a judges.2⟩

/-- What is made of the result does not change the judgement. -/
theorem finish (judges : Judges x P Good) (f : α → β) :
    Judges (x >>= fun a => pure (f a)) P fun _ => True := by
  cases x with
  | error fault => exact judges
  | ok a => exact ⟨judges.1, trivial⟩

/-- A check judges what it checks. -/
theorem ite {check : Prop} [Decidable check] {a : α} {fault : Fault} (same : check ↔ P)
    (good : P → Good a) (isValue : fault.kind.label = "ValueError") :
    Judges (if check then .ok a else .error fault) P Good := by
  split
  · rename_i passes
    exact ⟨same.mp passes, good (same.mp passes)⟩
  · rename_i fails
    exact ⟨fun holds => fails (same.mpr holds), isValue⟩

/-- Two readers in sequence judge both conditions. -/
theorem bind {f : α → Except Fault β} {Good' : β → Prop} (first : Judges x P Good)
    (second : ∀ a, P → Good a → Judges (f a) Q Good') : Judges (x >>= f) (P ∧ Q) Good' := by
  cases x with
  | error fault => exact ⟨fun both => first.1 both.1, first.2⟩
  | ok a =>
      have judged := second a first.1 first.2
      change Judges (f a) (P ∧ Q) Good'
      exact judged.congr (and_iff_right first.1).symm

/-- After a reader whose result is known, the next reads that result. -/
theorem bind_eq {f : α → Except Fault β} {a : α} {Good' : β → Prop} (first : Judges x P (· = a))
    (second : P → Judges (f a) Q Good') : Judges (x >>= f) (P ∧ Q) Good' :=
  first.bind fun _ holds isResult => isResult ▸ second holds

/-- A fold judges each item and the pairs it forms with those before it. -/
theorem foldlM {step : σ → β → Except Fault σ} (start : σ) (Each : β → Prop)
    (Pair : β → β → Prop) (Inv : List β → σ → Prop) (initial : Inv [] start)
    (judges : ∀ done item s, Inv done s →
      Judges (step s item) (Each item ∧ ∀ e ∈ done, Pair e item) (Inv (done ++ [item])))
    (items : List β) :
    Judges (items.foldlM step start) ((∀ item ∈ items, Each item) ∧ items.Pairwise Pair)
      (Inv items) := by
  induction items using List.reverseRecOn with
  | nil => exact ⟨⟨by simp, .nil⟩, initial⟩
  | append_singleton done item ih =>
      have last : ∀ s, Inv done s → Judges ([item].foldlM step s)
          (Each item ∧ ∀ e ∈ done, Pair e item) (Inv (done ++ [item])) := fun s holds => by
        simpa using judges done item s holds
      rw [List.foldlM_append]
      refine (ih.bind fun s _ holds => last s holds).congr ?_
      simp only [List.mem_append, List.mem_singleton, or_imp, forall_and, forall_eq,
        List.pairwise_append, List.pairwise_singleton, true_and]
      tauto

/-- A fold judges each item. -/
theorem foldlM_each {step : σ → β → Except Fault σ} (start : σ) (Each : β → Prop)
    (Inv : List β → σ → Prop) (initial : Inv [] start)
    (judges : ∀ done item s, Inv done s →
      Judges (step s item) (Each item) (Inv (done ++ [item])))
    (items : List β) :
    Judges (items.foldlM step start) (∀ item ∈ items, Each item) (Inv items) := by
  refine (foldlM start Each (fun _ _ => True) Inv initial ?_ items).congr ?_
  · exact fun done item s holds => (judges done item s holds).congr (by simp)
  · exact and_iff_left (List.pairwise_of_forall fun _ _ => trivial)

/-- A map over a list judges each item. -/
theorem mapM {f : α → Except Fault β} {Each : α → Prop} {items : List α}
    (judges : ∀ item ∈ items, Judges (f item) (Each item) fun _ => True) :
    Judges (items.mapM f) (∀ item ∈ items, Each item) fun _ => True := by
  induction items with
  | nil => exact ⟨by simp, trivial⟩
  | cons head rest ih =>
      rw [List.mapM_cons]
      have tail := ih fun item member => judges item (List.mem_cons_of_mem _ member)
      refine ((judges head List.mem_cons_self).bind fun result _ _ =>
        tail.finish _).congr ?_
      simp

end Judges

/-! ### Keys and numbers -/

/-- Keys are accepted exactly if all of them are allowed at their place. -/
theorem checkKeys_judges (data : Properties) (allowed : List String) (place : String) :
    Judges (checkKeys data allowed place) (KeysAmong allowed data) fun _ => True := by
  rw [checkKeys]
  simp only [List.isEmpty_iff, List.filterMap_eq_nil_iff]
  split
  · rename_i noneExtra
    refine ⟨fun e member => ?_, trivial⟩
    have free := noneExtra e member
    split at free <;> simp_all
  · rename_i someExtra
    refine ⟨fun among => someExtra fun e member => ?_, rfl⟩
    obtain ⟨key, isAllowed, isText⟩ := among e member
    simp [isText, isAllowed]

/-- A section is accepted exactly if it is a mapping or missing. -/
theorem mapping_judges (data : Properties) (key : String) :
    Judges (mapping data key) (MappingOrMissing (content? data key))
      (· = sectionFields (content? data key)) := by
  rw [mapping]
  split
  · rename_i missing
    rw [missing]
    exact ⟨trivial, rfl⟩
  · rename_i found
    rw [found]
    exact ⟨trivial, rfl⟩
  · rename_i v notMap found
    rw [found]
    refine ⟨fun isMapping => ?_, rfl⟩
    cases v with
    | map entries => exact notMap entries rfl
    | _ => exact isMapping

/-- A key that is missing counts as a value of the kind. -/
theorem ifGiven_iff {Kind : Value → Prop} {absent : Value} (isKind : Kind absent)
    (data : Properties) (key : String) :
    IfGiven data key Kind ↔ Kind ((Properties.value? data key).getD absent) := by
  rw [IfGiven]
  rcases Properties.value? data key with _ | v
  · exact iff_of_true (by simp) isKind
  · simp

/-- A value has a name exactly if it can be written, and the name is its text. -/
theorem toName_judges (v : Value) :
    Judges v.toName (v.isWritable = true) (· = v.plainText) := by
  rw [Value.toName]
  exact Judges.ite Iff.rfl (fun _ => rfl) rfl

/-- The double that an integer is rounded to is its double. -/
theorem ofInt?_of_floatOfInt {n : Int} {x : Float} (reads : Value.floatOfInt n = .ok x) :
    Decimal.ofInt? n = some x := by
  rw [Value.floatOfInt] at reads
  split at reads
  · rename_i found
    cases reads
    exact found
  · cases reads

/-- A number has a double unless it is too large. -/
theorem numericFloat_cases {v : Value} (isNumber : v.isNumber = true) :
    (v.FitsFloat ∧ ∃ x, v.numericFloat = .ok x) ∨
      (¬ v.FitsFloat ∧ v.numericFloat = .error .tooLarge) := by
  cases v with
  | int n =>
      have fits := Decimal.ofInt?_isSome_iff n
      rw [Value.numericFloat, Value.floatOfInt]
      cases double : Decimal.ofInt? n with
      | some x => exact Or.inl ⟨fits.mp (by simp [double]), x, rfl⟩
      | none => exact Or.inr ⟨fun small => by simpa [double] using fits.mpr small, rfl⟩
  | float x => exact Or.inl ⟨trivial, x, rfl⟩
  | _ => cases isNumber

/-- A number is accepted exactly if it fits a double, and is read as it. -/
theorem bounded_judges {v : Value} (isNumber : v.isNumber = true) (name : String) :
    Judges (bounded v name) v.FitsFloat fun x => v.numericFloat = .ok x := by
  rw [bounded]
  rcases numericFloat_cases isNumber with ⟨fits, x, reads⟩ | ⟨large, reads⟩
  · rw [reads]
    exact ⟨fits, rfl⟩
  · rw [reads]
    exact ⟨large, rfl⟩

/-- What a number is as a double tells whether it is finite. -/
theorem isFinite_iff_fitsFinite {v : Value} {x : Float} (fits : v.FitsFloat)
    (reads : v.numericFloat = .ok x) : x.isFinite = true ↔ v.FitsFinite := by
  cases v with
  | int n => exact iff_of_true (Decimal.ofInt?_eq_some (ofInt?_of_floatOfInt reads)).1 fits
  | float y =>
      cases reads
      exact Iff.rfl
  | _ => cases fits

/-- What a number is as a double tells whether it is a limit. -/
theorem ge_zero_iff_isLimit {v : Value} {x : Float} (fits : v.FitsFloat)
    (reads : v.numericFloat = .ok x) : x ≥ 0.0 ↔ v.IsLimit := by
  cases v with
  | int n =>
      have sign := (Decimal.ofInt?_eq_some (ofInt?_of_floatOfInt reads)).2
      exact sign.trans (and_iff_left fits).symm
  | float y =>
      cases reads
      exact Iff.rfl
  | _ => cases fits

/-- Only numbers fit a float. -/
theorem isNumber_of_fitsFloat {v : Value} (fits : v.FitsFloat) : v.isNumber = true := by
  cases v with
  | int n | float x => rfl
  | _ => cases fits

/-- A mapping is normalized exactly if its keys have names, and these become its keys. -/
theorem normalize_judges (data : Properties) :
    Judges (Properties.normalize data) (KeysNamed data)
      fun m => m.entries = data.map fun e => (e.1.plainText, e.2) := by
  refine (Judges.foldlM OrderedMap.empty (fun e => e.1.isWritable = true)
    (fun e e' => e.1.plainText ≠ e'.1.plainText)
    (fun done (m : OrderedMap String Value) =>
      m.entries = done.map fun e => (e.1.plainText, e.2)) rfl ?_ data).congr ?_
  · intro done e m holds
    refine (toName_judges e.1).bind_eq fun _ => ?_
    have known : m.contains e.1.plainText = true ↔
        ¬ ∀ e' ∈ done, e'.1.plainText ≠ e.1.plainText := by
      simp [OrderedMap.contains, holds]
    split
    · rename_i present
      exact ⟨known.mp present, rfl⟩
    · rename_i absent
      refine ⟨by rwa [known, not_not] at absent, ?_⟩
      change (m.insert e.1.plainText e.2).entries = _
      rw [OrderedMap.entries_insert_of_absent (by simpa using absent), holds]
      simp
  · rw [KeysNamed, List.Nodup, List.pairwise_map]

/-! ### Nodes and arcs -/

namespace Naming

/-- The names that are known. -/
def Knows (s : Naming) (names : List String) : Prop := ∀ name, s.knows name = true ↔ name ∈ names

/-- The names that are known are the texts among the entries. -/
theorem knows_iff (s : Naming) (name : String) :
    s.knows name = true ↔ ∃ e ∈ s.names.nodes.entries, e.1 = .text name := by
  simp [knows, OrderedMap.contains, Value.beq_text_iff]

/-- A node for a name makes this name known and no other. -/
theorem knows_nodeFor (s : Naming) (name other : String) :
    (s.nodeFor name).2.knows other = true ↔ s.knows other = true ∨ other = name := by
  rw [nodeFor]
  split
  · rename_i n found
    have known : s.knows name = true := OrderedMap.contains_of_get? found
    constructor
    · exact Or.inl
    · rintro (before | rfl)
      exacts [before, known]
  · rename_i missing
    have absent := (OrderedMap.get?_eq_none_iff _ _).mp missing
    simp only [knows_iff, NodeNames.put, OrderedMap.entries_insert_of_absent absent,
      List.mem_append, List.mem_singleton, or_and_right, exists_or, exists_eq_left,
      Value.text.injEq]
    rw [eq_comm (a := other)]

/-- Describing a node makes no name known. -/
theorem knows_describe (s : Naming) (n : Node) (properties : Properties) (name : String) :
    (s.describe n properties).knows name = s.knows name := by
  rw [describe]
  split <;> rfl

/-- Names stay known with one more. -/
theorem Knows.nodeFor {s : Naming} {names : List String} (holds : s.Knows names) (name : String) :
    (s.nodeFor name).2.Knows (names ++ [name]) := fun other => by
  rw [knows_nodeFor, holds other, List.mem_append, List.mem_singleton]

theorem knows_start : start.Knows [] := fun name => by
  simp [knows_iff, start, NodeNames.empty, OrderedMap.empty]

/-- A listed name is accepted exactly if it is a name and new, and it is known then. -/
theorem addListed_judges {s : Naming} {names : List String} (holds : s.Knows names) (v : Value) :
    Judges (s.addListed v) (v.IsNodeName ∧ v.plainText ∉ names)
      (Knows · (names ++ [v.plainText])) := by
  have named : ∀ (isName : v.IsNodeName ↔ v.isWritable = true),
      Judges (do
        let name <- v.toName
        if s.knows name then throw (.duplicateNode v) else return (s.nodeFor name).2)
        (v.IsNodeName ∧ v.plainText ∉ names) (Knows · (names ++ [v.plainText])) := by
    intro isName
    rw [isName]
    refine (toName_judges v).bind_eq fun _ => ?_
    split
    · rename_i known
      exact ⟨not_not.mpr ((holds _).mp known), rfl⟩
    · rename_i unknown
      exact ⟨fun listed => unknown ((holds _).mpr listed), holds.nodeFor _⟩
  cases v with
  | list items | map entries => exact ⟨fun both => both.1, rfl⟩
  | _ => exact named Iff.rfl

/-- A described node is accepted exactly if its description is one, and its name is known then. -/
theorem addDescribed_judges {s : Naming} {names : List String} (holds : s.Knows names)
    (e : String × Value) :
    Judges (s.addDescribed e) e.2.IsDescription (Knows · (names ++ [e.1])) := by
  obtain ⟨name, v⟩ := e
  cases v with
  | null => exact ⟨trivial, holds.nodeFor name⟩
  | map properties =>
      refine ⟨trivial, fun other => ?_⟩
      rw [knows_describe]
      exact holds.nodeFor name other
  | _ => exact ⟨id, rfl⟩

/-- A section of nodes is accepted exactly if it is formed, and its names are known then. -/
theorem addNodes_judges (section? : Option Value) :
    Judges (start.addNodes section?) (NodesFormed section?) (Knows · (listedNames section?)) := by
  rcases section? with _ | v
  · exact ⟨trivial, knows_start⟩
  cases v with
  | list items =>
      refine (Judges.foldlM start Value.IsNodeName (fun v w => v.plainText ≠ w.plainText)
        (fun done s => s.Knows (done.map Value.plainText)) knows_start ?_ items).congr ?_
      · intro done v s holds
        refine ((addListed_judges holds v).congr ?_).weaken ?_
        · simp
        · simp
      · rw [NodesFormed, List.Nodup, List.pairwise_map]
  | map entries =>
      refine (normalize_judges entries).bind fun byName _ names => ?_
      refine ((Judges.foldlM_each start (fun e => e.2.IsDescription)
        (fun done s => s.Knows (done.map (·.1))) knows_start ?_ byName.entries).congr ?_).weaken ?_
      · intro done e s holds
        exact (addDescribed_judges holds e).weaken (by simp)
      · rw [names]
        exact List.forall_mem_map
      · simp [names, listedNames, Function.comp_def]
  | _ => exact ⟨id, rfl⟩

/-- The direction of an arc is accepted exactly if it is a truth value or missing. -/
theorem readDirected_judges (entry : Properties) :
    Judges (readDirected entry) (IfGiven entry "directed" Value.IsBool) fun _ => True := by
  rw [readDirected, IfGiven]
  rcases Properties.value? entry "directed" with _ | v
  · exact ⟨by simp, trivial⟩
  cases v with
  | bool b => exact ⟨by simp [Value.IsBool], trivial⟩
  | _ => exact ⟨fun given => given _ rfl, rfl⟩

/-- The cost of an arc is accepted exactly if it is a finite number or missing. -/
theorem readCost_judges (entry : Properties) :
    Judges (readCost entry) (IfGiven entry costProperty Value.FitsFinite) fun _ => True := by
  have isKind : (Value.float 0.0).FitsFinite := rfl
  rw [ifGiven_iff isKind, readCost]
  generalize (Properties.value? entry costProperty).getD (.float 0.0) = v
  have number (isNumber : v.isNumber = true) : Judges (do
      let x <- bounded v costProperty
      if x.isFinite then return x else throw (.badArcCost v)) v.FitsFinite fun _ => True := by
    refine ((bounded_judges isNumber costProperty).bind (Q := v.FitsFinite) ?_).congr
      (and_iff_right_of_imp Value.FitsFinite.fitsFloat)
    intro x fits reads
    exact Judges.ite (isFinite_iff_fitsFinite fits reads) (fun _ => trivial) rfl
  cases v with
  | int n | float x => exact number rfl
  | _ => exact ⟨id, rfl⟩

/-- An arc is accepted exactly if it is formed, and its ends are known then. -/
theorem addArc_judges {s : Naming} {names : List String} (holds : s.Knows names) (entry : Value) :
    Judges (s.addArc entry) (ArcFormed entry) (Knows · (names ++ endNames entry)) := by
  cases entry with
  | map entries =>
      have formed : ArcFormed (.map entries) ↔
          ∃ source, Properties.value? entries "source" = some source ∧
          ∃ target, Properties.value? entries "target" = some target ∧
            IfGiven entries "directed" Value.IsBool ∧
            IfGiven entries costProperty Value.FitsFinite ∧
            source.isWritable = true ∧ target.isWritable = true := by
        constructor
        · rintro ⟨-, ⟨source, hasSource, named⟩, ⟨target, hasTarget, named'⟩, directed, cost⟩
          exact ⟨source, hasSource, target, hasTarget, directed, cost, named, named'⟩
        · rintro ⟨source, hasSource, target, hasTarget, directed, cost, named, named'⟩
          exact ⟨⟨entries, rfl⟩, ⟨source, hasSource, named⟩, ⟨target, hasTarget, named'⟩, directed,
            cost⟩
      rw [addArc, formed]
      split
      · rename_i source target hasSource hasTarget
        refine ((readDirected_judges entries).bind fun directed _ _ =>
          (readCost_judges entries).bind fun cost _ _ =>
          (toName_judges source).bind_eq fun _ =>
          (toName_judges target).bind_eq (Q := True) fun _ => ?_).congr ?_
        · have ends : endNames (.map entries) = [source.plainText, target.plainText] := by
            simp [endNames, fields, hasSource, hasTarget]
          rw [ends, List.append_cons]
          exact ⟨trivial, (holds.nodeFor source.plainText).nodeFor target.plainText⟩
        · simp [hasSource, hasTarget]
      · rename_i notBoth
        refine ⟨?_, rfl⟩
        rintro ⟨source, hasSource, target, hasTarget, -⟩
        exact notBoth source target hasSource hasTarget
  | _ =>
      refine ⟨fun formed => ?_, rfl⟩
      obtain ⟨_, isMap⟩ := formed.mapping
      cases isMap

/-- A section of arcs is accepted exactly if it is formed, and the ends of its arcs are known
then. -/
theorem addArcs_judges {s : Naming} {names : List String} (holds : s.Knows names)
    (section? : Option Value) :
    Judges (s.addArcs section?) (ArcsFormed section?) (Knows · (names ++ arcEndNames section?)) := by
  rcases section? with _ | v
  · exact ⟨trivial, by simpa [arcEndNames] using holds⟩
  cases v with
  | list items =>
      refine Judges.foldlM_each s ArcFormed
        (fun done s => s.Knows (names ++ done.flatMap endNames)) (by simpa using holds) ?_ items
      intro done entry s holds
      exact (addArc_judges holds entry).weaken (by simp)
  | _ => exact ⟨id, rfl⟩

end Naming

/-! ### Constraints and options -/

section Constraints

variable {s : Naming} {names : List String}

/-- A bound for a name is accepted exactly if the name is known and the bound fits a double. -/
theorem readNamedBound_judges (holds : s.Knows names) (key : String)
    (m : OrderedMap Node Float) (e : String × Value) :
    Judges (readNamedBound s.names key m e) (e.1 ∈ names ∧ e.2.FitsFloat) fun _ => True := by
  have known : e.1 ∈ names ↔ (s.names.nodes.get? (.text e.1)).isSome = true := by
    rw [← holds e.1, ← OrderedMap.contains_eq_isSome]
    exact Iff.rfl
  rw [readNamedBound, known]
  rcases s.names.nodes.get? (.text e.1) with _ | n
  · exact ⟨by simp, rfl⟩
  by_cases isNumber : e.2.isNumber = true
  · simp only [isNumber, Option.isSome_some, true_and]
    exact (bounded_judges isNumber _).finish _
  · simp only [isNumber]
    exact ⟨fun formed => isNumber (isNumber_of_fitsFloat formed.2), rfl⟩

/-- A mapping of bounds is formed if its default is and the bounds of all other keys are. -/
theorem boundsFormed_iff (byName : OrderedMap String Value) :
    (∀ e ∈ byName.entries, BoundFormed names e.1 e.2) ↔
      (∀ d, byName.get? defaultKey = some d → d = .null ∨ d.FitsFloat) ∧
        ∀ e ∈ (byName.erase defaultKey).entries, e.1 ∈ names ∧ e.2.FitsFloat := by
  have others : ∀ e, e ∈ (byName.erase defaultKey).entries ↔
      e ∈ byName.entries ∧ e.1 ≠ defaultKey := by
    simp [OrderedMap.erase, OrderedMap.filter]
  simp only [BoundFormed]
  constructor
  · intro formed
    refine ⟨fun d found => ?_, fun e listed => ?_⟩
    · have bound := formed (defaultKey, d) ((OrderedMap.mem_entries_iff ..).mpr found)
      rwa [if_pos rfl] at bound
    · obtain ⟨member, notDefault⟩ := (others e).mp listed
      have bound := formed e member
      rwa [if_neg notDefault] at bound
  · rintro ⟨default, named⟩ ⟨key, v⟩ member
    split
    · rename_i isDefault
      subst isDefault
      exact default v ((OrderedMap.mem_entries_iff ..).mp member)
    · rename_i notDefault
      exact named _ ((others _).mpr ⟨member, notDefault⟩)

/-- Bounds on a degree are accepted exactly if they are formed with known names. -/
theorem readDegree_judges (holds : s.Knows names) (k : DegreeKey) {v : Value} (given : v ≠ .null) :
    Judges (readDegree s.names k v) (DegreeFormed names v) fun _ => True := by
  cases v with
  | null => exact absurd rfl given
  | map entries =>
      refine (normalize_judges entries).bind fun byName _ isNamed => ?_
      have formed : (∀ e ∈ entries, BoundFormed names e.1.plainText e.2) ↔
          ∀ e ∈ byName.entries, BoundFormed names e.1 e.2 := by
        rw [isNamed, List.forall_mem_map]
      rw [formed, boundsFormed_iff]
      have reads (others : Value) (isNumber : others.isNumber = true) : Judges (do
          let bounds <- (byName.erase defaultKey).entries.foldlM
            (readNamedBound s.names k.word) .empty
          return DegreeEntry.perNode bounds (<- bounded others (k.word ++ "." ++ defaultKey)))
          (others.FitsFloat ∧
            ∀ e ∈ (byName.erase defaultKey).entries, e.1 ∈ names ∧ e.2.FitsFloat)
          fun _ => True := by
        refine ((Judges.foldlM_each .empty _ (fun _ _ => True) trivial
          (fun _ e m _ => readNamedBound_judges holds k.word m e) _).bind fun _ _ _ =>
          (bounded_judges isNumber _).finish _).congr and_comm
      rcases byName.get? defaultKey with _ | d
      · exact (reads k.vacuous rfl).congr (by simp [DegreeKey.vacuous, Value.FitsFloat])
      · cases d with
        | null => exact (reads k.vacuous rfl).congr (by simp [DegreeKey.vacuous, Value.FitsFloat])
        | int n => exact (reads (.int n) rfl).congr (by simp)
        | float x => exact (reads (.float x) rfl).congr (by simp)
        | _ => exact ⟨fun formed => by simpa [Value.FitsFloat] using formed.1 _ rfl, rfl⟩
  | int n =>
      exact (bounded_judges rfl k.word).finish _
  | float x => exact ⟨trivial, trivial⟩
  | _ => exact ⟨id, rfl⟩

/-- All bounds on degrees are accepted exactly if those that are given are formed. -/
theorem readDegrees_judges (holds : s.Knows names) (constraints : Properties) :
    Judges (readDegrees s.names constraints)
      (∀ k : DegreeKey, IfGiven constraints k.word (DegreeFormed names)) fun _ => True := by
  rw [readDegrees]
  refine ((Judges.mapM fun k _ => show Judges _ (IfGiven constraints k.word (DegreeFormed names))
    fun _ => True from ?_).finish _).congr ?_
  · rw [IfGiven]
    rcases Properties.value? constraints k.word with _ | v
    · exact ⟨by simp, trivial⟩
    cases v with
    | null => exact ⟨by simp [DegreeFormed], trivial⟩
    | _ => exact ((readDegree_judges holds k (by simp)).finish _).congr (by simp)
  have all : ∀ k : DegreeKey, k ∈ DegreeKey.all := by
    intro k
    cases k <;> simp [DegreeKey.all]
  simp [all]

end Constraints

/-- A number of arcs is accepted exactly if it is one or missing. -/
theorem readCount_judges (constraints : Properties) (key : String) (absent : Option Nat) :
    Judges (readCount constraints key absent) (IfGiven constraints key Value.IsArcCount)
      fun _ => True := by
  rw [readCount, IfGiven]
  rcases Properties.value? constraints key with _ | v
  · exact ⟨by simp, trivial⟩
  simp only [Option.some.injEq, forall_eq']
  cases v with
  | null => exact ⟨trivial, trivial⟩
  | int n =>
      have range : (decide (0 ≤ n) && decide (n ≤ (Fault.maxArcCount : Int))) = true ↔
          (Value.int n).IsArcCount := by
        rw [Bool.and_eq_true, decide_eq_true_eq, decide_eq_true_eq]
        exact Iff.rfl
      exact Judges.ite range (fun _ => trivial) rfl
  | _ => exact Judges.ite Iff.rfl (fun _ => trivial) rfl

/-- The switch for relaxing is accepted exactly if it is a truth value or missing. -/
theorem readRelaxed_judges (data : Properties) :
    Judges (readRelaxed data) (IfGiven data "relaxed" Value.IsBool) fun _ => True := by
  rw [readRelaxed, IfGiven]
  rcases Properties.value? data "relaxed" with _ | v
  · exact ⟨by simp, trivial⟩
  cases v with
  | bool b => exact ⟨by simp [Value.IsBool], trivial⟩
  | _ => exact ⟨fun given => given _ rfl, rfl⟩

/-- A threshold is accepted exactly if it is a number, null or missing. -/
theorem readThreshold_judges (data : Properties) :
    Judges (readThreshold data)
      (IfGiven data "selection_threshold" fun v => v = .null ∨ v.isNumber = true)
      fun _ => True := by
  rw [readThreshold, IfGiven]
  rcases Properties.value? data "selection_threshold" with _ | v
  · exact ⟨by simp, trivial⟩
  cases v with
  | null | int n | float x => exact ⟨by simp [Value.isNumber], trivial⟩
  | _ => exact ⟨by simp [Value.isNumber], rfl⟩

section Options

/-- A limit is accepted exactly if it is null or a number in range. -/
theorem checkLimit_judges (name : String) (v : Value) :
    Judges (SolverOptions.checkLimit name v) v.IsLimit fun _ => True := by
  by_cases isNumber : v.isNumber = true
  · unfold SolverOptions.checkLimit
    rw [if_neg (by
      cases v with
      | null => cases isNumber
      | _ => exact Bool.false_ne_true), if_pos isNumber]
    rcases numericFloat_cases isNumber with ⟨fits, x, reads⟩ | ⟨large, reads⟩
    · rw [reads]
      exact Judges.ite (ge_zero_iff_isLimit fits reads) (fun _ => trivial) rfl
    · rw [reads]
      exact ⟨fun isLimit => large (isLimit.fitsFloat isNumber), rfl⟩
  · cases v with
    | null => exact ⟨trivial, trivial⟩
    | int n | float x => exact absurd rfl isNumber
    | _ => exact ⟨id, rfl⟩

/-- A limit on nodes is accepted exactly if it is null or a number of nodes. -/
theorem checkNodeLimit_judges (v : Value) :
    Judges (SolverOptions.checkNodeLimit v) v.IsNodeLimit fun _ => True := by
  cases v with
  | null => exact ⟨trivial, trivial⟩
  | int n =>
      have range : (decide (0 ≤ n) && decide (n ≤ (Fault.maxNodeLimit : Int))) = true ↔
          (Value.int n).IsNodeLimit := by
        rw [Bool.and_eq_true, decide_eq_true_eq, decide_eq_true_eq]
        exact Iff.rfl
      exact Judges.ite range (fun _ => trivial) rfl
  | _ => exact ⟨id, rfl⟩

theorem readSwitch_judges (name : String) (v : Value) :
    Judges (SolverOptions.readSwitch name v) v.IsBool fun _ => True := by
  cases v with
  | bool b => exact ⟨trivial, trivial⟩
  | _ => exact ⟨id, rfl⟩

/-- A setting that is looked up is of a kind exactly if it is where it is given, as the default
is. -/
theorem lookup_iff {Kind : Value → Prop} {absent : Value} (isKind : Kind absent)
    (data : Properties) (name : String) :
    Kind (SolverOptions.lookup data name absent) ↔ IfGiven data name Kind := by
  rw [ifGiven_iff isKind, SolverOptions.lookup, Properties.value?]
  cases data.find? fun e => e.1 == .text name <;> exact Iff.rfl

theorem isName_iff (k : Value) :
    SolverOptions.isName k = true ↔ ∃ key ∈ SolverOptions.names, k = .text key := by
  cases k <;> simp [SolverOptions.isName]

/-- Settings are accepted exactly if they are formed. -/
theorem ofMap_judges (data : Properties) :
    Judges (SolverOptions.ofMap data) (OptionsFormed data) fun _ => True := by
  have known : ((data.map (·.1)).filter fun k => !SolverOptions.isName k).isEmpty = true ↔
      KeysAmong SolverOptions.names data := by
    simp [KeysAmong, isName_iff]
  rw [SolverOptions.ofMap, optionsFormed_iff, ← known]
  dsimp only
  split
  · rename_i strange
    exact ⟨fun formed => by simp [formed.1] at strange, rfl⟩
  · rename_i familiar
    refine ((checkLimit_judges _ _).bind fun _ _ _ =>
      (checkLimit_judges _ _).bind fun _ _ _ =>
      (checkNodeLimit_judges _).bind fun _ _ _ =>
      (readSwitch_judges _ _).bind fun _ _ _ =>
      (readSwitch_judges _ _).finish _).congr ?_
    rw [@lookup_iff Value.IsLimit .null trivial, @lookup_iff Value.IsLimit .null trivial,
      @lookup_iff Value.IsNodeLimit .null trivial, @lookup_iff Value.IsBool (.bool true) trivial,
      @lookup_iff Value.IsBool (.bool false) trivial]
    exact (and_iff_right (by simpa using familiar)).symm

end Options

/-- A document is accepted at the top exactly if it is a mapping or null. -/
theorem top_judges (document : Value) :
    Judges (top document) (document = .null ∨ ∃ entries, document = .map entries)
      (· = fields document) := by
  cases document with
  | null => exact ⟨Or.inl rfl, rfl⟩
  | map entries => exact ⟨Or.inr ⟨entries, rfl⟩, rfl⟩
  | _ => exact ⟨by simp, rfl⟩

/-- A document is accepted exactly if it is formed. -/
theorem ofDocument_judges (document : Value) :
    Judges (ofDocument document) (Formed document) fun _ => True := by
  refine ((top_judges document).bind_eq fun _ =>
    (checkKeys_judges _ _ _).bind fun _ _ _ =>
    (Naming.addNodes_judges _).bind fun _ _ knows =>
    (Naming.addArcs_judges knows _).bind fun _ _ knows =>
    (mapping_judges _ _).bind_eq fun _ =>
    (checkKeys_judges _ _ _).bind fun _ _ _ =>
    (readDegrees_judges knows _).bind fun _ _ _ =>
    (readRelaxed_judges _).bind fun _ _ _ =>
    (readThreshold_judges _).bind fun _ _ _ =>
    (mapping_judges _ _).bind_eq fun _ =>
    (readCount_judges _ _ _).bind fun _ _ _ =>
    (readCount_judges _ _ _).bind fun _ _ _ =>
    (ofMap_judges _).finish _).congr ?_
  rw [formed_iff, constraintsFormed_iff, mentions]
  tauto

/-- A document is read exactly if it is formed, and any other document is refused as a bad
value. -/
theorem ofDocument_decides_formed (document : Value) :
    (Formed document ∧ ∃ p, ofDocument document = .ok p) ∨
      (¬ Formed document ∧ ∃ fault, ofDocument document = .error fault ∧
        fault.kind.label = "ValueError") := by
  have judged := ofDocument_judges document
  cases read : ofDocument document with
  | ok p =>
      rw [read] at judged
      exact Or.inl ⟨judged.1, p, rfl⟩
  | error fault =>
      rw [read] at judged
      exact Or.inr ⟨judged.1, fault, rfl, judged.2⟩

end ProblemFile

end ArcSelection
