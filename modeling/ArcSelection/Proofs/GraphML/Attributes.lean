import ArcSelection.GraphML.Save
import ArcSelection.Proofs.ExactNumber
import ArcSelection.Proofs.Fallible
import ArcSelection.Proofs.Value.Properties

/-!
# Attributes as a file keeps them

A file keeps no nulls, and it keeps every other value as a scalar under the text of its key. For
a property map whose keys have different texts, nothing else happens to it; the mark for the
direction of an arc and the shape of a node are entries of their own behind the others.
-/

namespace ArcSelection

/-- Only null equals null. -/
theorem Value.beq_null_iff {v : Value} : (v == .null) = true ↔ v = .null := by
  change same v .null = true ↔ _
  cases v <;> simp [same, compare?, number?]

@[simp] theorem Value.text_beq_self (s : String) : (text s == text s) = true :=
  beq_text_iff.mpr rfl

namespace Properties

/-- A key that is absent is set in a new last entry. -/
theorem Distinct.put_of_absent {p : Properties} (distinct : p.Distinct) {key : String}
    (absent : ∀ e ∈ p, e.1 ≠ .text key) (v : Value) : put p key v = p ++ [(.text key, v)] := by
  obtain ⟨m, rfl, eq⟩ := distinct.exists_put_eq key v
  rw [eq]
  refine OrderedMap.entries_insert_of_absent ?_ v
  rw [OrderedMap.contains, List.any_eq_false]
  exact fun e member same => absent e member (Value.beq_text_iff.mp same)

/-- The keys have different texts. -/
def Apart (p : Properties) : Prop := p.Pairwise fun a b => a.1.plainText ≠ b.1.plainText

end Properties

namespace GraphML

open Decimal Fallible Properties

/-- The values that a file keeps as they are: truth values, integers, finite numbers, and texts
of printable characters that are not empty. -/
def IsPlain : Value → Prop
  | .bool _ | .int _ => True
  | .float x => (Extended.ofFloat x).IsFinite
  | .text s => s ≠ "" ∧ ∀ c ∈ s.toList, Text.isPrintable c = true
  | _ => False

/-- A value as a scalar. -/
def asScalar : Value → Value
  | .bool b => .bool b
  | .int n => .int n
  | .float x => .float x
  | v => .text v.plainText

/-- A value that has a scalar has this one. -/
theorem eq_asScalar {v w : Value} (found : scalar v = .ok w) : w = asScalar v := by
  have named : ∀ {text}, v.toName = .ok text → text = v.plainText := by
    intro text shown
    rw [Value.toName] at shown
    split at shown <;> cases shown
    rfl
  cases v with
  | bool | int | float =>
      cases found
      rfl
  | _ =>
      obtain ⟨text, shown, made⟩ := bind_eq_ok_iff.mp found
      cases made
      exact congrArg Value.text (named shown)

/-- A value that can be written has a scalar. -/
theorem scalar_of_isWritable {v : Value} (writable : v.isWritable = true) :
    scalar v = .ok (asScalar v) := by
  have named : v.toName = .ok v.plainText := if_pos writable
  cases v with
  | bool | int | float => rfl
  | _ => exact bind_eq_ok_iff.mpr ⟨_, named, rfl⟩

end GraphML

namespace Properties

/-- An attribute can be told: its value is null, or it has a scalar that a file keeps, under a key
that has a text. -/
def Tells (e : Value × Value) : Prop :=
  e.2 ≠ .null → e.1.isWritable = true ∧ ∃ w, GraphML.scalar e.2 = .ok w ∧ GraphML.IsPlain w

/-- The keys differ, also by their texts, no text is reserved, and every attribute can be told. -/
structure Storable (reserved : List String) (p : Properties) : Prop where
  distinct : p.Distinct
  apart : p.Apart
  free : ∀ e ∈ p, e.1.plainText ∉ reserved
  told : ∀ e ∈ p, Tells e

theorem storable_nil (reserved : List String) : Storable reserved [] :=
  ⟨.nil, .nil, nofun, nofun⟩

/-- A single property that can be told can be stored. -/
theorem storable_singleton {reserved : List String} {e : Value × Value}
    (free : e.1.plainText ∉ reserved) (told : Tells e) : Storable reserved [e] where
  distinct := List.pairwise_singleton _ _
  apart := List.pairwise_singleton _ _
  free _ member := List.mem_singleton.mp member ▸ free
  told _ member := List.mem_singleton.mp member ▸ told

end Properties

namespace GraphML

open Properties Fallible

/-- An attribute as a file keeps it. A null is not kept. -/
def keptEntry (e : Value × Value) : Option (Value × Value) :=
  if e.2 == .null then none else some (.text e.1.plainText, asScalar e.2)

/-- What a file keeps of a property map. -/
def kept (p : Properties) : Properties := p.filterMap keptEntry

@[simp] theorem kept_nil : kept [] = [] := rfl

theorem kept_append (p q : Properties) : kept (p ++ q) = kept p ++ kept q :=
  List.filterMap_append

/-- A property that can be told is kept as a file keeps it. -/
theorem sanitizeEntry_eq {e : Value × Value} (told : Tells e) :
    sanitizeEntry e = .ok (keptEntry e) := by
  obtain ⟨k, v⟩ := e
  by_cases null : v = .null
  · subst null
    rfl
  · obtain ⟨key, w, value, _⟩ := told null
    obtain rfl := eq_asScalar value
    have present : keptEntry (k, v) = some (.text k.plainText, asScalar v) :=
      if_neg (Value.beq_null_iff.not.mpr null)
    have named : k.toName = .ok k.plainText := if_pos key
    rw [present]
    cases v with
    | null => exact absurd rfl null
    | _ => exact bind_eq_ok_iff.mpr ⟨_, named, bind_eq_ok_iff.mpr ⟨_, value, rfl⟩⟩

variable {reserved : List String} {p : Properties} {key : String}

/-- The key of an entry that is kept is the text of the former key. -/
theorem fst_of_keptEntry {e kept : Value × Value} (isKept : keptEntry e = some kept) :
    kept.1 = .text e.1.plainText := by
  rw [keptEntry] at isKept
  split at isKept
  · cases isKept
  · cases isKept
    rfl

/-- The keys of what is kept are texts of keys of the map. -/
theorem keyed_kept (apart : p.Apart) (free : ∀ e ∈ p, e.1.plainText ∉ reserved) :
    Keyed reserved (kept p) := by
  constructor
  · intro e member
    obtain ⟨former, listed, isKept⟩ := List.mem_filterMap.mp member
    exact ⟨_, fst_of_keptEntry isKept, free former listed⟩
  · refine List.pairwise_filterMap.mpr (apart.imp fun different b isKept b' isKept' => ?_)
    rw [fst_of_keptEntry isKept, fst_of_keptEntry isKept', ← Bool.not_eq_true, Value.beq_text_iff]
    exact fun same => different (Value.text.inj same)

/-- What is kept of a map are values that a file keeps. -/
theorem isPlain_of_mem_kept (told : ∀ e ∈ p, Tells e) {e : Value × Value} (member : e ∈ kept p) :
    IsPlain e.2 := by
  obtain ⟨former, listed, isKept⟩ := List.mem_filterMap.mp member
  rw [keptEntry] at isKept
  split at isKept
  · cases isKept
  · rename_i present
    obtain ⟨_, w, value, plain⟩ := told former listed (Value.beq_null_iff.not.mp present)
    cases isKept
    exact eq_asScalar value ▸ plain

/-- Sanitizing a map leaves what a file keeps of it. -/
theorem sanitize_eq (apart : p.Apart) (told : ∀ e ∈ p, Tells e) : sanitize p = .ok (kept p) := by
  have keyed : Keyed [] (kept p) := keyed_kept apart fun _ _ => List.not_mem_nil
  have entries : p.mapM sanitizeEntry = .ok (p.map keptEntry) :=
    mapM_eq_map fun e member => sanitizeEntry_eq (told e member)
  refine bind_eq_ok_iff.mpr ⟨_, entries, congrArg Except.ok ?_⟩
  rw [update, List.nil_append, List.filterMap_map]
  exact OrderedMap.entries_ofList keyed.distinct

/-- An entry under a reserved key is put behind all that is kept. -/
theorem put_kept (storable : p.Storable reserved) (isReserved : key ∈ reserved) (v : Value) :
    put (kept p) key v = kept p ++ [(.text key, v)] := by
  have keyed := keyed_kept storable.apart storable.free
  refine Distinct.put_of_absent keyed.distinct (fun e member same => ?_) v
  obtain ⟨other, isText, free⟩ := keyed.texts e member
  rw [isText] at same
  cases same
  exact free isReserved

/-- The mark of direction is set before sanitizing, and it stays as it is. -/
theorem sanitize_put (storable : p.Storable [directedAttribute]) (b : Bool) :
    sanitize (put p directedAttribute (.bool b)) =
      .ok (kept p ++ [(.text directedAttribute, .bool b)]) := by
  have other : ∀ e ∈ p, e.1.plainText ≠ directedAttribute := fun e member same =>
    storable.free e member (List.mem_singleton.mpr same)
  have absent : ∀ e ∈ p, e.1 ≠ .text directedAttribute := by
    intro e member same
    exact other e member (by rw [same]; rfl)
  have apart : Apart (p ++ [(.text directedAttribute, .bool b)]) := by
    refine List.pairwise_append.mpr ⟨storable.apart, List.pairwise_singleton _ _, ?_⟩
    intro e member last isLast
    obtain rfl := List.mem_singleton.mp isLast
    exact other e member
  have told : ∀ e ∈ p ++ [(.text directedAttribute, .bool b)], Tells e := by
    intro e member
    obtain listed | isLast := List.mem_append.mp member
    · exact storable.told e listed
    · obtain rfl := List.mem_singleton.mp isLast
      exact fun _ => ⟨rfl, _, rfl, trivial⟩
  rw [storable.distinct.put_of_absent absent, sanitize_eq apart told, kept_append]
  rfl

end GraphML

end ArcSelection
