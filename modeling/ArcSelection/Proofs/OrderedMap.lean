import ArcSelection.OrderedMap
import Mathlib.Data.Rat.Defs
import Mathlib.Algebra.BigOperators.Group.Finset.Basic
import Mathlib.Algebra.BigOperators.Group.List.Basic
import Mathlib.Data.List.Nodup
import Mathlib.Data.List.Perm.Subperm
import Mathlib.Tactic.Ring

/-!
# Reading a map in insertion order

What setting a key does to the reading functions of a map: to the value of every
key, to the list of keys, and to a sum over the entries. Changing every value in place
can be done before or after a key is set or erased.
-/

namespace ArcSelection.OrderedMap

variable {κ ν : Type} [BEq κ]

/-- Maps are equal if their entries are. -/
theorem ext_entries {m m' : OrderedMap κ ν} (same : m.entries = m'.entries) : m = m' := by
  cases m
  cases m'
  cases same
  rfl

@[simp] theorem get?_empty (k : κ) : (empty : OrderedMap κ ν).get? k = none := rfl

@[simp] theorem keys_empty : (empty : OrderedMap κ ν).keys = [] := rfl

/-- A key is there if it has a value. -/
theorem contains_eq_isSome (m : OrderedMap κ ν) (k : κ) :
    m.contains k = (m.get? k).isSome := by
  rw [contains, get?, Option.isSome_map, List.isSome_find?]

theorem contains_of_get? {m : OrderedMap κ ν} {k : κ} {v : ν} (found : m.get? k = some v) :
    m.contains k = true := by
  rw [contains_eq_isSome, found, Option.isSome_some]

/-- A map with a key is not empty. -/
theorem isEmpty_of_contains {m : OrderedMap κ ν} {k : κ} (present : m.contains k = true) :
    m.isEmpty = false := by
  obtain ⟨e, member, _⟩ := List.any_eq_true.mp present
  exact List.isEmpty_eq_false_iff_exists_mem.mpr ⟨e, member⟩

theorem keys_eq_nil_of_isEmpty {m : OrderedMap κ ν} (none : m.isEmpty = true) : m.keys = [] :=
  List.map_eq_nil_iff.mpr (List.isEmpty_iff.mp none)

theorem get?_eq_none_iff (m : OrderedMap κ ν) (k : κ) :
    m.get? k = none ↔ m.contains k = false := by
  rw [contains_eq_isSome, Option.isSome_eq_false_iff, Option.isNone_iff_eq_none]

/-- A new key goes last. -/
theorem entries_insert_of_absent {m : OrderedMap κ ν} {k : κ} (absent : m.contains k = false)
    (v : ν) : (m.insert k v).entries = m.entries ++ [(k, v)] := by
  simp [insert, absent, append]

/-- A key that is there keeps its place and gets the new value. -/
theorem entries_insert_of_present {m : OrderedMap κ ν} {k : κ}
    (present : m.contains k = true) (v : ν) :
    (m.insert k v).entries = m.entries.map fun e => (e.1, if e.1 == k then v else e.2) := by
  simp [insert, present, modify, mapValues]

/-- A key that is present keeps its place; a new key comes last. -/
theorem keys_insert (m : OrderedMap κ ν) (k : κ) (v : ν) :
    (m.insert k v).keys = if m.contains k then m.keys else m.keys ++ [k] := by
  cases present : m.contains k with
  | false => simp [keys, entries_insert_of_absent present]
  | true => simp [keys, entries_insert_of_present present]

/-- The sum of a quantity over the entries. -/
def sum (m : OrderedMap κ ν) (quantity : κ → ν → Rat) : Rat :=
  (m.entries.map fun e => quantity e.1 e.2).sum

@[simp] theorem sum_empty (quantity : κ → ν → Rat) :
    (empty : OrderedMap κ ν).sum quantity = 0 := rfl

/-- Keys that differ from each other and from those of a map go last, in their order. -/
private theorem entries_foldl_insert {entries : List (κ × ν)} {m : OrderedMap κ ν}
    (distinct : (m.entries ++ entries).Pairwise fun a b => (a.1 == b.1) = false) :
    (entries.foldl (fun m e => m.insert e.1 e.2) m).entries = m.entries ++ entries := by
  induction entries generalizing m with
  | nil => simp
  | cons e rest ih =>
      have absent : m.contains e.1 = false := by
        rw [contains, List.any_eq_false]
        intro earlier member
        have different := (List.pairwise_append.mp distinct).2.2 earlier member e List.mem_cons_self
        simp [different]
      have next : (m.insert e.1 e.2).entries = m.entries ++ [e] :=
        entries_insert_of_absent absent e.2
      rw [List.foldl_cons, ih (by simpa [next] using distinct), next, List.append_assoc,
        List.singleton_append]

/-- Entries whose keys can be told apart are kept as they are. -/
theorem entries_ofList {entries : List (κ × ν)}
    (distinct : entries.Pairwise fun a b => (a.1 == b.1) = false) :
    (ofList entries).entries = entries :=
  entries_foldl_insert (m := empty) distinct

/-- Erasing leaves the other keys in their order. -/
theorem keys_erase (m : OrderedMap κ ν) (k : κ) : (m.erase k).keys = m.keys.filter (· != k) := by
  simp [keys, erase, filter, List.filter_map, Function.comp_def, bne]

@[simp] theorem keys_modify (m : OrderedMap κ ν) (k : κ) (f : ν → ν) :
    (m.modify k f).keys = m.keys := by
  simp [keys, modify, mapValues]

section Filter

variable {m : OrderedMap κ ν} {k : κ}

theorem filter_congr {keep keep' : κ → ν → Bool}
    (same : ∀ e ∈ m.entries, keep e.1 e.2 = keep' e.1 e.2) : m.filter keep = m.filter keep' :=
  ext_entries (List.filter_congr same)

theorem filter_eq_self {keep : κ → ν → Bool} (all : ∀ e ∈ m.entries, keep e.1 e.2 = true) :
    m.filter keep = m :=
  ext_entries (List.filter_eq_self.mpr all)

/-- Filtering twice keeps what passes both tests. -/
theorem filter_filter (keep keep' : κ → ν → Bool) :
    (m.filter keep).filter keep' = m.filter fun k v => keep k v && keep' k v := by
  refine ext_entries (List.filter_filter.trans (List.filter_congr fun e _ => ?_))
  exact Bool.and_comm _ _

/-- Nothing is erased for a key that is not there. -/
theorem erase_eq_self (absent : m.contains k = false) : m.erase k = m := by
  refine filter_eq_self fun e member => ?_
  simpa using List.any_eq_false.mp absent e member

/-- What a key was changed to is erased with it. -/
theorem erase_modify_self (f : ν → ν) : (m.modify k f).erase k = m.erase k := by
  refine ext_entries ?_
  simp only [erase, filter, modify, mapValues, List.filter_map, Function.comp_def]
  refine (List.map_congr_left fun e kept => ?_).trans (List.map_id _)
  have different := (List.mem_filter.mp kept).2
  rw [Bool.not_eq_true'] at different
  rw [different, if_neg Bool.false_ne_true]
  rfl

/-- A key that is erased need not be set before. -/
theorem erase_insert_of_same (same : (k == k) = true) (v : ν) :
    (m.insert k v).erase k = m.erase k := by
  cases present : m.contains k with
  | false =>
      refine ext_entries ?_
      simp [erase, filter, entries_insert_of_absent present, same]
  | true =>
      rw [insert, dif_neg (by simp [present])]
      exact erase_modify_self _

/-- What a key was set to is erased with it. -/
theorem erase_insert_self [ReflBEq κ] (v : ν) : (m.insert k v).erase k = m.erase k :=
  erase_insert_of_same (beq_self_eq_true k) v

end Filter

theorem length_keys (m : OrderedMap κ ν) : m.keys.length = m.size := by simp [keys, size]

theorem length_values (m : OrderedMap κ ν) : m.values.length = m.size := by simp [values, size]

/-- The keys whose value passes a test, in insertion order. -/
def keysWhere (m : OrderedMap κ ν) (test : ν → Bool) : List κ := (m.filter fun _ v => test v).keys

/-- A new key comes last among those whose value passes a test, if its own does. -/
theorem keysWhere_insert {m : OrderedMap κ ν} {k : κ} (absent : m.contains k = false) (v : ν)
    (test : ν → Bool) :
    (m.insert k v).keysWhere test = m.keysWhere test ++ if test v then [k] else [] := by
  by_cases passes : test v <;>
    simp [keysWhere, keys, filter, entries_insert_of_absent absent, passes]

/-- Erasing takes a key from those whose value passes a test. -/
theorem keysWhere_erase (m : OrderedMap κ ν) (k : κ) (test : ν → Bool) :
    (m.erase k).keysWhere test = (m.keysWhere test).filter (· != k) := by
  simp [keysWhere, keys, erase, filter, List.filter_map, List.filter_filter, Function.comp_def,
    bne, Bool.and_comm]

/-- An entry is found under its key if the key equals itself. -/
theorem get?_of_mem_entries {m : OrderedMap κ ν} {k : κ} {v : ν}
    (listed : (k, v) ∈ m.entries) (same : (k == k) = true) :
    m.get? k = some v := by
  obtain ⟨before, after, split⟩ := List.append_of_mem listed
  have apart := m.distinct
  rw [split, List.pairwise_append] at apart
  have missed : before.find? (fun e => e.1 == k) = none := by
    rw [List.find?_eq_none]
    intro e early
    rw [apart.2.2 e early _ List.mem_cons_self]
    exact Bool.false_ne_true
  simp [get?, split, missed, same]

/-- What is found under a key is the value of an entry whose key equals it. -/
theorem exists_entry_of_get? {m : OrderedMap κ ν} {k : κ} {v : ν} (found : m.get? k = some v) :
    ∃ k', (k', v) ∈ m.entries ∧ (k' == k) = true := by
  obtain ⟨⟨k', v'⟩, search, rfl⟩ := Option.map_eq_some_iff.mp found
  exact ⟨k', List.mem_of_find?_eq_some search, by simpa using List.find?_some search⟩

section MapValues

variable {μ : Type} {m : OrderedMap κ ν} {k : κ} (f : ν → μ)

/-- Mapping the values maps the value of every key. -/
theorem get?_mapValues : (m.mapValues fun _ => f).get? k = (m.get? k).map f := by
  simp [get?, mapValues, List.find?_map, Function.comp_def]

@[simp] theorem contains_mapValues : (m.mapValues fun _ => f).contains k = m.contains k := by
  simp [contains, mapValues, Function.comp_def]

@[simp] theorem keys_mapValues : (m.mapValues fun _ => f).keys = m.keys := by
  simp [keys, mapValues]

@[simp] theorem size_mapValues : (m.mapValues fun _ => f).size = m.size := by
  simp [size, mapValues]

/-- Values can be mapped before or after a key is set. -/
theorem mapValues_insert (v : ν) :
    (m.insert k v).mapValues (fun _ => f) = (m.mapValues fun _ => f).insert k (f v) := by
  refine ext_entries ?_
  cases present : m.contains k with
  | false =>
      rw [entries_insert_of_absent ((contains_mapValues f).trans present)]
      simp [mapValues, entries_insert_of_absent present]
  | true =>
      rw [entries_insert_of_present ((contains_mapValues f).trans present)]
      simp only [mapValues, entries_insert_of_present present, List.map_map]
      refine List.map_congr_left fun e _ => ?_
      simp only [Function.comp_apply, apply_ite f]

/-- Values can be mapped before or after a map is made of entries. -/
theorem ofList_map_value (entries : List (κ × ν)) :
    ofList (entries.map fun e => (e.1, f e.2)) = (ofList entries).mapValues fun _ => f := by
  rw [ofList, ofList, List.foldl_map]
  change List.foldl _ ((empty : OrderedMap κ ν).mapValues fun _ => f) entries = _
  refine List.foldl_hom (fun m : OrderedMap κ ν => m.mapValues fun _ => f) (fun m e => ?_)
  exact (mapValues_insert f e.2).symm

theorem mapValues_eq_self {f : ν → ν} (each : ∀ e ∈ m.entries, f e.2 = e.2) :
    (m.mapValues fun _ => f) = m := by
  refine ext_entries ((List.map_congr_left fun e member => ?_).trans (List.map_id _))
  exact congrArg (Prod.mk e.1) (each e member)

/-- A change of a value that cannot be seen through a function is none. -/
theorem mapValues_modify {change : ν → ν} (unseen : ∀ v, f (change v) = f v) :
    (m.modify k change).mapValues (fun _ => f) = m.mapValues fun _ => f := by
  refine ext_entries ?_
  simp only [mapValues, modify, List.map_map]
  refine List.map_congr_left fun e _ => ?_
  simp only [Function.comp_apply, apply_ite f, unseen, ite_self]

/-- Values can be mapped before or after a key is erased. -/
theorem mapValues_erase :
    (m.erase k).mapValues (fun _ => f) = (m.mapValues fun _ => f).erase k := by
  refine ext_entries ?_
  simp [mapValues, erase, filter, List.filter_map, Function.comp_def]

end MapValues

variable [LawfulBEq κ]

/-- No key occurs twice. -/
theorem nodup_keys (m : OrderedMap κ ν) : m.keys.Nodup := by
  rw [keys, List.nodup_iff_pairwise_ne, List.pairwise_map]
  exact m.distinct.imp fun different => by simpa using different

theorem mem_keys_iff (m : OrderedMap κ ν) (k : κ) : k ∈ m.keys ↔ m.contains k = true := by
  simp [keys, contains]

/-- The keys are those that have a value. -/
theorem mem_keys_iff_get? (m : OrderedMap κ ν) (k : κ) : k ∈ m.keys ↔ ∃ v, m.get? k = some v := by
  rw [mem_keys_iff, contains_eq_isSome, Option.isSome_iff_exists]

/-- A key with a value has one entry, and every other entry another key. -/
theorem entries_of_get? {m : OrderedMap κ ν} {k : κ} {v : ν} (found : m.get? k = some v) :
    ∃ before after, m.entries = before ++ (k, v) :: after ∧
      (∀ e ∈ before, e.1 ≠ k) ∧ ∀ e ∈ after, e.1 ≠ k := by
  obtain ⟨⟨k', v'⟩, search, rfl⟩ := Option.map_eq_some_iff.mp found
  obtain ⟨hit, before, after, split, missed⟩ := List.find?_eq_some_iff_append.mp search
  obtain rfl : k' = k := by simpa using hit
  have pairs := m.distinct
  rw [split, List.pairwise_append, List.pairwise_cons] at pairs
  refine ⟨before, after, split, fun e member => ?_, fun e member => ?_⟩
  · simpa using missed e member
  · have different := pairs.2.1.1 e member
    intro same
    simp [same] at different

/-- The entries are the keys with their values. -/
theorem mem_entries_iff (m : OrderedMap κ ν) (k : κ) (v : ν) :
    (k, v) ∈ m.entries ↔ m.get? k = some v := by
  constructor
  · intro member
    have present : m.contains k = true := List.any_eq_true.mpr ⟨(k, v), member, by simp⟩
    rw [contains_eq_isSome, Option.isSome_iff_exists] at present
    obtain ⟨w, found⟩ := present
    obtain ⟨before, after, split, notBefore, notAfter⟩ := entries_of_get? found
    rw [split] at member
    rcases List.mem_append.mp member with early | here
    · exact absurd rfl (notBefore _ early)
    · rcases List.mem_cons.mp here with same | late
      · simpa using found.trans (congrArg (some ·.2) same.symm)
      · exact absurd rfl (notAfter _ late)
  · intro found
    obtain ⟨before, after, split, _⟩ := entries_of_get? found
    simp [split]

/-- A map of those items that have a value, under keys that tell the items apart. -/
theorem get?_ofList_flatMap {α : Type} {items : List α} (nodup : items.Nodup) {key : α → κ}
    (injective : ∀ a ∈ items, ∀ b ∈ items, key a = key b → a = b) {value : α → Option ν} {k : κ}
    {v : ν} :
    (ofList (items.flatMap fun a => ((value a).map fun v => (key a, v)).toList)).get? k = some v ↔
      ∃ a ∈ items, key a = k ∧ value a = some v := by
  have distinct : (items.flatMap fun a => ((value a).map fun v => (key a, v)).toList).Pairwise
      fun a b => (a.1 == b.1) = false := by
    refine List.pairwise_flatMap.mpr ⟨fun a _ => ?_, nodup.imp_of_mem ?_⟩
    · cases value a with
      | none => exact .nil
      | some v => exact List.pairwise_singleton _ _
    · intro a b first second different e here f there
      obtain ⟨v, _, rfl⟩ := Option.map_eq_some_iff.mp (Option.mem_toList.mp here)
      obtain ⟨w, _, rfl⟩ := Option.map_eq_some_iff.mp (Option.mem_toList.mp there)
      exact beq_false_of_ne fun same => different (injective a first b second same)
  rw [← mem_entries_iff, entries_ofList distinct, List.mem_flatMap]
  refine exists_congr fun a => and_congr_right fun _ => ?_
  rw [Option.mem_toList, Option.map_eq_some_iff]
  constructor
  · rintro ⟨_, isValue, same⟩
    cases same
    exact ⟨rfl, isValue⟩
  · rintro ⟨rfl, isValue⟩
    exact ⟨v, isValue, rfl⟩

/-- Setting a key changes the value of this key only. -/
theorem get?_insert (m : OrderedMap κ ν) (k : κ) (v : ν) (k' : κ) :
    (m.insert k v).get? k' = if k == k' then some v else m.get? k' := by
  cases present : m.contains k with
  | false =>
      simp only [get?, entries_insert_of_absent present, List.find?_append]
      by_cases same : k = k'
      · subst same
        have missed : m.entries.find? (fun e => e.1 == k) = none := by
          simpa [contains] using present
        simp [missed]
      · simp [same]
  | true =>
      simp only [get?, entries_insert_of_present present, List.find?_map, Function.comp_def]
      by_cases same : k = k'
      · subst same
        obtain ⟨w, found⟩ := Option.isSome_iff_exists.mp (contains_eq_isSome m k ▸ present)
        obtain ⟨e, search, _⟩ := Option.map_eq_some_iff.mp found
        have hit : e.1 = k := by simpa using List.find?_some search
        simp [search, hit]
      · cases search : m.entries.find? (fun e => e.1 == k') with
        | none => simp [same]
        | some e =>
            have hit : e.1 = k' := by simpa using List.find?_some search
            simp [same, hit, Ne.symm same]

@[simp] theorem get?_insert_self (m : OrderedMap κ ν) (k : κ) (v : ν) :
    (m.insert k v).get? k = some v := by
  simp [get?_insert]

/-- Setting a key leaves the values of other keys. -/
theorem get?_insert_of_ne (m : OrderedMap κ ν) {k k' : κ} (different : k ≠ k') (v : ν) :
    (m.insert k v).get? k' = m.get? k' := by
  simp [get?_insert, different]

/-- Setting a key that no entry has changes no entry. -/
private theorem map_keep {entries : List (κ × ν)} {k : κ} (v : ν)
    (different : ∀ e ∈ entries, e.1 ≠ k) :
    entries.map (fun e => (e.1, if e.1 == k then v else e.2)) = entries := by
  conv_rhs => rw [← List.map_id entries]
  refine List.map_congr_left fun e member => ?_
  simp [different e member]

/-- Setting a key replaces its share of a sum, which is nothing if it had no value. -/
theorem sum_insert (m : OrderedMap κ ν) (k : κ) (v : ν) (quantity : κ → ν → Rat) :
    (m.insert k v).sum quantity =
      m.sum quantity - ((m.get? k).map (quantity k)).getD 0 + quantity k v := by
  cases found : m.get? k with
  | none =>
      have absent : m.contains k = false := (get?_eq_none_iff m k).mp found
      simp [sum, entries_insert_of_absent absent]
  | some w =>
      have present := contains_of_get? found
      obtain ⟨before, after, split, notBefore, notAfter⟩ := entries_of_get? found
      simp only [sum, entries_insert_of_present present, split, List.map_append, List.map_cons,
        map_keep v notBefore, map_keep v notAfter, List.sum_append, List.sum_cons, beq_self_eq_true,
        if_true, Option.map_some, Option.getD_some]
      ring

/-- A sum over the entries runs over any keys among which theirs are; a key without a value
adds nothing. -/
theorem sum_eq_sum_over {m : OrderedMap κ ν} {keys : List κ} (nodup : keys.Nodup)
    (within : ∀ k ∈ m.keys, k ∈ keys) (quantity : κ → ν → Rat) :
    m.sum quantity = (keys.map fun k => ((m.get? k).map (quantity k)).getD 0).sum := by
  classical
  have ofEntries : m.sum quantity =
      (m.keys.map fun k => ((m.get? k).map (quantity k)).getD 0).sum := by
    rw [sum, OrderedMap.keys, List.map_map]
    refine congrArg List.sum (List.map_congr_left fun e member => ?_)
    have found := (mem_entries_iff m e.1 e.2).mp member
    rw [Function.comp_apply, found, Option.map_some, Option.getD_some]
  rw [ofEntries, ← List.sum_toFinset _ m.nodup_keys, ← List.sum_toFinset _ nodup]
  refine Finset.sum_subset ?_ ?_
  · intro k listed
    exact List.mem_toFinset.mpr (within k (List.mem_toFinset.mp listed))
  · intro k _ absent
    have missing : m.get? k = none := by
      rw [get?_eq_none_iff, ← Bool.not_eq_true, ← mem_keys_iff]
      exact fun member => absent (List.mem_toFinset.mpr member)
    rw [missing, Option.map_none, Option.getD_none]

theorem contains_insert (m : OrderedMap κ ν) (k : κ) (v : ν) (k' : κ) :
    (m.insert k v).contains k' = (k == k' || m.contains k') := by
  simp only [contains_eq_isSome, get?_insert]
  by_cases same : k = k' <;> simp [same]

/-- The value of every key when the entries are filtered. -/
theorem get?_filter (m : OrderedMap κ ν) (keep : κ → ν → Bool) (k : κ) :
    (m.filter keep).get? k = (m.get? k).filter (keep k) := by
  refine Option.ext fun v => ?_
  rw [← mem_entries_iff, Option.filter_eq_some_iff, ← mem_entries_iff]
  exact List.mem_filter

/-- Erasing takes the value of the key and leaves that of every other. -/
theorem get?_erase (m : OrderedMap κ ν) (k k' : κ) :
    (m.erase k).get? k' = if k == k' then none else m.get? k' := by
  rw [erase, get?_filter]
  by_cases same : k = k'
  · subst same
    cases m.get? k <;> simp
  · cases m.get? k' <;> simp [same, Ne.symm same]

@[simp] theorem get?_erase_self (m : OrderedMap κ ν) (k : κ) : (m.erase k).get? k = none := by
  simp [get?_erase]

/-- Erasing a key leaves the values of other keys. -/
theorem get?_erase_of_ne (m : OrderedMap κ ν) {k k' : κ} (different : k ≠ k') :
    (m.erase k).get? k' = m.get? k' := by
  simp [get?_erase, different]

theorem contains_erase (m : OrderedMap κ ν) (k k' : κ) :
    (m.erase k).contains k' = (!(k == k') && m.contains k') := by
  simp only [contains_eq_isSome, get?_erase]
  by_cases same : k = k' <;> simp [same]

/-- Changing a value in place changes the value of this key only. -/
theorem get?_modify (m : OrderedMap κ ν) (k : κ) (f : ν → ν) (k' : κ) :
    (m.modify k f).get? k' = (m.get? k').map fun v => if k' == k then f v else v := by
  simp only [get?, modify, mapValues, List.find?_map, Function.comp_def, Option.map_map]
  cases found : m.entries.find? fun e => e.1 == k' with
  | none => rfl
  | some e =>
      obtain rfl : e.1 = k' := by simpa using List.find?_some found
      rfl

@[simp] theorem contains_modify (m : OrderedMap κ ν) (k : κ) (f : ν → ν) (k' : κ) :
    (m.modify k f).contains k' = m.contains k' := by
  simp [contains_eq_isSome, get?_modify]

/-- Among more keys than the map has, one has no value. -/
theorem exists_absent (m : OrderedMap κ ν) {key : Nat → κ} (distinct : Function.Injective key) :
    ∃ i < m.size + 1, m.contains (key i) = false := by
  by_contra allPresent
  have present : ∀ i < m.size + 1, m.contains (key i) = true := by
    intro i inRange
    by_contra absent
    exact allPresent ⟨i, inRange, by simpa using absent⟩
  have inside : (List.range (m.size + 1)).map key ⊆ m.keys := by
    intro k listed
    obtain ⟨i, inRange, rfl⟩ := List.mem_map.mp listed
    exact (mem_keys_iff m _).mpr (present i (List.mem_range.mp inRange))
  have few := (List.subperm_of_subset (List.nodup_range.map distinct) inside).length_le
  rw [List.length_map, List.length_range, length_keys] at few
  omega

/-- The keys found by a test are those whose value passes it. -/
theorem mem_keysWhere {m : OrderedMap κ ν} {test : ν → Bool} {k : κ} :
    k ∈ m.keysWhere test ↔ ∃ v, m.get? k = some v ∧ test v = true := by
  simp [keysWhere, mem_keys_iff_get?, get?_filter, Option.filter_eq_some_iff]

/-- A test finds every key once. -/
theorem nodup_keysWhere (m : OrderedMap κ ν) (test : ν → Bool) : (m.keysWhere test).Nodup :=
  nodup_keys _

/-- The keys that pass a test keep their order. -/
theorem keysWhere_eq_filter (m : OrderedMap κ ν) (test : ν → Bool) :
    m.keysWhere test = m.keys.filter fun k => (m.get? k).any test := by
  simp only [keysWhere, keys, filter, List.filter_map, Function.comp_def]
  refine congrArg (List.map _) (List.filter_congr fun e member => ?_)
  rw [(mem_entries_iff m e.1 e.2).mp member, Option.any_some]

/-- A test finds only keys of the map. -/
theorem not_mem_keysWhere {m : OrderedMap κ ν} {k : κ} (absent : m.contains k = false)
    (test : ν → Bool) : k ∉ m.keysWhere test := by
  intro listed
  obtain ⟨v, found, _⟩ := mem_keysWhere.mp listed
  rw [contains_of_get? found] at absent
  cases absent

/-- A set that holds the keys that pass a test tells which values do. -/
theorem contains_eq_any {m : OrderedMap κ ν} {s : OrderedSet κ} {test : ν → Bool}
    (agree : s.keys = m.keysWhere test) (k : κ) : s.contains k = (m.get? k).any test := by
  rw [Bool.eq_iff_iff, ← mem_keys_iff, agree, mem_keysWhere, Option.any_eq_true]

/-- A set that holds the keys that pass a test stays so if it takes a new key that passes. -/
theorem keys_insert_eq_keysWhere {m : OrderedMap κ ν} {s : OrderedSet κ} {test : ν → Bool}
    (agree : s.keys = m.keysWhere test) {k : κ} (absent : m.contains k = false) (v : ν) :
    (if test v then s.insert k () else s).keys = (m.insert k v).keysWhere test := by
  have notInSet : s.contains k = false := by
    rw [← Bool.not_eq_true, ← mem_keys_iff, agree]
    exact not_mem_keysWhere absent test
  rw [keysWhere_insert absent, ← agree]
  split
  · rw [keys_insert, notInSet, if_neg Bool.false_ne_true]
  · rw [List.append_nil]

/-- Erasing a key whose value fails a test leaves the others as they are. -/
theorem keysWhere_erase_of_fails {m : OrderedMap κ ν} {k : κ} {v : ν} (found : m.get? k = some v)
    {test : ν → Bool} (fails : test v = false) : (m.erase k).keysWhere test = m.keysWhere test := by
  rw [keysWhere_erase, List.filter_eq_self]
  intro k' listed
  rw [bne_iff_ne]
  rintro rfl
  obtain ⟨w, found', passes⟩ := mem_keysWhere.mp listed
  cases found.symm.trans found'
  rw [fails] at passes
  cases passes

end ArcSelection.OrderedMap
