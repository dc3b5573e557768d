import ArcSelection.Proofs.OrderedMap
import ArcSelection.Value.Properties

/-!
# Property maps with text keys

What the operations on property maps do to the value of a text key, and to a whole map
whose keys are texts that differ from each other (`Keyed`), as the keys of attributes are.
-/

namespace ArcSelection

namespace Value

/-- An integer can be written if it lies below the least number with too many digits. -/
theorem isWritable_int_iff {n : Int} :
    (int n).isWritable = true ↔ n.natAbs < 10 ^ Decimal.maxIntegerDigits := by
  rw [isWritable, isShort, decide_eq_true_iff]
  exact Nat.length_toDigits_le_iff (by decide) (by decide)

/-- The least number with too many digits cannot be written. -/
theorem isWritable_long : (int (10 ^ Decimal.maxIntegerDigits)).isWritable = false := by
  rw [← Bool.not_eq_true, isWritable_int_iff]
  generalize Decimal.maxIntegerDigits = digits
  rw [Int.natAbs_pow]
  exact lt_irrefl _

/-- Only a text equals a text. -/
theorem beq_text_iff {v : Value} {s : String} : (v == .text s) = true ↔ v = .text s := by
  change same v (.text s) = true ↔ _
  cases v <;> simp [same, compare?, number?]

/-- A text equals only a text. -/
theorem text_beq_iff {v : Value} {s : String} : (text s == v) = true ↔ v = .text s := by
  change same (.text s) v = true ↔ _
  cases v with
  | text t =>
      rw [same, beq_iff_eq, text.injEq]
      exact eq_comm
  | _ => simp [same, compare?, number?]

theorem int_beq_iff {n m : Int} : (int n == int m) = true ↔ n = m := by
  change (compare? (int n) (int m) == some .eq) = true ↔ _
  rw [beq_iff_eq]
  change some (if (n : Rat) < m then Ordering.lt else if (m : Rat) < n then .gt else .eq) = _ ↔ _
  simp only [Rat.intCast_lt_intCast]
  rcases Int.lt_trichotomy n m with less | rfl | more
  · simp [less, less.ne]
  · simp
  · simp [more, Int.not_lt.mpr (Int.le_of_lt more), Int.ne_of_gt more]

end Value

namespace Properties

/-- A key that was removed has no value. -/
theorem value?_without (p : Properties) (key : String) : value? (without p key) key = none := by
  rw [value?, without, List.find?_filter]
  simp

/-- Entries that come later count if there is no value before them. -/
theorem value?_append_of_none {p : Properties} {key : String} (none : value? p key = none)
    (q : Properties) : value? (p ++ q) key = value? q key := by
  rw [value?, Option.map_eq_none_iff] at none
  rw [value?, value?, List.find?_append, none, Option.none_or]

/-- No two keys are equal. -/
def Distinct (p : Properties) : Prop := p.Pairwise fun a b => (a.1 == b.1) = false

/-- In a map whose keys differ, a text key is set as in an ordered map. -/
theorem Distinct.exists_put_eq {p : Properties} (distinct : p.Distinct) (key : String)
    (v : Value) : ∃ m : OrderedMap Value Value,
      m.entries = p ∧ put p key v = (m.insert (.text key) v).entries := by
  refine ⟨.ofList p, OrderedMap.entries_ofList distinct, ?_⟩
  rw [put, update, OrderedMap.ofList, List.foldl_append]
  rfl

/-- What is removed need not be set before. -/
theorem Distinct.without_put {p : Properties} (distinct : p.Distinct) (key : String) (v : Value) :
    without (put p key v) key = without p key := by
  obtain ⟨m, rfl, eq⟩ := distinct.exists_put_eq key v
  rw [eq]
  exact congrArg OrderedMap.entries
    (OrderedMap.erase_insert_of_same (m := m) (Value.beq_text_iff.mpr rfl) v)

/-- What is set is found. -/
theorem Distinct.value?_put {p : Properties} (distinct : p.Distinct) (key : String) (v : Value) :
    value? (put p key v) key = some v := by
  obtain ⟨m, rfl, eq⟩ := distinct.exists_put_eq key v
  have listed : (.text key, v) ∈ (m.insert (.text key) v).entries := by
    cases present : m.contains (.text key) with
    | false => simp [OrderedMap.entries_insert_of_absent present]
    | true =>
        obtain ⟨e, member, same⟩ := List.any_eq_true.mp present
        rw [OrderedMap.entries_insert_of_present present]
        refine List.mem_map.mpr ⟨e, member, ?_⟩
        rw [if_pos same, Value.beq_text_iff.mp same]
  rw [eq]
  exact OrderedMap.get?_of_mem_entries listed (Value.beq_text_iff.mpr rfl)

/-- Keys stay distinct without one. -/
theorem Distinct.without {p : Properties} (distinct : p.Distinct) (key : String) :
    (without p key).Distinct :=
  distinct.filter _

theorem without_without (p : Properties) (key : String) :
    without (without p key) key = without p key := by
  simp [without]

/-- A map without entries is the same as none. -/
@[simp] theorem getD_unlessEmpty (p : Properties) : (unlessEmpty p).getD [] = p := by
  cases p <;> rfl

/-- A map that is absent or not empty is told from its entries. -/
theorem unlessEmpty_getD {p : Option Properties} (nonempty : ∀ q, p = some q → q ≠ []) :
    unlessEmpty (p.getD []) = p := by
  cases p with
  | none => rfl
  | some q => simp [unlessEmpty, nonempty q rfl]

/-- Every key is a text that is not reserved, and no two keys are equal. -/
structure Keyed (reserved : List String) (p : Properties) : Prop where
  texts : ∀ e ∈ p, ∃ key, e.1 = .text key ∧ key ∉ reserved
  distinct : p.Pairwise fun a b => (a.1 == b.1) = false

variable {reserved : List String} {p : Properties} {key : String}

/-- No value is found under a reserved key. -/
theorem Keyed.value?_eq_none (keyed : Keyed reserved p) (isReserved : key ∈ reserved) :
    value? p key = none := by
  rw [value?, Option.map_eq_none_iff, List.find?_eq_none]
  intro e member same
  obtain ⟨other, isText, free⟩ := keyed.texts e member
  rw [isText, Value.beq_text_iff] at same
  cases same
  exact free isReserved

/-- An entry under a key that is reserved for it is put behind the others. -/
theorem Keyed.concat (keyed : Keyed (key :: reserved) p) (free : key ∉ reserved) (v : Value) :
    Keyed reserved (p ++ [(.text key, v)]) := by
  constructor
  · intro e member
    rcases List.mem_append.mp member with former | isLast
    · obtain ⟨other, isText, isFree⟩ := keyed.texts e former
      exact ⟨other, isText, fun isReserved => isFree (List.mem_cons_of_mem _ isReserved)⟩
    · exact ⟨key, congrArg Prod.fst (List.mem_singleton.mp isLast), free⟩
  · refine List.pairwise_append.mpr ⟨keyed.distinct, List.pairwise_singleton _ _, ?_⟩
    intro e member last isLast
    obtain ⟨other, isText, isFree⟩ := keyed.texts e member
    rw [List.mem_singleton.mp isLast, isText, ← Bool.not_eq_true, Value.beq_text_iff]
    exact fun same => isFree (Value.text.inj same ▸ List.mem_cons_self)

/-- Removing a reserved key undoes setting it. -/
theorem Keyed.without_put (keyed : Keyed reserved p) (isReserved : key ∈ reserved) (v : Value) :
    without (put p key v) key = p := by
  have distinct : p.Distinct := keyed.distinct
  have none := keyed.value?_eq_none isReserved
  rw [value?, Option.map_eq_none_iff, List.find?_eq_none] at none
  rw [distinct.without_put]
  exact List.filter_eq_self.mpr fun e member => by simpa using none e member

/-- Setting every entry again changes nothing. -/
theorem Keyed.update_self (keyed : Keyed reserved p) : update p p = p := by
  have again : ∀ (todo : Properties) (m : OrderedMap Value Value), (∀ e ∈ todo, e ∈ p) →
      m.entries = p → (todo.foldl (fun m e => m.insert e.1 e.2) m).entries = p := by
    intro todo
    induction todo with
    | nil => exact fun m _ eq => eq
    | cons e rest ih =>
        intro m within eq
        refine ih _ (fun e' later => within e' (List.mem_cons_of_mem _ later)) ?_
        obtain ⟨k, v⟩ := e
        have listed : (k, v) ∈ m.entries := eq ▸ within _ List.mem_cons_self
        obtain ⟨key, rfl, _⟩ := keyed.texts _ (within _ List.mem_cons_self)
        have found := OrderedMap.get?_of_mem_entries listed (Value.beq_text_iff.mpr rfl)
        rw [OrderedMap.entries_insert_of_present (OrderedMap.contains_of_get? found)]
        conv_rhs => rw [← eq, ← List.map_id m.entries]
        refine List.map_congr_left ?_
        rintro ⟨k', v'⟩ member
        by_cases same : (k' == .text key) = true
        · obtain rfl := Value.beq_text_iff.mp same
          have found' := OrderedMap.get?_of_mem_entries member same
          simp [Option.some.inj (found.symm.trans found')]
        · simp [same]
  rw [update, OrderedMap.ofList, List.foldl_append]
  exact again p _ (fun _ member => member) (OrderedMap.entries_ofList keyed.distinct)

end Properties

end ArcSelection
