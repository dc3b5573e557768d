import ArcSelection.Proofs.OrderedMap
import ArcSelection.Proofs.Listing

/-!
# Tables that number keys

Two maps that are read in opposite directions and number keys in the order in which they
come.  Keys need not be lawful: a key is new if the table tells it from all before, and an
entry is found under its key if the key equals itself.
-/

namespace ArcSelection

variable {κ β : Type} [BEq κ] [BEq β]

/-- Each of the keys stands for the item with the number of its position, in both maps. -/
structure Numbered (nth : Nat → β) (there : OrderedMap κ β) (back : OrderedMap β κ)
    (keys : List κ) : Prop where
  there : there.entries = keys.zipIdx.map fun e => (e.1, nth e.2)
  back : back.entries = keys.zipIdx.map fun e => (nth e.2, e.1)

namespace Numbered

variable {nth : Nat → β} {there : OrderedMap κ β} {back : OrderedMap β κ} {keys : List κ}

theorem empty : Numbered nth (.empty : OrderedMap κ β) .empty [] := ⟨rfl, rfl⟩

/-- The keys say all there is to say about the maps. -/
theorem unique {there' : OrderedMap κ β} {back' : OrderedMap β κ}
    (numbered : Numbered nth there back keys) (numbered' : Numbered nth there' back' keys) :
    there = there' ∧ back = back' :=
  ⟨OrderedMap.ext_entries (numbered.there.trans numbered'.there.symm),
    OrderedMap.ext_entries (numbered.back.trans numbered'.back.symm)⟩

/-- The entries lead from the keys to their positions. -/
theorem mem_there (numbered : Numbered nth there back keys) {k : κ} {b : β} :
    (k, b) ∈ there.entries ↔ ∃ i, keys[i]? = some k ∧ b = nth i := by
  rw [numbered.there]
  simp only [List.mem_map, Prod.exists, List.mem_zipIdx_iff_getElem?, Prod.mk.injEq]
  constructor
  · rintro ⟨_, i, found, rfl, rfl⟩
    exact ⟨i, found, rfl⟩
  · rintro ⟨i, found, rfl⟩
    exact ⟨_, i, found, rfl, rfl⟩

/-- The entries lead from the positions back to their keys. -/
theorem mem_back (numbered : Numbered nth there back keys) {k : κ} {b : β} :
    (b, k) ∈ back.entries ↔ ∃ i, keys[i]? = some k ∧ b = nth i := by
  have turned : back.entries = there.entries.map Prod.swap := by
    rw [numbered.there, numbered.back, List.map_map]
    rfl
  rw [turned, List.mem_map_swap, numbered.mem_there]

/-- A key that is apart from all is not in the table. -/
theorem contains_there_eq_false (numbered : Numbered nth there back keys) {k : κ}
    (apart : ∀ k' ∈ keys, (k' == k) = false) : there.contains k = false := by
  rw [OrderedMap.contains, List.any_eq_false]
  rintro ⟨k', b⟩ member
  obtain ⟨i, found, _⟩ := numbered.mem_there.mp member
  rw [apart k' (List.mem_of_getElem? found)]
  exact Bool.false_ne_true

/-- A key that can be told from all before gets the next number. -/
theorem insert [LawfulBEq β] (numbered : Numbered nth there back keys)
    (injective : Function.Injective nth) {k : κ} (apart : ∀ k' ∈ keys, (k' == k) = false) :
    Numbered nth (there.insert k (nth keys.length)) (back.insert (nth keys.length) k)
      (keys ++ [k]) := by
  have newItem : back.contains (nth keys.length) = false := by
    rw [← Bool.not_eq_true, ← OrderedMap.mem_keys_iff, OrderedMap.keys, List.mem_map]
    rintro ⟨⟨b, k'⟩, member, rfl⟩
    obtain ⟨i, found, same⟩ := numbered.mem_back.mp member
    have isLast := injective same
    subst isLast
    simp at found
  constructor
  · simp [OrderedMap.entries_insert_of_absent (numbered.contains_there_eq_false apart),
      numbered.there, List.zipIdx_append]
  · simp [OrderedMap.entries_insert_of_absent newItem, numbered.back, List.zipIdx_append]

/-- An entry is found under its key, if the key equals itself. -/
theorem get?_there (numbered : Numbered nth there back keys) {k : κ} (same : (k == k) = true)
    {i : Nat} (found : keys[i]? = some k) : there.get? k = some (nth i) :=
  OrderedMap.get?_of_mem_entries (numbered.mem_there.mpr ⟨i, found, rfl⟩) same

/-- A position leads back to its key. -/
theorem get?_back [LawfulBEq β] (numbered : Numbered nth there back keys) {k : κ} {b : β} :
    back.get? b = some k ↔ ∃ i, keys[i]? = some k ∧ b = nth i := by
  rw [← OrderedMap.mem_entries_iff, numbered.mem_back]

/-- The maps are inverse to each other, if only a key itself equals a key. -/
theorem inverse [LawfulBEq β] (numbered : Numbered nth there back keys)
    (lawful : ∀ k ∈ keys, ∀ k', (k == k') = true ↔ k' = k) (k : κ) (b : β) :
    there.get? k = some b ↔ back.get? b = some k := by
  rw [numbered.get?_back]
  constructor
  · intro found
    obtain ⟨k', member, same⟩ := OrderedMap.exists_entry_of_get? found
    obtain ⟨i, known, isNth⟩ := numbered.mem_there.mp member
    obtain rfl := (lawful k' (List.mem_of_getElem? known) k).mp same
    exact ⟨i, known, isNth⟩
  · rintro ⟨i, known, rfl⟩
    exact numbered.get?_there ((lawful k (List.mem_of_getElem? known) k).mpr rfl) known

end Numbered

/-- The maps hold one entry for each of the members, which leads from its key to its item
and, in the other map, from the item to the key. -/
structure Pairs {α : Type} (members : List α) (key : α → κ) (item : α → β)
    (there : OrderedMap κ β) (back : OrderedMap β κ) : Prop where
  entry : ∀ k b, (k, b) ∈ there.entries ↔ ∃ a ∈ members, k = key a ∧ b = item a
  inverse : ∀ k b, (k, b) ∈ there.entries ↔ (b, k) ∈ back.entries
  /-- A key that does not equal itself, as a nan, is told by its entry alone. -/
  itemOf : ∀ a ∈ members, (key a == key a) = true → there.get? (key a) = some (item a)
  keyOf : ∀ a ∈ members, back.get? (item a) = some (key a)

/-- The keys may be told in other words. -/
theorem Pairs.congr {α : Type} {members : List α} {key key' : α → κ} {item : α → β}
    {there : OrderedMap κ β} {back : OrderedMap β κ} (pairs : Pairs members key item there back)
    (same : ∀ a ∈ members, key a = key' a) : Pairs members key' item there back where
  entry k b := by
    rw [pairs.entry]
    refine exists_congr fun a => and_congr_right fun member => ?_
    rw [same a member]
  inverse := pairs.inverse
  itemOf a member := same a member ▸ pairs.itemOf a member
  keyOf a member := same a member ▸ pairs.keyOf a member

/-- Items numbered by the keys of the members are paired with them, whatever the order in
which the members were numbered. -/
theorem Numbered.pairs [LawfulBEq β] {α : Type} [DecidableEq α] {nth : Nat → β}
    {there : OrderedMap κ β} {back : OrderedMap β κ} {key : α → κ} {order members : List α}
    (numbered : Numbered nth there back (order.map key)) (nodup : order.Nodup)
    (listed : ∀ a, a ∈ order ↔ a ∈ members) :
    Pairs members key (fun a => nth (order.idxOf a)) there back := by
  have position : ∀ a ∈ members, (order.map key)[order.idxOf a]? = some (key a) := by
    intro a member
    rw [List.getElem?_map, List.getElem?_idxOf ((listed a).mpr member), Option.map_some]
  refine ⟨fun k b => ?_, fun k b => ?_, fun a member same => ?_, fun a member => ?_⟩
  · rw [numbered.mem_there]
    simp only [List.getElem?_map, Option.map_eq_some_iff, getElem?_eq_some_iff_idxOf nodup, listed]
    constructor
    · rintro ⟨_, ⟨a, ⟨member, rfl⟩, rfl⟩, rfl⟩
      exact ⟨a, member, rfl, rfl⟩
    · rintro ⟨a, member, rfl, rfl⟩
      exact ⟨_, ⟨a, ⟨member, rfl⟩, rfl⟩, rfl⟩
  · rw [numbered.mem_there, numbered.mem_back]
  · exact numbered.get?_there same (position a member)
  · exact numbered.get?_back.mpr ⟨_, position a member, rfl⟩

end ArcSelection
