import Mathlib.Data.List.Induction
import Mathlib.Data.List.Nodup
import Mathlib.Data.List.Perm.Basic
import Mathlib.Data.Set.Function

/-!
# Lists that grow, lists by key

Facts about lists for the parts of the library that number things in the order in which
they come, keep the first of equal items, or group items by a key.
-/

namespace ArcSelection

/-- A list with one more item differs from the list at the end only. -/
theorem getElem?_append_singleton {α : Type} (items : List α) (last : α) (i : Nat) :
    (items ++ [last])[i]? = if items.length = i then some last else items[i]? := by
  rw [List.getElem?_append]
  rcases Nat.lt_trichotomy i items.length with less | rfl | more
  · rw [if_pos less, if_neg less.ne']
  · simp
  · rw [if_neg (by omega), if_neg more.ne, List.getElem?_eq_none (by simp; omega),
      List.getElem?_eq_none more.le]

section Distinct

variable {α : Type} [BEq α] [LawfulBEq α]

/-- One more item is kept if it is new. -/
theorem eraseDups_append_singleton (items : List α) (last : α) :
    (items ++ [last]).eraseDups =
      if items.contains last then items.eraseDups else items.eraseDups ++ [last] := by
  have single : [last].eraseDups = [last] := by simp [List.eraseDups_cons]
  rw [List.eraseDups_append, List.cons_removeAll]
  split <;> simp_all

/-- Nothing is left twice. -/
theorem nodup_eraseDups (items : List α) : items.eraseDups.Nodup := by
  induction items using List.reverseRecOn with
  | nil => exact .nil
  | append_singleton items last ih =>
      rw [eraseDups_append_singleton]
      split
      · exact ih
      · rename_i new
        refine List.nodup_append.mpr ⟨ih, List.nodup_singleton last, ?_⟩
        rintro early member _ isLast rfl
        rw [List.mem_singleton] at isLast
        subst isLast
        exact new (List.contains_iff_mem.mpr (List.mem_eraseDups.mp member))

theorem eraseDups_of_nodup {items : List α} (nodup : items.Nodup) : items.eraseDups = items := by
  induction items with
  | nil => rfl
  | cons first rest ih =>
      obtain ⟨new, nodupRest⟩ := List.nodup_cons.mp nodup
      rw [List.eraseDups_cons, List.filter_eq_self.mpr, ih nodupRest]
      intro item member
      simpa using fun same : item = first => new (same ▸ member)

end Distinct

/-- A fold whose every step keeps an invariant of the items done so far ends with the
invariant of all of them. The step knows its place among the items. -/
theorem foldl_invariant {β σ : Type} {f : σ → β → σ} (Inv : List β → σ → Prop) {items : List β}
    {start : σ} (initial : Inv [] start)
    (step : ∀ done item rest s, items = done ++ item :: rest → Inv done s →
      Inv (done ++ [item]) (f s item)) :
    Inv items (items.foldl f start) := by
  have fromHere : ∀ todo done s, items = done ++ todo → Inv done s →
      Inv items (todo.foldl f s) := by
    intro todo
    induction todo with
    | nil =>
        intro done s split holds
        rw [List.append_nil] at split
        exact split ▸ holds
    | cons item rest ih =>
        intro done s split holds
        exact ih (done ++ [item]) (f s item) (by simpa using split)
          (step done item rest s split holds)
  exact fromHere items [] start rfl initial

/-- A list that holds the images of some items holds them in some order of the items. -/
theorem exists_perm_of_perm_map {α β : Type} {f : α → β} {images : List β} {items : List α}
    (perm : images.Perm (items.map f)) :
    ∃ ordered : List α, ordered.Perm items ∧ images = ordered.map f := by
  have each : List.Forall₂ (fun image item => image = f item) (items.map f) items :=
    List.forall₂_map_left_iff.mpr (List.forall₂_same.mpr fun _ _ => rfl)
  obtain ⟨ordered, related, reordered⟩ := List.perm_comp_forall₂ perm each
  refine ⟨ordered, reordered, ?_⟩
  rwa [← List.forall₂_eq_eq_eq, List.forall₂_map_right_iff]

/-- Items grouped by a key are the same items, if every item has one of the keys. -/
theorem perm_flatMap_filter {α κ : Type} [DecidableEq κ] (key : α → κ) {keys : List κ}
    (nodup : keys.Nodup) {items : List α} (covered : ∀ item ∈ items, key item ∈ keys) :
    (keys.flatMap fun k => items.filter fun item => key item == k).Perm items := by
  induction keys generalizing items with
  | nil =>
      obtain rfl := List.eq_nil_iff_forall_not_mem.mpr fun item member =>
        List.not_mem_nil (covered item member)
      exact .refl _
  | cons k rest ih =>
      obtain ⟨new, nodupRest⟩ := List.nodup_cons.mp nodup
      -- The other keys find the same items among those that do not have the first key.
      have without : ∀ k' ∈ rest, items.filter (fun item => key item == k') =
          (items.filter fun item => !(key item == k)).filter fun item => key item == k' := by
        intro k' later
        rw [List.filter_filter]
        refine List.filter_congr fun item _ => ?_
        by_cases same : key item = k'
        · have different : k' ≠ k := fun isFirst => new (isFirst ▸ later)
          simp [same, different]
        · simp [same]
      have others : (rest.flatMap fun k' => items.filter fun item => key item == k').Perm
          (items.filter fun item => !(key item == k)) := by
        rw [List.flatMap_congr without]
        refine ih nodupRest fun item member => ?_
        obtain ⟨listed, notFirst⟩ := List.mem_filter.mp member
        refine (List.mem_cons.mp (covered item listed)).resolve_left fun isFirst => ?_
        simp [isFirst] at notFirst
      exact (List.Perm.append_left _ others).trans (List.filter_append_perm _ items)

section Grouped

variable {α β κ μ : Type} [DecidableEq κ] [DecidableEq μ]

/-- The items grouped by a key, the groups in the order of their first items. -/
def clustered (key : α → κ) (items : List α) : List α :=
  (items.map key).eraseDups.flatMap fun k => items.filter fun item => key item == k

/-- The items source by source, those with one source grouped by target. -/
def nodeByNode (sources : List κ) (source target : α → κ) (items : List α) : List α :=
  sources.flatMap fun k => clustered target (items.filter fun item => source item == k)

variable {key source target : α → κ} {keys sources : List κ} {items : List α} {item : α}

/-- Putting equal keys together loses nothing. -/
theorem mem_clustered : item ∈ clustered key items ↔ item ∈ items := by
  simp only [clustered, List.mem_flatMap, List.mem_eraseDups, List.mem_map, List.mem_filter,
    beq_iff_eq]
  constructor
  · rintro ⟨_, _, member, _⟩
    exact member
  · intro member
    exact ⟨key item, ⟨item, member, rfl⟩, member, rfl⟩

/-- The items are listed whose source is. -/
theorem mem_nodeByNode :
    item ∈ nodeByNode sources source target items ↔ item ∈ items ∧ source item ∈ sources := by
  simp only [nodeByNode, List.mem_flatMap, mem_clustered, List.mem_filter, beq_iff_eq]
  constructor
  · rintro ⟨_, listed, member, rfl⟩
    exact ⟨member, listed⟩
  · rintro ⟨member, listed⟩
    exact ⟨_, listed, member, rfl⟩

/-- Putting equal keys together loses nothing. -/
theorem clustered_perm : (clustered key items).Perm items :=
  perm_flatMap_filter key (nodup_eraseDups _) fun _ member =>
    List.mem_eraseDups.mpr (List.mem_map_of_mem member)

/-- If every source is listed once, every item is. -/
theorem nodeByNode_perm (nodup : sources.Nodup) (covered : ∀ item ∈ items, source item ∈ sources) :
    (nodeByNode sources source target items).Perm items :=
  (List.Perm.flatMap_left _ fun _ _ => clustered_perm).trans
    (perm_flatMap_filter source nodup covered)

/-- Among groups for different keys, one is found by its key. -/
theorem filter_flatMap_of_own (nodup : keys.Nodup) {group : κ → List α}
    (own : ∀ k ∈ keys, ∀ item ∈ group k, key item = k) {k : κ} (listed : k ∈ keys) :
    ((keys.flatMap group).filter fun item => key item == k) = group k := by
  have others : ∀ rest : List κ, (∀ k' ∈ rest, k' ∈ keys) → k ∉ rest →
      ((rest.flatMap group).filter fun item => key item == k) = [] := by
    intro rest within absent
    refine List.filter_eq_nil_iff.mpr fun item member => ?_
    obtain ⟨k', inRest, grouped⟩ := List.mem_flatMap.mp member
    rw [own k' (within k' inRest) item grouped, beq_iff_eq]
    exact fun same => absent (same ▸ inRest)
  obtain ⟨before, after, rfl⟩ := List.append_of_mem listed
  have apart := List.nodup_middle.mp nodup
  rw [List.nodup_cons, List.mem_append, not_or] at apart
  rw [List.flatMap_append, List.flatMap_cons, List.filter_append, List.filter_append,
    others before (by simp +contextual) apart.1.1, others after (by simp +contextual) apart.1.2,
    List.nil_append, List.append_nil]
  exact List.filter_eq_self.mpr fun item member => beq_iff_eq.mpr (own k listed item member)

/-- The keys of groups that are not empty are found in the order of the groups. -/
theorem eraseDups_map_flatMap (nodup : keys.Nodup) {group : κ → List α}
    (own : ∀ k ∈ keys, ∀ item ∈ group k, key item = k) (nonempty : ∀ k ∈ keys, group k ≠ []) :
    ((keys.flatMap group).map key).eraseDups = keys := by
  induction keys with
  | nil => rfl
  | cons k rest ih =>
      obtain ⟨new, nodupRest⟩ := List.nodup_cons.mp nodup
      have first : ((group k).map key).eraseDups = [k] := by
        obtain ⟨item, others, split⟩ := List.exists_cons_of_ne_nil (nonempty k List.mem_cons_self)
        have isKey := own k List.mem_cons_self
        rw [split] at isKey
        rw [split, List.map_cons, List.eraseDups_cons, isKey item List.mem_cons_self,
          List.filter_eq_nil_iff.mpr]
        · rfl
        · intro k' among
          obtain ⟨other, member, rfl⟩ := List.mem_map.mp among
          simp [isKey other (List.mem_cons_of_mem _ member)]
      have later := ih nodupRest (fun k' listed => own k' (List.mem_cons_of_mem _ listed))
        fun k' listed => nonempty k' (List.mem_cons_of_mem _ listed)
      rw [List.flatMap_cons, List.map_append, List.eraseDups_append, first, List.removeAll,
        List.filter_eq_self.mpr, later, List.singleton_append]
      intro k' among
      obtain ⟨item, member, rfl⟩ := List.mem_map.mp among
      obtain ⟨k', listed, grouped⟩ := List.mem_flatMap.mp member
      have isKey := own k' (List.mem_cons_of_mem _ listed) item grouped
      simp only [List.elem_eq_mem, Bool.not_eq_true', decide_eq_false_iff_not, List.mem_map,
        not_exists, not_and]
      intro other early same
      rw [own k List.mem_cons_self other early, isKey] at same
      exact new (same ▸ listed)

/-- Grouping again changes nothing. -/
theorem clustered_clustered : clustered key (clustered key items) = clustered key items := by
  have own : ∀ k ∈ (items.map key).eraseDups,
      ∀ item ∈ items.filter fun item => key item == k, key item = k :=
    fun k _ item member => beq_iff_eq.mp (List.mem_filter.mp member).2
  have nonempty : ∀ k ∈ (items.map key).eraseDups,
      (items.filter fun item => key item == k) ≠ [] := by
    intro k listed
    obtain ⟨item, member, rfl⟩ := List.mem_map.mp (List.mem_eraseDups.mp listed)
    exact List.ne_nil_of_mem (List.mem_filter.mpr ⟨member, beq_self_eq_true _⟩)
  have keys := eraseDups_map_flatMap (nodup_eraseDups _) own nonempty
  rw [clustered, clustered, keys]
  exact List.flatMap_congr fun k listed => filter_flatMap_of_own (nodup_eraseDups _) own listed

/-- Items that are listed node by node stay as they are. -/
theorem nodeByNode_nodeByNode (nodup : sources.Nodup) :
    nodeByNode sources source target (nodeByNode sources source target items) =
      nodeByNode sources source target items := by
  refine List.flatMap_congr fun k listed => ?_
  rw [nodeByNode, filter_flatMap_of_own nodup ?_ listed, clustered_clustered]
  intro k' _ item member
  exact beq_iff_eq.mp (List.mem_filter.mp (mem_clustered.mp member)).2

variable {key' source' target' : β → μ} {f : α → β} {rename : κ → μ}

/-- Renaming keys apart keeps which come first. -/
theorem eraseDups_map_of_injective (injective : Function.Injective rename) (keys : List κ) :
    (keys.map rename).eraseDups = keys.eraseDups.map rename := by
  induction keys using List.reverseRecOn with
  | nil => rfl
  | append_singleton keys last ih =>
      have known : (keys.map rename).contains (rename last) = keys.contains last := by
        simp [List.contains_eq_mem, List.mem_map_of_injective injective]
      rw [List.map_append, List.map_singleton, eraseDups_append_singleton,
        eraseDups_append_singleton, ih, known]
      split <;> simp

/-- Grouping does not depend on how keys are called. -/
theorem clustered_map (injective : Function.Injective rename)
    (same : ∀ item ∈ items, key' (f item) = rename (key item)) :
    clustered key' (items.map f) = (clustered key items).map f := by
  have keys : (items.map f).map key' = (items.map key).map rename := by
    rw [List.map_map, List.map_map]
    exact List.map_congr_left same
  rw [clustered, keys, eraseDups_map_of_injective injective, List.flatMap_map, clustered,
    List.map_flatMap]
  refine List.flatMap_congr fun k _ => ?_
  rw [List.filter_map]
  refine congrArg (List.map f) (List.filter_congr fun item member => ?_)
  rw [Function.comp_apply, same item member, Bool.eq_iff_iff, beq_iff_eq, beq_iff_eq,
    injective.eq_iff]

/-- Items may be renamed before or after they are listed node by node. -/
theorem nodeByNode_map (injective : Function.Injective rename)
    (sameSource : ∀ item ∈ items, source' (f item) = rename (source item))
    (sameTarget : ∀ item ∈ items, target' (f item) = rename (target item)) :
    nodeByNode (sources.map rename) source' target' (items.map f) =
      (nodeByNode sources source target items).map f := by
  rw [nodeByNode, List.flatMap_map, nodeByNode, List.map_flatMap]
  refine List.flatMap_congr fun k _ => ?_
  rw [← clustered_map injective fun item member => sameTarget item (List.mem_filter.mp member).1,
    List.filter_map]
  refine congrArg (clustered target' ∘ List.map f) (List.filter_congr fun item member => ?_)
  rw [Function.comp_apply, sameSource item member, Bool.eq_iff_iff, beq_iff_eq, beq_iff_eq,
    injective.eq_iff]

end Grouped

/-- In a list without repetitions an item has one position. -/
theorem getElem?_eq_some_iff_idxOf {α : Type} [DecidableEq α] {items : List α}
    (nodup : items.Nodup) {item : α} {i : Nat} :
    items[i]? = some item ↔ item ∈ items ∧ i = items.idxOf item := by
  constructor
  · intro found
    obtain ⟨inside, rfl⟩ := List.getElem?_eq_some_iff.mp found
    exact ⟨List.getElem_mem inside, (nodup.idxOf_getElem i inside).symm⟩
  · rintro ⟨member, rfl⟩
    exact List.getElem?_idxOf member

/-- A list without repetitions with its positions. -/
theorem zipIdx_eq_map_idxOf {α : Type} [DecidableEq α] {items : List α} (nodup : items.Nodup) :
    items.zipIdx = items.map fun item => (item, items.idxOf item) := by
  refine List.ext_getElem? fun i => ?_
  rw [List.getElem?_zipIdx, List.getElem?_map]
  cases found : items[i]? with
  | none => rfl
  | some item => simp [← ((getElem?_eq_some_iff_idxOf nodup).mp found).2]

/-- A change at the position of an item changes the image of this item only. -/
theorem modify_map_idxOf {α β : Type} [DecidableEq α] {items : List α} (nodup : items.Nodup)
    {item : α} (member : item ∈ items) {f f' : α → β} {change : β → β}
    (here : f' item = change (f item)) (elsewhere : ∀ other ≠ item, f' other = f other) :
    (items.map f).modify (items.idxOf item) change = items.map f' := by
  refine List.ext_getElem? fun i => ?_
  rw [List.getElem?_modify, List.getElem?_map, List.getElem?_map]
  cases found : items[i]? with
  | none => simp
  | some other =>
      have position := ((getElem?_eq_some_iff_idxOf nodup).mp found).2
      by_cases same : other = item
      · subst same
        simp [← position, here]
      · have apart : items.idxOf item ≠ i := by
          rw [position]
          exact fun equal => same ((List.idxOf_inj member).mp equal).symm
        simp [apart, elsewhere other same]

/-- The items of a list without repetitions are numbered by their positions, one to one. -/
theorem bijOn_idxOf {α β : Type} [DecidableEq α] {items : List α} (nodup : items.Nodup)
    {nth : Nat → β} (injective : Function.Injective nth) :
    Set.BijOn (fun item => nth (items.idxOf item)) {item | item ∈ items}
      {b | b ∈ (List.range items.length).map nth} := by
  refine ⟨fun item member => ?_, fun item member item' _ same => ?_, fun b listed => ?_⟩
  · exact List.mem_map.mpr
      ⟨_, List.mem_range.mpr (List.idxOf_lt_length_iff.mpr member), rfl⟩
  · exact (List.idxOf_inj member).mp (injective same)
  · obtain ⟨i, inRange, rfl⟩ := List.mem_map.mp listed
    have inside := List.mem_range.mp inRange
    exact ⟨items[i], List.getElem_mem inside, congrArg nth (nodup.idxOf_getElem i inside)⟩

end ArcSelection
