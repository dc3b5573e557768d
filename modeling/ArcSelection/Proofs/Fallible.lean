import Mathlib.Data.List.Forall2

/-!
# Computations that can fail

A computation of the library either fails with a cause or has a result. The
lemmas here open sequences, folds and maps of such computations: when they
succeed, and what success tells about their parts.
-/

namespace ArcSelection.Fallible

variable {ε α β σ : Type}

/-- A sequence succeeds exactly when both of its parts do. -/
theorem bind_eq_ok_iff {x : Except ε α} {f : α → Except ε β} {b : β} :
    x >>= f = .ok b ↔ ∃ a, x = .ok a ∧ f a = .ok b := by
  cases x with
  | error fault => simp [bind, Except.bind]
  | ok a => simp [bind, Except.bind]

/-- A sequence fails as its first part does, or as its second part on the result of the first. -/
theorem bind_eq_error_iff {x : Except ε α} {f : α → Except ε β} {fault : ε} :
    x >>= f = .error fault ↔ x = .error fault ∨ ∃ a, x = .ok a ∧ f a = .error fault := by
  cases x with
  | error other => simp [bind, Except.bind]
  | ok a => simp [bind, Except.bind]

theorem map_eq_ok_iff {x : Except ε α} {f : α → β} {b : β} :
    x.map f = .ok b ↔ ∃ a, x = .ok a ∧ f a = b := by
  cases x <;> simp [Except.map]

theorem map_eq_error_iff {x : Except ε α} {f : α → β} {fault : ε} :
    x.map f = .error fault ↔ x = .error fault := by
  cases x <;> simp [Except.map]

/-- Items that are related pairwise meet conditions that agree on what is related. -/
theorem forall_mem_iff_of_forall₂ {R : α → β → Prop} {P : α → Prop} {Q : β → Prop}
    {as : List α} {bs : List β} (same : ∀ a b, R a b → (P a ↔ Q b))
    (related : List.Forall₂ R as bs) : (∀ a ∈ as, P a) ↔ ∀ b ∈ bs, Q b := by
  induction related with
  | nil => simp
  | cons head _ ih => rw [List.forall_mem_cons, List.forall_mem_cons, same _ _ head, ih]

/-- A fold whose every step keeps an invariant of the items done so far succeeds,
and ends with the invariant of all of them. -/
theorem foldlM_ok {f : σ → β → Except ε σ} (Inv : List β → σ → Prop) {items : List β}
    {start : σ} (initial : Inv [] start)
    (step : ∀ done item rest s, items = done ++ item :: rest → Inv done s →
      ∃ next, f s item = .ok next ∧ Inv (done ++ [item]) next) :
    ∃ final, items.foldlM f start = .ok final ∧ Inv items final := by
  have fromHere : ∀ todo done s, items = done ++ todo → Inv done s →
      ∃ final, todo.foldlM f s = .ok final ∧ Inv items final := by
    intro todo
    induction todo with
    | nil =>
        intro done s split holds
        rw [List.append_nil] at split
        exact ⟨s, rfl, split ▸ holds⟩
    | cons item rest ih =>
        intro done s split holds
        obtain ⟨next, stepped, holdsNext⟩ := step done item rest s split holds
        obtain ⟨final, folded, holdsFinal⟩ :=
          ih (done ++ [item]) next (by simpa using split) holdsNext
        refine ⟨final, ?_, holdsFinal⟩
        rw [List.foldlM_cons, stepped]
        exact folded
  exact fromHere items [] start rfl initial

/-- A fold that succeeds ends with the invariant of all items, if every step that succeeds
keeps the invariant of the items done so far. The step knows its place among the items. -/
theorem invariant_of_foldlM_ok_at {f : σ → β → Except ε σ} (Inv : List β → σ → Prop)
    {items : List β} {start final : σ}
    (step : ∀ done item rest s next, items = done ++ item :: rest → Inv done s →
      f s item = .ok next → Inv (done ++ [item]) next)
    (initial : Inv [] start) (folded : items.foldlM f start = .ok final) : Inv items final := by
  have fromHere : ∀ todo done s, items = done ++ todo → Inv done s →
      todo.foldlM f s = .ok final → Inv items final := by
    intro todo
    induction todo with
    | nil =>
        intro done s split holds ended
        cases ended
        rw [List.append_nil] at split
        exact split ▸ holds
    | cons item rest ih =>
        intro done s split holds foldedHere
        rw [List.foldlM_cons, bind_eq_ok_iff] at foldedHere
        obtain ⟨next, stepped, restFolded⟩ := foldedHere
        exact ih (done ++ [item]) next (by simpa using split)
          (step done item rest s next split holds stepped) restFolded
  exact fromHere items [] start rfl initial folded

/-- A fold that succeeds ends with the invariant of all items, if every step that succeeds
keeps the invariant of the items done so far. -/
theorem invariant_of_foldlM_ok {f : σ → β → Except ε σ} (Inv : List β → σ → Prop)
    {items : List β} {start final : σ}
    (step : ∀ done item s next, Inv done s → f s item = .ok next → Inv (done ++ [item]) next)
    (initial : Inv [] start) (folded : items.foldlM f start = .ok final) : Inv items final :=
  invariant_of_foldlM_ok_at Inv (fun done item _ s next _ => step done item s next) initial folded

/-- A fold that succeeds keeps what every step keeps. -/
theorem foldlM_keeps {f : σ → β → Except ε σ} {Keeps : σ → Prop} {items : List β}
    {start final : σ} (step : ∀ item s next, Keeps s → f s item = .ok next → Keeps next)
    (initial : Keeps start) (folded : items.foldlM f start = .ok final) : Keeps final :=
  invariant_of_foldlM_ok (fun _ => Keeps) (fun _ => step) initial folded

/-- Two folds over the same items end in states that are related, if all their steps keep
the states related. -/
theorem related_of_foldlM_ok {ε' τ : Type} {f : σ → β → Except ε σ} {f' : τ → β → Except ε' τ}
    (Rel : List β → σ → τ → Prop) {items : List β} {start final : σ} {start' final' : τ}
    (step : ∀ done item rest s s' next next', items = done ++ item :: rest → Rel done s s' →
      f s item = .ok next → f' s' item = .ok next' → Rel (done ++ [item]) next next')
    (initial : Rel [] start start') (folded : items.foldlM f start = .ok final)
    (folded' : items.foldlM f' start' = .ok final') : Rel items final final' := by
  have both := invariant_of_foldlM_ok_at
    (fun done s => ∀ s', done.foldlM f' start' = .ok s' → Rel done s s') ?_ ?_ folded
  · exact both final' folded'
  · intro done item rest s next split related stepped next' reached
    rw [List.foldlM_append, bind_eq_ok_iff] at reached
    obtain ⟨s', before, last⟩ := reached
    rw [List.foldlM_cons, bind_eq_ok_iff] at last
    obtain ⟨_, stepped', ended⟩ := last
    cases ended
    exact step done item rest s s' next _ split (related s' before) stepped stepped'
  · rintro s' ⟨⟩
    exact initial

/-- In a list without repetitions the item of a step was not done before. -/
theorem not_mem_done {items done rest : List β} {item : β} (nodup : items.Nodup)
    (split : items = done ++ item :: rest) : item ∉ done := by
  rw [split, List.nodup_append] at nodup
  exact fun early => nodup.2.2 item early item List.mem_cons_self rfl

/-- Every step of a fold that succeeds has succeeded. -/
theorem step_ok_of_foldlM_ok {f : σ → β → Except ε σ} {items : List β} {start final : σ}
    (folded : items.foldlM f start = .ok final) :
    ∀ item ∈ items, ∃ before after, f before item = .ok after := by
  induction items generalizing start with
  | nil => simp
  | cons head rest ih =>
      rw [List.foldlM_cons, bind_eq_ok_iff] at folded
      obtain ⟨next, stepped, restFolded⟩ := folded
      intro item member
      rcases List.mem_cons.mp member with rfl | later
      · exact ⟨start, next, stepped⟩
      · exact ih restFolded item later

/-- A fold that fails does so in one of its steps. -/
theorem exists_error_of_foldlM_error {f : σ → β → Except ε σ} {items : List β} {start : σ}
    {fault : ε} (failed : items.foldlM f start = .error fault) :
    ∃ item ∈ items, ∃ s, f s item = .error fault := by
  induction items generalizing start with
  | nil => cases failed
  | cons head rest ih =>
      rw [List.foldlM_cons, bind_eq_error_iff] at failed
      rcases failed with first | ⟨next, _, later⟩
      · exact ⟨head, List.mem_cons_self, start, first⟩
      · obtain ⟨item, member, s, stepped⟩ := ih later
        exact ⟨item, List.mem_cons_of_mem _ member, s, stepped⟩

/-- A map over a list succeeds with the results of its items, one for each. -/
theorem mapM_eq_ok_iff {f : α → Except ε β} {items : List α} {results : List β} :
    items.mapM f = .ok results ↔
      List.Forall₂ (fun item result => f item = .ok result) items results := by
  induction items generalizing results with
  | nil =>
      rw [List.forall₂_nil_left_iff]
      exact ⟨fun mapped => by cases mapped; rfl, fun none => none ▸ rfl⟩
  | cons head rest ih =>
      rw [List.mapM_cons, bind_eq_ok_iff, List.forall₂_cons_left_iff]
      simp only [bind_eq_ok_iff, ih]
      constructor
      · rintro ⟨first, computed, restResults, restComputed, built⟩
        cases built
        exact ⟨first, restResults, computed, restComputed, rfl⟩
      · rintro ⟨first, restResults, computed, restComputed, rfl⟩
        exact ⟨first, computed, restResults, restComputed, rfl⟩

/-- A map over a list succeeds when each item has a result, and the results are
those of the items. -/
theorem mapM_ok {f : α → Except ε β} {Good : α → β → Prop} {items : List α}
    (each : ∀ item ∈ items, ∃ result, f item = .ok result ∧ Good item result) :
    ∃ results, items.mapM f = .ok results ∧ List.Forall₂ Good items results := by
  induction items with
  | nil => exact ⟨[], rfl, .nil⟩
  | cons head rest ih =>
      obtain ⟨result, computed, good⟩ := each head List.mem_cons_self
      obtain ⟨results, mapped, related⟩ :=
        ih fun item member => each item (List.mem_cons_of_mem _ member)
      refine ⟨result :: results, ?_, .cons good related⟩
      exact mapM_eq_ok_iff.mpr (.cons computed (mapM_eq_ok_iff.mp mapped))

/-- A map over a list whose items all have a known result. -/
theorem mapM_eq_map {f : α → Except ε β} {g : α → β} {items : List α}
    (each : ∀ item ∈ items, f item = .ok (g item)) : items.mapM f = .ok (items.map g) := by
  rw [mapM_eq_ok_iff, List.forall₂_map_right_iff, List.forall₂_same]
  exact each

/-- Computations whose results are images of those of others, item by item. -/
theorem mapM_ok_of_image {ε' γ : Type} {f : α → Except ε β} {f' : α → Except ε' γ} {h : β → γ}
    {items : List α} (image : ∀ item ∈ items, ∀ b, f item = .ok b → f' item = .ok (h b))
    {results : List β} (mapped : items.mapM f = .ok results) :
    items.mapM f' = .ok (results.map h) := by
  have computed := mapM_eq_ok_iff.mp mapped
  rw [mapM_eq_ok_iff, List.forall₂_map_right_iff]
  refine List.forall₂_iff_get.mpr ⟨computed.length_eq, fun i bound bound' => ?_⟩
  exact image _ (List.get_mem items ⟨i, bound⟩) _ (computed.get bound bound')

/-- Every item of a list whose map succeeds has a result. -/
theorem ok_of_mapM_ok {f : α → Except ε β} {items : List α} {results : List β}
    (mapped : items.mapM f = .ok results) : ∀ item ∈ items, ∃ result, f item = .ok result := by
  intro item member
  have computed := mapM_eq_ok_iff.mp mapped
  obtain ⟨i, bound, rfl⟩ := List.mem_iff_getElem.mp member
  exact ⟨_, computed.get bound (computed.length_eq ▸ bound)⟩

/-- Every result of a map over a list is that of an item. -/
theorem mem_of_mapM_ok {f : α → Except ε β} {items : List α} {results : List β}
    (mapped : items.mapM f = .ok results) :
    ∀ result ∈ results, ∃ item ∈ items, f item = .ok result := by
  intro result member
  have computed := mapM_eq_ok_iff.mp mapped
  obtain ⟨i, bound, rfl⟩ := List.mem_iff_getElem.mp member
  have boundItem : i < items.length := computed.length_eq ▸ bound
  exact ⟨items[i], List.getElem_mem boundItem, computed.get boundItem bound⟩

/-- A map over a list fails as its first item without a result does. -/
theorem mapM_error_of_first {f : α → Except ε β} {before after : List α} {item : α} {fault : ε}
    (passed : ∀ b ∈ before, ∃ result, f b = .ok result) (failed : f item = .error fault) :
    (before ++ item :: after).mapM f = .error fault := by
  induction before with
  | nil =>
      rw [List.nil_append, List.mapM_cons, failed]
      rfl
  | cons head rest ih =>
      obtain ⟨result, computed⟩ := passed head List.mem_cons_self
      rw [List.cons_append, List.mapM_cons, computed,
        ih fun b member => passed b (List.mem_cons_of_mem _ member)]
      rfl

/-- A map over a list that fails does so as one of its items does. -/
theorem exists_error_of_mapM_error {f : α → Except ε β} {items : List α} {fault : ε}
    (failed : items.mapM f = .error fault) : ∃ item ∈ items, f item = .error fault := by
  induction items with
  | nil => cases failed
  | cons head rest ih =>
      rw [List.mapM_cons, bind_eq_error_iff] at failed
      rcases failed with first | ⟨_, _, later⟩
      · exact ⟨head, List.mem_cons_self, first⟩
      · rcases bind_eq_error_iff.mp later with restFailed | ⟨_, _, done⟩
        · obtain ⟨item, member, itemFailed⟩ := ih restFailed
          exact ⟨item, List.mem_cons_of_mem _ member, itemFailed⟩
        · cases done

/-- Every item of a list has a result, or there is a first one that has none. -/
theorem all_ok_or_first_error (f : α → Except ε β) (items : List α) :
    (∀ item ∈ items, ∃ result, f item = .ok result) ∨
      ∃ before item after fault, items = before ++ item :: after ∧
        (∀ b ∈ before, ∃ result, f b = .ok result) ∧ f item = .error fault := by
  induction items with
  | nil => exact Or.inl (by simp)
  | cons head rest ih =>
      cases computed : f head with
      | error fault => exact Or.inr ⟨[], head, rest, fault, rfl, by simp, computed⟩
      | ok result =>
          rcases ih with all | ⟨before, item, after, fault, split, passed, failed⟩
          · exact Or.inl (List.forall_mem_cons.mpr ⟨⟨result, computed⟩, all⟩)
          · refine Or.inr ⟨head :: before, item, after, fault, ?_, ?_, failed⟩
            · rw [split, List.cons_append]
            · exact List.forall_mem_cons.mpr ⟨⟨result, computed⟩, passed⟩

end ArcSelection.Fallible
