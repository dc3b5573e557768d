import ArcSelection.Proofs.ShortestPath.Labels

/-!
# Passes settle the labels

After a number of passes no walk with that many arcs is shorter than the distance of its
end. Where no closed walk with a negative total can be reached, walks with fewer arcs
than the graph has nodes are enough, so one pass for each node leaves the last of them
nothing to lower.
-/

namespace ArcSelection

open Decimal Fallible ArcSelection.Graph

/-- No closed walk with a negative total can be reached from a source. -/
def Graph.NoNegativeCycle (g : Graph) (value : Arc → Rat) (sources : List Node) : Prop :=
  ∀ as n, g.Reaches sources as n → ∀ bs, g.Walk n bs n → 0 ≤ total value bs

/-- Numbers for the nodes that no arc raises by more than its value rule out closed walks
with a negative total. -/
theorem Graph.NoNegativeCycle.of_potential {g : Graph} {value : Arc → Rat} (sources : List Node)
    (height : Node → Rat) (bounded : ∀ a m n, g.Leads a m n → height n ≤ height m + value a) :
    g.NoNegativeCycle value sources := by
  intro as n _ bs closed
  have raised := closed.potential bounded
  linarith

namespace ShortestPaths

/-- The source labels are those of the sources that belong to the graph. -/
theorem get?_sourceLabels (g : Graph) (sources : List Node) (n : Node) :
    (sourceLabels g sources : PathLabels Extended).get? n =
      if n ∈ sources ∧ g.hasNode n = true then some ⟨.finite 0, none⟩ else none := by
  have fromHere : ∀ (sources : List Node) (labels : PathLabels Extended),
      (sources.foldl (fun labels n =>
        if g.hasNode n then labels.insert n ⟨Arithmetic.origin, none⟩ else labels)
        labels).get? n =
      if n ∈ sources ∧ g.hasNode n = true then some ⟨.finite 0, none⟩ else labels.get? n := by
    intro sources
    induction sources with
    | nil => simp
    | cons s rest ih =>
        intro labels
        rw [List.foldl_cons, ih]
        by_cases later : n ∈ rest ∧ g.hasNode n = true
        · simp [later]
        · by_cases present : g.hasNode s = true
          · simp only [present, if_true, OrderedMap.get?_insert, beq_iff_eq]
            by_cases same : s = n
            · subst same
              simp [present]
            · simp [later, same, Ne.symm same]
          · by_cases same : n = s
            · simp [same, present]
            · simp [later, same, present]
  exact fromHere sources .empty

variable {g : Graph} {cost : Arc → Except Fault Extended} {value : Arc → Rat}
  {sources : List Node}

/-- The labels of sources tell walks without arcs. -/
theorem Sound.sourceLabels : Sound g value sources (sourceLabels g sources) := by
  have of_found : ∀ n l, (ShortestPaths.sourceLabels g sources).get? n = some l →
      (n ∈ sources ∧ g.hasNode n = true) ∧ l = ⟨Extended.finite 0, none⟩ := by
    intro n l found
    rw [get?_sourceLabels] at found
    split at found
    · exact ⟨‹_›, (Option.some.inj found).symm⟩
    · cases found
  refine ⟨fun n l found => ?_, fun n l found _ => ?_, fun n d a found => ?_,
    fun s given present => ?_⟩
  · obtain ⟨⟨given, present⟩, rfl⟩ := of_found n l found
    exact ⟨[], ⟨n, given, present, .nil n⟩, rfl⟩
  · obtain ⟨⟨given, present⟩, rfl⟩ := of_found n l found
    exact ⟨given, present, rfl⟩
  · cases (of_found n _ found).2
  · exact ⟨0, none, by simp [get?_sourceLabels, given, present], le_rfl⟩

/-- No walk of at most so many arcs is shorter than the distance of its end. -/
def Covers (g : Graph) (value : Arc → Rat) (sources : List Node) (k : Nat)
    (labels : PathLabels Extended) : Prop :=
  ∀ as n, g.Reaches sources as n → as.length ≤ k → Within labels n (total value as)

/-- No walk is shorter than the distance of its end. -/
def Settled (g : Graph) (value : Arc → Rat) (sources : List Node)
    (labels : PathLabels Extended) : Prop :=
  ∀ as n, g.Reaches sources as n → Within labels n (total value as)

variable {labels labels' : PathLabels Extended} {k : Nat}

/-- Labels that tell walks cover the walks without arcs. -/
theorem Sound.covers (sound : Sound g value sources labels) : Covers g value sources 0 labels := by
  rintro as n ⟨s, given, present, walk⟩ short
  cases List.eq_nil_of_length_eq_zero (Nat.le_zero.mp short)
  cases walk
  exact sound.sources n given present

/-- Trying every arc out of a reached node covers walks with one more arc. -/
theorem Covers.succ (covers : Covers g value sources k labels)
    (lowered : ∀ n q, Within labels n q → Within labels' n q)
    (tried : ∀ m d arc, labels.get? m = some ⟨.finite d, arc⟩ → ∀ a n, g.Leads a m n →
      Within labels' n (d + value a)) : Covers g value sources (k + 1) labels' := by
  rintro as n ⟨s, given, present, walk⟩ short
  rcases List.eq_nil_or_concat as with rfl | ⟨bs, a, rfl⟩
  · exact lowered n _ (covers [] n ⟨s, given, present, walk⟩ (Nat.zero_le k))
  · obtain ⟨m, before, leads⟩ := Walk.last (by simpa using walk)
    obtain ⟨d, arc, found, below⟩ := covers bs m ⟨s, given, present, before⟩
      (by simpa using short)
    refine (tried m d arc found a n leads).mono ?_
    simpa using below

/-- Labels that every arc out of a reached node leaves as they are cover all walks. -/
theorem Sound.settled (sound : Sound g value sources labels)
    (stable : ∀ m d arc, labels.get? m = some ⟨.finite d, arc⟩ → ∀ a n, g.Leads a m n →
      Within labels n (d + value a)) : Settled g value sources labels := by
  have covers : ∀ k, Covers g value sources k labels := by
    intro k
    induction k with
    | zero => exact sound.covers
    | succ k ih => exact ih.succ (fun _ _ => id) stable
  exact fun as n reaches => covers as.length as n reaches le_rfl

/-- Walks with fewer arcs than the graph has nodes are enough. -/
theorem Covers.settled (covers : Covers g value sources k labels) (lawful : g.Lawful)
    (noCycle : g.NoNegativeCycle value sources) (enough : g.nodes.length ≤ k + 1) :
    Settled g value sources labels := by
  rintro as n ⟨s, given, present, walk⟩
  obtain ⟨bs, shorter, few, cheap⟩ := walk.exists_shorter lawful.toListsArcs
    ((lawful.mem_nodes s).mpr present)
    (fun cs m reaches => noCycle cs m ⟨s, given, present, reaches⟩)
  exact (covers bs n ⟨s, given, present, shorter⟩ (by omega)).mono cheap

/-- Settled labels cannot be lowered. -/
theorem Settled.progress (settled : Settled g value sources labels) {t : Sweep Extended}
    (progress : Progress g value sources ⟨labels, none⟩ t) : t = ⟨labels, none⟩ := by
  rcases progress with rfl | ⟨_, changes⟩
  · rfl
  · obtain ⟨_, change, _⟩ := Relation.TransGen.head'_iff.mp changes
    cases change with
    | @along as a m n reaches near leads lower =>
        refine absurd ?_ lower
        simpa using settled (as ++ [a]) n (reaches.snoc leads)

variable (lawful : g.Lawful) (costs : ∀ a ∈ g.arcs .all, cost a = .ok (.finite (value a)))
  (noCycle : g.NoNegativeCycle value sources)

include lawful costs noCycle

/-- Passes end with settled labels if there are enough of them for the walks that are not
covered yet. -/
theorem settle_ok (passes : Nat) {s : Sweep Extended} (sound : Sound g value sources s.labels)
    (covers : Covers g value sources k s.labels) (enough : g.nodes.length ≤ k + passes)
    (idle : passes = 0 → s.lowered = none) :
    ∃ t, settle g cost passes s = .ok t ∧ t.lowered = none ∧
      Lowerings g value sources s.labels t.labels ∧ Settled g value sources t.labels := by
  induction passes generalizing s k with
  | zero => exact ⟨s, rfl, idle rfl, .refl, covers.settled lawful noCycle (by omega)⟩
  | succ passes ih =>
      obtain ⟨next, swept, progress, tried⟩ := sweep_ok lawful costs sound
      have coversNext := covers.succ (fun n q => progress.lowerings.within) tried
      cases lowered : next.lowered with
      | none =>
          obtain rfl : next = ⟨s.labels, none⟩ := by
            rcases progress with rfl | ⟨some, _⟩
            · rfl
            · simp [lowered] at some
          refine ⟨⟨s.labels, none⟩, ?_, rfl, .refl, sound.settled tried⟩
          simp [settle, swept, bind, Except.bind, pure, Except.pure]
      | some n =>
          -- The last pass starts with settled labels, so it is not the last.
          have more : passes = 0 → next.lowered = none := by
            rintro rfl
            rw [(covers.settled lawful noCycle enough).progress progress]
          obtain ⟨t, settled, final, lowerings, complete⟩ :=
            ih (sound.lowerings progress.lowerings) coversNext (by omega) more
          refine ⟨t, ?_, final, progress.lowerings.trans lowerings, complete⟩
          simp [settle, swept, bind, Except.bind, lowered, settled]

end ShortestPaths

end ArcSelection
