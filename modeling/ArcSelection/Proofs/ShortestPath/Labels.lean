import ArcSelection.Proofs.ExactNumber
import ArcSelection.Proofs.Fallible
import ArcSelection.Proofs.ShortestPath.Walk
import ArcSelection.ShortestPath
import Mathlib.Logic.Relation

/-!
# What a pass does to the labels

Labels only change when an arc offers its far end a distance that is smaller. `Lowering`
is this one change, and a pass is a sequence of such changes after which every arc out of
a node that was reached at its start has been tried. `Sound` holds of the labels at any
time: distances are totals of walks from a source, and the arc of a label leads from a
node that is at least as near as the distance says.
-/

namespace ArcSelection

open Decimal Fallible ArcSelection.Graph

/-- The arcs form a walk to the node from a source that belongs to the graph. -/
def Graph.Reaches (g : Graph) (sources : List Node) (as : List Arc) (n : Node) : Prop :=
  ∃ s ∈ sources, g.hasNode s = true ∧ g.Walk s as n

/-- A node is reached with one more arc. -/
theorem Graph.Reaches.snoc {g : Graph} {sources : List Node} {as : List Arc} {m n : Node}
    (reaches : g.Reaches sources as m) {a : Arc} (leads : g.Leads a m n) :
    g.Reaches sources (as ++ [a]) n := by
  obtain ⟨s, given, present, walk⟩ := reaches
  exact ⟨s, given, present, walk.snoc leads⟩

namespace ShortestPaths

/-- The node is reached, at a distance of at most the number. -/
def Within (labels : PathLabels Extended) (n : Node) (q : Rat) : Prop :=
  ∃ d arc, labels.get? n = some ⟨.finite d, arc⟩ ∧ d ≤ q

/-- A distance within one bound is within a greater one. -/
theorem Within.mono {labels : PathLabels Extended} {n : Node} {p q : Rat}
    (within : Within labels n p) (atMost : p ≤ q) : Within labels n q := by
  obtain ⟨d, arc, found, below⟩ := within
  exact ⟨d, arc, found, below.trans atMost⟩

/-- A label is within its bounds. -/
theorem within_iff {labels : PathLabels Extended} {n : Node} {d : Rat} {arc : Option Arc}
    (found : labels.get? n = some ⟨.finite d, arc⟩) (q : Rat) : Within labels n q ↔ d ≤ q := by
  simp [Within, found]

variable {g : Graph} {cost : Arc → Except Fault Extended} {value : Arc → Rat}
  {sources : List Node}

/-- What is true of the labels at any time. -/
structure Sound (g : Graph) (value : Arc → Rat) (sources : List Node)
    (labels : PathLabels Extended) : Prop where
  attained : ∀ n l, labels.get? n = some l →
    ∃ as, g.Reaches sources as n ∧ l.distance = .finite (total value as)
  origin : ∀ n l, labels.get? n = some l → l.arc = none →
    n ∈ sources ∧ g.hasNode n = true ∧ l.distance = .finite 0
  behind : ∀ n d a, labels.get? n = some ⟨.finite d, some a⟩ →
    ∃ m, g.Leads a m n ∧ Within labels m (d - value a)
  sources : ∀ s ∈ sources, g.hasNode s = true → Within labels s 0

/-- An arc from a reached node lowers the distance of its far end. -/
inductive Lowering (g : Graph) (value : Arc → Rat) (sources : List Node) :
    PathLabels Extended → PathLabels Extended → Prop where
  | along {labels : PathLabels Extended} {as : List Arc} {a : Arc} {m n : Node}
      (reaches : g.Reaches sources as m) (near : Within labels m (total value as))
      (leads : g.Leads a m n) (lower : ¬ Within labels n (total value as + value a)) :
      Lowering g value sources labels
        (labels.insert n ⟨.finite (total value as + value a), some a⟩)

/-- The labels after some number of changes. -/
abbrev Lowerings (g : Graph) (value : Arc → Rat) (sources : List Node) :
    PathLabels Extended → PathLabels Extended → Prop :=
  Relation.ReflTransGen (Lowering g value sources)

/-- Distances never grow. -/
theorem Lowering.within {labels labels' : PathLabels Extended}
    (lowering : Lowering g value sources labels labels') {n : Node} {q : Rat}
    (within : Within labels n q) : Within labels' n q := by
  cases lowering with
  | @along as a m far reaches near leads lower =>
      obtain ⟨d, arc, found, below⟩ := within
      by_cases same : far = n
      · subst same
        have less : total value as + value a < d := by
          by_contra notLess
          exact lower ⟨d, arc, found, not_lt.mp notLess⟩
        exact ⟨_, _, OrderedMap.get?_insert_self _ _ _, less.le.trans below⟩
      · exact ⟨d, arc, (OrderedMap.get?_insert_of_ne _ same _).trans found, below⟩

/-- Lowering labels keeps them within their bounds. -/
theorem Lowerings.within {labels labels' : PathLabels Extended}
    (lowerings : Lowerings g value sources labels labels') {n : Node} {q : Rat}
    (within : Within labels n q) : Within labels' n q := by
  induction lowerings with
  | refl => exact within
  | tail _ step ih => exact step.within ih

namespace Sound

variable {labels labels' : PathLabels Extended}

/-- A lowered label tells a walk. -/
theorem lowering (sound : Sound g value sources labels)
    (lowering : Lowering g value sources labels labels') : Sound g value sources labels' := by
  have lowered := @lowering.within
  cases lowering with
  | @along as a m far reaches near leads lower =>
      refine ⟨fun n l found => ?_, fun n l found isOrigin => ?_, fun n d b found => ?_,
        fun s given present => lowered (sound.sources s given present)⟩
      · rw [OrderedMap.get?_insert] at found
        split at found
        · cases found
          obtain rfl := beq_iff_eq.mp ‹_›
          exact ⟨as ++ [a], reaches.snoc leads, by simp⟩
        · exact sound.attained n l found
      · rw [OrderedMap.get?_insert] at found
        split at found
        · cases found
          cases isOrigin
        · exact sound.origin n l found isOrigin
      · rw [OrderedMap.get?_insert] at found
        split at found
        · cases found
          obtain rfl := beq_iff_eq.mp ‹_›
          exact ⟨m, leads, lowered (by simpa using near)⟩
        · obtain ⟨k, leadsHere, within⟩ := sound.behind n d b found
          exact ⟨k, leadsHere, lowered within⟩

/-- Labels that are lowered one by one tell walks. -/
theorem lowerings (sound : Sound g value sources labels)
    (lowerings : Lowerings g value sources labels labels') : Sound g value sources labels' := by
  induction lowerings with
  | refl => exact sound
  | tail _ step ih => exact ih.lowering step

end Sound

/-- What some part of a pass did: nothing, or at least one change, of which it knows the
node. -/
def Progress (g : Graph) (value : Arc → Rat) (sources : List Node)
    (before after : Sweep Extended) : Prop :=
  after = before ∨ after.lowered.isSome ∧
    Relation.TransGen (Lowering g value sources) before.labels after.labels

namespace Progress

variable {s t u : Sweep Extended}

/-- Progress lowers labels. -/
theorem lowerings (progress : Progress g value sources s t) :
    Lowerings g value sources s.labels t.labels := by
  rcases progress with rfl | ⟨_, changes⟩
  · exact .refl
  · exact changes.to_reflTransGen

/-- Progress may be made in two steps. -/
theorem trans (first : Progress g value sources s t) (second : Progress g value sources t u) :
    Progress g value sources s u := by
  rcases second with rfl | ⟨lowered, changes⟩
  · exact first
  · exact .inr ⟨lowered, .trans_right first.lowerings changes⟩

end Progress

/-- A number is less than the distance of a node unless the node is within it. -/
theorem Sound.less_distanceIn {labels : PathLabels Extended}
    (sound : Sound g value sources labels) (n : Node) (q : Rat) :
    ∃ less, Arithmetic.less (.finite q) (distanceIn labels n) = .ok less ∧
      (less = false ↔ Within labels n q) := by
  cases found : labels.get? n with
  | none =>
      refine ⟨true, by simp [distanceIn, found, Arithmetic.top], ?_⟩
      simp [Within, found]
  | some l =>
      obtain ⟨as, _, distanceEq⟩ := sound.attained n l found
      obtain ⟨distance, arc⟩ := l
      obtain rfl : distance = _ := distanceEq
      refine ⟨decide (q < total value as), by simp [distanceIn, found], ?_⟩
      simp [within_iff found]

/-- Trying an arc lowers its far end, or finds it near enough. -/
theorem relax_ok {s : Sweep Extended} (sound : Sound g value sources s.labels) {as : List Arc}
    {a : Arc} {m n : Node} (reaches : g.Reaches sources as m)
    (near : Within s.labels m (total value as)) (leads : g.Leads a m n)
    (costEq : cost a = .ok (.finite (value a))) :
    ∃ t, relax g cost m (.finite (total value as)) s a = .ok t ∧ Progress g value sources s t ∧
      Within t.labels n (total value as + value a) := by
  obtain ⟨less, tested, less_iff⟩ := sound.less_distanceIn n (total value as + value a)
  cases less with
  | false =>
      refine ⟨s, ?_, .inl rfl, less_iff.mp rfl⟩
      simp [relax, leads.other_eq, costEq, bind, Except.bind, tested, pure, Except.pure]
  | true =>
      refine ⟨⟨s.labels.insert n ⟨.finite (total value as + value a), some a⟩, some n⟩, ?_,
        .inr ⟨rfl, .single ?_⟩, ⟨_, _, OrderedMap.get?_insert_self _ _ _, le_rfl⟩⟩
      · simp [relax, leads.other_eq, costEq, bind, Except.bind, tested, pure, Except.pure]
      · exact .along reaches near leads fun within => by simpa using less_iff.mpr within

variable (lawful : g.Lawful) (costs : ∀ a ∈ g.arcs .all, cost a = .ok (.finite (value a)))

include lawful costs

/-- Expanding a reached node tries every arc that leads on from it. -/
theorem expand_ok {s : Sweep Extended} (sound : Sound g value sources s.labels) {m : Node}
    {d : Rat} {arc : Option Arc} (found : s.labels.get? m = some ⟨.finite d, arc⟩) :
    ∃ t, expand g cost s m = .ok t ∧ Progress g value sources s t ∧
      ∀ a n, g.Leads a m n → Within t.labels n (d + value a) := by
  obtain ⟨as, reaches, distanceEq⟩ := sound.attained m _ found
  cases distanceEq
  have captured : distanceIn s.labels m = .finite (total value as) := by simp [distanceIn, found]
  obtain ⟨t, expanded, progress, tried⟩ : ∃ t, expand g cost s m = .ok t ∧
      Progress g value sources s t ∧ ∀ a ∈ g.incidentArcs m .forward,
        Within t.labels (g.other a m) (total value as + value a) := by
    refine foldlM_ok (fun done t => Progress g value sources s t ∧
      ∀ a ∈ done, Within t.labels (g.other a m) (total value as + value a)) ⟨.inl rfl, nofun⟩ ?_
    rintro done a rest t split ⟨progress, tried⟩
    have leads := lawful.mem_incidentArcs_forward.mp
      (split ▸ List.mem_append_right done List.mem_cons_self)
    have near : Within t.labels m (total value as) :=
      progress.lowerings.within ⟨_, _, found, le_rfl⟩
    obtain ⟨u, relaxed, more, reached⟩ := relax_ok (sound.lowerings progress.lowerings) reaches
      near leads (costs a leads.1)
    refine ⟨u, captured ▸ relaxed, progress.trans more, fun b member => ?_⟩
    rcases List.mem_append.mp member with early | here
    · exact more.lowerings.within (tried b early)
    · obtain rfl := List.mem_singleton.mp here
      exact reached
  refine ⟨t, expanded, progress, fun a n leads => ?_⟩
  obtain rfl := leads.other_eq
  exact tried a (lawful.mem_incidentArcs_forward.mpr leads)

/-- A pass tries every arc that leads on from a node reached when it starts. -/
theorem sweep_ok {labels : PathLabels Extended} (sound : Sound g value sources labels) :
    ∃ t, sweep g cost labels = .ok t ∧ Progress g value sources ⟨labels, none⟩ t ∧
      ∀ m d arc, labels.get? m = some ⟨.finite d, arc⟩ → ∀ a n, g.Leads a m n →
        Within t.labels n (d + value a) := by
  obtain ⟨t, swept, progress, tried⟩ : ∃ t, sweep g cost labels = .ok t ∧
      Progress g value sources ⟨labels, none⟩ t ∧
      ∀ m ∈ labels.keys, ∀ d arc, labels.get? m = some ⟨.finite d, arc⟩ →
        ∀ a n, g.Leads a m n → Within t.labels n (d + value a) := by
    refine foldlM_ok (fun done t => Progress g value sources ⟨labels, none⟩ t ∧
      ∀ m ∈ done, ∀ d arc, labels.get? m = some ⟨.finite d, arc⟩ →
        ∀ a n, g.Leads a m n → Within t.labels n (d + value a)) ⟨.inl rfl, nofun⟩ ?_
    rintro done m rest t split ⟨progress, tried⟩
    obtain ⟨l, found⟩ := (OrderedMap.mem_keys_iff_get? labels m).mp
      (split ▸ List.mem_append_right done List.mem_cons_self)
    obtain ⟨as, _, distanceEq⟩ := sound.attained m l found
    have before : labels.get? m = some ⟨.finite (total value as), l.arc⟩ := by
      rw [found, ← distanceEq]
    -- The distance that is read may be smaller than the one at the start of the pass.
    obtain ⟨d', arc', now, below⟩ := progress.lowerings.within ⟨_, _, before, le_rfl⟩
    obtain ⟨u, expanded, more, reached⟩ := expand_ok lawful costs
      (sound.lowerings progress.lowerings) now
    refine ⟨u, expanded, progress.trans more, fun k member d arc foundHere a n leads => ?_⟩
    rcases List.mem_append.mp member with early | here
    · exact more.lowerings.within (tried k early d arc foundHere a n leads)
    · obtain rfl := List.mem_singleton.mp here
      cases before.symm.trans foundHere
      exact (reached a n leads).mono (add_le_add_left below _)
  refine ⟨t, swept, progress, fun m d arc found => tried m ?_ d arc found⟩
  exact (OrderedMap.mem_keys_iff_get? labels m).mpr ⟨_, found⟩

end ShortestPaths

end ArcSelection
