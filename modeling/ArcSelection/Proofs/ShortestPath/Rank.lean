import ArcSelection.Proofs.ShortestPath.Path
import Mathlib.Logic.Function.Basic

/-!
# The pass in which a label last changed

A node that a pass lowers got its new distance over an arc from a node that the same pass
or the one before lowered: an older label has offered its distance already. A way back to
a source therefore has at least as many arcs as the number of the pass in which its first
node was lowered. Passes end with settled labels, or with a node that the last of them
lowered.
-/

namespace ArcSelection

open Decimal Fallible ArcSelection.Graph

/-- The exact comparison of numbers is transitive. -/
theorem Decimal.Extended.less_trans {x y z : Extended} (low : Arithmetic.less x y = .ok true)
    (high : Arithmetic.less y z = .ok true) : Arithmetic.less x z = .ok true := by
  cases y with
  | nan | bottom => cases x <;> cases low
  | top => cases z <;> cases high
  | finite q =>
      cases x with
      | nan | top => cases low
      | bottom =>
          cases z with
          | nan | bottom => cases high
          | finite r => rfl
          | top => rfl
      | finite p =>
          cases z with
          | nan | bottom => cases high
          | top => rfl
          | finite r =>
              simp only [less_finite, Except.ok.injEq, decide_eq_true_eq] at low high ⊢
              exact low.trans high

/-- No number is less than itself. -/
theorem Decimal.Extended.less_irrefl (x : Extended) : Arithmetic.less x x ≠ .ok true := by
  cases x with
  | nan | bottom | top => nofun
  | finite q => simp

namespace ShortestPaths

variable {g : Graph} {cost : Arc → Except Fault Extended} {value : Arc → Rat}
  {sources : List Node}

/-- Trying an arc changes nothing, or gives its far end a smaller distance. -/
theorem relax_cases {m : Node} {d : Extended} {a : Arc} {s t : Sweep Extended}
    (relaxed : relax g cost m d s a = .ok t) :
    t = s ∨ ∃ c, Arithmetic.less c (distanceIn s.labels (g.other a m)) = .ok true ∧
      t = ⟨s.labels.insert (g.other a m) ⟨c, some a⟩, some (g.other a m)⟩ := by
  obtain ⟨w, _, added⟩ := bind_eq_ok_iff.mp relaxed
  obtain ⟨c, _, tested⟩ := bind_eq_ok_iff.mp added
  obtain ⟨less, compared, chosen⟩ := bind_eq_ok_iff.mp tested
  cases less with
  | false =>
      cases chosen
      exact .inl rfl
  | true =>
      cases chosen
      exact .inr ⟨c, compared, rfl⟩

/-- What trying an arc keeps, a pass keeps. -/
theorem sweep_keeps {Keeps : Sweep Extended → Prop} {labels : PathLabels Extended}
    {t : Sweep Extended}
    (step : ∀ m d a s t, Keeps s → relax g cost m d s a = .ok t → Keeps t)
    (initial : Keeps ⟨labels, none⟩) (swept : sweep g cost labels = .ok t) : Keeps t := by
  refine foldlM_keeps (fun m s t holds expanded => ?_) initial swept
  exact foldlM_keeps (fun a s t => step m _ a s t) holds expanded

/-- The node a pass names as lowered last has another label than at its start. -/
theorem label_changed_of_lowered {labels : PathLabels Extended} {t : Sweep Extended}
    (swept : sweep g cost labels = .ok t) {n : Node} (lowered : t.lowered = some n) :
    t.labels.get? n ≠ labels.get? n := by
  -- Distances only fall, and that of the node lowered last has fallen.
  let Below (s : Sweep Extended) (n : Node) : Prop :=
    Arithmetic.less (distanceIn s.labels n) (distanceIn labels n) = .ok true
  let Keeps (s : Sweep Extended) : Prop :=
    (∀ n, distanceIn s.labels n = distanceIn labels n ∨ Below s n) ∧
      ∀ n, s.lowered = some n → Below s n
  have kept : Keeps t := by
    refine sweep_keeps (fun m d a s t holds relaxed => ?_) ⟨fun _ => .inl rfl, nofun⟩ swept
    rcases relax_cases relaxed with rfl | ⟨c, less, rfl⟩
    · exact holds
    · have fallen : Below ⟨s.labels.insert (g.other a m) ⟨c, some a⟩, some (g.other a m)⟩
          (g.other a m) := by
        simp only [Below, distanceIn, OrderedMap.get?_insert_self]
        rcases holds.1 (g.other a m) with same | below
        · exact (congrArg (Arithmetic.less c) same).symm.trans less
        · exact Extended.less_trans less below
      refine ⟨fun n => ?_, fun n named => ?_⟩
      · by_cases far : g.other a m = n
        · exact .inr (far ▸ fallen)
        · simpa only [Below, distanceIn, OrderedMap.get?_insert_of_ne _ far] using holds.1 n
      · cases named
        exact fallen
  intro same
  have fallen : Below t n := kept.2 n lowered
  simp only [Below, distanceIn, same] at fallen
  exact Extended.less_irrefl _ fallen

/-- During a pass, the number of the pass that lowered each node last, zero for a label
that no pass has changed. -/
structure Ranked (g : Graph) (value : Arc → Rat) (pass : Nat) (labels : PathLabels Extended)
    (rank : Node → Nat) : Prop where
  atMost : ∀ n, rank n ≤ pass
  origin : ∀ n, (labels.get? n).bind (·.arc) = none → rank n = 0
  behind : ∀ n d a, labels.get? n = some ⟨d, some a⟩ → rank n ≤ rank (g.other a n) + 1
  tried : ∀ m d arc, labels.get? m = some ⟨.finite d, arc⟩ → rank m + 1 < pass →
    ∀ a n, g.Leads a m n → Within labels n (d + value a)

namespace Ranked

variable {labels labels' : PathLabels Extended} {pass : Nat} {rank : Node → Nat}

/-- Before the first pass no label has changed. -/
theorem sourceLabels : Ranked g value 1 (sourceLabels g sources) fun _ => 0 where
  atMost _ := Nat.zero_le 1
  origin _ _ := rfl
  behind _ _ _ _ := Nat.zero_le _
  tried _ _ _ _ early := absurd early (Nat.lt_irrefl 1)

/-- A change of a label comes from a node that this pass or the one before lowered. -/
theorem lowering (ranked : Ranked g value pass labels rank)
    (lowering : Lowering g value sources labels labels') :
    ∃ rank', Ranked g value pass labels' rank' ∧
      ∀ n, rank' n < pass → rank n < pass ∧ labels'.get? n = labels.get? n := by
  have lowered := @lowering.within
  cases lowering with
  | @along as a m k reaches near leads lower =>
      have recent : pass ≤ rank m + 1 := by
        by_contra early
        obtain ⟨d, arc, found, below⟩ := near
        have tried := ranked.tried m d arc found (Nat.lt_of_not_le early) a k leads
        exact lower (tried.mono (add_le_add_left below _))
      have grows : ∀ n, rank n ≤ Function.update rank k pass n := by
        intro n
        by_cases same : n = k
        · subst same
          simpa using ranked.atMost n
        · simp [same]
      have elsewhere : ∀ n, Function.update rank k pass n < pass → n ≠ k := by
        rintro n early rfl
        simp at early
      refine ⟨Function.update rank k pass, ⟨fun n => ?_, fun n noArc => ?_,
        fun n d b found => ?_, fun n d arc found early b j leadsHere => ?_⟩, fun n early => ?_⟩
      · by_cases same : n = k
        · simp [same]
        · simpa [same] using ranked.atMost n
      · by_cases same : n = k
        · simp [same] at noArc
        · rw [OrderedMap.get?_insert_of_ne _ (Ne.symm same)] at noArc
          simpa [same] using ranked.origin n noArc
      · rw [OrderedMap.get?_insert] at found
        split at found
        · cases found
          obtain rfl := beq_iff_eq.mp ‹_›
          rw [leads.other_back, Function.update_self]
          exact recent.trans (Nat.add_le_add_right (grows m) 1)
        · have same : n ≠ k := fun same => ‹¬ _› (by simp [same])
          rw [Function.update_of_ne same]
          exact (ranked.behind n d b found).trans (Nat.add_le_add_right (grows _) 1)
      · have same := elsewhere n (by omega)
        rw [OrderedMap.get?_insert_of_ne _ (Ne.symm same)] at found
        rw [Function.update_of_ne same] at early
        exact lowered (ranked.tried n d arc found early b j leadsHere)
      · have same := elsewhere n early
        rw [Function.update_of_ne same] at early
        exact ⟨early, OrderedMap.get?_insert_of_ne _ (Ne.symm same) _⟩

/-- Labels that are lowered in a pass rise in rank, and the others stay. -/
theorem lowerings (ranked : Ranked g value pass labels rank)
    (lowerings : Lowerings g value sources labels labels') :
    ∃ rank', Ranked g value pass labels' rank' ∧
      ∀ n, rank' n < pass → labels'.get? n = labels.get? n := by
  suffices kept : ∃ rank', Ranked g value pass labels' rank' ∧
      ∀ n, rank' n < pass → rank n < pass ∧ labels'.get? n = labels.get? n by
    obtain ⟨rank', ranked', untouched⟩ := kept
    exact ⟨rank', ranked', fun n early => (untouched n early).2⟩
  induction lowerings with
  | refl => exact ⟨rank, ranked, fun n early => ⟨early, rfl⟩⟩
  | tail _ step ih =>
      obtain ⟨middle, rankedMiddle, untouched⟩ := ih
      obtain ⟨rank', ranked', same⟩ := rankedMiddle.lowering step
      refine ⟨rank', ranked', fun n early => ?_⟩
      obtain ⟨earlyMiddle, here⟩ := same n early
      obtain ⟨earlyStart, before⟩ := untouched n earlyMiddle
      exact ⟨earlyStart, here.trans before⟩

/-- After a pass every label it has not changed has been tried. -/
theorem next (ranked : Ranked g value pass labels' rank)
    (tried : ∀ m d arc, labels.get? m = some ⟨.finite d, arc⟩ → ∀ a n, g.Leads a m n →
      Within labels' n (d + value a))
    (untouched : ∀ n, rank n < pass → labels'.get? n = labels.get? n) :
    Ranked g value (pass + 1) labels' rank where
  atMost n := (ranked.atMost n).trans (Nat.le_succ pass)
  origin := ranked.origin
  behind := ranked.behind
  tried m d arc found early :=
    tried m d arc ((untouched m (Nat.lt_of_succ_lt_succ early)).symm.trans found)

/-- A way back to a source is as long as the number of the pass that lowered its first
node last. -/
theorem le_length (ranked : Ranked g value pass labels rank) {n : Node} {as : List Arc}
    (way : WayBack g labels n as) : rank n ≤ as.length := by
  induction way with
  | origin found => exact (ranked.origin _ (by simp [found])).le
  | @step n d a as found _ ih =>
      calc
        rank n ≤ rank (g.other a n) + 1 := ranked.behind n d a found
        _ ≤ as.length + 1 := Nat.add_le_add_right ih 1

end Ranked

variable (lawful : g.Lawful) (costs : ∀ a ∈ g.arcs .all, cost a = .ok (.finite (value a)))

include lawful costs

/-- Passes end with settled labels or with a node that the last of them lowered. -/
theorem settle_cases (passes : Nat) {pass : Nat} {s : Sweep Extended} {rank : Node → Nat}
    (sound : Sound g value sources s.labels) (ranked : Ranked g value pass s.labels rank) :
    ∃ t, settle g cost passes s = .ok t ∧ Lowerings g value sources s.labels t.labels ∧
      (passes = 0 ∧ t = s ∨ t.lowered = none ∧ Settled g value sources t.labels ∨
        0 < passes ∧ ∃ n rank', t.lowered = some n ∧
          Ranked g value (pass + passes) t.labels rank' ∧ pass + passes ≤ rank' n + 1) := by
  induction passes generalizing s pass rank with
  | zero => exact ⟨s, rfl, .refl, .inl ⟨rfl, rfl⟩⟩
  | succ passes ih =>
      obtain ⟨next, swept, progress, tried⟩ := sweep_ok lawful costs sound
      obtain ⟨rank', during, untouched⟩ := ranked.lowerings progress.lowerings
      cases lowered : next.lowered with
      | none =>
          obtain rfl : next = ⟨s.labels, none⟩ := by
            rcases progress with rfl | ⟨some, _⟩
            · rfl
            · simp [lowered] at some
          refine ⟨⟨s.labels, none⟩, ?_, .refl, .inr (.inl ⟨rfl, sound.settled tried⟩)⟩
          simp [settle, swept, bind, Except.bind, pure, Except.pure]
      | some n =>
          have recent : pass ≤ rank' n := by
            by_contra early
            exact label_changed_of_lowered swept lowered (untouched n (Nat.lt_of_not_le early))
          obtain ⟨t, settled, lowerings, outcome⟩ :=
            ih (sound.lowerings progress.lowerings) (during.next tried untouched)
          refine ⟨t, by simp [settle, swept, bind, Except.bind, lowered, settled],
            progress.lowerings.trans lowerings, .inr ?_⟩
          rcases outcome with ⟨rfl, rfl⟩ | stopped | ⟨_, k, rank, last, final, late⟩
          · exact .inr ⟨Nat.one_pos, n, rank', lowered, during.next tried untouched,
              Nat.add_le_add_right recent 1⟩
          · exact .inl stopped
          · exact .inr ⟨Nat.succ_pos passes, k, rank, last,
              by rwa [Nat.add_right_comm] at final, by omega⟩

end ShortestPaths

end ArcSelection
