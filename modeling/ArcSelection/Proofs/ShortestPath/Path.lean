import ArcSelection.Proofs.ShortestPath.Settle

/-!
# Ways back to a source

The arcs that gave the labels lead back from every reached node to a source. A change of
one label could only close such a way into itself over a closed walk with a negative
total. A way back passes no node twice, so it is shorter than the number of labels.
-/

namespace ArcSelection

open Decimal ArcSelection.Graph

namespace ShortestPaths

variable {g : Graph} {value : Arc → Rat} {sources : List Node}
  {labels labels' : PathLabels Extended}

/-- The arcs that gave the labels, from a node back to one that no arc gave, last arc
first. -/
inductive WayBack (g : Graph) (labels : PathLabels Extended) : Node → List Arc → Prop where
  | origin {n : Node} {d : Extended} (found : labels.get? n = some ⟨d, none⟩) :
      WayBack g labels n []
  | step {n : Node} {d : Extended} {a : Arc} {as : List Arc}
      (found : labels.get? n = some ⟨d, some a⟩) (rest : WayBack g labels (g.other a n) as) :
      WayBack g labels n (a :: as)

/-- Every reached node has a way back. -/
def Rooted (g : Graph) (labels : PathLabels Extended) : Prop :=
  ∀ n l, labels.get? n = some l → ∃ as, WayBack g labels n as

theorem Rooted.sourceLabels : Rooted g (sourceLabels g sources) := by
  intro n l found
  refine ⟨[], .origin (d := .finite 0) ?_⟩
  rw [get?_sourceLabels] at found ⊢
  split at found
  · simp [*]
  · cases found

namespace WayBack

variable {n : Node} {as : List Arc}

/-- Labels that agree except at one node have the same ways back, up to this node. -/
theorem of_agree (way : WayBack g labels n as) {k : Node}
    (agree : ∀ m, m ≠ k → labels'.get? m = labels.get? m)
    (there : ∃ bs, WayBack g labels' k bs) : ∃ bs, WayBack g labels' n bs := by
  induction way with
  | @origin n d found =>
      by_cases same : n = k
      · exact same ▸ there
      · exact ⟨[], .origin ((agree n same).trans found)⟩
  | @step n d a as found rest ih =>
      by_cases same : n = k
      · exact same ▸ there
      · obtain ⟨bs, back⟩ := ih
        exact ⟨a :: bs, .step ((agree n same).trans found) back⟩

/-- Where labels agree except at one node, a way back stays unless it passes this node,
and then a walk leads from there no longer than the distances tell. -/
theorem of_agree_or_walk (sound : Sound g value sources labels) (way : WayBack g labels n as)
    {k : Node} (agree : ∀ m, m ≠ k → labels'.get? m = labels.get? m) :
    (∃ bs, WayBack g labels' n bs) ∨ ∃ d arc bs, labels.get? k = some ⟨.finite d, arc⟩ ∧
      g.Walk k bs n ∧ ∀ q, Within labels n q → d + total value bs ≤ q := by
  induction way with
  | @origin n d found =>
      by_cases same : n = k
      · subst same
        obtain ⟨bs, _, distanceEq⟩ := sound.attained n _ found
        cases distanceEq
        refine .inr ⟨_, none, [], found, .nil n, fun q within => ?_⟩
        simpa using (within_iff found q).mp within
      · exact .inl ⟨[], .origin ((agree n same).trans found)⟩
  | @step n d a as found rest ih =>
      obtain ⟨cs, _, distanceEq⟩ := sound.attained n _ found
      cases distanceEq
      by_cases same : n = k
      · subst same
        refine .inr ⟨_, some a, [], found, .nil n, fun q within => ?_⟩
        simpa using (within_iff found q).mp within
      · rcases ih with ⟨bs, back⟩ | ⟨d, arc, bs, there, walk, least⟩
        · exact .inl ⟨a :: bs, .step ((agree n same).trans found) back⟩
        · obtain ⟨m, leads, near⟩ := sound.behind n _ a found
          obtain rfl := leads.other_back
          refine .inr ⟨d, arc, bs ++ [a], there, walk.snoc leads, fun q within => ?_⟩
          have before := least _ near
          have here := (within_iff found q).mp within
          simp only [total_append, total_cons, total_nil]
          linarith

end WayBack

/-- A change of a label keeps the ways back where no closed walk with a negative total can
be reached. -/
theorem Rooted.lowering (rooted : Rooted g labels) (sound : Sound g value sources labels)
    (noCycle : g.NoNegativeCycle value sources)
    (lowering : Lowering g value sources labels labels') : Rooted g labels' := by
  cases lowering with
  | @along as a m k reaches near leads lower =>
      have agree : ∀ n, n ≠ k →
          (labels.insert k ⟨.finite (total value as + value a), some a⟩).get? n =
            labels.get? n :=
        fun n different => OrderedMap.get?_insert_of_ne _ (Ne.symm different) _
      have ⟨_, _, foundBehind, _⟩ := near
      obtain ⟨bs, back⟩ := rooted m _ foundBehind
      have there : ∃ cs, WayBack g
          (labels.insert k ⟨.finite (total value as + value a), some a⟩) k cs := by
        rcases back.of_agree_or_walk sound agree with ⟨cs, way⟩ | ⟨d, arc, cs, found, walk, least⟩
        · refine ⟨a :: cs, .step (OrderedMap.get?_insert_self _ _ _) ?_⟩
          rwa [leads.other_back]
        · exfalso
          obtain ⟨ds, reachesHere, _⟩ := sound.attained k _ found
          have closed := noCycle ds k reachesHere (cs ++ [a]) (walk.snoc leads)
          have short := least _ near
          rw [within_iff found, not_le] at lower
          simp only [total_append, total_cons, total_nil] at closed
          linarith
      intro n l found
      by_cases same : n = k
      · exact same ▸ there
      · rw [agree n same] at found
        obtain ⟨cs, way⟩ := rooted n l found
        exact way.of_agree agree there

/-- Lowering labels keeps them rooted if no cycle is negative. -/
theorem Rooted.lowerings (rooted : Rooted g labels) (sound : Sound g value sources labels)
    (noCycle : g.NoNegativeCycle value sources)
    (lowerings : Lowerings g value sources labels labels') : Rooted g labels' := by
  induction lowerings with
  | refl => exact rooted
  | tail before step ih => exact ih.lowering (sound.lowerings before) noCycle step

namespace WayBack

variable {n : Node} {as bs : List Arc}

/-- There is one way back. -/
theorem unique (way : WayBack g labels n as) (other : WayBack g labels n bs) : as = bs := by
  induction way generalizing bs with
  | origin found =>
      cases other with
      | origin => rfl
      | step found' => cases found.symm.trans found'
  | step found _ ih =>
      cases other with
      | origin found' => cases found.symm.trans found'
      | step found' rest' =>
          cases found.symm.trans found'
          rw [ih rest']

/-- The nodes on a way back are reached and different, and the ways back from them are
no longer. -/
theorem nodes (way : WayBack g labels n as) :
    ∃ ns : List Node, ns.length = as.length + 1 ∧ ns.Nodup ∧
      ∀ m ∈ ns, m ∈ labels.keys ∧ ∃ bs, WayBack g labels m bs ∧ bs.length ≤ as.length := by
  have listed : ∀ n l, labels.get? n = some l → n ∈ labels.keys :=
    fun n l found => (OrderedMap.mem_keys_iff_get? labels n).mpr ⟨l, found⟩
  induction way with
  | @origin n d found =>
      refine ⟨[n], rfl, List.nodup_singleton n, fun m member => ?_⟩
      obtain rfl := List.mem_singleton.mp member
      exact ⟨listed m _ found, [], .origin found, le_rfl⟩
  | @step n d a as found rest ih =>
      obtain ⟨ns, length, nodup, each⟩ := ih
      have here : WayBack g labels n (a :: as) := .step found rest
      refine ⟨n :: ns, by simp [length], List.nodup_cons.mpr ⟨fun again => ?_, nodup⟩,
        fun m member => ?_⟩
      · obtain ⟨_, bs, back, shorter⟩ := each n again
        rw [back.unique here, List.length_cons] at shorter
        omega
      · rcases List.mem_cons.mp member with rfl | later
        · exact ⟨listed m _ found, a :: as, here, le_rfl⟩
        · obtain ⟨reached, bs, back, shorter⟩ := each m later
          exact ⟨reached, bs, back, shorter.trans (Nat.le_succ _)⟩

/-- A way back is shorter than the number of reached nodes. -/
theorem length_lt_size (way : WayBack g labels n as) : as.length < labels.size := by
  obtain ⟨ns, length, nodup, each⟩ := way.nodes
  have atMost := (List.subperm_of_subset nodup fun m member => (each m member).1).length_le
  have size : labels.keys.length = labels.size := by simp [OrderedMap.keys, OrderedMap.size]
  omega

/-- Going back over the labels finds the way back. -/
theorem arcsBack_eq (way : WayBack g labels n as) {fuel : Nat} (enough : as.length < fuel) :
    arcsBack g labels fuel n = as := by
  induction way generalizing fuel with
  | origin found =>
      cases fuel with
      | zero => cases enough
      | succ fuel => simp [arcsBack, found]
  | step found _ ih =>
      cases fuel with
      | zero => cases enough
      | succ fuel => simp [arcsBack, found, ih (Nat.lt_of_succ_lt_succ enough)]

/-- A way back is a walk from a source, taken backwards, and no longer than the distance
tells. -/
theorem reaches (sound : Sound g value sources labels) (way : WayBack g labels n as) :
    g.Reaches sources as.reverse n ∧ ∀ q, Within labels n q → total value as.reverse ≤ q := by
  induction way with
  | @origin n d found =>
      obtain ⟨given, present, distanceEq⟩ := sound.origin n _ found rfl
      cases distanceEq
      exact ⟨⟨n, given, present, .nil n⟩, fun q within => by
        simpa using (within_iff found q).mp within⟩
  | @step n d a as found _ ih =>
      obtain ⟨cs, _, distanceEq⟩ := sound.attained n _ found
      cases distanceEq
      obtain ⟨m, leads, near⟩ := sound.behind n _ a found
      obtain rfl := leads.other_back
      obtain ⟨walk, least⟩ := ih
      rw [List.reverse_cons]
      refine ⟨walk.snoc leads, fun q within => ?_⟩
      have before := least _ near
      have here := (within_iff found q).mp within
      simp only [total_append, total_cons, total_nil]
      linarith

end WayBack

end ShortestPaths

end ArcSelection
