import ArcSelection.Proofs.ShortestPath.Rank
import Mathlib.Dynamics.PeriodicPts.Defs

/-!
# Ways back that never end

The arcs that gave the labels can lead from a node back to itself. Such a loop has a
negative total from the change that closes it on, and a later change either leaves it
alone or takes one of its nodes out. A node whose ways back all go on runs into a loop
within as many steps as there are labels.
-/

namespace ArcSelection

open Decimal ArcSelection.Graph

namespace ShortestPaths

variable {g : Graph} {value : Arc → Rat} {sources : List Node}
  {labels labels' : PathLabels Extended}

/-- The arcs that gave the labels lead from one node back to another, last arc first. -/
inductive BackTo (g : Graph) (labels : PathLabels Extended) : Node → List Arc → Node → Prop where
  | here (n : Node) : BackTo g labels n [] n
  | step {n m : Node} {d : Extended} {a : Arc} {as : List Arc}
      (found : labels.get? n = some ⟨d, some a⟩) (rest : BackTo g labels (g.other a n) as m) :
      BackTo g labels n (a :: as) m

namespace BackTo

variable {n m k : Node} {as bs : List Arc}

/-- Two ways back follow each other. -/
theorem append (first : BackTo g labels n as k) (second : BackTo g labels k bs m) :
    BackTo g labels n (as ++ bs) m := by
  induction first with
  | here => exact second
  | step found _ ih => exact .step found (ih second)

/-- A way back that ends at a node no arc gave is a whole way back. -/
theorem wayBack {d : Extended} (back : BackTo g labels n as m)
    (found : labels.get? m = some ⟨d, none⟩) : WayBack g labels n as := by
  induction back with
  | here => exact .origin found
  | step foundHere _ ih => exact .step foundHere (ih found)

/-- The arcs that gave the labels, taken forward, are a walk. -/
theorem walk (sound : Sound g value sources labels) (back : BackTo g labels n as m) :
    g.Walk m as.reverse n := by
  induction back with
  | here n => exact .nil n
  | @step n m d a as found _ ih =>
      obtain ⟨cs, _, distanceEq⟩ := sound.attained n _ found
      cases distanceEq
      obtain ⟨k, leads, _⟩ := sound.behind n _ a found
      obtain rfl := leads.other_back
      rw [List.reverse_cons]
      exact ih.snoc leads

/-- A way back from a reached node passes reached nodes. -/
theorem reached (sound : Sound g value sources labels) (back : BackTo g labels n as m)
    (start : ∃ l, labels.get? n = some l) : ∃ l, labels.get? m = some l := by
  induction back with
  | here => exact start
  | @step n m d a as found _ ih =>
      obtain ⟨cs, _, distanceEq⟩ := sound.attained n _ found
      cases distanceEq
      obtain ⟨k, leads, d', arc, foundBehind, _⟩ := sound.behind n _ a found
      obtain rfl := leads.other_back
      exact ih ⟨_, foundBehind⟩

/-- Distances fall along a way back at least as the arcs tell. -/
theorem within (sound : Sound g value sources labels) (back : BackTo g labels n as m) {q : Rat}
    (near : Within labels n q) : Within labels m (q - total value as) := by
  induction back generalizing q with
  | here => simpa using near
  | @step n m d a as found _ ih =>
      obtain ⟨cs, _, distanceEq⟩ := sound.attained n _ found
      cases distanceEq
      obtain ⟨k, leads, behind⟩ := sound.behind n _ a found
      obtain rfl := leads.other_back
      have here := (within_iff found q).mp near
      refine (ih (behind.mono (q := q - value a) (by linarith))).mono ?_
      rw [total_cons]
      linarith

/-- Where labels agree except at one node, a way back stays up to where it leaves this
node. -/
theorem of_agree (back : BackTo g labels' n as m)
    (agree : ∀ j, j ≠ k → labels'.get? j = labels.get? j) :
    BackTo g labels n as m ∨ ∃ bs cs, as = bs ++ cs ∧ cs ≠ [] ∧ BackTo g labels n bs k ∧
      BackTo g labels' n bs k ∧ BackTo g labels' k cs m := by
  induction back with
  | here n => exact .inl (.here n)
  | @step n m d a as found rest ih =>
      by_cases same : n = k
      · subst same
        exact .inr ⟨[], a :: as, rfl, List.cons_ne_nil a as, .here n, .here n, .step found rest⟩
      · have before := (agree n same).symm.trans found
        rcases ih with whole | ⟨bs, cs, rfl, notEmpty, first, first', second⟩
        · exact .inl (.step before whole)
        · exact .inr ⟨a :: bs, cs, rfl, notEmpty, .step before first, .step found first', second⟩

end BackTo

/-- Every way from a node back to itself has a negative total. -/
def LoopsFall (g : Graph) (value : Arc → Rat) (labels : PathLabels Extended) : Prop :=
  ∀ n as, as ≠ [] → BackTo g labels n as n → total value as < 0

namespace LoopsFall

/-- There is no loop of arcs behind sources. -/
theorem sourceLabels : LoopsFall g value (sourceLabels g sources) := by
  intro n as notEmpty back
  cases back with
  | here => exact absurd rfl notEmpty
  | step found _ =>
      rw [get?_sourceLabels] at found
      split at found <;> cases found

/-- A change of a label gives every loop it closes a negative total. -/
theorem lowering (fall : LoopsFall g value labels) (sound : Sound g value sources labels)
    (lowering : Lowering g value sources labels labels') : LoopsFall g value labels' := by
  cases lowering with
  | @along ds a m k reaches near leads lower =>
      have agree : ∀ j, j ≠ k →
          (labels.insert k ⟨.finite (total value ds + value a), some a⟩).get? j =
            labels.get? j :=
        fun j different => OrderedMap.get?_insert_of_ne _ (Ne.symm different) _
      -- Before the change the way back to `k` told a distance that was too large.
      have closing : ∀ bs, BackTo g labels m bs k → value a + total value bs < 0 := by
        intro bs back
        by_contra notNegative
        refine lower ((back.within sound near).mono ?_)
        linarith
      -- A loop at `k` is cut where it comes back to `k` for the first time.
      have here : ∀ as, as ≠ [] →
          BackTo g (labels.insert k ⟨.finite (total value ds + value a), some a⟩) k as k →
            total value as < 0 := by
        intro as notEmpty back
        induction length : as.length using Nat.strong_induction_on generalizing as with
        | _ size ih =>
            cases back with
            | here => exact absurd rfl notEmpty
            | @step _ _ _ b rest found back =>
                rw [OrderedMap.get?_insert_self] at found
                cases found
                rw [leads.other_back] at back
                rw [total_cons]
                rcases back.of_agree agree with whole | ⟨bs, cs, rfl, some, first, _, second⟩
                · exact closing rest whole
                · have shorter : cs.length < size := by
                    simp only [List.length_cons, List.length_append] at length
                    omega
                  have again := ih _ shorter cs some second rfl
                  have once := closing bs first
                  rw [total_append]
                  linarith
      intro n as notEmpty back
      rcases back.of_agree agree with whole | ⟨bs, cs, rfl, some, _, first, second⟩
      · exact fall n as notEmpty whole
      · have turned := here (cs ++ bs) (by simp [some]) (second.append first)
        rw [total_append] at turned ⊢
        linarith

/-- Lowering labels lets every loop fall. -/
theorem lowerings (fall : LoopsFall g value labels) (sound : Sound g value sources labels)
    (lowerings : Lowerings g value sources labels labels') : LoopsFall g value labels' := by
  induction lowerings with
  | refl => exact fall
  | tail before step ih => exact ih.lowering (sound.lowerings before) step

end LoopsFall

/-- The arc that gave the label of a node. -/
def arcBehind (labels : PathLabels Extended) (n : Node) : Arc :=
  ((labels.get? n).bind (·.arc)).getD .absent

/-- The node from which the label of a node was given. -/
def nodeBehind (g : Graph) (labels : PathLabels Extended) (n : Node) : Node :=
  g.other (arcBehind labels n) n

/-- The arcs that gave the labels from a node a number of steps back, last arc first. -/
def arcsBehind (g : Graph) (labels : PathLabels Extended) : (steps : Nat) → Node → List Arc
  | 0, _ => []
  | steps + 1, n =>
      arcBehind labels n :: arcsBehind g labels steps (nodeBehind g labels n)

@[simp] theorem length_arcsBehind (steps : Nat) (n : Node) :
    (arcsBehind g labels steps n).length = steps := by
  induction steps generalizing n with
  | zero => rfl
  | succ steps ih => simp [arcsBehind, ih]

/-- Every way back from the node goes on. -/
def Endless (g : Graph) (labels : PathLabels Extended) (n : Node) : Prop :=
  ∀ as m, BackTo g labels n as m → ∃ d a, labels.get? m = some ⟨d, some a⟩

namespace Endless

variable {n : Node}

/-- A label that more passes than there are labels have changed has no way back that
ends. -/
theorem of_rank {pass : Nat} {rank : Node → Nat} (sound : Sound g value sources labels)
    (ranked : Ranked g value pass labels rank) (late : labels.size ≤ rank n)
    (positive : 0 < rank n) : Endless g labels n := by
  intro as m back
  have start : ∃ l, labels.get? n = some l := by
    cases found : labels.get? n with
    | none =>
        have zero := ranked.origin n (by rw [found, Option.bind_none])
        omega
    | some l => exact ⟨l, rfl⟩
  obtain ⟨⟨d, arc⟩, found⟩ := back.reached sound start
  cases arc with
  | some a => exact ⟨d, a, found⟩
  | none =>
      have way := back.wayBack found
      have short := way.length_lt_size
      have long := ranked.le_length way
      omega

variable (endless : Endless g labels n)

include endless

/-- A node on an endless way back has an arc behind it. -/
theorem found : ∃ d, labels.get? n = some ⟨d, some (arcBehind labels n)⟩ := by
  obtain ⟨d, a, found⟩ := endless [] n (.here n)
  exact ⟨d, by simp [arcBehind, found]⟩

/-- The way back from the node behind is endless too. -/
theorem behind : Endless g labels (nodeBehind g labels n) := by
  obtain ⟨d, found⟩ := endless.found
  exact fun as m back => endless _ m (.step found back)

/-- The way back from any node behind is endless too. -/
theorem iterate (steps : Nat) : Endless g labels ((nodeBehind g labels)^[steps] n) := by
  induction steps generalizing n with
  | zero => exact endless
  | succ steps ih => exact ih endless.behind

/-- The arcs behind a node lead back to it. -/
theorem backTo (steps : Nat) :
    BackTo g labels n (arcsBehind g labels steps n) ((nodeBehind g labels)^[steps] n) := by
  induction steps generalizing n with
  | zero => exact .here n
  | succ steps ih =>
      obtain ⟨d, found⟩ := endless.found
      exact .step found (ih endless.behind)

/-- Stepping back goes over the nodes behind. -/
theorem stepBack_eq (steps : Nat) :
    stepBack g labels steps n = some ((nodeBehind g labels)^[steps] n) := by
  induction steps generalizing n with
  | zero => rfl
  | succ steps ih =>
      obtain ⟨d, found⟩ := endless.found
      simp only [stepBack, found, Option.bind_eq_bind, Option.bind_some]
      exact ih endless.behind

/-- Going back finds the arcs up to the first time the goal is met. -/
theorem arcsBackTo_eq {goal : Node} {steps : Nat}
    (met : (nodeBehind g labels)^[steps + 1] n = goal)
    (first : ∀ i, 0 < i → i < steps + 1 → (nodeBehind g labels)^[i] n ≠ goal) {fuel : Nat}
    (enough : steps < fuel) :
    arcsBackTo g labels goal fuel n = some (arcsBehind g labels (steps + 1) n) := by
  induction steps generalizing n fuel with
  | zero =>
      obtain ⟨fuel, rfl⟩ := Nat.exists_eq_succ_of_ne_zero (Nat.ne_of_gt enough)
      obtain ⟨d, found⟩ := endless.found
      have here : g.other (arcBehind labels n) n = goal := met
      simp [arcsBackTo, found, here, arcsBehind]
  | succ steps ih =>
      obtain ⟨fuel, rfl⟩ := Nat.exists_eq_succ_of_ne_zero (Nat.ne_of_gt (Nat.zero_lt_of_lt enough))
      obtain ⟨d, found⟩ := endless.found
      have notYet : g.other (arcBehind labels n) n ≠ goal := first 1 Nat.one_pos (by omega)
      have rest := ih endless.behind met
        (fun i positive less => first (i + 1) (Nat.succ_pos i) (by omega))
        (Nat.lt_of_succ_lt_succ enough)
      simp only [arcsBackTo, found, Option.bind_eq_bind, Option.bind_some, notYet, if_false]
      rw [show g.other (arcBehind labels n) n = nodeBehind g labels n from rfl, rest]
      rfl

/-- Going back as many steps as there are labels ends on a loop no longer than that. -/
theorem periodic {steps : Nat} (enough : labels.size ≤ steps) :
    ∃ period, 0 < period ∧ period ≤ labels.size ∧
      Function.IsPeriodicPt (nodeBehind g labels) period ((nodeBehind g labels)^[steps] n) := by
  have listed : ∀ i, (nodeBehind g labels)^[i] n ∈ labels.keys := by
    intro i
    obtain ⟨d, found⟩ := (endless.iterate i).found
    exact (OrderedMap.mem_keys_iff_get? labels _).mpr ⟨_, found⟩
  have many : labels.keys.toFinset.card < (Finset.range (labels.size + 1)).card := by
    rw [Finset.card_range, List.toFinset_card_of_nodup labels.nodup_keys]
    simp [OrderedMap.keys, OrderedMap.size]
  obtain ⟨i, inRange, j, inRange', different, same⟩ :=
    Finset.exists_ne_map_eq_of_card_lt_of_maps_to (f := fun i => (nodeBehind g labels)^[i] n)
      many fun i _ => List.mem_toFinset.mpr (listed i)
  rw [Finset.mem_range] at inRange inRange'
  -- From the first of the two equal nodes on, the way back repeats.
  have repeats : ∀ i j, i < j → j < labels.size + 1 →
      (nodeBehind g labels)^[i] n = (nodeBehind g labels)^[j] n →
      ∃ period, 0 < period ∧ period ≤ labels.size ∧ Function.IsPeriodicPt
        (nodeBehind g labels) period ((nodeBehind g labels)^[steps] n) := by
    intro i j less short equal
    refine ⟨j - i, Nat.sub_pos_of_lt less, by omega, ?_⟩
    have loop : Function.IsPeriodicPt (nodeBehind g labels) (j - i)
        ((nodeBehind g labels)^[i] n) := by
      rw [Function.IsPeriodicPt, Function.IsFixedPt, ← Function.iterate_add_apply,
        Nat.sub_add_cancel less.le, equal]
    have later := loop.apply_iterate (steps - i)
    rwa [← Function.iterate_add_apply, Nat.sub_add_cancel (by omega)] at later
  rcases Nat.lt_or_gt_of_ne different with less | more
  · exact repeats i j less inRange' same
  · exact repeats j i more inRange same.symm

end Endless

end ShortestPaths

end ArcSelection
