import ArcSelection.Proofs.ShortestPath.Loop

/-!
# Negative cycles

A search reports a cycle exactly if a closed walk with a negative total can be reached
from a source. The cycle it reports is such a walk and passes no node twice; going back
over the labels to find it meets no source and comes round.
-/

namespace ArcSelection

open Decimal Fallible ArcSelection.Graph

namespace Graph

/-- The nodes that the arcs of a walk leave, in the order they are passed. -/
def stops (g : Graph) : Node → List Arc → List Node
  | _, [] => []
  | m, a :: as => m :: g.stops (g.other a m) as

/-- A walk with one more arc has one more stop. -/
theorem stops_snoc {g : Graph} {m n : Node} {as : List Arc} (walk : g.Walk m as n) (a : Arc) :
    g.stops m (as ++ [a]) = g.stops m as ++ [n] := by
  induction walk with
  | nil n => rfl
  | cons leads _ ih =>
      rw [List.cons_append, stops, leads.other_eq, ih, stops, leads.other_eq, List.cons_append]

/-- A closed walk with a negative total that can be reached from a source and passes no
node twice. -/
structure NegativeCycle (g : Graph) (value : Arc → Rat) (sources : List Node) (start : Node)
    (as : List Arc) : Prop where
  notEmpty : as ≠ []
  closed : g.Walk start as start
  simple : (g.stops start as).Nodup
  reached : ∃ bs, g.Reaches sources bs start
  negative : total value as < 0

end Graph

namespace ShortestPaths

/-- Behind the node the labels run into the cycle: as many steps back as the graph has
nodes meet no source, and the way round ends however many more steps are allowed. -/
structure RunsInto (g : Graph) (labels : PathLabels Extended) (n start : Node)
    (cycle : List Arc) : Prop where
  stepBack : stepBack g labels g.nodeCount n = some start
  around : ∀ fuel, labels.size ≤ fuel → arcsBackTo g labels start fuel start = some cycle.reverse

/-- The cycle behind a node is the one it runs into. -/
theorem RunsInto.cycleBehind_eq {g : Graph} {labels : PathLabels Extended} {n start : Node}
    {cycle : List Arc} (runs : RunsInto g labels n start cycle) :
    cycleBehind g labels n = some cycle := by
  simp [cycleBehind, runs.stepBack, runs.around _ (Nat.le_succ _)]

variable {g : Graph} {cost : Arc → Except Fault Extended} {value : Arc → Rat}
  {sources : List Node} {labels : PathLabels Extended}

/-- Settled labels leave no closed walk with a negative total. -/
theorem Settled.noNegativeCycle (settled : Settled g value sources labels)
    (sound : Sound g value sources labels) : g.NoNegativeCycle value sources := by
  rintro as n ⟨s, given, present, walk⟩ bs closed
  obtain ⟨d, arc, found, _⟩ := settled as n ⟨s, given, present, walk⟩
  obtain ⟨cs, ⟨s', given', present', attains⟩, distanceEq⟩ := sound.attained n _ found
  cases distanceEq
  have again := settled (cs ++ bs) n ⟨s', given', present', attains.append closed⟩
  rw [within_iff found, total_append] at again
  linarith

/-- Labels belong to nodes of the graph. -/
theorem Sound.size_le (sound : Sound g value sources labels) (lawful : g.Lawful) :
    labels.size ≤ g.nodes.length := by
  have inside : ∀ n ∈ labels.keys, n ∈ g.nodes := by
    intro n listed
    obtain ⟨l, found⟩ := (OrderedMap.mem_keys_iff_get? labels n).mp listed
    obtain ⟨as, ⟨s, _, present, walk⟩, _⟩ := sound.attained n l found
    exact walk.mem_nodes lawful.toListsArcs ((lawful.mem_nodes s).mpr present)
  have size : labels.keys.length = labels.size := by simp [OrderedMap.keys, OrderedMap.size]
  exact size ▸ (List.subperm_of_subset labels.nodup_keys inside).length_le

namespace Endless

variable {n : Node} (endless : Endless g labels n)

include endless

/-- The stops of the arcs behind a node are the nodes behind it. -/
theorem stops_arcsBehind (sound : Sound g value sources labels) (steps : Nat) :
    g.stops ((nodeBehind g labels)^[steps] n) (arcsBehind g labels steps n).reverse =
      ((List.range steps).map fun i => (nodeBehind g labels)^[i + 1] n).reverse := by
  induction steps generalizing n with
  | zero => rfl
  | succ steps ih =>
      have walk := (endless.behind.backTo steps).walk sound
      rw [arcsBehind, List.reverse_cons, Function.iterate_succ_apply, stops_snoc walk,
        ih endless.behind, List.range_succ_eq_map, List.map_cons, List.reverse_cons, List.map_map]
      rfl

/-- The labels behind the node run into a negative cycle. -/
theorem runsInto (sound : Sound g value sources labels) (fall : LoopsFall g value labels)
    (enough : labels.size ≤ g.nodeCount) : ∃ start cycle, RunsInto g labels n start cycle ∧
      g.NegativeCycle value sources start cycle := by
  obtain ⟨period, positive, short, loop⟩ := endless.periodic enough
  generalize atStart : (nodeBehind g labels)^[g.nodeCount] n = start at loop
  have onward : Endless g labels start := atStart ▸ endless.iterate g.nodeCount
  -- The least period gives the loop that is passed once.
  obtain ⟨least, leastEq⟩ : ∃ least,
      Function.minimalPeriod (nodeBehind g labels) start = least + 1 :=
    Nat.exists_eq_succ_of_ne_zero (loop.minimalPeriod_pos positive).ne'
  have comesRound : (nodeBehind g labels)^[least + 1] start = start := by
    have := Function.iterate_minimalPeriod (f := nodeBehind g labels) (x := start)
    rwa [leastEq] at this
  have notBefore : ∀ i, 0 < i → i < least + 1 → (nodeBehind g labels)^[i] start ≠ start :=
    fun i later less => Function.not_isPeriodicPt_of_pos_of_lt_minimalPeriod later.ne'
      (by rw [leastEq]; exact less)
  have few : least + 1 ≤ labels.size := by
    have := loop.minimalPeriod_le positive
    omega
  have back := onward.backTo (least + 1)
  rw [comesRound] at back
  have notEmpty : arcsBehind g labels (least + 1) start ≠ [] := List.cons_ne_nil _ _
  refine ⟨start, (arcsBehind g labels (least + 1) start).reverse,
    ⟨(endless.stepBack_eq _).trans (congrArg some atStart), fun fuel fits => ?_⟩,
    by simpa using notEmpty, back.walk sound, ?_, ?_, ?_⟩
  · rw [List.reverse_reverse]
    exact onward.arcsBackTo_eq comesRound notBefore (by omega)
  · have stopsEq := onward.stops_arcsBehind sound (least + 1)
    rw [comesRound] at stopsEq
    have samePeriod := Function.minimalPeriod_apply (Function.mk_mem_periodicPts positive loop)
    rw [stopsEq, List.nodup_reverse]
    refine List.Nodup.map_on (fun i inRange j inRange' same => ?_) List.nodup_range
    rw [List.mem_range, ← leastEq, ← samePeriod] at inRange inRange'
    exact Function.iterate_injOn_Iio_minimalPeriod inRange inRange' same
  · obtain ⟨d, found⟩ := onward.found
    obtain ⟨as, reaches, _⟩ := sound.attained start _ found
    exact ⟨as, reaches⟩
  · have falls := fall start _ notEmpty back
    simpa [total] using falls

end Endless

variable (lawful : g.Lawful) (counted : g.nodeCount = g.nodes.length)
  (costs : ∀ a ∈ g.arcs .all, cost a = .ok (.finite (value a)))

include lawful counted costs

/-- Passes leave nothing to lower, and then no closed walk with a negative total can be
reached, or a node behind which the labels run into one. -/
theorem settle_outcome :
    ∃ t, settle g cost g.nodeCount ⟨sourceLabels g sources, none⟩ = .ok t ∧
      (t.lowered = none ∧ g.NoNegativeCycle value sources ∨
        ∃ n start cycle, t.lowered = some n ∧ RunsInto g t.labels n start cycle ∧
          g.NegativeCycle value sources start cycle) := by
  have initial : Sound g value sources (sourceLabels g sources) := .sourceLabels
  obtain ⟨t, passed, lowerings, outcome⟩ := settle_cases lawful costs g.nodeCount
    (s := ⟨sourceLabels g sources, none⟩) initial Ranked.sourceLabels
  have sound := initial.lowerings lowerings
  refine ⟨t, passed, ?_⟩
  rcases outcome with ⟨noNodes, rfl⟩ | ⟨idle, settled⟩ | ⟨some, n, rank, lowered, ranked, late⟩
  · refine .inl ⟨rfl, ?_⟩
    rintro as n ⟨s, _, present, _⟩
    have listed := (lawful.mem_nodes s).mpr present
    rw [List.length_eq_zero_iff.mp (counted.symm.trans noNodes)] at listed
    cases listed
  · exact .inl ⟨idle, settled.noNegativeCycle sound⟩
  · have enough : t.labels.size ≤ g.nodeCount := (sound.size_le lawful).trans_eq counted.symm
    have endless : Endless g t.labels n := .of_rank sound ranked (by omega) (by omega)
    obtain ⟨start, cycle, found⟩ :=
      endless.runsInto sound (LoopsFall.sourceLabels.lowerings initial lowerings) enough
    exact .inr ⟨n, start, cycle, lowered, found⟩

/-- A search reports a cycle exactly if a closed walk with a negative total can be reached
from a source. Then its passes end with a node that was just lowered, the labels behind
this node run into a negative cycle, and the search reports this cycle. -/
theorem search_finds_cycle :
    ∃ t p, settle g cost g.nodeCount ⟨sourceLabels g sources, none⟩ = .ok t ∧
      search g cost sources = .ok p ∧
      (p.cycle ≠ none ↔
        ∃ as n bs, g.Reaches sources as n ∧ g.Walk n bs n ∧ total value bs < 0) ∧
      (t.lowered = none ∧ p = ⟨t.labels, none⟩ ∨
        ∃ n start cycle, t.lowered = some n ∧ p = ⟨t.labels, some cycle⟩ ∧
          RunsInto g t.labels n start cycle ∧ g.NegativeCycle value sources start cycle) := by
  obtain ⟨t, passed, ⟨idle, noCycle⟩ | ⟨n, start, cycle, lowered, runs, negative⟩⟩ :=
    settle_outcome lawful counted costs
  · refine ⟨t, ⟨t.labels, none⟩, passed, ?_, ⟨fun some => absurd rfl some, ?_⟩,
      .inl ⟨idle, rfl⟩⟩
    · simp [search, passed, bind, Except.bind, idle, pure, Except.pure]
    · rintro ⟨as, n, bs, reaches, closed, below⟩
      exact absurd below (not_lt.mpr (noCycle as n reaches bs closed))
  · obtain ⟨bs, reaches⟩ := negative.reached
    refine ⟨t, ⟨t.labels, some cycle⟩, passed, ?_, ⟨fun _ => ?_, fun _ => nofun⟩,
      .inr ⟨n, start, cycle, lowered, rfl, runs, negative⟩⟩
    · simp [search, passed, bind, Except.bind, lowered, runs.cycleBehind_eq, pure, Except.pure]
    · exact ⟨bs, start, cycle, reaches, negative.closed, negative.negative⟩

omit lawful counted costs

/-- An edge below zero that a directed arc beside it does not make up for. -/
def sinkingValue (a : Arc) : Rat := if a = ⟨1⟩ then 1 else if a = ⟨2⟩ then -2 else 0

/-- A sinking loop is found. -/
theorem search_finds_cycle_mixedPair :
    mixedPair.graph.Lawful ∧ mixedPair.graph.nodeCount = mixedPair.graph.nodes.length ∧
      (∃ as n bs, mixedPair.graph.Reaches [⟨7⟩, ⟨2⟩] as n ∧ mixedPair.graph.Walk n bs n ∧
        total sinkingValue bs < 0) ∧
      ∃ p start cycle,
        search mixedPair.graph (fun a => .ok (Extended.finite (sinkingValue a)))
            [⟨7⟩, ⟨2⟩] = .ok p ∧
          p.cycle = some cycle ∧
          mixedPair.graph.NegativeCycle sinkingValue [⟨7⟩, ⟨2⟩] start cycle := by
  -- From the second node over the edge and back over the directed arc.
  have closed : mixedPair.graph.Walk ⟨2⟩ [⟨2⟩, ⟨1⟩] ⟨2⟩ :=
    .cons (k := ⟨1⟩) (by decide) (.cons (k := ⟨2⟩) (by decide) (.nil _))
  have sinks : ∃ as n bs, mixedPair.graph.Reaches [⟨7⟩, ⟨2⟩] as n ∧
      mixedPair.graph.Walk n bs n ∧ total sinkingValue bs < 0 :=
    ⟨[], ⟨2⟩, _, ⟨⟨2⟩, by decide, by decide, .nil _⟩, closed, by decide +kernel⟩
  have costs : ∀ a ∈ mixedPair.graph.arcs .all,
      (fun a => .ok (.finite (sinkingValue a)) : Arc → Except Fault Extended) a =
        .ok (.finite (sinkingValue a)) := fun _ _ => rfl
  obtain ⟨t, p, _, searched, iff, ⟨_, rfl⟩ | ⟨n, start, cycle, _, rfl, _, negative⟩⟩ :=
    @search_finds_cycle _ _ _ [⟨7⟩, ⟨2⟩] lawful_mixedPair rfl costs
  · exact absurd rfl (iff.mpr sinks)
  · exact ⟨lawful_mixedPair, rfl, sinks, _, start, cycle, searched, rfl, negative⟩

end ShortestPaths

end ArcSelection
