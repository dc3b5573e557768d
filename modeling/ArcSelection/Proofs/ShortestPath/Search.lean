import ArcSelection.Proofs.ShortestPath.Path

/-!
# Shortest paths from a set of sources

Where no closed walk with a negative total can be reached from a source, a search ends
without a cycle, reaches the nodes that a walk from a source reaches, and gives each the
least total of such walks and a walk with this total.
-/

namespace ArcSelection

open Decimal Fallible ArcSelection.Graph

namespace ShortestPaths

/-- The search tells the distance of the node and a shortest walk to it: the walk ends
however many more steps back are allowed. -/
structure Finds (g : Graph) (value : Arc → Rat) (sources : List Node)
    (p : ShortestPaths Extended) (n : Node) (as : List Arc) : Prop where
  reached : reached p n = true
  reaches : g.Reaches sources as n
  distance : distance p n = .finite (total value as)
  shortest : ∀ bs, g.Reaches sources bs n → total value as ≤ total value bs
  path : path p g n = .ok (some as)
  ends : ∀ fuel, p.labels.size ≤ fuel → (arcsBack g p.labels fuel n).reverse = as

/-- The search tells that the node is not reached. -/
structure Misses (g : Graph) (sources : List Node) (p : ShortestPaths Extended) (n : Node) :
    Prop where
  unreached : reached p n = false
  noWalk : ∀ as, ¬ g.Reaches sources as n
  distance : distance p n = .top
  path : path p g n = .ok none

variable {g : Graph} {cost : Arc → Except Fault Extended} {value : Arc → Rat}
  {sources : List Node} {labels : PathLabels Extended}

/-- Settled labels with ways back tell the distances and the shortest walks. -/
theorem Settled.answers (settled : Settled g value sources labels)
    (sound : Sound g value sources labels) (rooted : Rooted g labels) (n : Node) :
    (∃ as, Finds g value sources ⟨labels, none⟩ n as) ∨ Misses g sources ⟨labels, none⟩ n := by
  cases found : labels.get? n with
  | none =>
      have unreached : labels.contains n = false := (OrderedMap.get?_eq_none_iff _ _).mp found
      refine .inr ⟨unreached, fun as reaches => ?_, ?_, ?_⟩
      · obtain ⟨d, arc, labelled, _⟩ := settled as n reaches
        rw [found] at labelled
        cases labelled
      · simp [distance, distanceIn, found, Arithmetic.top]
      · simp [path, reached, unreached]
  | some l =>
      obtain ⟨cs, attains, distanceEq⟩ := sound.attained n l found
      obtain ⟨distance, arc⟩ := l
      obtain rfl : distance = _ := distanceEq
      obtain ⟨as, back⟩ := rooted n _ found
      obtain ⟨walk, least⟩ := back.reaches sound
      have present := OrderedMap.contains_of_get? found
      have exact : total value as.reverse = total value cs :=
        le_antisymm (least _ ((within_iff found _).mpr le_rfl))
          ((within_iff found _).mp (settled _ n walk))
      have ends : ∀ fuel, labels.size ≤ fuel → arcsBack g labels fuel n = as :=
        fun fuel enough => back.arcsBack_eq (back.length_lt_size.trans_le enough)
      refine .inl ⟨as.reverse, present, walk, ?_, fun bs reaches => ?_, ?_, fun fuel enough => ?_⟩
      · simp [ShortestPaths.distance, distanceIn, found, exact]
      · exact exact ▸ (within_iff found _).mp (settled bs n reaches)
      · simp [path, reached, present, ends _ (Nat.le_succ _)]
      · rw [ends fuel enough]

/-- Where no closed walk with a negative total can be reached from a source, a search ends
without a cycle and tells of every node its distance and a shortest walk to it, or that
no walk leads there. -/
theorem search_shortest (lawful : g.Lawful) (counted : g.nodeCount = g.nodes.length)
    (costs : ∀ a ∈ g.arcs .all, cost a = .ok (.finite (value a)))
    (noCycle : g.NoNegativeCycle value sources) :
    ∃ p, search g cost sources = .ok p ∧ p.cycle = none ∧
      ∀ n, (∃ as, Finds g value sources p n as) ∨ Misses g sources p n := by
  have sound : Sound g value sources (sourceLabels g sources) := .sourceLabels
  obtain ⟨t, passed, final, lowerings, settled⟩ := settle_ok lawful costs noCycle g.nodeCount
    (s := ⟨sourceLabels g sources, none⟩) sound sound.covers (by omega) (fun _ => rfl)
  have rooted := Rooted.sourceLabels.lowerings sound noCycle lowerings
  refine ⟨⟨t.labels, none⟩, ?_, rfl, settled.answers (sound.lowerings lowerings) rooted⟩
  simp [search, passed, bind, Except.bind, final, pure, Except.pure]

/-- A directed arc below zero beside an edge that makes up for it. -/
def mixedValue (a : Arc) : Rat := if a = ⟨1⟩ then -1 else if a = ⟨2⟩ then 2 else 0

/-- The nodes of the pair are found or missed. -/
theorem search_shortest_mixedPair :
    mixedPair.graph.Lawful ∧ mixedPair.graph.nodeCount = mixedPair.graph.nodes.length ∧
      mixedPair.graph.NoNegativeCycle mixedValue [⟨1⟩, ⟨7⟩, ⟨1⟩] ∧
      ∃ p, search mixedPair.graph (fun a => .ok (.finite (mixedValue a))) [⟨1⟩, ⟨7⟩, ⟨1⟩] = .ok p ∧
        p.cycle = none ∧ ∀ n,
          (∃ as, Finds mixedPair.graph mixedValue [⟨1⟩, ⟨7⟩, ⟨1⟩] p n as) ∨
            Misses mixedPair.graph [⟨1⟩, ⟨7⟩, ⟨1⟩] p n := by
  have slopes : ∀ a ∈ mixedPair.graph.arcs .all,
      (if mixedPair.graph.head a = ⟨2⟩ then -1 else 0 : Rat) ≤
        (if mixedPair.graph.tail a = ⟨2⟩ then -1 else 0) + mixedValue a ∧
      (mixedPair.graph.isEdge a = true → (if mixedPair.graph.tail a = ⟨2⟩ then -1 else 0 : Rat) ≤
        (if mixedPair.graph.head a = ⟨2⟩ then -1 else 0) + mixedValue a) := by
    decide +kernel
  have noCycle : mixedPair.graph.NoNegativeCycle mixedValue [⟨1⟩, ⟨7⟩, ⟨1⟩] := by
    refine .of_potential _ (fun n => if n = ⟨2⟩ then -1 else 0) ?_
    rintro a m n ⟨listed, ⟨rfl, rfl⟩ | ⟨edge, rfl, rfl⟩⟩
    · exact (slopes a listed).1
    · exact (slopes a listed).2 edge
  exact ⟨lawful_mixedPair, rfl, noCycle,
    search_shortest lawful_mixedPair rfl (fun _ _ => rfl) noCycle⟩

end ShortestPaths

end ArcSelection
