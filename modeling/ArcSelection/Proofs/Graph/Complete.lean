import ArcSelection.Graph.Complete
import ArcSelection.Proofs.Graph.Lawful
import Mathlib.Tactic.Linarith

/-!
# Complete graphs answer alike

An arc of a complete graph spans one pair of indices, tail first: a pair of two different
ones, and without direction the smaller first. Its id is computed from the pair, and the
pair from the id, so the queries of a complete graph agree with each other.
-/

namespace ArcSelection

namespace CompleteGraph

/-- The arc leads from one index to another, or without direction joins the two. -/
structure Spans (g : CompleteGraph) (a : Arc) (i j : Nat) : Prop where
  tail_lt : i < g.size
  head_lt : j < g.size
  ordered : (if g.directed then i ≠ j else i < j)
  eq : a = g.arcAt i j

variable {g : CompleteGraph} {a : Arc} {i j k : Nat} {n u v : Node} {f : ArcFilter}

/-- An arc spans two nodes. -/
theorem Spans.ne (spans : g.Spans a i j) : i ≠ j := by
  have ordered := spans.ordered
  split at ordered
  · exact ordered
  · exact Nat.ne_of_lt ordered

/-- The tail of the arc at two indices is the first. -/
theorem tailIndex_arcAt (inRange : i < g.size) : g.tailIndex (g.arcAt i j) = i := by
  have shifted : 1 + (j : Int) * g.size + i - 1 = i + j * g.size := by ring
  rw [tailIndex, arcAt, shifted, Int.fmod_eq_emod_of_nonneg _ (Int.natCast_nonneg _),
    Int.add_mul_emod_self_right, Int.emod_eq_of_lt (Int.natCast_nonneg _) (by omega)]

/-- The head of the arc at two indices is the second. -/
theorem headIndex_arcAt (inRange : i < g.size) : g.headIndex (g.arcAt i j) = j := by
  have shifted : 1 + (j : Int) * g.size + i - 1 = i + j * g.size := by ring
  rw [headIndex, arcAt, shifted, Int.fdiv_eq_ediv_of_nonneg _ (Int.natCast_nonneg _),
    Int.add_mul_ediv_right _ _ (by omega),
    Int.ediv_eq_zero_of_lt (Int.natCast_nonneg _) (by omega), Int.zero_add]

/-- An arc spans one pair of indices only. -/
theorem Spans.unique (spans : g.Spans a i j) {i' j' : Nat} (other : g.Spans a i' j') :
    i = i' ∧ j = j' := by
  have tail := tailIndex_arcAt (j := j) spans.tail_lt
  have head := headIndex_arcAt (j := j) spans.tail_lt
  rw [← spans.eq, other.eq, tailIndex_arcAt other.tail_lt] at tail
  rw [← spans.eq, other.eq, headIndex_arcAt other.tail_lt] at head
  omega

/-- An arc is there if its id is in range and its indices differ; in an undirected graph the smaller
one comes first. -/
theorem hasArc_iff_index : g.hasArc a = true ↔
    (1 ≤ a.id ∧ a.id ≤ (g.size : Int) * g.size) ∧
      if g.directed then g.tailIndex a ≠ g.headIndex a else g.tailIndex a < g.headIndex a := by
  unfold hasArc
  by_cases inRange : 1 ≤ a.id ∧ a.id ≤ (g.size : Int) * g.size
  · by_cases directed : g.directed <;> simp [inRange, directed]
  · simp [inRange]

/-- An id up to the square of the size is computed from two indices. -/
theorem index_bounds (positive : 1 ≤ a.id) (bounded : a.id ≤ (g.size : Int) * g.size) :
    (0 ≤ g.tailIndex a ∧ g.tailIndex a < g.size) ∧ 0 ≤ g.headIndex a ∧
      g.headIndex a < g.size := by
  have size : (0 : Int) < g.size := by
    by_contra none
    have zero : (g.size : Int) = 0 := by omega
    rw [zero] at bounded
    omega
  rw [tailIndex, headIndex, Int.fmod_eq_emod_of_nonneg _ size.le,
    Int.fdiv_eq_ediv_of_nonneg _ size.le]
  exact ⟨⟨Int.emod_nonneg _ size.ne', Int.emod_lt_of_pos _ size⟩,
    Int.ediv_nonneg (by omega) size.le, Int.ediv_lt_of_lt_mul size (by omega)⟩

/-- An arc is the one at its indices. -/
theorem arcAt_index : g.arcAt (g.tailIndex a) (g.headIndex a) = a := by
  have parts := Int.fdiv_mul_add_fmod (a.id - 1) g.size
  have whole : 1 + g.headIndex a * g.size + g.tailIndex a = a.id := by
    rw [headIndex, tailIndex]
    omega
  rw [arcAt, whole]

/-- The ids of arcs are those computed from pairs of indices. -/
theorem hasArc_iff : g.hasArc a = true ↔ ∃ i j, g.Spans a i j := by
  rw [hasArc_iff_index]
  constructor
  · rintro ⟨⟨positive, bounded⟩, ordered⟩
    obtain ⟨⟨tail_nonneg, tail_lt⟩, head_nonneg, head_lt⟩ := index_bounds positive bounded
    refine ⟨(g.tailIndex a).toNat, (g.headIndex a).toNat, by omega, by omega, ?_, ?_⟩
    · split at ordered <;> rename_i directed
      · simp only [directed, if_true]
        omega
      · simp only [directed, Bool.false_eq_true, if_false]
        omega
    · rw [Int.toNat_of_nonneg tail_nonneg, Int.toNat_of_nonneg head_nonneg, arcAt_index]
  · rintro ⟨i, j, spans⟩
    have tail_lt := spans.tail_lt
    have head_lt := spans.head_lt
    have low : (0 : Int) ≤ j * g.size := by positivity
    have high : (j : Int) * g.size + i + 1 ≤ g.size * g.size := by nlinarith
    have ordered := spans.ordered
    rw [spans.eq, tailIndex_arcAt tail_lt, headIndex_arcAt tail_lt]
    refine ⟨⟨?_, ?_⟩, ?_⟩
    · change 1 ≤ 1 + (j : Int) * g.size + i
      omega
    · change 1 + (j : Int) * g.size + i ≤ _
      omega
    · split at ordered <;> rename_i directed
      · simpa [directed] using ordered
      · simpa [directed] using ordered

/-- The nodes are those with an index below the size. -/
theorem mem_nodes_iff : n ∈ g.nodes ↔ ∃ i < g.size, n = nodeAt i := by
  simp [nodes, eq_comm]

theorem nodeAt_inj : nodeAt i = nodeAt j ↔ i = j := by
  simp [nodeAt]

/-- A node is there exactly if its index is below the size. -/
theorem hasNode_iff : g.hasNode n = true ↔ ∃ i < g.size, n = nodeAt i := by
  rw [hasNode, Bool.and_eq_true, decide_eq_true_eq, decide_eq_true_eq]
  constructor
  · rintro ⟨positive, bounded⟩
    refine ⟨(n.id - 1).toNat, by omega, ?_⟩
    rw [nodeAt, Int.toNat_of_nonneg (by omega), add_sub_cancel]
  · rintro ⟨i, inRange, rfl⟩
    simp only [nodeAt]
    omega

/-- The arcs are those that span two indices. -/
theorem mem_allArcs : a ∈ g.allArcs ↔ ∃ i j, g.Spans a i j := by
  simp only [allArcs, List.mem_flatMap, List.mem_range, List.mem_map, List.mem_filter]
  constructor
  · rintro ⟨i, tail_lt, j, ⟨head_lt, ordered⟩, rfl⟩
    refine ⟨i, j, tail_lt, head_lt, ?_, rfl⟩
    by_cases directed : g.directed <;> simpa [directed] using ordered
  · rintro ⟨i, j, tail_lt, head_lt, ordered, rfl⟩
    refine ⟨i, tail_lt, j, ⟨head_lt, ?_⟩, rfl⟩
    by_cases directed : g.directed <;> simpa [directed] using ordered

/-- Every arc is listed once. -/
theorem nodup_allArcs : g.allArcs.Nodup := by
  rw [allArcs, List.nodup_flatMap]
  have tailOf : ∀ i a, i < g.size →
      a ∈ ((List.range g.size).filter fun j => if g.directed then i != j else i < j).map
        (fun j => g.arcAt (i : Nat) (j : Nat)) → g.tailIndex a = i := by
    intro i a inRange listed
    obtain ⟨j, _, rfl⟩ := List.mem_map.mp listed
    exact tailIndex_arcAt inRange
  constructor
  · intro i inRange
    refine List.Nodup.map_on (fun j _ k _ same => ?_) (List.nodup_range.filter _)
    have head := headIndex_arcAt (j := j) (List.mem_range.mp inRange)
    rw [same, headIndex_arcAt (List.mem_range.mp inRange)] at head
    omega
  · refine List.nodup_range.imp_of_mem fun {i k} inRange inRange' different a here there => ?_
    have first := tailOf i a (List.mem_range.mp inRange) here
    have second := tailOf k a (List.mem_range.mp inRange') there
    omega

/-- The ends of an arc are the nodes with the indices it spans. -/
theorem Spans.ends (spans : g.Spans a i j) :
    g.graph.tail a = nodeAt i ∧ g.graph.head a = nodeAt j := by
  have has := hasArc_iff.mpr ⟨i, j, spans⟩
  constructor
  · change (if g.hasArc a then nodeAt (g.tailIndex a) else .absent) = nodeAt i
    rw [if_pos has, spans.eq, tailIndex_arcAt spans.tail_lt]
  · change (if g.hasArc a then nodeAt (g.headIndex a) else .absent) = nodeAt j
    rw [if_pos has, spans.eq, headIndex_arcAt spans.tail_lt]

/-- The arc from one node to another is the one that spans their indices, in either order
if there is no direction. -/
theorem eq_getArc_iff (inRange : i < g.size) (inRange' : j < g.size) (different : i ≠ j) :
    a = g.getArc (nodeAt i) (nodeAt j) ↔
      g.Spans a i j ∨ g.directed = false ∧ g.Spans a j i := by
  have tail : g.hasNode (nodeAt i) = true := hasNode_iff.mpr ⟨i, inRange, rfl⟩
  have head : g.hasNode (nodeAt j) = true := hasNode_iff.mpr ⟨j, inRange', rfl⟩
  have index : ∀ i : Nat, indexOf (nodeAt i) = i := by
    intro i
    simp only [indexOf, nodeAt]
    omega
  simp only [getArc, nodeAt_inj, different, tail, head, index, Bool.not_true, Bool.or_self,
    decide_false, Bool.false_eq_true, if_false]
  cases directed : g.directed with
  | true =>
      simp only [Bool.not_true, Bool.false_and, Bool.false_eq_true, if_false, reduceCtorEq,
        false_and, or_false]
      exact ⟨fun eq => ⟨inRange, inRange', by simpa [directed] using different, eq⟩, Spans.eq⟩
  | false =>
      simp only [Bool.not_false, Bool.true_and, decide_eq_true_eq, true_and]
      rcases Nat.lt_or_gt_of_ne different with less | more
      · rw [if_neg (by omega)]
        refine ⟨fun eq => .inl ⟨inRange, inRange', by simpa [directed] using less, eq⟩, ?_⟩
        rintro (spans | spans)
        · exact spans.eq
        · have ordered : j < i := by simpa [directed] using spans.ordered
          omega
      · rw [if_pos (by omega)]
        refine ⟨fun eq => .inr ⟨inRange', inRange, by simpa [directed] using more, eq⟩, ?_⟩
        rintro (spans | spans)
        · have ordered : i < j := by simpa [directed] using spans.ordered
          omega
        · exact spans.eq

/-- Every node is listed once. -/
theorem nodup_nodes : g.nodes.Nodup :=
  List.nodup_range.map fun _ _ same => nodeAt_inj.mp same

/-- The nodes other than one have the other indices. -/
theorem exists_mem_others {P : Node → Prop} :
    (∃ w ∈ g.others (nodeAt k), P w) ↔ ∃ i < g.size, i ≠ k ∧ P (nodeAt i) := by
  simp only [others, List.mem_filter, mem_nodes_iff, bne_iff_ne]
  constructor
  · rintro ⟨w, ⟨⟨i, inRange, rfl⟩, different⟩, holds⟩
    exact ⟨i, inRange, fun same => different (nodeAt_inj.mpr same), holds⟩
  · rintro ⟨i, inRange, different, holds⟩
    exact ⟨nodeAt i, ⟨⟨i, inRange, rfl⟩, fun same => different (nodeAt_inj.mp same)⟩, holds⟩

/-- A map over the other nodes has no repetitions if it tells their indices apart. -/
theorem nodup_map_others {arcTo : Node → Arc}
    (inj : ∀ i < g.size, i ≠ k → ∀ j < g.size, j ≠ k →
      arcTo (nodeAt i) = arcTo (nodeAt j) → i = j) :
    ((g.others (nodeAt k)).map arcTo).Nodup := by
  refine List.Nodup.map_on (fun w listed w' listed' same => ?_) (nodup_nodes.filter _)
  obtain ⟨i, inRange, different, rfl⟩ := exists_mem_others.mp ⟨w, listed, rfl⟩
  obtain ⟨j, inRange', different', rfl⟩ := exists_mem_others.mp ⟨w', listed', rfl⟩
  rw [inj i inRange different j inRange' different' same]

/-- The other index that an arc spans. -/
theorem index_of_spans (spans : g.Spans a i k ∨ g.Spans a k i) : i < g.size ∧ i ≠ k := by
  rcases spans with spans | spans
  · exact ⟨spans.tail_lt, spans.ne⟩
  · exact ⟨spans.head_lt, spans.ne.symm⟩

/-- The arcs that lead to a node from the others. -/
theorem mem_map_getArc_to (inRange : k < g.size) :
    a ∈ ((g.others (nodeAt k)).map fun w => g.getArc w (nodeAt k)) ↔
      ∃ i, g.Spans a i k ∨ g.directed = false ∧ g.Spans a k i := by
  rw [List.mem_map, exists_mem_others]
  constructor
  · rintro ⟨i, inRange', different, rfl⟩
    exact ⟨i, (eq_getArc_iff inRange' inRange different).mp rfl⟩
  · rintro ⟨i, spans⟩
    obtain ⟨inRange', different⟩ := index_of_spans (spans.imp_right And.right)
    exact ⟨i, inRange', different, ((eq_getArc_iff inRange' inRange different).mpr spans).symm⟩

/-- The arcs that lead from a node to the others. -/
theorem mem_map_getArc_from (inRange : k < g.size) :
    a ∈ ((g.others (nodeAt k)).map fun w => g.getArc (nodeAt k) w) ↔
      ∃ j, g.Spans a k j ∨ g.directed = false ∧ g.Spans a j k := by
  rw [List.mem_map, exists_mem_others]
  constructor
  · rintro ⟨j, inRange', different, rfl⟩
    exact ⟨j, (eq_getArc_iff inRange inRange' different.symm).mp rfl⟩
  · rintro ⟨j, spans⟩
    obtain ⟨inRange', different⟩ := index_of_spans (spans.imp_right And.right).symm
    exact ⟨j, inRange', different,
      ((eq_getArc_iff inRange inRange' different.symm).mpr spans).symm⟩

/-- An arc touches the nodes with the indices it spans. -/
theorem Spans.touches_iff (spans : g.Spans a i j) :
    g.graph.touches a (nodeAt k) = true ↔ i = k ∨ j = k := by
  simp [Ends.touches, spans.ends, nodeAt_inj]

/-- An arc joins exactly the two nodes that it spans. -/
theorem Spans.joins_iff (spans : g.Spans a i j) {l : Nat} :
    g.graph.joins a (nodeAt k) (nodeAt l) = true ↔ i = k ∧ j = l ∨ i = l ∧ j = k := by
  simp [Ends.joins, spans.ends, nodeAt_inj]

/-- An edge passes every filter, a directed arc those that look the way it leads. -/
theorem Spans.passes_iff (spans : g.Spans a i j) :
    g.graph.passes a (nodeAt k) f = true ↔
      f = .all ∨ g.directed = false ∨ f = .forward ∧ i = k ∨ f = .backward ∧ j = k := by
  have isEdge : g.graph.isEdge a = !g.directed := rfl
  cases f <;> simp [Ends.passes, spans.ends, nodeAt_inj, isEdge]

/-- An arc passes at its tail if all arcs or the leaving ones do, or if the graph is undirected. -/
theorem Spans.passes_tail_iff (spans : g.Spans a i j) :
    g.graph.passes a (nodeAt i) f = true ↔ f = .all ∨ g.directed = false ∨ f = .forward := by
  simp [spans.passes_iff, spans.ne.symm]

/-- An arc passes at its head if all arcs or the entering ones do, or if the graph is undirected. -/
theorem Spans.passes_head_iff (spans : g.Spans a i j) :
    g.graph.passes a (nodeAt j) f = true ↔ f = .all ∨ g.directed = false ∨ f = .backward := by
  simp [spans.passes_iff, spans.ne]

/-- An arc touches only nodes of the graph. -/
theorem Spans.hasNode_of_touches (spans : g.Spans a i j) (touched : g.graph.touches a n = true) :
    g.hasNode n = true := by
  rw [Ends.touches_iff, spans.ends.1, spans.ends.2] at touched
  rcases touched with rfl | rfl
  · exact hasNode_iff.mpr ⟨i, spans.tail_lt, rfl⟩
  · exact hasNode_iff.mpr ⟨j, spans.head_lt, rfl⟩

/-- The arcs at a node are those that enter it and those that leave it, as far as the
filter looks at them. -/
theorem mem_incidentArcs_nodeAt (inRange : k < g.size) : a ∈ g.incidentArcs (nodeAt k) f ↔
    (∃ i, g.Spans a i k ∧ (f = .all ∨ g.directed = false ∨ f = .backward)) ∨
      ∃ j, g.Spans a k j ∧ (f = .all ∨ g.directed = false ∨ f = .forward) := by
  have has : g.hasNode (nodeAt k) = true := hasNode_iff.mpr ⟨k, inRange, rfl⟩
  have entering := mem_map_getArc_to (a := a) inRange
  have leaving := mem_map_getArc_from (a := a) inRange
  cases directed : g.directed with
  | true =>
      simp only [directed, Bool.true_eq_false, false_and, or_false] at entering leaving
      simp only [exists_and_right, ← entering, ← leaving, incidentArcs]
      cases f <;> simp [has, directed]
  | false =>
      simp only [directed, true_and] at leaving
      simp [incidentArcs, has, directed, leaving, exists_or, or_comm]

/-- The arcs at a node are those that touch it and pass the filter there. -/
theorem mem_incidentArcs : a ∈ g.incidentArcs n f ↔
    (∃ i j, g.Spans a i j) ∧ g.graph.touches a n = true ∧ g.graph.passes a n f = true := by
  by_cases has : g.hasNode n = true
  · obtain ⟨k, inRange, rfl⟩ := hasNode_iff.mp has
    rw [mem_incidentArcs_nodeAt inRange]
    constructor
    · rintro (⟨i, spans, looking⟩ | ⟨j, spans, looking⟩)
      · exact ⟨⟨i, k, spans⟩, spans.touches_iff.mpr (.inr rfl), spans.passes_head_iff.mpr looking⟩
      · exact ⟨⟨k, j, spans⟩, spans.touches_iff.mpr (.inl rfl), spans.passes_tail_iff.mpr looking⟩
    · rintro ⟨⟨i, j, spans⟩, touched, passes⟩
      rcases spans.touches_iff.mp touched with rfl | rfl
      · exact .inr ⟨j, spans, spans.passes_tail_iff.mp passes⟩
      · exact .inl ⟨i, spans, spans.passes_head_iff.mp passes⟩
  · have nothing : g.incidentArcs n f = [] := by simp [incidentArcs, has]
    rw [nothing]
    refine iff_of_false List.not_mem_nil ?_
    rintro ⟨⟨i, j, spans⟩, touched, _⟩
    exact has (spans.hasNode_of_touches touched)

/-- The arc from one node to another tells the two apart, without direction up to order. -/
theorem getArc_inj {i' j' : Nat} (inRange : i < g.size ∧ j < g.size) (different : i ≠ j)
    (inRange' : i' < g.size ∧ j' < g.size) (different' : i' ≠ j')
    (same : g.getArc (nodeAt i) (nodeAt j) = g.getArc (nodeAt i') (nodeAt j')) :
    i = i' ∧ j = j' ∨ g.directed = false ∧ i = j' ∧ j = i' := by
  have here := (eq_getArc_iff inRange.1 inRange.2 different).mp rfl
  have there := (eq_getArc_iff inRange'.1 inRange'.2 different').mp same
  rcases here with forth | ⟨undirected, back⟩ <;>
    rcases there with forth' | ⟨undirected', back'⟩
  · exact .inl (forth.unique forth')
  · exact .inr ⟨undirected', forth.unique back'⟩
  · exact .inr ⟨undirected, (back.unique forth').symm⟩
  · exact .inl (back.unique back').symm

/-- The arcs from all other nodes differ. -/
theorem nodup_map_getArc_to (inRange : k < g.size) :
    ((g.others (nodeAt k)).map fun w => g.getArc w (nodeAt k)).Nodup := by
  refine nodup_map_others fun i bound different j bound' different' same => ?_
  rcases getArc_inj ⟨bound, inRange⟩ different ⟨bound', inRange⟩ different' same with
    ⟨eq, _⟩ | ⟨_, eq, _⟩
  · exact eq
  · exact absurd eq different

/-- The arcs to all other nodes differ. -/
theorem nodup_map_getArc_from (inRange : k < g.size) :
    ((g.others (nodeAt k)).map fun w => g.getArc (nodeAt k) w).Nodup := by
  refine nodup_map_others fun i bound different j bound' different' same => ?_
  rcases getArc_inj ⟨inRange, bound⟩ different.symm ⟨inRange, bound'⟩ different'.symm same with
    ⟨_, eq⟩ | ⟨_, _, eq⟩
  · exact eq
  · exact absurd eq different

/-- Every arc at a node is listed once. -/
theorem nodup_incidentArcs : (g.incidentArcs n f).Nodup := by
  unfold incidentArcs
  split
  · exact List.nodup_nil
  · rename_i has
    obtain ⟨k, inRange, rfl⟩ := hasNode_iff.mp (by simpa using has)
    split
    · rename_i directed
      split
      · exact List.nodup_nil
      · refine List.nodup_append.mpr ⟨?_, ?_, ?_⟩
        · split
          · exact List.nodup_nil
          · exact nodup_map_getArc_to inRange
        · split
          · exact List.nodup_nil
          · exact nodup_map_getArc_from inRange
        · rintro a enters b leaves rfl
          rw [List.mem_ite_nil_left, mem_map_getArc_to inRange] at enters
          rw [List.mem_ite_nil_left, mem_map_getArc_from inRange] at leaves
          obtain ⟨_, i, spans | ⟨undirected, _⟩⟩ := enters
          · obtain ⟨_, j, spans' | ⟨undirected, _⟩⟩ := leaves
            · exact spans.ne (spans.unique spans').1
            · exact absurd undirected (by simp [directed])
          · exact absurd undirected (by simp [directed])
    · exact nodup_map_getArc_from inRange

/-- Two nodes have the arc from the second to the first and the arc back between them, as
far as the filter looks at them. -/
theorem mem_arcsBetween_nodeAt {l : Nat} (inRange : k < g.size) (inRange' : l < g.size)
    (apart : k ≠ l) : a ∈ g.arcsBetween (nodeAt k) (nodeAt l) f ↔
      g.Spans a l k ∧ (f = .all ∨ g.directed = false ∨ f = .backward) ∨
        g.Spans a k l ∧ (f = .all ∨ g.directed = false ∨ f = .forward) := by
  have has : g.hasNode (nodeAt k) = true := hasNode_iff.mpr ⟨k, inRange, rfl⟩
  have has' : g.hasNode (nodeAt l) = true := hasNode_iff.mpr ⟨l, inRange', rfl⟩
  have forth := eq_getArc_iff (a := a) inRange inRange' apart
  have back := eq_getArc_iff (a := a) inRange' inRange apart.symm
  cases directed : g.directed with
  | true =>
      simp only [directed, Bool.true_eq_false, false_and, or_false] at forth back
      rw [← forth, ← back, arcsBetween]
      cases f <;> simp [nodeAt_inj, apart, has, has', directed]
  | false =>
      simp only [directed, true_and] at forth
      simp [arcsBetween, nodeAt_inj, apart, has, has', directed, forth, or_comm]

/-- The arcs between two nodes are those that join them and pass the filter. -/
theorem mem_arcsBetween : a ∈ g.arcsBetween u v f ↔
    (∃ i j, g.Spans a i j) ∧ g.graph.joins a u v = true ∧ g.graph.passes a u f = true := by
  by_cases proper : u ≠ v ∧ g.hasNode u = true ∧ g.hasNode v = true
  · obtain ⟨different, has, has'⟩ := proper
    obtain ⟨k, inRange, rfl⟩ := hasNode_iff.mp has
    obtain ⟨l, inRange', rfl⟩ := hasNode_iff.mp has'
    rw [mem_arcsBetween_nodeAt inRange inRange' fun same => different (nodeAt_inj.mpr same)]
    constructor
    · rintro (⟨spans, looking⟩ | ⟨spans, looking⟩)
      · exact ⟨⟨l, k, spans⟩, spans.joins_iff.mpr (.inr ⟨rfl, rfl⟩),
          spans.passes_head_iff.mpr looking⟩
      · exact ⟨⟨k, l, spans⟩, spans.joins_iff.mpr (.inl ⟨rfl, rfl⟩),
          spans.passes_tail_iff.mpr looking⟩
    · rintro ⟨⟨i, j, spans⟩, joined, passes⟩
      rcases spans.joins_iff.mp joined with ⟨rfl, rfl⟩ | ⟨rfl, rfl⟩
      · exact .inr ⟨spans, spans.passes_tail_iff.mp passes⟩
      · exact .inl ⟨spans, spans.passes_head_iff.mp passes⟩
  · have nothing : g.arcsBetween u v f = [] := by
      refine if_pos ?_
      by_contra both
      exact proper (by simpa [and_assoc] using both)
    rw [nothing]
    refine iff_of_false List.not_mem_nil ?_
    rintro ⟨⟨i, j, spans⟩, joined, _⟩
    obtain ⟨atFirst, atSecond⟩ := Ends.touches_of_joins joined
    refine proper ⟨?_, spans.hasNode_of_touches atFirst, spans.hasNode_of_touches atSecond⟩
    rintro rfl
    simp only [Ends.joins, spans.ends, Bool.or_self, Bool.and_eq_true, beq_iff_eq] at joined
    exact spans.ne (nodeAt_inj.mp (joined.1.trans joined.2.symm))

/-- Every arc between nodes is listed once. -/
theorem nodup_arcsBetween : (g.arcsBetween u v f).Nodup := by
  unfold arcsBetween
  split
  · exact List.nodup_nil
  · rename_i proper
    split
    · rename_i directed
      have proper : u ≠ v ∧ g.hasNode u = true ∧ g.hasNode v = true := by
        simpa [and_assoc] using proper
      obtain ⟨different, hasFirst, hasSecond⟩ := proper
      obtain ⟨k, inRange, rfl⟩ := hasNode_iff.mp hasFirst
      obtain ⟨l, inRange', rfl⟩ := hasNode_iff.mp hasSecond
      have apart : k ≠ l := fun same => different (nodeAt_inj.mpr same)
      have distinct : g.getArc (nodeAt l) (nodeAt k) ≠ g.getArc (nodeAt k) (nodeAt l) := by
        intro same
        rcases getArc_inj ⟨inRange', inRange⟩ apart.symm ⟨inRange, inRange'⟩ apart same with
          ⟨eq, _⟩ | ⟨undirected, _⟩
        · exact apart eq.symm
        · exact absurd undirected (by simp [directed])
      cases f <;> simp [distinct]
    · exact List.nodup_singleton _

/-- Only the filter for edges hides an arc of the whole graph. -/
theorem arcs_of_ne_edge (f : ArcFilter) (notEdge : f ≠ .edge) : g.graph.arcs f = g.allArcs := by
  simp [graph, arcs, notEdge]

/-- The graph lists the arcs that span two indices. -/
theorem mem_arcs : a ∈ g.graph.arcs .all ↔ ∃ i j, g.Spans a i j := by
  rw [arcs_of_ne_edge .all nofun, mem_allArcs]

/-- The queries of a complete graph agree with each other. -/
theorem lawful (g : CompleteGraph) : g.graph.Lawful where
  nodup := arcs_of_ne_edge .all nofun ▸ nodup_allArcs
  tail_mem a listed := by
    obtain ⟨i, j, spans⟩ := mem_arcs.mp listed
    exact mem_nodes_iff.mpr ⟨i, spans.tail_lt, spans.ends.1⟩
  head_mem a listed := by
    obtain ⟨i, j, spans⟩ := mem_arcs.mp listed
    exact mem_nodes_iff.mpr ⟨j, spans.head_lt, spans.ends.2⟩
  nodes_nodup := nodup_nodes
  mem_nodes n := mem_nodes_iff.trans hasNode_iff.symm
  mem_arcs a := mem_arcs.trans hasArc_iff.symm
  arcs_edge := by
    rw [arcs_of_ne_edge .all nofun]
    change g.arcs .edge = g.allArcs.filter fun _ => !g.directed
    cases directed : g.directed <;> simp [arcs, directed]
  arcs_forward := by rw [arcs_of_ne_edge .all nofun, arcs_of_ne_edge .forward nofun]
  arcs_backward := by rw [arcs_of_ne_edge .all nofun, arcs_of_ne_edge .backward nofun]
  incidentArcs_nodup _ _ := nodup_incidentArcs
  mem_incidentArcs n f a := mem_incidentArcs.trans (and_congr_left' mem_arcs.symm)
  arcsBetween_nodup _ _ _ := nodup_arcsBetween
  mem_arcsBetween u v f a := mem_arcsBetween.trans (and_congr_left' mem_arcs.symm)

end CompleteGraph

end ArcSelection
