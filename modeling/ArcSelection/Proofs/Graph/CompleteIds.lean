import ArcSelection.Proofs.Graph.Count

/-!
# Arc ids of complete graphs

The arcs of a complete graph are numbers. Two different nodes have one arc, or one in each
direction, whose id is computed from theirs, and every id is read back as the two nodes. The
numbers in between, which loops would have and without direction the pairs turned round, are
no arcs, and neither is any number out of range.
-/

namespace ArcSelection

namespace CompleteGraph

/-- Arc ids and pairs of different nodes determine each other. -/
structure NumbersArcs (g : CompleteGraph) : Prop where
  node : ∀ n, g.graph.hasNode n = true ↔ 1 ≤ n.id ∧ n.id ≤ g.size
  /-- Two different nodes have an arc. -/
  arc : ∀ x y, g.graph.hasNode x = true → g.graph.hasNode y = true → x ≠ y →
    g.graph.hasArc (g.getArc x y) = true ∧ 1 ≤ (g.getArc x y).id ∧
      (g.getArc x y).id ≤ (g.size : Int) * g.size
  /-- With direction the arc leads from the first node to the second. -/
  directed : g.directed = true → ∀ x y, g.graph.hasNode x = true → g.graph.hasNode y = true →
    x ≠ y → g.graph.tail (g.getArc x y) = x ∧ g.graph.head (g.getArc x y) = y
  /-- Without direction it is the arc back as well, and the smaller node is its tail. -/
  undirected : g.directed = false → ∀ x y, g.graph.hasNode x = true →
    g.graph.hasNode y = true → x ≠ y → g.getArc y x = g.getArc x y ∧
      (x.id < y.id → g.graph.tail (g.getArc x y) = x ∧ g.graph.head (g.getArc x y) = y) ∧
      (y.id < x.id → g.graph.tail (g.getArc x y) = y ∧ g.graph.head (g.getArc x y) = x)
  /-- An arc has two different ends, and is the arc from the one to the other. -/
  ends : ∀ a, g.graph.hasArc a = true →
    g.graph.hasNode (g.graph.tail a) = true ∧ g.graph.hasNode (g.graph.head a) = true ∧
      g.graph.tail a ≠ g.graph.head a ∧ g.getArc (g.graph.tail a) (g.graph.head a) = a
  /-- Every other id has no ends. -/
  foreign : ∀ a, g.graph.hasArc a = false →
    g.graph.tail a = .absent ∧ g.graph.head a = .absent
  absent : ∀ x y, g.getArc x y = .absent ↔
    x = y ∨ g.graph.hasNode x = false ∨ g.graph.hasNode y = false
  nodup : (g.graph.arcs .all).Nodup
  listed : ∀ a, a ∈ g.graph.arcs .all ↔ g.graph.hasArc a = true
  count : (g.graph.arcs .all).length =
    if g.directed then g.size * (g.size - 1) else g.size * (g.size - 1) / 2

variable {g : CompleteGraph} {a : Arc} {x y : Node} {i j : Nat}

/-- Two different nodes are those of two different indices. -/
theorem exists_indices (hasFirst : g.hasNode x = true) (hasSecond : g.hasNode y = true)
    (different : x ≠ y) :
    ∃ i j, i < g.size ∧ j < g.size ∧ i ≠ j ∧ x = nodeAt i ∧ y = nodeAt j := by
  obtain ⟨i, inRange, rfl⟩ := hasNode_iff.mp hasFirst
  obtain ⟨j, inRange', rfl⟩ := hasNode_iff.mp hasSecond
  exact ⟨i, j, inRange, inRange', fun same => different (same ▸ rfl), rfl, rfl⟩

/-- The arc between two different nodes spans their indices, in one of the two orders. -/
theorem spans_getArc (inRange : i < g.size) (inRange' : j < g.size) (different : i ≠ j) :
    g.Spans (g.getArc (nodeAt i) (nodeAt j)) i j ∨
      g.directed = false ∧ g.Spans (g.getArc (nodeAt i) (nodeAt j)) j i :=
  (eq_getArc_iff inRange inRange' different).mp rfl

/-- An arc is the one from its tail to its head. -/
theorem Spans.getArc_eq (spans : g.Spans a i j) : g.getArc (nodeAt i) (nodeAt j) = a :=
  ((eq_getArc_iff spans.tail_lt spans.head_lt spans.ne).mpr (.inl spans)).symm

/-- Without direction an arc is the one from its head to its tail as well. -/
theorem Spans.getArc_turned (spans : g.Spans a i j) (undirected : g.directed = false) :
    g.getArc (nodeAt j) (nodeAt i) = a :=
  ((eq_getArc_iff spans.head_lt spans.tail_lt spans.ne.symm).mpr
    (.inr ⟨undirected, spans⟩)).symm

/-- Without direction the tail is the smaller end. -/
theorem Spans.lt_of_undirected (spans : g.Spans a i j) (undirected : g.directed = false) :
    i < j := by
  simpa [undirected] using spans.ordered

/-- There is an arc between any two nodes. -/
theorem hasArc_getArc (hasFirst : g.hasNode x = true) (hasSecond : g.hasNode y = true)
    (different : x ≠ y) : g.hasArc (g.getArc x y) = true := by
  obtain ⟨i, j, inRange, inRange', apart, rfl, rfl⟩ :=
    exists_indices hasFirst hasSecond different
  rcases spans_getArc inRange inRange' apart with spans | ⟨_, spans⟩
  · exact hasArc_iff.mpr ⟨i, j, spans⟩
  · exact hasArc_iff.mpr ⟨j, i, spans⟩

/-- The arc from a node to another has these ends. -/
theorem ends_getArc_of_directed (directed : g.directed = true) (hasFirst : g.hasNode x = true)
    (hasSecond : g.hasNode y = true) (different : x ≠ y) :
    g.graph.tail (g.getArc x y) = x ∧ g.graph.head (g.getArc x y) = y := by
  obtain ⟨i, j, inRange, inRange', apart, rfl, rfl⟩ :=
    exists_indices hasFirst hasSecond different
  rcases spans_getArc inRange inRange' apart with spans | ⟨undirected, _⟩
  · exact spans.ends
  · cases directed.symm.trans undirected

/-- Without direction two nodes have one arc, from the smaller to the larger. -/
theorem ends_getArc_of_lt (undirected : g.directed = false) (hasFirst : g.hasNode x = true)
    (hasSecond : g.hasNode y = true) (less : x.id < y.id) :
    g.getArc y x = g.getArc x y ∧
      g.graph.tail (g.getArc x y) = x ∧ g.graph.head (g.getArc x y) = y := by
  have different : x ≠ y := fun same => less.ne (congrArg Node.id same)
  obtain ⟨i, j, inRange, inRange', apart, rfl, rfl⟩ :=
    exists_indices hasFirst hasSecond different
  rcases spans_getArc inRange inRange' apart with spans | ⟨_, spans⟩
  · exact ⟨spans.getArc_turned undirected, spans.ends⟩
  · have more := spans.lt_of_undirected undirected
    simp only [nodeAt] at less
    omega

/-- An arc has two nodes for ends, and is the one between them. -/
theorem ends_of_hasArc (has : g.hasArc a = true) :
    g.hasNode (g.graph.tail a) = true ∧ g.hasNode (g.graph.head a) = true ∧
      g.graph.tail a ≠ g.graph.head a ∧ g.getArc (g.graph.tail a) (g.graph.head a) = a := by
  obtain ⟨i, j, spans⟩ := hasArc_iff.mp has
  rw [spans.ends.1, spans.ends.2]
  exact ⟨hasNode_iff.mpr ⟨i, spans.tail_lt, rfl⟩, hasNode_iff.mpr ⟨j, spans.head_lt, rfl⟩,
    fun same => spans.ne (nodeAt_inj.mp same), spans.getArc_eq⟩

/-- An arc that is not there has no ends. -/
theorem ends_of_foreign (foreign : g.hasArc a = false) :
    g.graph.tail a = .absent ∧ g.graph.head a = .absent := by
  constructor <;> exact if_neg (by simp [foreign])

/-- There is no arc from a node to itself, nor at a node that is not there. -/
theorem getArc_eq_absent_iff :
    g.getArc x y = .absent ↔ x = y ∨ g.hasNode x = false ∨ g.hasNode y = false := by
  constructor
  · intro absent
    by_contra proper
    simp only [not_or, Bool.not_eq_false] at proper
    have has := hasArc_getArc proper.2.1 proper.2.2 proper.1
    rw [absent] at has
    have positive : (1 : Int) ≤ 0 := (hasArc_iff_index.mp has).1.1
    omega
  · rintro (same | absent | absent) <;> exact if_pos (by simp [*])

/-- The arcs of every complete graph are numbered. -/
theorem numbersArcs (g : CompleteGraph) : g.NumbersArcs where
  node n := by
    change g.hasNode n = true ↔ _
    rw [hasNode, Bool.and_eq_true, decide_eq_true_eq, decide_eq_true_eq]
  arc x y hasFirst hasSecond different := by
    have has := hasArc_getArc hasFirst hasSecond different
    exact ⟨has, (hasArc_iff_index.mp has).1⟩
  directed directed _ _ := ends_getArc_of_directed directed
  undirected undirected x y hasFirst hasSecond different := by
    have forth := ends_getArc_of_lt (x := x) (y := y) undirected hasFirst hasSecond
    have back := ends_getArc_of_lt (x := y) (y := x) undirected hasSecond hasFirst
    rcases lt_or_gt_of_ne fun same => different (congrArg Node.mk same) with less | more
    · exact ⟨(forth less).1, fun _ => (forth less).2, fun more => absurd more less.asymm⟩
    · rw [(back more).1]
      exact ⟨rfl, fun less => absurd less more.asymm, fun _ => (back more).2⟩
  ends _ := ends_of_hasArc
  foreign _ := ends_of_foreign
  absent _ _ := getArc_eq_absent_iff
  nodup := g.lawful.nodup
  listed := g.lawful.mem_arcs
  count := by
    rw [arcs_of_ne_edge .all (by decide)]
    exact length_allArcs

/-- A complete graph can be made on any number of nodes whose square is an id, and on no
other. -/
theorem create_eq_ok_iff {count : Value} {direction : Directedness} :
    create count direction = .ok g ↔ ∃ n : Nat, count = .int n ∧ 1 ≤ n ∧ (n : Int) * n ≤ maxId ∧
      g = ⟨n, direction == .directed, .empty⟩ := by
  constructor
  · intro created
    unfold create at created
    split at created
    · rename_i n
      split at created
      · cases created
      · split at created
        · cases created
        · cases created
          have same : ((n.toNat : Nat) : Int) = n := Int.toNat_of_nonneg (by omega)
          exact ⟨n.toNat, by rw [same], by omega, by rw [same]; omega, rfl⟩
    · cases created
  · rintro ⟨n, rfl, positive, bounded, rfl⟩
    simp only [create]
    rw [if_neg (by omega), if_neg (by omega), Int.toNat_natCast]

/-- For every number of nodes that is accepted the arcs are numbered, with direction and
without. -/
theorem exists_create_numbersArcs {n : Nat} (positive : 1 ≤ n)
    (bounded : (n : Int) * n ≤ 2 ^ 63 - 1) (direction : Directedness) :
    ∃ g, create (.int n) direction = .ok g ∧ g.size = n ∧
      g.directed = (direction == .directed) ∧ g.NumbersArcs :=
  ⟨⟨n, direction == .directed, .empty⟩,
    create_eq_ok_iff.mpr ⟨n, rfl, positive, bounded, rfl⟩, rfl, rfl, numbersArcs _⟩

/-- Among three nodes without direction the arc from the last to the first is the arc from
the first to the last. -/
theorem exists_create_numbersArcs_three :
    ∃ g, create (.int 3) .undirected = .ok g ∧ g.getArc ⟨3⟩ ⟨1⟩ = ⟨7⟩ ∧
      g.getArc ⟨1⟩ ⟨3⟩ = ⟨7⟩ ∧ (g.graph.arcs .all).length = 3 := by
  obtain ⟨g, created, size, undirected, numbers⟩ :=
    exists_create_numbersArcs (n := 3) (by decide) (by decide) .undirected
  obtain rfl : ⟨3, false, .empty⟩ = g := Except.ok.inj created
  have back := (numbers.undirected rfl ⟨1⟩ ⟨3⟩ rfl rfl (by decide)).1
  exact ⟨_, created, back.trans rfl, rfl, numbers.count⟩

end CompleteGraph

end ArcSelection
