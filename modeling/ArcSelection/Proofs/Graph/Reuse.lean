import ArcSelection.Proofs.Graph.History
import Mathlib.Data.List.Induction

/-!
# Ids that come back

Automatic allocation counts upwards and never goes back, so an id that it has passed is
not allotted again. An id that a caller gave ahead of the counter is not passed: once it is
removed it is free, and the counter may still come to it. An allotted id was therefore
removed earlier exactly if it was given earlier.
-/

namespace ArcSelection

namespace StoredGraph

/-- Whether an id is in use. -/
def uses (g : StoredGraph) (item : Item) (id : Int) : Bool :=
  match item with
  | .node => g.nodes.contains ⟨id⟩
  | .arc => g.arcs.contains ⟨id⟩

/-- The number from which automatic allocation looks for an id. -/
def counter (g : StoredGraph) (item : Item) : Nat :=
  match item with
  | .node => g.nextNode
  | .arc => g.nextArc

/-- The call adds an item under the id, which is given with the call. -/
inductive Gives (g : StoredGraph) : Item → Int → Change → Prop
  | node {n : Node} {value : Value} {properties : Option Properties} {next : StoredGraph}
      (added : g.addNode (some value) properties = .ok (n, next)) :
      g.Gives .node n.id (.addNode (some value) properties)
  | arc {a : Arc} {u v : Node} {direction : Directedness} {value : Value}
      {properties : Option Properties} {next : StoredGraph}
      (added : g.addArc u v direction (some value) properties = .ok (a, next)) :
      g.Gives .arc a.id (.addArc u v direction (some value) properties)

/-- The call adds an item under the id, which is found by automatic allocation. -/
inductive Allots (g : StoredGraph) : Item → Int → Change → Prop
  | node {n : Node} {properties : Option Properties} {next : StoredGraph}
      (added : g.addNode none properties = .ok (n, next)) :
      g.Allots .node n.id (.addNode none properties)
  | arc {a : Arc} {u v : Node} {direction : Directedness} {properties : Option Properties}
      {next : StoredGraph} (added : g.addArc u v direction none properties = .ok (a, next)) :
      g.Allots .arc a.id (.addArc u v direction none properties)

/-- The call takes the id out of use. -/
def Removes (g : StoredGraph) (item : Item) (id : Int) (change : Change) : Prop :=
  g.uses item id = true ∧ (g.after change).uses item id = false

/-- A call of the history did something to the graph it was made on. -/
def Happened (what : StoredGraph → Change → Prop) (changes : List Change) : Prop :=
  ∃ earlier change later, changes = earlier ++ change :: later ∧
    what (empty.afterAll earlier) change

variable {g : StoredGraph} {item : Item} {id : Int} {change : Change}
  {what : StoredGraph → Change → Prop} {changes : List Change}

/-- A history may be run up to its last change first. -/
theorem afterAll_concat :
    g.afterAll (changes ++ [change]) = (g.afterAll changes).after change := by
  simp [afterAll]

/-- What happened in a history happened with its last call or before. -/
theorem happened_concat_iff :
    Happened what (changes ++ [change]) ↔
      Happened what changes ∨ what (empty.afterAll changes) change := by
  constructor
  · rintro ⟨earlier, c, later, split, holds⟩
    rcases List.eq_nil_or_concat later with rfl | ⟨init, last, rfl⟩
    · obtain ⟨rfl, same⟩ := List.append_inj' split rfl
      cases same
      exact .inr holds
    · rw [List.concat_eq_append, ← List.cons_append, ← List.append_assoc] at split
      obtain ⟨rfl, _⟩ := List.append_inj' split rfl
      exact .inl ⟨earlier, c, init, rfl, holds⟩
  · rintro (⟨earlier, c, later, rfl, holds⟩ | holds)
    · exact ⟨earlier, c, later ++ [change], by simp, holds⟩
    · exact ⟨changes, change, [], rfl, holds⟩

/-- Removing arcs leaves the nodes and both counters as they are. -/
theorem deleteArcs_counters (as : List Arc) :
    (as.foldl (fun h a => (h.deleteArc a).2) g).nextNode = g.nextNode ∧
      (as.foldl (fun h a => (h.deleteArc a).2) g).nextArc = g.nextArc := by
  induction as generalizing g with
  | nil => exact ⟨rfl, rfl⟩
  | cons a as ih =>
      have one : (g.deleteArc a).2.nextNode = g.nextNode ∧
          (g.deleteArc a).2.nextArc = g.nextArc := by
        unfold deleteArc
        split <;> exact ⟨rfl, rfl⟩
      rw [List.foldl_cons, ih.1, ih.2]
      exact one

/-- A node that is put uses its id, and no other. -/
theorem uses_putNode {n : Node} (properties : Option Properties)
    (used : (g.putNode n properties).uses item id = true) :
    g.uses item id = true ∨ item = .node ∧ n.id = id := by
  cases item with
  | node =>
      simp only [uses, putNode, OrderedMap.contains_insert, Bool.or_eq_true, beq_iff_eq] at used
      rcases used with rfl | used
      · exact .inr ⟨rfl, rfl⟩
      · exact .inl used
  | arc => exact .inl used

/-- An arc that is put uses its id, and no other. -/
theorem uses_putArc {a : Arc} {r : ArcRecord} (properties : Option Properties)
    (used : (g.putArc a r properties).uses item id = true) :
    g.uses item id = true ∨ item = .arc ∧ a.id = id := by
  cases item with
  | node => exact .inl (by simpa [uses] using used)
  | arc =>
      simp only [uses, putArc, OrderedMap.contains_insert, Bool.or_eq_true, beq_iff_eq] at used
      rcases used with rfl | used
      · exact .inr ⟨rfl, rfl⟩
      · exact .inl used

/-- Deleting an arc uses no id. -/
theorem uses_deleteArc {a : Arc} (used : (g.deleteArc a).2.uses item id = true) :
    g.uses item id = true := by
  cases item with
  | node => simpa [uses] using used
  | arc =>
      rw [uses, OrderedMap.contains_eq_isSome, get?_arcs_deleteArc] at used
      split at used
      · cases used
      · rwa [uses, OrderedMap.contains_eq_isSome]

/-- Deleting a node uses no id. -/
theorem uses_deleteNode {n : Node} (used : (g.deleteNode n).2.uses item id = true) :
    g.uses item id = true := by
  have ofArcs : ∀ as : List Arc, ∀ h : StoredGraph,
      (as.foldl (fun h a => (h.deleteArc a).2) h).uses item id = true →
        h.uses item id = true := by
    intro as
    induction as with
    | nil => exact fun _ used => used
    | cons a as ih => exact fun h used => uses_deleteArc (ih _ used)
  unfold deleteNode at used
  split at used
  · refine ofArcs (g.incidentArcs n .all) g ?_
    cases item with
    | node =>
        rw [uses, OrderedMap.contains_erase, Bool.and_eq_true] at used
        exact used.2
    | arc => exact used
  · exact used

/-- Automatic allocation takes the fresh arc and moves the counter past it. -/
theorem addArc_none {a : Arc} {u v : Node} {direction : Directedness}
    {properties : Option Properties} {next : StoredGraph}
    (added : g.addArc u v direction none properties = .ok (a, next)) :
    a = ⟨g.freshArc⟩ ∧ next =
      { g.putArc ⟨g.freshArc⟩ ⟨u, v, direction == .undirected⟩ properties with
        nextArc := g.freshArc + 1 } := by
  rw [addArc_eq] at added
  split at added
  · cases added
  · split at added <;> cases added
    exact ⟨rfl, rfl⟩

/-- What a call does to the ids of a kind: it never sets the counter back, and an id that it
brings into use is given with the call or allotted, which moves the counter past it. -/
structure Tracks (g : StoredGraph) (change : Change) (next : StoredGraph) (item : Item) : Prop where
  grows : g.counter item ≤ next.counter item
  source : ∀ id, next.uses item id = true → g.uses item id = true ∨ g.Gives item id change ∨
    g.Allots item id change ∧ id < next.counter item

/-- A call that brings one id into use. -/
theorem tracks_of_new {next : StoredGraph} {kind : Item} {new : Int}
    (grows : ∀ item, g.counter item ≤ next.counter item)
    (brings : ∀ {item id}, next.uses item id = true → g.uses item id = true ∨ item = kind ∧ new = id)
    (how : g.Gives kind new change ∨ g.Allots kind new change ∧ new < next.counter kind) :
    g.Tracks change next item := by
  refine ⟨grows item, fun id used => (brings used).imp_right ?_⟩
  rintro ⟨rfl, rfl⟩
  exact how

/-- A call that brings no id into use. -/
theorem tracks_of_nothing_new {next : StoredGraph} (grows : g.counter item ≤ next.counter item)
    (brings : ∀ {id}, next.uses item id = true → g.uses item id = true) :
    g.Tracks change next item :=
  ⟨grows, fun _ used => .inl (brings used)⟩

/-- A call that is accepted moves the counters as is told. -/
theorem tracks_of_perform {next : StoredGraph} (performed : g.perform change = .ok next)
    (item : Item) : g.Tracks change next item := by
  cases change with
  | addNode value properties =>
      obtain ⟨⟨n, g'⟩, added, rfl⟩ := Fallible.map_eq_ok_iff.mp performed
      cases value with
      | none =>
          have allots := Allots.node added
          cases added
          refine tracks_of_new (fun item => ?_) (uses_putNode properties)
            (.inr ⟨allots, Int.ofNat_lt.mpr (Nat.lt_succ_self _)⟩)
          cases item
          · exact Nat.le_succ_of_le g.freshNode_spec.2.1
          · exact le_rfl
      | some value =>
          obtain ⟨_, ⟨none, _⟩ | ⟨_, rfl⟩⟩ := addNode_cases added
          · cases none
          · exact tracks_of_new (fun item => by cases item <;> exact le_rfl)
              (uses_putNode properties) (.inl (.node added))
  | addArc u v direction value properties =>
      obtain ⟨⟨a, g'⟩, added, rfl⟩ := Fallible.map_eq_ok_iff.mp performed
      cases value with
      | none =>
          have allots := Allots.arc added
          obtain ⟨rfl, rfl⟩ := addArc_none added
          refine tracks_of_new (fun item => ?_) (uses_putArc properties)
            (.inr ⟨allots, Int.ofNat_lt.mpr (Nat.lt_succ_self _)⟩)
          cases item
          · exact le_rfl
          · exact Nat.le_succ_of_le g.freshArc_spec.2.1
      | some value =>
          obtain ⟨_, _, _, ⟨none, _⟩ | ⟨_, rfl⟩⟩ := addArc_cases added
          · cases none
          · exact tracks_of_new (fun item => by cases item <;> exact le_rfl)
              (uses_putArc properties) (.inl (.arc added))
  | deleteNode n =>
      cases performed
      refine tracks_of_nothing_new ?_ uses_deleteNode
      unfold deleteNode
      split
      · cases item
        · exact (deleteArcs_counters _).1.ge
        · exact (deleteArcs_counters _).2.ge
      · exact le_rfl
  | deleteArc a =>
      cases performed
      refine tracks_of_nothing_new ?_ uses_deleteArc
      cases item
      · exact (deleteArcs_counters [a]).1.ge
      · exact (deleteArcs_counters [a]).2.ge
  | clear =>
      cases performed
      refine tracks_of_nothing_new (by cases item <;> exact le_rfl) fun used => ?_
      cases item <;> cases used
  | setNodeProperties n properties | setArcProperties a properties =>
      simp only [perform] at performed
      split at performed <;> cases performed
      exact tracks_of_nothing_new (by cases item <;> exact le_rfl)
        fun used => by cases item <;> exact used

/-- A change moves the counters as is told. -/
theorem tracks_after (g : StoredGraph) (change : Change) (item : Item) :
    g.Tracks change (g.after change) item := by
  rw [after_eq]
  split
  · exact tracks_of_perform ‹_› item
  · exact tracks_of_nothing_new le_rfl id

/-- An id that is given is in use afterwards. -/
theorem Gives.uses_after (gives : g.Gives item id change) :
    (g.after change).uses item id = true := by
  cases gives with
  | node added =>
      obtain ⟨_, ⟨none, _⟩ | ⟨_, rfl⟩⟩ := addNode_cases added
      · cases none
      · simp [after_eq, perform, added, Except.map, uses, putNode, OrderedMap.contains_insert]
  | arc added =>
      obtain ⟨_, _, _, ⟨none, _⟩ | ⟨_, rfl⟩⟩ := addArc_cases added
      · cases none
      · simp [after_eq, perform, added, Except.map, uses, putArc, OrderedMap.contains_insert]

/-- An allotted id is not in use, and the counter has not passed it. -/
theorem Allots.fresh (allots : g.Allots item id change) :
    g.uses item id = false ∧ (g.counter item : Int) ≤ id := by
  cases allots with
  | node added =>
      cases added
      exact ⟨g.freshNode_spec.1, Int.ofNat_le.mpr g.freshNode_spec.2.1⟩
  | arc added =>
      obtain ⟨rfl, _⟩ := addArc_none added
      exact ⟨g.freshArc_spec.1, Int.ofNat_le.mpr g.freshArc_spec.2.1⟩

/-- After every history, an id that is in use or was removed was given, or the counter has
passed it; and an id that was given is in use or was removed. -/
structure Traced (changes : List Change) (item : Item) : Prop where
  source : ∀ id, ((empty.afterAll changes).uses item id = true ∨
      Happened (·.Removes item id) changes) →
    Happened (·.Gives item id) changes ∨ id < (empty.afterAll changes).counter item
  fate : ∀ id, Happened (·.Gives item id) changes →
    (empty.afterAll changes).uses item id = true ∨ Happened (·.Removes item id) changes

/-- Every history is traced. -/
theorem traced_afterAll (changes : List Change) (item : Item) : Traced changes item := by
  induction changes using List.reverseRecOn with
  | nil =>
      refine ⟨fun id => ?_, fun id => ?_⟩
      · rintro (used | ⟨earlier, change, later, split, _⟩)
        · cases item <;> cases used
        · simp at split
      · rintro ⟨earlier, change, later, split, _⟩
        simp at split
  | append_singleton changes change ih =>
      obtain ⟨grows, source⟩ := tracks_after (empty.afterAll changes) change item
      simp only [← afterAll_concat] at grows source
      -- What was in use or removed before the last call keeps its source.
      have earlier : ∀ id, ((empty.afterAll changes).uses item id = true ∨
          Happened (·.Removes item id) changes) →
          Happened (·.Gives item id) (changes ++ [change]) ∨
            id < (empty.afterAll (changes ++ [change])).counter item := fun id known =>
        (ih.source id known).imp (fun given => happened_concat_iff.mpr (.inl given))
          fun passed => passed.trans_le (Int.ofNat_le.mpr grows)
      refine ⟨fun id known => ?_, fun id given => ?_⟩
      · rcases known with used | removed
        · rcases source id used with before | gives | ⟨_, passed⟩
          · exact earlier id (.inl before)
          · exact .inl (happened_concat_iff.mpr (.inr gives))
          · exact .inr passed
        · rcases happened_concat_iff.mp removed with before | now
          · exact earlier id (.inr before)
          · exact earlier id (.inl now.1)
      · rcases happened_concat_iff.mp given with before | now
        · by_cases still : (empty.afterAll (changes ++ [change])).uses item id = true
          · exact .inl still
          · refine .inr (happened_concat_iff.mpr ((ih.fate id before).symm.imp_right fun used => ?_))
            exact ⟨used, by simpa [afterAll_concat] using still⟩
        · exact .inl (afterAll_concat ▸ now.uses_after)

/-- Counters never go back. -/
theorem counter_le_afterAll (g : StoredGraph) (changes : List Change) (item : Item) :
    g.counter item ≤ (g.afterAll changes).counter item := by
  induction changes generalizing g with
  | nil => exact le_rfl
  | cons change changes ih => exact (tracks_after g change item).grows.trans (ih _)

/-- An allotted id was removed earlier exactly if it was given earlier, and no counter of
the history had passed it. -/
theorem removed_iff_given_of_allots (changes : List Change)
    (allots : (empty.afterAll changes).Allots item id change) :
    (Happened (·.Removes item id) changes ↔ Happened (·.Gives item id) changes) ∧
      ∀ earlier later, changes = earlier ++ later →
        ((empty.afterAll earlier).counter item : Int) ≤ id := by
  obtain ⟨free, ahead⟩ := allots.fresh
  obtain ⟨source, fate⟩ := traced_afterAll changes item
  refine ⟨⟨fun removed => ?_, fun given => ?_⟩, ?_⟩
  · exact (source id (.inr removed)).resolve_right (not_lt.mpr ahead)
  · exact (fate id given).resolve_left (by simp [free])
  · rintro earlier later rfl
    have grows := counter_le_afterAll (empty.afterAll earlier) later item
    rw [afterAll, List.foldl_append] at ahead
    exact (Int.ofNat_le.mpr grows).trans ahead

/-- Two parallel arcs, one of them under an id ahead of the counter, are removed with the
node they lead to, and another node takes its place. -/
def arcGivenAhead : List Change :=
  [.addNode none none, .addNode none none, .addArc ⟨1⟩ ⟨2⟩ .directed none none,
    .addArc ⟨1⟩ ⟨2⟩ .undirected (some (.int 2)) none, .deleteNode ⟨2⟩, .addNode none none]

/-- The next arc gets the id that was given and removed, the next node a new one. -/
theorem removed_iff_given_of_allots_arcGivenAhead :
    (empty.afterAll arcGivenAhead).Allots .arc 2 (.addArc ⟨1⟩ ⟨3⟩ .directed none none) ∧
      Happened (·.Gives .arc 2) arcGivenAhead ∧ Happened (·.Removes .arc 2) arcGivenAhead ∧
      (empty.afterAll arcGivenAhead).Allots .node 4 (.addNode none none) ∧
      ¬ Happened (·.Removes .node 4) arcGivenAhead := by
  have arc : (empty.afterAll arcGivenAhead).Allots .arc 2
      (.addArc ⟨1⟩ ⟨3⟩ .directed none none) := .arc (a := ⟨2⟩) rfl
  have node : (empty.afterAll arcGivenAhead).Allots .node 4 (.addNode none none) :=
    .node (n := ⟨4⟩) rfl
  have given : Happened (·.Gives .arc 2) arcGivenAhead :=
    ⟨arcGivenAhead.take 3, _, _, rfl, .arc (a := ⟨2⟩) rfl⟩
  refine ⟨arc, given, (removed_iff_given_of_allots arcGivenAhead arc).1.mpr given, node,
    fun removed => ?_⟩
  -- No call of the history gives the node 4.
  obtain ⟨earlier, change, later, split, gives⟩ :=
    (removed_iff_given_of_allots arcGivenAhead node).1.mp removed
  have member : change ∈ arcGivenAhead := by simp [split]
  generalize (4 : Int) = id at gives
  cases gives with
  | node _ => simp [arcGivenAhead] at member

/-- A node under an id that was given is removed, and the id is allotted. -/
theorem allots_removed_givenFirst :
    Happened (·.Removes .node 1) [.addNode (some (.int 1)) none, .deleteNode ⟨1⟩] ∧
      (empty.afterAll [.addNode (some (.int 1)) none, .deleteNode ⟨1⟩]).Allots .node 1
        (.addNode none none) :=
  ⟨⟨[.addNode (some (.int 1)) none], .deleteNode ⟨1⟩, [], rfl, rfl, rfl⟩,
    .node (n := ⟨1⟩) rfl⟩

end StoredGraph

end ArcSelection
