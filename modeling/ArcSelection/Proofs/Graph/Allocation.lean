import ArcSelection.Proofs.Graph.Reuse
import Mathlib.Order.Bounds.Defs

/-!
# Automatic allocation

Automatic allocation looks at one number after the other, from a counter on, until it finds
one that is not in use. The search is stated here without a limit on how far it looks. It
ends because a graph has finitely many ids, and at the least number that is free. The counter
then stands behind the allotted id and never goes back, so the ids that a history is allotted
increase, whatever is given, removed or cleared in between.
-/

namespace ArcSelection

/-- The search for a free number from a number on ends at another: it goes on while the number
it has come to is taken. -/
inductive Search (taken : Nat → Bool) : Nat → Nat → Prop
  | here {n : Nat} (free : taken n = false) : Search taken n n
  | further {n found : Nat} (busy : taken n = true) (rest : Search taken (n + 1) found) :
      Search taken n found

namespace Search

variable {taken : Nat → Bool} {start found : Nat}

/-- A search ends at the least free number. -/
theorem isLeast (search : Search taken start found) :
    IsLeast {n | start ≤ n ∧ taken n = false} found := by
  induction search with
  | here free => exact ⟨⟨le_rfl, free⟩, fun _ other => other.1⟩
  | @further n found busy _ ih =>
      refine ⟨⟨Nat.le_of_succ_le ih.1.1, ih.1.2⟩, fun m ⟨fromStart, free⟩ => ?_⟩
      have different : n ≠ m := by
        rintro rfl
        cases busy.symm.trans free
      exact ih.2 ⟨Nat.lt_of_le_of_ne fromStart different, free⟩

/-- A search over taken numbers comes to the free number behind them. -/
theorem of_taken (later : start ≤ found) (free : taken found = false)
    (between : ∀ n, start ≤ n → n < found → taken n = true) : Search taken start found := by
  induction later using Nat.decreasingInduction with
  | self => exact .here free
  | of_succ n less ih =>
      exact .further (between n le_rfl less) (ih fun m fromNext => between m (by omega))

end Search

/-- The call asks for an item of a kind and leaves the id to the graph. -/
inductive Change.IsAutomatic : Item → Change → Prop
  | node (properties : Option Properties) : IsAutomatic .node (.addNode none properties)
  | arc (u v : Node) (direction : Directedness) (properties : Option Properties) :
      IsAutomatic .arc (.addArc u v direction none properties)

namespace StoredGraph

/-- Both ends of the arc that a call adds are in the graph. -/
def HasEnds (g : StoredGraph) : Change → Prop
  | .addArc u v _ _ _ => g.nodes.contains u = true ∧ g.nodes.contains v = true
  | _ => True

variable {g : StoredGraph} {item : Item} {id : Int} {change : Change}

/-- What automatic allocation finds in a graph. -/
def fresh (g : StoredGraph) (item : Item) : Nat :=
  match item with
  | .node => g.freshNode
  | .arc => g.freshArc

/-- In every graph the search ends. -/
theorem search_fresh (g : StoredGraph) (item : Item) :
    Search (fun n => g.uses item n) (g.counter item) (g.fresh item) := by
  cases item with
  | node =>
      obtain ⟨free, later, between⟩ := g.freshNode_spec
      exact .of_taken later free between
  | arc =>
      obtain ⟨free, later, between⟩ := g.freshArc_spec
      exact .of_taken later free between

/-- A call for an automatic id is allotted what the search finds, unless an end is missing. -/
theorem allots_iff (automatic : change.IsAutomatic item) :
    g.Allots item id change ↔ id = g.fresh item ∧ g.HasEnds change := by
  cases automatic with
  | node properties =>
      constructor
      · intro allots
        cases allots with
        | node added =>
            cases added
            exact ⟨rfl, trivial⟩
      · rintro ⟨rfl, -⟩
        exact .node (n := ⟨g.freshNode⟩) rfl
  | arc u v direction properties =>
      constructor
      · intro allots
        cases allots with
        | arc added =>
            obtain ⟨tail, head, _⟩ := addArc_cases added
            obtain ⟨rfl, _⟩ := addArc_none added
            exact ⟨rfl, tail, head⟩
      · rintro ⟨rfl, tail, head⟩
        have added : g.addArc u v direction none properties =
            .ok (g.pushArc ⟨u, v, direction == .undirected⟩ properties) := by
          simp [addArc_eq, tail, head]
        exact .arc (a := ⟨g.freshArc⟩) added

/-- The counter stands behind an allotted id. -/
theorem Allots.counter_after (allots : g.Allots item id change) :
    ((g.after change).counter item : Int) = id + 1 := by
  cases allots with
  | node added =>
      rename_i n properties next
      have performed : g.after (.addNode none properties) = next := by
        rw [after_eq, perform, added]
        rfl
      rw [performed]
      cases added
      rfl
  | arc added =>
      rename_i a u v direction properties next
      have performed : g.after (.addArc u v direction none properties) = next := by
        rw [after_eq, perform, added]
        rfl
      rw [performed]
      obtain ⟨rfl, rfl⟩ := addArc_none added
      rfl

/-- The counter stays behind an id that was allotted once. -/
theorem lt_counter_of_happened {changes : List Change}
    (happened : Happened (·.Allots item id) changes) :
    id < (empty.afterAll changes).counter item := by
  obtain ⟨earlier, change, later, rfl, allots⟩ := happened
  have passed := allots.counter_after
  have kept := counter_le_afterAll ((empty.afterAll earlier).after change) later item
  have split : (empty.afterAll (earlier ++ change :: later)) =
      ((empty.afterAll earlier).after change).afterAll later := by
    simp [afterAll]
  rw [split]
  omega

/-- What automatic allocation of items of a kind does after a history: it finds a number. -/
structure AllotsLeast (changes : List Change) (item : Item) (found : Nat) : Prop where
  /-- The search from the counter ends. -/
  search : Search (fun n => (empty.afterAll changes).uses item n)
    ((empty.afterAll changes).counter item) found
  /-- The number is not in use, and no other from the counter on that is not in use is less. -/
  least : IsLeast {n : Nat | (empty.afterAll changes).counter item ≤ n ∧
    (empty.afterAll changes).uses item n = false} found
  /-- A call that leaves the id to the graph gets the number, unless an end is missing. -/
  allots_iff : ∀ (change : Change) (id : Int), change.IsAutomatic item →
    ((empty.afterAll changes).Allots item id change ↔
      id = found ∧ (empty.afterAll changes).HasEnds change)
  /-- The number is greater than every id that was allotted before. -/
  increases : ∀ id, Happened (·.Allots item id) changes → id < found

/-- After every history automatic allocation finds the least number from the counter on that is
not in use, and all that it finds in the course of a history is increasing. -/
theorem exists_allotsLeast (changes : List Change) (item : Item) :
    ∃ found, AllotsLeast changes item found := by
  have search := (empty.afterAll changes).search_fresh item
  refine ⟨_, search, search.isLeast, fun _ _ => allots_iff, fun id happened => ?_⟩
  exact (lt_counter_of_happened happened).trans_le (Int.ofNat_le.mpr search.isLeast.1.1)

end StoredGraph

end ArcSelection
