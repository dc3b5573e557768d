import ArcSelection.Proofs.Graph.Lawful
import Mathlib.Algebra.BigOperators.Group.List.Basic
import Mathlib.Combinatorics.Pigeonhole
import Mathlib.Tactic.Linarith

/-!
# Forward walks and their totals

A directed arc leads from its tail to its head, and an edge leads both ways. A walk is a
list of arcs that each lead on from where the one before ended, and its total is the sum
of their values. Where no closed walk has a negative total, some walk with fewer arcs
than the graph has nodes is as cheap as any given one (`Walk.exists_shorter`).
-/

namespace ArcSelection.Graph

variable {g : Graph} {value : Arc → Rat}

/-- The arc leads forward from one node to another. -/
def Leads (g : Graph) (a : Arc) (m n : Node) : Prop :=
  a ∈ g.arcs .all ∧
    (g.tail a = m ∧ g.head a = n ∨ g.isEdge a = true ∧ g.head a = m ∧ g.tail a = n)

instance (g : Graph) (a : Arc) (m n : Node) : Decidable (g.Leads a m n) :=
  inferInstanceAs (Decidable (_ ∧ _))

/-- The arcs lead from one node to another, in the order they are passed. -/
inductive Walk (g : Graph) : Node → List Arc → Node → Prop where
  | nil (n : Node) : Walk g n [] n
  | cons {a : Arc} {as : List Arc} {m k n : Node} (first : g.Leads a m k)
      (rest : Walk g k as n) : Walk g m (a :: as) n

/-- The sum of the values of the arcs passed. -/
def total (value : Arc → Rat) (as : List Arc) : Rat := (as.map value).sum

@[simp] theorem total_nil : total value [] = 0 := rfl

@[simp] theorem total_cons (a : Arc) (as : List Arc) :
    total value (a :: as) = value a + total value as := by
  simp [total]

@[simp] theorem total_append (as bs : List Arc) :
    total value (as ++ bs) = total value as + total value bs := by
  simp [total]

/-- The other end of an arc that leads from a node is where it leads. -/
theorem Leads.other_eq {a : Arc} {m n : Node} (leads : g.Leads a m n) : g.other a m = n := by
  rcases leads.2 with ⟨tail, head⟩ | ⟨_, head, tail⟩
  · simp [Ends.other, tail, head]
  · by_cases loop : n = m
    · simp [Ends.other, tail, head, loop]
    · simp [Ends.other, tail, loop]

/-- Seen from where an arc leads, its other end is where it comes from. -/
theorem Leads.other_back {a : Arc} {m n : Node} (leads : g.Leads a m n) :
    g.other a n = m := by
  rcases leads.2 with ⟨tail, head⟩ | ⟨_, head, tail⟩
  · by_cases loop : m = n
    · simp [Ends.other, tail, head, loop]
    · simp [Ends.other, tail, loop]
  · simp [Ends.other, tail, head]

/-- The arcs that lead on from a node are those the graph lists there as forward. -/
theorem Lawful.mem_incidentArcs_forward (lawful : g.Lawful) {a : Arc} {m : Node} :
    a ∈ g.incidentArcs m .forward ↔ g.Leads a m (g.other a m) := by
  rw [lawful.mem_incidentArcs]
  constructor
  · rintro ⟨listed, touched, passed⟩
    refine ⟨listed, ?_⟩
    by_cases tail : g.tail a = m
    · exact .inl ⟨tail, by simp [Ends.other, tail]⟩
    · have head : g.head a = m := by simpa [Ends.touches, tail] using touched
      have edge : g.isEdge a = true := by simpa [Ends.passes, tail] using passed
      exact .inr ⟨edge, head, by simp [Ends.other, tail]⟩
  · rintro ⟨listed, ⟨tail, _⟩ | ⟨edge, head, _⟩⟩
    · exact ⟨listed, by simp [Ends.touches, tail], by simp [Ends.passes, tail]⟩
    · exact ⟨listed, by simp [Ends.touches, head], by simp [Ends.passes, edge]⟩

/-- An arc leads to nodes of the graph only. -/
theorem Leads.mem_nodes (lists : g.ListsArcs) {a : Arc} {m n : Node} (leads : g.Leads a m n) :
    n ∈ g.nodes := by
  refine lists.mem_nodes_of_touches leads.1 ?_
  rcases leads.2 with ⟨_, head⟩ | ⟨_, _, tail⟩
  · simp [Ends.touches, head]
  · simp [Ends.touches, tail]

namespace Walk

variable {m k n : Node} {as bs : List Arc}

/-- Two walks follow each other. -/
theorem append (first : g.Walk m as k) (second : g.Walk k bs n) : g.Walk m (as ++ bs) n := by
  induction first with
  | nil => exact second
  | cons leads _ ih => exact .cons leads (ih second)

/-- A walk goes on over one more arc. -/
theorem snoc (walk : g.Walk m as k) {a : Arc} (leads : g.Leads a k n) :
    g.Walk m (as ++ [a]) n :=
  walk.append (.cons leads (.nil n))

/-- A walk is two walks. -/
theorem split (walk : g.Walk m (as ++ bs) n) : ∃ k, g.Walk m as k ∧ g.Walk k bs n := by
  induction as generalizing m with
  | nil => exact ⟨m, .nil m, walk⟩
  | cons a as ih =>
      cases walk with
      | cons leads rest =>
          obtain ⟨k, first, second⟩ := ih rest
          exact ⟨k, .cons leads first, second⟩

/-- A walk that is not empty ends with an arc that leads to its end. -/
theorem last {a : Arc} (walk : g.Walk m (as ++ [a]) n) : ∃ k, g.Walk m as k ∧ g.Leads a k n := by
  obtain ⟨k, before, step⟩ := walk.split
  cases step with
  | cons leads rest =>
      cases rest
      exact ⟨k, before, leads⟩

/-- The arcs of a walk and where it starts determine where it ends. -/
theorem unique {n' : Node} (walk : g.Walk m as n) (other : g.Walk m as n') : n = n' := by
  induction walk with
  | nil => cases other; rfl
  | cons leads _ ih =>
      cases other with
      | cons leads' rest' =>
          obtain rfl := leads.other_eq.symm.trans leads'.other_eq
          exact ih rest'

/-- A walk ends at a node of the graph. -/
theorem mem_nodes (lists : g.ListsArcs) (walk : g.Walk m as n) (start : m ∈ g.nodes) :
    n ∈ g.nodes := by
  induction walk with
  | nil => exact start
  | cons leads _ ih => exact ih (leads.mem_nodes lists)

/-- A number for every node that no arc raises by more than its value is raised by no
walk by more than its total. -/
theorem potential {height : Node → Rat}
    (bounded : ∀ a m n, g.Leads a m n → height n ≤ height m + value a) (walk : g.Walk m as n) :
    height n ≤ height m + total value as := by
  induction walk with
  | nil => simp
  | cons leads _ ih =>
      have first := bounded _ _ _ leads
      rw [total_cons]
      linarith

/-- A walk with as many arcs as the graph has nodes passes a closed walk. -/
theorem exists_closed (lists : g.ListsArcs) (walk : g.Walk m as n) (start : m ∈ g.nodes)
    (long : g.nodes.length ≤ as.length) :
    ∃ before closed after k, as = before ++ closed ++ after ∧ closed ≠ [] ∧
      g.Walk m before k ∧ g.Walk k closed k ∧ g.Walk k after n := by
  have position : ∀ i, ∃ k, g.Walk m (as.take i) k ∧ g.Walk k (as.drop i) n := fun i =>
    split (by rwa [List.take_append_drop])
  choose visited before after using position
  -- The nodes visited, from the start to the end, are more than the graph has.
  have repeated : ∃ i j, i < j ∧ j ≤ as.length ∧ visited i = visited j := by
    have many : g.nodes.toFinset.card < (Finset.range (as.length + 1)).card := by
      rw [Finset.card_range]
      exact Nat.lt_succ_of_le ((List.toFinset_card_le _).trans long)
    obtain ⟨i, inRange, j, inRange', different, same⟩ :=
      Finset.exists_ne_map_eq_of_card_lt_of_maps_to (f := visited) many fun i _ =>
        List.mem_toFinset.mpr ((before i).mem_nodes lists start)
    rw [Finset.mem_range] at inRange inRange'
    rcases Nat.lt_or_gt_of_ne different with less | more
    · exact ⟨i, j, less, by omega, same⟩
    · exact ⟨j, i, more, by omega, same.symm⟩
  obtain ⟨i, j, less, inRange, same⟩ := repeated
  have upToHere : as.take j = as.take i ++ (as.take j).drop i := by
    conv_lhs => rw [← List.take_append_drop i (as.take j), List.take_take, Nat.min_eq_left less.le]
  obtain ⟨k, first, second⟩ := split (upToHere ▸ before j)
  obtain rfl := first.unique (before i)
  refine ⟨as.take i, (as.take j).drop i, as.drop j, visited i, ?_, ?_, before i, ?_, ?_⟩
  · rw [← upToHere, List.take_append_drop]
  · intro nothing
    have := congrArg List.length nothing
    simp only [List.length_drop, List.length_take, List.length_nil] at this
    omega
  · exact same ▸ second
  · exact same ▸ after j

/-- Where no closed walk that can be reached has a negative total, a walk is no cheaper
than some walk with fewer arcs than the graph has nodes. -/
theorem exists_shorter (lists : g.ListsArcs) (walk : g.Walk m as n) (start : m ∈ g.nodes)
    (closed : ∀ cs k, g.Walk m cs k → ∀ bs, g.Walk k bs k → 0 ≤ total value bs) :
    ∃ bs, g.Walk m bs n ∧ bs.length < g.nodes.length ∧ total value bs ≤ total value as := by
  induction length : as.length using Nat.strong_induction_on generalizing as with
  | _ size ih =>
      by_cases short : as.length < g.nodes.length
      · exact ⟨as, walk, short, le_rfl⟩
      · obtain ⟨before, loop, after, k, rfl, notEmpty, first, around, last⟩ :=
          walk.exists_closed lists start (Nat.le_of_not_lt short)
        have shorter : (before ++ after).length < size := by
          have := List.length_pos_iff.mpr notEmpty
          simp only [List.length_append] at length ⊢
          omega
        obtain ⟨bs, found, few, cheap⟩ := ih _ shorter (first.append last) rfl
        have gain := closed before k first loop around
        refine ⟨bs, found, few, cheap.trans ?_⟩
        simp only [total_append]
        linarith

end Walk

end ArcSelection.Graph
