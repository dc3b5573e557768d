import ArcSelection.Proofs.ExactNumber
import ArcSelection.Proofs.Graph.Lawful
import ArcSelection.Selection.Task
import Mathlib.Algebra.BigOperators.Group.List.Basic
import Mathlib.Algebra.Order.BigOperators.Group.List
import Mathlib.Algebra.Order.Ring.Rat
import Mathlib.Data.Nat.Cast.Order.Ring

/-!
# Degrees under a fractional selection

Every arc of a graph is taken in some part. The degree of a node sums the parts of
the arcs at it, one share for each end; the in-degree and the out-degree sum those of
the directed arcs that enter or leave it. `SelectionTask.MetBy` says that parts keep
every bound of a task; it speaks of the graph only and of no program.
-/

namespace ArcSelection

open Decimal

/-- What a bound on the degree of a node counts. -/
inductive DegreeKind where
  | whole
  | entering
  | leaving
deriving DecidableEq

/-- What a key bounds. -/
def DegreeKey.kind : DegreeKey → DegreeKind
  | .minDegree | .maxDegree => .whole
  | .minInDegree | .maxInDegree => .entering
  | .minOutDegree | .maxOutDegree => .leaving

/-- How often an arc counts at a node. A loop has two ends there, and an edge neither
enters nor leaves. -/
def Ends.multiplicity (e : Ends) : DegreeKind → Arc → Node → Nat
  | .whole, a, n => (if e.tail a = n then 1 else 0) + (if e.head a = n then 1 else 0)
  | .entering, a, n => if e.isEdge a = false ∧ e.head a = n then 1 else 0
  | .leaving, a, n => if e.isEdge a = false ∧ e.tail a = n then 1 else 0

/-- An arc counts only at its ends. -/
theorem Ends.multiplicity_eq_zero {e : Ends} {a : Arc} {n : Node}
    (apart : e.touches a n = false) (k : DegreeKind) : e.multiplicity k a n = 0 := by
  simp only [touches, Bool.or_eq_false_iff, beq_eq_false_iff_ne] at apart
  cases k <;> simp [multiplicity, apart]

theorem Ends.multiplicity_le_two (e : Ends) (k : DegreeKind) (a : Arc) (n : Node) :
    e.multiplicity k a n ≤ 2 := by
  cases k <;> simp only [multiplicity] <;> split_ifs <;> omega

namespace Graph

/-- The degree of a node when every arc is taken in the given part. -/
def degreeOf (g : Graph) (part : Arc → Rat) (k : DegreeKind) (n : Node) : Rat :=
  ((g.arcs .all).map fun a => g.multiplicity k a n * part a).sum

/-- How much is taken altogether. -/
def amountOf (g : Graph) (part : Arc → Rat) : Rat := ((g.arcs .all).map part).sum

/-- A degree of parts that are not negative is not negative. -/
theorem degreeOf_nonneg (g : Graph) {part : Arc → Rat}
    (nonneg : ∀ a ∈ g.arcs .all, 0 ≤ part a) (k : DegreeKind) (n : Node) :
    0 ≤ g.degreeOf part k n := by
  refine List.sum_nonneg fun share member => ?_
  obtain ⟨a, listed, rfl⟩ := List.mem_map.mp member
  exact mul_nonneg (Nat.cast_nonneg _) (nonneg a listed)

/-- An amount of parts that are not negative is not negative. -/
theorem amountOf_nonneg (g : Graph) {part : Arc → Rat}
    (nonneg : ∀ a ∈ g.arcs .all, 0 ≤ part a) : 0 ≤ g.amountOf part := by
  refine List.sum_nonneg fun share member => ?_
  obtain ⟨a, listed, rfl⟩ := List.mem_map.mp member
  exact nonneg a listed

end Graph

namespace DegreeBounds

/-- The lower bound of a node, if there is one, is at most the degree. -/
def LowerAdmits (lower : Option (Node → Except Fault Extended)) (n : Node) (d : Rat) : Prop :=
  ∀ f, lower = some f → ∃ b, f n = .ok b ∧ b ≤ .finite d

/-- The degree is at most the upper bound of a node, if there is one. -/
def UpperAdmits (upper : Option (Node → Except Fault Extended)) (n : Node) (d : Rat) : Prop :=
  ∀ f, upper = some f → ∃ b, f n = .ok b ∧ .finite d ≤ b

/-- The degree lies within both bounds of a node. -/
def Admits (b : DegreeBounds Extended) (n : Node) (d : Rat) : Prop :=
  LowerAdmits b.lower n d ∧ UpperAdmits b.upper n d

/-- The bound on the side of a key. -/
def onSide {α : Type} (b : DegreeBounds α) (k : DegreeKey) : Option (Node → Except Fault α) :=
  if k.isLower then b.lower else b.upper

end DegreeBounds

/-- A degree keeps a bound on the side of a key. -/
def DegreeKey.Keeps (k : DegreeKey) (bound : Option (Node → Except Fault Extended)) (n : Node)
    (d : Rat) : Prop :=
  if k.isLower then DegreeBounds.LowerAdmits bound n d else DegreeBounds.UpperAdmits bound n d

/-- Bounds by kind of degree are bounds by key. -/
theorem DegreeBounds.forall_admits_iff {bounds : DegreeKind → DegreeBounds Extended} {n : Node}
    {d : DegreeKind → Rat} :
    (∀ kind, (bounds kind).Admits n (d kind)) ↔
      ∀ k : DegreeKey, k.Keeps ((bounds k.kind).onSide k) n (d k.kind) := by
  constructor
  · intro admits k
    cases k
    · exact (admits .whole).1
    · exact (admits .whole).2
    · exact (admits .entering).1
    · exact (admits .entering).2
    · exact (admits .leaving).1
    · exact (admits .leaving).2
  · intro keeps kind
    cases kind
    · exact ⟨keeps .minDegree, keeps .maxDegree⟩
    · exact ⟨keeps .minInDegree, keeps .maxInDegree⟩
    · exact ⟨keeps .minOutDegree, keeps .maxOutDegree⟩

/-- The cost of an arc, where it is a finite number. -/
def WeightedCost.costOf (c : WeightedCost Extended) (a : Arc) : Rat :=
  match c.cost a with
  | .ok v => v.rational
  | .error _ => 0

namespace SelectionTask

/-- The bounds on one kind of degree. -/
def bounds {α : Type} (t : SelectionTask α) : DegreeKind → DegreeBounds α
  | .whole => t.degree
  | .entering => t.inDegree
  | .leaving => t.outDegree

/-- The parts taken keep every bound on degrees and on the amount. -/
structure MetBy (t : SelectionTask Extended) (g : Graph) (part : Arc → Rat) : Prop where
  degree : ∀ k, ∀ n ∈ g.nodes, (t.bounds k).Admits n (g.degreeOf part k n)
  minimum : (t.minimum : Rat) ≤ g.amountOf part
  maximum : ∀ m, t.maximum = some m → g.amountOf part ≤ m

/-- The weighted total cost of the parts taken. -/
def priceOf (t : SelectionTask Extended) (g : Graph) (part : Arc → Rat) : Rat :=
  (t.costs.map fun c =>
    c.weight.rational * ((g.arcs .all).map fun a => c.costOf a * part a).sum).sum

/-- Every weight is a finite number. -/
def FiniteWeights (t : SelectionTask Extended) : Prop := ∀ c ∈ t.costs, c.weight.IsFinite

/-- A bound answers with a number at every node it is asked for. -/
def Answers (bound : Option (Node → Except Fault Extended)) (nodes : List Node) : Prop :=
  ∀ f, bound = some f → ∀ n ∈ nodes, ∃ b, f n = .ok b ∧ b ≠ .nan

/-- On the nodes of the graph every bound is a number, and on its arcs every cost is
finite. -/
structure DefinedOn (t : SelectionTask Extended) (g : Graph) : Prop where
  lower : ∀ k, Answers (t.bounds k).lower g.nodes
  upper : ∀ k, Answers (t.bounds k).upper g.nodes
  cost : ∀ c ∈ t.costs, ∀ a ∈ g.arcs .all, ∃ v, c.cost a = .ok v ∧ v.IsFinite

variable {t : SelectionTask Extended} {g : Graph}

/-- A task is defined on a graph if each bound is, key by key, and each cost. -/
theorem definedOn_of_keys
    (bound : ∀ (k : DegreeKey) f, (t.bounds k.kind).onSide k = some f →
      ∀ n ∈ g.nodes, ∃ b, f n = .ok b ∧ b ≠ .nan)
    (cost : ∀ c ∈ t.costs, ∀ a ∈ g.arcs .all, ∃ v, c.cost a = .ok v ∧ v.IsFinite) :
    t.DefinedOn g := by
  refine ⟨fun kind => ?_, fun kind => ?_, cost⟩
  · cases kind
    · exact bound .minDegree
    · exact bound .minInDegree
    · exact bound .minOutDegree
  · cases kind
    · exact bound .maxDegree
    · exact bound .maxInDegree
    · exact bound .maxOutDegree

/-- Where a task is defined, each bound answers with a number, key by key. -/
theorem DefinedOn.answers (defined : t.DefinedOn g) (k : DegreeKey)
    (f : Node → Except Fault Extended) (isBound : (t.bounds k.kind).onSide k = some f) :
    ∀ n ∈ g.nodes, ∃ b, f n = .ok b ∧ b ≠ .nan := by
  cases k with
  | minDegree => exact defined.lower .whole f isBound
  | maxDegree => exact defined.upper .whole f isBound
  | minInDegree => exact defined.lower .entering f isBound
  | maxInDegree => exact defined.upper .entering f isBound
  | minOutDegree => exact defined.lower .leaving f isBound
  | maxOutDegree => exact defined.upper .leaving f isBound

end SelectionTask

end ArcSelection
