import ArcSelection.Proofs.Decimal.Overflow
import ArcSelection.Proofs.Selection.CompiledRows
import ArcSelection.Proofs.Selection.Configuration

/-!
# The objective of a compiled program

The coefficient of an arc is the running sum of the weighted costs.  Weights and costs are
tested for being finite before they are multiplied and added, and what comes out is not
tested again.  The pass over the arcs is described by `SelectionTask.Priced`, which tells
the coefficients after any number of arcs; a coefficient is finite exactly if no product and
no partial sum leaves the range of the doubles (`SelectionTask.compile_objective`).
-/

namespace ArcSelection

open Decimal Fallible

namespace Expression

/-- Every coefficient is a double. -/
def IsFloat (e : Expression Arc Value) : Prop :=
  ∀ a v, e.terms.get? a = some v → ∃ x, v = .float x

variable {e : Expression Arc Value}

theorem isFloat_zero : (zero : Expression Arc Value).IsFloat := fun _ _ found => by cases found

/-- Adding a double to a double never fails. -/
theorem IsFloat.addTerm (isFloat : e.IsFloat) (a : Arc) (x : Float) :
    ∃ y next, (e.terms.get? a).getD Arithmetic.origin = .float y ∧
      e.addTerm a (.float x) = .ok next ∧ next.IsFloat ∧
      next.terms = e.terms.insert a (.float (y + x)) := by
  obtain ⟨y, coefficient⟩ : ∃ y, (e.terms.get? a).getD Arithmetic.origin = .float y := by
    cases found : e.terms.get? a with
    | none => exact ⟨0.0, rfl⟩
    | some v =>
        obtain ⟨y, rfl⟩ := isFloat a v found
        exact ⟨y, rfl⟩
  refine ⟨y, ⟨e.terms.insert a (.float (y + x)), e.constant⟩, coefficient, ?_, ?_, rfl⟩
  · rw [Expression.addTerm, coefficient]
    rfl
  · intro b v found
    rw [OrderedMap.get?_insert] at found
    split at found
    · cases found
      exact ⟨y + x, rfl⟩
    · exact isFloat b v found

end Expression

namespace DegreeMap

/-- Every coefficient of every node is a double. -/
def AreFloats (m : DegreeMap Value) : Prop := ∀ n, (m.of n).IsFloat

variable {m : DegreeMap Value}

theorem areFloats_empty : AreFloats .empty := fun _ => Expression.isFloat_zero

/-- Counting an arc keeps all rows in doubles. -/
theorem AreFloats.count (floats : m.AreFloats) (n : Node) (a : Arc) :
    ∃ next, m.count n a = .ok next ∧ next.AreFloats := by
  obtain ⟨y, e, _, added, isFloat, _⟩ := (floats n).addTerm a 1.0
  refine ⟨_, bind_eq_ok_iff.mpr ⟨_, added, rfl⟩, fun n' => ?_⟩
  rw [of_insert]
  split
  · exact isFloat
  · exact floats n'

/-- Counting a directed arc keeps all rows in doubles. -/
theorem AreFloats.countDirected (floats : m.AreFloats) (isEdge : Bool) (n : Node) (a : Arc) :
    ∃ next, m.countDirected isEdge n a = .ok next ∧ next.AreFloats := by
  cases isEdge with
  | true => exact ⟨m, rfl, floats⟩
  | false => exact floats.count n a

end DegreeMap

/-- Every coefficient of the sums is a double. -/
structure ArcSums.AreFloats (s : ArcSums Value) : Prop where
  degree : s.degree.AreFloats
  inDegree : s.inDegree.AreFloats
  outDegree : s.outDegree.AreFloats
  total : s.total.IsFloat
  objective : s.objective.IsFloat

namespace SelectionTask

variable {g : Graph} {t : SelectionTask Value} {s : ArcSums Value} {a : Arc}

/-- What entering an arc makes of the objective, if the arc costs a double. -/
theorem enter_of_cost (floats : s.AreFloats) {c : Float} (costEq : t.arcCost a = .ok (.float c)) :
    ∃ next y, t.enter g s a = .ok next ∧ next.AreFloats ∧
      (s.objective.terms.get? a).getD Arithmetic.origin = .float y ∧
      next.objective.terms = if Arithmetic.isZero (Value.float c) then s.objective.terms
        else s.objective.terms.insert a (.float (y + c)) := by
  obtain ⟨degreeTail, tailCounted, tailFloats⟩ := floats.degree.count (g.tail a) a
  obtain ⟨degree, headCounted, degreeFloats⟩ := tailFloats.count (g.head a) a
  obtain ⟨outDegree, leaving, outFloats⟩ :=
    floats.outDegree.countDirected (g.isEdge a) (g.tail a) a
  obtain ⟨inDegree, entering, inFloats⟩ :=
    floats.inDegree.countDirected (g.isEdge a) (g.head a) a
  obtain ⟨_, sum, _, totalAdded, totalFloats, _⟩ := floats.total.addTerm a 1.0
  obtain ⟨y, grown, coefficient, grownAdded, grownFloats, grownTerms⟩ :=
    floats.objective.addTerm a c
  obtain ⟨objective, objectiveAdded, objectiveFloats, terms⟩ : ∃ e,
      (if Arithmetic.isZero (Value.float c) then pure s.objective
        else s.objective.addTerm a (.float c)) = .ok e ∧ e.IsFloat ∧
      e.terms = if Arithmetic.isZero (Value.float c) then s.objective.terms
        else s.objective.terms.insert a (.float (y + c)) := by
    split
    · exact ⟨_, rfl, floats.objective, rfl⟩
    · exact ⟨grown, grownAdded, grownFloats, grownTerms⟩
  refine ⟨⟨if s.unknowns.contains a then s.unknowns else s.unknowns.insert a (t.variableOf a),
    degree, inDegree, outDegree, sum, objective⟩, y, ?_, ?_, coefficient, terms⟩
  · exact enter_eq tailCounted headCounted leaving entering totalAdded costEq objectiveAdded rfl
  · exact ⟨degreeFloats, inFloats, outFloats, totalFloats, objectiveFloats⟩

/-- An arc whose cost fails cannot be entered. -/
theorem enter_of_cost_error (floats : s.AreFloats) {fault : Fault}
    (failed : t.arcCost a = .error fault) : t.enter g s a = .error fault := by
  obtain ⟨degreeTail, tailCounted, tailFloats⟩ := floats.degree.count (g.tail a) a
  obtain ⟨degree, headCounted, degreeFloats⟩ := tailFloats.count (g.head a) a
  obtain ⟨outDegree, leaving, outFloats⟩ :=
    floats.outDegree.countDirected (g.isEdge a) (g.tail a) a
  obtain ⟨inDegree, entering, inFloats⟩ :=
    floats.inDegree.countDirected (g.isEdge a) (g.head a) a
  obtain ⟨_, sum, _, totalAdded, _⟩ := floats.total.addTerm a 1.0
  exact enter_eq_error tailCounted headCounted leaving entering totalAdded failed

/-! ### The cost of an arc -/

/-- The finite doubles that are multiplied for a cost function and an arc: the weight and the
cost. -/
structure Multiplies (a : Arc) (c : WeightedCost Value) (f : Float × Float) : Prop where
  weight : c.weight = .float f.1
  cost : c.cost a = .ok (.float f.2)
  finiteWeight : (Extended.ofFloat f.1).IsFinite
  finiteCost : (Extended.ofFloat f.2).IsFinite

/-- The factors of an arc, a pair for each cost function. -/
def Factors (t : SelectionTask Value) (a : Arc) (factors : List (Float × Float)) : Prop :=
  List.Forall₂ (Multiplies a) t.costs factors

/-- The weighted costs that are added for an arc. -/
def products (factors : List (Float × Float)) : List Float := factors.map fun f => f.1 * f.2

/-- What adding a weighted cost does to the sum for an arc. -/
def addCost (a : Arc) (sum : Value) (f : WeightedCost Value) : Except Fault Value := do
  let cost <- f.cost a
  if !Arithmetic.isFinite cost then throw (.costNotFinite a (Arithmetic.toValue cost))
  Arithmetic.add sum (<- Arithmetic.mul f.weight cost)

/-- A weighted cost is added as doubles are. -/
theorem addCost_float {c : WeightedCost Value} {f : Float × Float} (multiplies : Multiplies a c f)
    (s : Float) : addCost a (.float s) c = .ok (.float (s + f.1 * f.2)) := by
  have passes : Arithmetic.isFinite (Value.float f.2) = true :=
    (Value.isFinite_float f.2).mpr multiplies.finiteCost
  rw [addCost, multiplies.cost, multiplies.weight]
  change (if (!Arithmetic.isFinite (Value.float f.2)) = true then _ else _) = _
  rw [passes]
  rfl

/-- The cost of an arc is the running sum of the weighted costs. -/
theorem arcCost_of_factors {factors : List (Float × Float)} (isFactors : t.Factors a factors) :
    t.arcCost a = .ok (.float (runningSum 0.0 (products factors))) := by
  have fromHere : ∀ (s : Float) costs factors, List.Forall₂ (Multiplies a) costs factors →
      costs.foldlM (addCost a) (.float s) = .ok (.float (runningSum s (products factors))) := by
    intro s costs factors both
    induction both generalizing s with
    | nil => rfl
    | cons first _ ih =>
        rw [List.foldlM_cons, addCost_float first]
        exact ih _
  exact fromHere 0.0 t.costs factors isFactors

end SelectionTask

/-- A function of the configuration fails on the graph with a cause. -/
def TaskInput.Raises (input : TaskInput) (g : Graph) (fault : Fault) : Prop :=
  (∃ k f n, input.bound k = .function f ∧ n ∈ g.nodes ∧ f n = .error fault) ∨
    ∃ f weight a, .function f weight ∈ input.costs ∧ a ∈ g.arcs .all ∧ f a = .error fault

namespace SelectionTask

variable {g : Graph} {t : SelectionTask Value} {input : TaskInput} {a : Arc}

/-- A cost that was read yields a double, or fails: as a bad value, or as the function does. -/
theorem cost_cases {given : CostInput} {c : WeightedCost Value} (readAs : given.ReadAs c)
    (a : Arc) :
    (∃ w x, c.weight = .float w ∧ (Extended.ofFloat w).IsFinite ∧ c.cost a = .ok (.float x)) ∨
      ∃ fault, c.cost a = .error fault ∧ (fault.kind.label = "ValueError" ∨
        ∃ f weight, given = .function f weight ∧ f a = .error fault) := by
  obtain ⟨f, weight, w, rfl, _, finite, rfl⟩ := readAs
  dsimp only
  cases value : askCost f a with
  | ok v =>
      obtain ⟨_, _, x, _, _, rfl⟩ := askNumber_eq_ok_iff.mp value
      exact Or.inl ⟨w, x, rfl, finite, rfl⟩
  | error fault =>
      refine Or.inr ⟨fault, rfl, (askNumber_error value).symm.imp_right fun raised => ?_⟩
      exact ⟨f, weight, rfl, raised⟩

/-- An arc has its factors, or its cost fails: as a bad value, or as a cost function does. -/
theorem arcCost_cases (accepted : ofInput input = .ok t) (a : Arc) :
    (∃ factors, t.Factors a factors) ∨
      ∃ fault, t.arcCost a = .error fault ∧ (fault.kind.label = "ValueError" ∨
        ∃ f weight, .function f weight ∈ input.costs ∧ f a = .error fault) := by
  have fromHere : ∀ (s : Float) (given : List CostInput) (costs : List (WeightedCost Value)),
      List.Forall₂ CostInput.ReadAs given costs →
      (∃ factors, List.Forall₂ (Multiplies a) costs factors) ∨
      ∃ fault, costs.foldlM (addCost a) (.float s) = .error fault ∧
        (fault.kind.label = "ValueError" ∨
          ∃ f weight, .function f weight ∈ given ∧ f a = .error fault) := by
    intro s given costs both
    induction both generalizing s with
    | nil => exact Or.inl ⟨[], .nil⟩
    | @cons first c givenRest rest readAs _ ih =>
        rw [List.foldlM_cons]
        rcases cost_cases readAs a with ⟨w, x, weight, finiteWeight, cost⟩ | ⟨fault, failed, cause⟩
        · by_cases finite : (Extended.ofFloat x).IsFinite
          · have multiplies : Multiplies a c (w, x) := ⟨weight, cost, finiteWeight, finite⟩
            rw [addCost_float multiplies]
            rcases ih (s + w * x) with ⟨factors, isFactors⟩ | ⟨fault, failed, cause⟩
            · exact Or.inl ⟨(w, x) :: factors, .cons multiplies isFactors⟩
            · refine Or.inr ⟨fault, failed, cause.imp_right ?_⟩
              rintro ⟨f, weight, member, raised⟩
              exact ⟨f, weight, List.mem_cons_of_mem _ member, raised⟩
          · refine Or.inr ⟨.costNotFinite a (Arithmetic.toValue (Value.float x)), ?_, Or.inl rfl⟩
            have fails : Arithmetic.isFinite (Value.float x) = false :=
              Bool.eq_false_iff.mpr fun isFinite => finite ((Value.isFinite_float x).mp isFinite)
            rw [addCost, cost]
            change (if (!Arithmetic.isFinite (Value.float x)) = true then _ else _) >>= _ = _
            rw [fails]
            rfl
        · refine Or.inr ⟨fault, ?_, cause.imp_right ?_⟩
          · rw [addCost, failed]
            rfl
          · rintro ⟨f, weight, rfl, raised⟩
            exact ⟨f, weight, List.mem_cons_self, raised⟩
  exact fromHere 0.0 input.costs t.costs (gives_of_ofInput accepted).costs

/-! ### The sums over the arcs -/

/-- The coefficient of an arc that costs a double and is listed a number of times. -/
def coefficient (times : Nat) (c : Float) : Option Value :=
  if Arithmetic.isZero (Value.float c) ∨ times = 0 then none
  else some (.float (runningSum 0.0 (List.replicate times c)))

/-- What the sums are after some arcs that cost doubles. -/
structure Priced (t : SelectionTask Value) (done : List Arc) (s : ArcSums Value) : Prop where
  floats : s.AreFloats
  listed : ∀ a c, t.arcCost a = .ok (.float c) →
    s.objective.terms.get? a = coefficient (done.count a) c
  absent : ∀ a, a ∉ done → s.objective.terms.get? a = none

/-- Entering an arc once more adds its cost once more to the coefficient. -/
theorem coefficient_succ {times : Nat} {c y : Float}
    (nonzero : ¬ Arithmetic.isZero (Value.float c) = true)
    (before : (coefficient times c).getD Arithmetic.origin = .float y) :
    coefficient (times + 1) c = some (.float (y + c)) := by
  have sum : y = runningSum 0.0 (List.replicate times c) := by
    rw [coefficient] at before
    split at before
    · rename_i first
      rw [first.resolve_left nonzero]
      exact (Value.float.inj before).symm
    · exact (Value.float.inj before).symm
  rw [coefficient, if_neg (by simp [nonzero]), sum, runningSum, runningSum, List.replicate_succ',
    List.foldl_append]
  rfl

/-- An arc with a cost is entered with this cost. -/
theorem Priced.enter {done : List Arc} (priced : t.Priced done s) {c : Float}
    (costEq : t.arcCost a = .ok (.float c)) :
    ∃ next, t.enter g s a = .ok next ∧ t.Priced (done ++ [a]) next := by
  obtain ⟨next, y, entered, floats, before, terms⟩ := enter_of_cost (g := g) priced.floats costEq
  refine ⟨next, entered, floats, fun b d costEqB => ?_, fun b new => ?_⟩
  · rw [List.count_append, terms]
    by_cases same : a = b
    · subst same
      cases costEq.symm.trans costEqB
      rw [List.count_singleton_self]
      by_cases zero : Arithmetic.isZero (Value.float c) = true
      · rw [if_pos zero, priced.listed a c costEq, coefficient, coefficient, if_pos (Or.inl zero),
          if_pos (Or.inl zero)]
      · rw [priced.listed a c costEq] at before
        rw [if_neg zero, OrderedMap.get?_insert_self, coefficient_succ zero before]
    · have once : [a].count b = 0 := List.count_eq_zero.mpr fun here =>
        same (List.mem_singleton.mp here).symm
      rw [once, Nat.add_zero, ← priced.listed b d costEqB]
      split
      · rfl
      · exact OrderedMap.get?_insert_of_ne _ same _
  · rw [List.mem_append, List.mem_singleton, not_or] at new
    rw [terms]
    split
    · exact priced.absent b new.1
    · rw [OrderedMap.get?_insert_of_ne _ fun same => new.2 same.symm]
      exact priced.absent b new.1

theorem priced_nil : t.Priced [] ⟨.empty, .empty, .empty, .empty, .zero, .zero⟩ where
  floats := ⟨DegreeMap.areFloats_empty, DegreeMap.areFloats_empty, DegreeMap.areFloats_empty,
    Expression.isFloat_zero, Expression.isFloat_zero⟩
  listed _ _ _ := (if_pos (Or.inr rfl)).symm
  absent _ _ := rfl

/-- Arcs that all cost a double are entered one after the other. -/
theorem priced_foldlM {arcs : List Arc} (costs : ∀ a ∈ arcs, ∃ c, t.arcCost a = .ok (.float c)) :
    ∃ s, arcs.foldlM (t.enter g) ⟨.empty, .empty, .empty, .empty, .zero, .zero⟩ = .ok s ∧
      t.Priced arcs s := by
  refine foldlM_ok t.Priced priced_nil fun done a rest s split priced => ?_
  obtain ⟨c, costEq⟩ := costs a (split ▸ by simp)
  exact priced.enter costEq

/-- The first arc without a cost stops the pass with its cause. -/
theorem sums_of_cost_error {before after : List Arc} {fault : Fault}
    (split : g.arcs .all = before ++ a :: after)
    (costs : ∀ b ∈ before, ∃ c, t.arcCost b = .ok (.float c))
    (failed : t.arcCost a = .error fault) : t.sums g = .error fault := by
  obtain ⟨s, entered, priced⟩ := priced_foldlM (g := g) costs
  rw [sums, split, List.foldlM_append, entered]
  change ((a :: after).foldlM (t.enter g) s) = _
  rw [List.foldlM_cons, enter_of_cost_error priced.floats failed]
  rfl

/-- Every arc has its factors and the sums are made of them, or the pass fails: as a bad value,
or as a cost function does. -/
theorem sums_cases (accepted : ofInput input = .ok t) (g : Graph) :
    (∃ s, t.sums g = .ok s ∧ t.Priced (g.arcs .all) s ∧
      ∀ a ∈ g.arcs .all, ∃ factors, t.Factors a factors) ∨
    ∃ fault, t.sums g = .error fault ∧
      (fault.kind.label = "ValueError" ∨ input.Raises g fault) := by
  have costs : ∀ {b c}, t.arcCost b = .ok c → ∃ factors, t.Factors b factors := by
    intro b c costEq
    rcases arcCost_cases accepted b with isFactors | ⟨fault, failed, _⟩
    · exact isFactors
    · rw [failed] at costEq
      cases costEq
  rcases all_ok_or_first_error t.arcCost (g.arcs .all) with
    all | ⟨before, a, after, fault, split, passed, failed⟩
  · have factored : ∀ a ∈ g.arcs .all, ∃ factors, t.Factors a factors := fun a member =>
      costs (all a member).choose_spec
    obtain ⟨s, summed, priced⟩ := priced_foldlM (g := g) fun a member =>
      ⟨_, arcCost_of_factors (factored a member).choose_spec⟩
    exact Or.inl ⟨s, summed, priced, factored⟩
  · refine Or.inr ⟨fault, sums_of_cost_error split (fun b early => ?_) failed, ?_⟩
    · obtain ⟨c, costEq⟩ := passed b early
      obtain ⟨factors, isFactors⟩ := costs costEq
      exact ⟨_, arcCost_of_factors isFactors⟩
    · rcases arcCost_cases accepted a with ⟨factors, isFactors⟩ | ⟨other, otherFailed, cause⟩
      · rw [arcCost_of_factors isFactors] at failed
        cases failed
      · cases failed.symm.trans otherFailed
        refine cause.imp_right ?_
        rintro ⟨f, weight, member, raised⟩
        exact Or.inr ⟨f, weight, a, member, split ▸ by simp, raised⟩

/-! ### The rows -/

/-- A bound that was read fails as a bad value or as the function does. -/
theorem bound_error {name side : String} {b : BoundInput} {f : Node → Except Fault Value}
    (read : readBound name side b = .ok (some f)) {n : Node} {fault : Fault}
    (failed : f n = .error fault) :
    fault.kind.label = "ValueError" ∨ ∃ f', b = .function f' ∧ f' n = .error fault := by
  obtain ⟨_, absent⟩ | ⟨f', rfl, isFunction⟩ | ⟨_, x, _, _, _, _, isConstant⟩ :=
    readBound_cases read
  · cases absent
  · cases isFunction
    exact (askNumber_error failed).symm.imp_right fun raised => ⟨f', rfl, raised⟩
  · cases isConstant
    exact .inl ((askNumber_error failed).resolve_left nofun)

/-! ### The compiled objective -/

/-- The cost of an arc, and its coefficient if it is listed a number of times, are computed
without leaving the range of the doubles. -/
def CostInRange (t : SelectionTask Value) (a : Arc) (times : Nat) : Prop :=
  ∃ factors, t.Factors a factors ∧
    (∀ f ∈ factors, |(Extended.ofFloat f.1).rational * (Extended.ofFloat f.2).rational| <
      roundsAway) ∧
    SumsBelow 0.0 (products factors) ∧
    SumsBelow 0.0 (List.replicate times (runningSum 0.0 (products factors)))

/-- The products are finite exactly if the exact ones stay below the bound. -/
theorem isFinite_products_iff {factors : List (Float × Float)} (isFactors : t.Factors a factors) :
    (∀ x ∈ products factors, (Extended.ofFloat x).IsFinite) ↔
      ∀ f ∈ factors, |(Extended.ofFloat f.1).rational * (Extended.ofFloat f.2).rational| <
        roundsAway := by
  have finite : ∀ f ∈ factors,
      (Extended.ofFloat f.1).IsFinite ∧ (Extended.ofFloat f.2).IsFinite := by
    intro f member
    obtain ⟨i, bound, rfl⟩ := List.mem_iff_getElem.mp member
    have multiplies := isFactors.get (isFactors.length_eq ▸ bound) bound
    exact ⟨multiplies.finiteWeight, multiplies.finiteCost⟩
  rw [products, List.forall_mem_map]
  exact forall₂_congr fun f member => isFinite_mul_iff (finite f member).1 (finite f member).2

theorem ofFloat_zero : Extended.ofFloat 0.0 = .finite 0 := by decide +kernel

/-- A double is zero exactly if its number is. -/
theorem isZero_float_iff (c : Float) :
    Arithmetic.isZero (Value.float c) = true ↔ Extended.ofFloat c = .finite 0 := by
  change (some (Extended.ofFloat c) == some (Extended.finite 0)) = true ↔ _
  rw [beq_iff_eq, Option.some.injEq]

/-- A coefficient is finite exactly if nothing leaves the range on the way to it. -/
theorem isFinite_coefficient_iff {factors : List (Float × Float)}
    (isFactors : t.Factors a factors) {times : Nat} (isListed : times ≠ 0) :
    (∀ v, coefficient times (runningSum 0.0 (products factors)) = some v → v.exact.IsFinite) ↔
      (∀ f ∈ factors, |(Extended.ofFloat f.1).rational * (Extended.ofFloat f.2).rational| <
        roundsAway) ∧ SumsBelow 0.0 (products factors) ∧
      SumsBelow 0.0 (List.replicate times (runningSum 0.0 (products factors))) := by
  have start : (Extended.ofFloat 0.0).IsFinite := ⟨0, ofFloat_zero⟩
  have cost := isFinite_runningSum_iff start (products factors)
  rw [isFinite_products_iff isFactors] at cost
  rw [← and_assoc, ← cost]
  generalize runningSum 0.0 (products factors) = c
  by_cases zero : Arithmetic.isZero (Value.float c) = true
  · have isZero := (isZero_float_iff c).mp zero
    rw [coefficient, if_pos (Or.inl zero)]
    refine iff_of_true (by simp) ⟨⟨0, isZero⟩, ?_⟩
    exact sumsBelow_replicate_zero ofFloat_zero isZero times
  · have entered : ∀ v, coefficient times c = some v ↔
        v = .float (runningSum 0.0 (List.replicate times c)) := by
      intro v
      rw [coefficient, if_neg (not_or.mpr ⟨zero, isListed⟩), Option.some.injEq, eq_comm]
    have all : (∀ x ∈ List.replicate times c, (Extended.ofFloat x).IsFinite) ↔
        (Extended.ofFloat c).IsFinite := by
      simp [List.mem_replicate, isListed]
    simp only [entered, forall_eq]
    rw [← all]
    exact isFinite_runningSum_iff start _

/-- The numbers that a bound of an accepted configuration answers with can stand in a row. -/
theorem binds_of_ofInput (accepted : ofInput input = .ok t) (k : DegreeKey)
    (f : Node → Except Fault Value) (n : Node) (v : Value)
    (isBound : (t.bounds k.kind).onSide k = some f) (answer : f n = .ok v) : Binds v := by
  obtain ⟨x, rfl⟩ := float_of_readBound (bound_of_ofInput accepted k) isBound answer
  exact ⟨⟨_, rfl⟩, _, rfl⟩

/-- Compiling an accepted configuration fails as a bad value, or as a function of the
configuration does. -/
theorem compile_error (accepted : ofInput input = .ok t) {fault : Fault}
    (failed : t.compile g = .error fault) :
    fault.kind.label = "ValueError" ∨ input.Raises g fault := by
  rcases compile_error_cases (binds_of_ofInput accepted) failed with
    summing | isValue | ⟨k, f, n, isBound, member, raised⟩
  · rcases sums_cases accepted g with ⟨s, summed, _⟩ | ⟨other, otherFailed, cause⟩
    · cases summing.symm.trans summed
    · cases summing.symm.trans otherFailed
      exact cause
  · exact .inl isValue
  · refine (bound_error (isBound ▸ bound_of_ofInput accepted k) raised).imp_right ?_
    rintro ⟨f', isFunction, raised'⟩
    exact .inl ⟨k, f', n, isFunction, member, raised'⟩

/-- Compiling an accepted configuration fails as a bad value, or as a function of the
configuration does, or has a program. The coefficients of its objective are finite exactly if
the cost of every arc stays in the range of the doubles: the factors are tested for being
finite, but what is made of them is not. -/
theorem compile_objective (accepted : ofInput input = .ok t) (g : Graph) :
    (∃ fault, t.compile g = .error fault ∧
      (fault.kind.label = "ValueError" ∨ input.Raises g fault)) ∨
    ∃ p, t.compile g = .ok p ∧
      ((∀ a v, p.objective.terms.get? a = some v → v.exact.IsFinite) ↔
        ∀ a ∈ g.arcs .all, t.CostInRange a ((g.arcs .all).count a)) := by
  cases compiled : t.compile g with
  | error fault => exact Or.inl ⟨fault, rfl, compile_error accepted compiled⟩
  | ok p =>
  simp only [compile, bind_eq_ok_iff] at compiled
  obtain ⟨s, summed, _, _, _, _, _, _, made⟩ := compiled
  have objective : p.objective = s.objective := by
    cases made
    rfl
  rcases sums_cases accepted g with ⟨s', summed', priced, factored⟩ | ⟨_, failed, _⟩
  · cases summed'.symm.trans summed
    refine Or.inr ⟨p, rfl, ?_⟩
    rw [objective]
    constructor
    · intro finite a member
      obtain ⟨factors, isFactors⟩ := factored a member
      have isListed : (g.arcs .all).count a ≠ 0 := (List.count_pos_iff.mpr member).ne'
      refine ⟨factors, isFactors, (isFinite_coefficient_iff isFactors isListed).mp ?_⟩
      rw [← priced.listed a _ (arcCost_of_factors isFactors)]
      exact finite a
    · intro inRange a v found
      have member : a ∈ g.arcs .all := by
        by_contra absent
        rw [priced.absent a absent] at found
        cases found
      obtain ⟨factors, isFactors, below⟩ := inRange a member
      have isListed : (g.arcs .all).count a ≠ 0 := (List.count_pos_iff.mpr member).ne'
      rw [priced.listed a _ (arcCost_of_factors isFactors)] at found
      exact (isFinite_coefficient_iff isFactors isListed).mpr below v found
  · rw [failed] at summed
    cases summed

/-- Every arc has the same cost, with the same weight. -/
def constantCost (cost weight : Float) : TaskInput :=
  { TaskInput.unbounded with costs := [.function (fun _ => .ok (.float cost)) (.float weight)] }

/-- A constant cost is in range on a pair of arcs. -/
theorem compile_objective_constantCost :
    ∃ t, ofInput (constantCost 2.0 0.5) = .ok t ∧
      ((∃ fault, t.compile mixedPair.graph = .error fault ∧
        (fault.kind.label = "ValueError" ∨ (constantCost 2.0 0.5).Raises mixedPair.graph fault)) ∨
      ∃ p, t.compile mixedPair.graph = .ok p ∧
        ((∀ a v, p.objective.terms.get? a = some v → v.exact.IsFinite) ↔
          ∀ a ∈ mixedPair.graph.arcs .all,
            t.CostInRange a ((mixedPair.graph.arcs .all).count a))) := by
  obtain ⟨t, accepted⟩ : ∃ t, ofInput (constantCost 2.0 0.5) = .ok t := ⟨_, rfl⟩
  exact ⟨t, accepted, compile_objective accepted mixedPair.graph⟩

/-- Two finite factors whose product has no finite double are accepted and compiled. -/
theorem compile_constantCost_overflows :
    ∃ t p v, ofInput (constantCost 1e308 1e308) = .ok t ∧ t.compile mixedPair.graph = .ok p ∧
      p.objective.terms.get? ⟨1⟩ = some v ∧ ¬ v.exact.IsFinite := by
  have computed : ((ofInput (constantCost 1e308 1e308) >>= fun t =>
      t.compile mixedPair.graph).toOption.bind fun p => p.objective.terms.get? ⟨1⟩).any
      (fun v => v.number? == some .top) = true := by decide +kernel
  obtain ⟨v, found, infinite⟩ := (Option.any_eq_true _ _).mp computed
  obtain ⟨p, compiled, found⟩ := Option.bind_eq_some_iff.mp found
  have compiled : (ofInput (constantCost 1e308 1e308) >>= fun t =>
      t.compile mixedPair.graph) = .ok p := by
    revert compiled
    cases (ofInput (constantCost 1e308 1e308) >>= fun t => t.compile mixedPair.graph) with
    | error fault => exact nofun
    | ok q => exact fun same => congrArg Except.ok (Option.some.inj same)
  obtain ⟨t, accepted, compiled⟩ := bind_eq_ok_iff.mp compiled
  refine ⟨t, p, v, accepted, compiled, found, ?_⟩
  rintro ⟨q, finite⟩
  rw [Value.exact, beq_iff_eq.mp infinite] at finite
  cases finite

end SelectionTask

end ArcSelection
