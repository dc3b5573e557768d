import ArcSelection.Proofs.Selection.Subset

/-!
# The program of a checked configuration

A checked configuration compiles in doubles. The coefficients of its rows count the ends that
an arc has at a node, so they are one or two and nothing rounds: read exactly, the rows are
those of the same task in exact numbers (`SelectionTask.constraints_exact_of_compile`). So the
sets of arcs that the program admits are those that keep the bounds. The objective is left
out, since weighted costs do round.
-/

namespace ArcSelection

open Decimal Fallible

section Reading

variable {ι κ : Type} [BEq ι]

/-- The same expression in exact numbers. -/
def Expression.exact (e : Expression ι Value) : Expression ι Extended :=
  ⟨e.terms.mapValues fun _ => Value.exact, e.constant.exact⟩

/-- The same constraint in exact numbers. -/
def Constraint.exact (c : Constraint ι Value) : Constraint ι Extended :=
  ⟨c.expression.exact, c.relation, c.bound.exact⟩

/-- The same variable in exact numbers. -/
def Variable.exact (v : Variable κ Value) : Variable κ Extended :=
  ⟨v.key, v.type, v.lower.exact, v.upper.exact⟩

/-- The same program in exact numbers. -/
def Problem.exact (p : Problem ι κ Value) : Problem ι κ Extended :=
  ⟨p.unknowns.mapValues fun _ => Variable.exact, p.constraints.map Constraint.exact,
    p.objective.exact, p.sense⟩

private theorem exact_origin : (Arithmetic.origin : Value).exact = Arithmetic.origin := by
  decide +kernel

theorem Expression.exact_zero : (zero : Expression ι Value).exact = zero := by
  rw [exact, zero, exact_origin]
  rfl

end Reading

namespace Expression

/-- At most one end of an arc has been counted. -/
def CountedOnce (e : Expression Arc Value) (a : Arc) : Prop :=
  e.terms.get? a = none ∨ e.terms.get? a = some (.float (0.0 + 1.0))

/-- Counting an end does not round if the double of the new coefficient is exact. -/
private theorem addTerm_exact_of_coefficient {e next : Expression Arc Value} {a : Arc} {x : Float}
    {q : Rat} (coefficient : (e.terms.get? a).getD Arithmetic.origin = .float x)
    (before : (Value.float x).exact = .finite q)
    (after : (Value.float (x + 1.0)).exact = .finite (q + 1))
    (added : e.addTerm a Arithmetic.unit = .ok next) :
    e.exact.addTerm a Arithmetic.unit = .ok next.exact := by
  have read : (e.exact.terms.get? a).getD Arithmetic.origin = .finite q := by
    rw [exact, OrderedMap.get?_mapValues, ← before, ← coefficient, ← exact_origin,
      Option.getD_map]
  rw [addTerm, coefficient] at added
  cases added
  rw [addTerm, read, Extended.unit_eq, Extended.add_finite, exact, exact,
    OrderedMap.mapValues_insert, ← after]
  rfl

/-- Counting a first or a second end of an arc does not round. -/
theorem addTerm_exact {e next : Expression Arc Value} {a : Arc} (once : e.CountedOnce a)
    (added : e.addTerm a Arithmetic.unit = .ok next) :
    e.exact.addTerm a Arithmetic.unit = .ok next.exact := by
  rcases once with absent | counted
  · exact addTerm_exact_of_coefficient (x := 0.0) (q := 0) (by rw [absent]; rfl)
      (by decide +kernel) (by decide +kernel) added
  · exact addTerm_exact_of_coefficient (x := 0.0 + 1.0) (q := 1) (by rw [counted]; rfl)
      (by decide +kernel) (by decide +kernel) added

/-- A term that is new counts its arc once. -/
theorem countedOnce_of_addTerm {e next : Expression Arc Value} {a : Arc}
    (absent : e.terms.get? a = none) (added : e.addTerm a Arithmetic.unit = .ok next) :
    next.CountedOnce a := by
  rw [addTerm, absent] at added
  cases added
  exact .inr (OrderedMap.get?_insert_self _ _ _)

/-- The same expression in doubles and in exact numbers, with terms for some arcs only. -/
structure Mirrors (e : Expression Arc Value) (e' : Expression Arc Extended) (arcs : List Arc) :
    Prop where
  exact : e' = e.exact
  absent : ∀ a ∉ arcs, e.terms.get? a = none

theorem mirrors_zero {arcs : List Arc} : zero.Mirrors zero arcs := ⟨exact_zero.symm, fun _ _ => rfl⟩

variable {e next : Expression Arc Value} {e' next' : Expression Arc Extended}
  {arcs later : List Arc} {a : Arc}

/-- Rows that mirror each other still do among more arcs. -/
theorem Mirrors.mono (mirrors : e.Mirrors e' arcs) (grown : arcs ⊆ later) : e.Mirrors e' later :=
  ⟨mirrors.exact, fun b new => mirrors.absent b fun early => new (grown early)⟩

/-- Rows that mirror each other still do with the same term. -/
theorem Mirrors.addTerm (mirrors : e.Mirrors e' arcs) (once : e.CountedOnce a)
    (added : e.addTerm a Arithmetic.unit = .ok next)
    (added' : e'.addTerm a Arithmetic.unit = .ok next') (grown : arcs ⊆ later)
    (entered : a ∈ later) : next.Mirrors next' later := by
  constructor
  · rw [mirrors.exact, addTerm_exact once added] at added'
    exact (Except.ok.inj added').symm
  · intro b new
    obtain ⟨sum, _, made⟩ := bind_eq_ok_iff.mp added
    cases made
    have other : a ≠ b := fun same => new (same ▸ entered)
    rw [OrderedMap.get?_insert_of_ne _ other]
    exact (mirrors.mono grown).absent b new

end Expression

namespace DegreeMap

/-- The expressions of every node in doubles and in exact numbers. -/
def Mirrors (m : DegreeMap Value) (m' : DegreeMap Extended) (arcs : List Arc) : Prop :=
  ∀ n, (m.of n).Mirrors (m'.of n) arcs

variable {m next : DegreeMap Value} {m' next' : DegreeMap Extended} {arcs later : List Arc}
  {a : Arc} {n : Node}

theorem mirrors_empty : Mirrors .empty .empty [] := fun _ => Expression.mirrors_zero

/-- The row of a node changes with an entry for it only. -/
theorem of_insert {α : Type} [Arithmetic α] (m : DegreeMap α) (n n' : Node)
    (e : Expression Arc α) : of (m.insert n e) n' = if n = n' then e else m.of n' := by
  simp only [of, OrderedMap.get?_insert, beq_iff_eq]
  split
  · rfl
  · rfl

/-- Maps of rows that mirror each other still do with the same arc counted. -/
theorem Mirrors.count (mirrors : m.Mirrors m' arcs) (once : (m.of n).CountedOnce a)
    (counted : m.count n a = .ok next) (counted' : m'.count n a = .ok next')
    (grown : arcs ⊆ later) (entered : a ∈ later) : next.Mirrors next' later := by
  obtain ⟨e, added, made⟩ := bind_eq_ok_iff.mp counted
  obtain ⟨e', added', made'⟩ := bind_eq_ok_iff.mp counted'
  cases made
  cases made'
  intro n'
  rw [of_insert, of_insert]
  split
  · exact (mirrors n).addTerm once added added' grown entered
  · exact (mirrors n').mono grown

/-- After the first end of a new arc the second can be counted. -/
theorem Mirrors.countedOnce (mirrors : m.Mirrors m' arcs) (new : a ∉ arcs)
    (counted : m.count n a = .ok next) (n' : Node) : (next.of n').CountedOnce a := by
  obtain ⟨e, added, made⟩ := bind_eq_ok_iff.mp counted
  cases made
  rw [of_insert]
  split
  · exact Expression.countedOnce_of_addTerm ((mirrors n).absent a new) added
  · exact .inl ((mirrors n').absent a new)

/-- Both ends of a new arc are counted alike. -/
theorem Mirrors.countBoth {n' : Node} (mirrors : m.Mirrors m' arcs) (new : a ∉ arcs)
    (counted : (do (← m.count n a).count n' a) = .ok next)
    (counted' : (do (← m'.count n a).count n' a) = .ok next') :
    next.Mirrors next' (arcs ++ [a]) := by
  obtain ⟨first, firstEq, secondEq⟩ := bind_eq_ok_iff.mp counted
  obtain ⟨first', firstEq', secondEq'⟩ := bind_eq_ok_iff.mp counted'
  have entered : a ∈ arcs ++ [a] := List.mem_append_right _ List.mem_cons_self
  have half : first.Mirrors first' (arcs ++ [a]) := mirrors.count (.inl ((mirrors n).absent a new))
    firstEq firstEq' (List.subset_append_left _ _) entered
  exact half.count (mirrors.countedOnce new firstEq n') secondEq secondEq' (List.Subset.refl _)
    entered

/-- One end of a new directed arc is counted alike, and that of an edge is not counted. -/
theorem Mirrors.countDirected {isEdge : Bool} (mirrors : m.Mirrors m' arcs) (new : a ∉ arcs)
    (counted : m.countDirected isEdge n a = .ok next)
    (counted' : m'.countDirected isEdge n a = .ok next') : next.Mirrors next' (arcs ++ [a]) := by
  have grown : arcs ⊆ arcs ++ [a] := List.subset_append_left _ _
  cases isEdge with
  | true =>
      cases counted
      cases counted'
      exact fun n' => (mirrors n').mono grown
  | false =>
      exact mirrors.count (.inl ((mirrors n).absent a new)) counted counted' grown
        (List.mem_append_right _ List.mem_cons_self)

end DegreeMap

/-- The sums over some arcs in doubles and in exact numbers, the objective apart. -/
structure ArcSums.Mirrors (s : ArcSums Value) (s' : ArcSums Extended) (arcs : List Arc) : Prop where
  degree : ∀ k, (s.degreeMap k).Mirrors (s'.degreeMap k) arcs
  total : s.total.Mirrors s'.total arcs

namespace SelectionTask

variable {g : Graph} {t : SelectionTask Value} {t' : SelectionTask Extended}

/-- Entering a new arc keeps the sums alike, whatever it costs. -/
theorem mirrors_of_enters {a : Arc} {arcs : List Arc} {s next : ArcSums Value}
    {s' next' : ArcSums Extended} (mirrors : s.Mirrors s' arcs) (new : a ∉ arcs)
    (enters : t.Enters g a s next) (enters' : t'.Enters g a s' next') :
    next.Mirrors next' (arcs ++ [a]) := by
  constructor
  · intro k
    cases k with
    | whole => exact (mirrors.degree .whole).countBoth new enters.degree enters'.degree
    | entering =>
        exact (mirrors.degree .entering).countDirected new enters.entering enters'.entering
    | leaving =>
        exact (mirrors.degree .leaving).countDirected new enters.leaving enters'.leaving
  · exact mirrors.total.addTerm (.inl (mirrors.total.absent a new)) enters.total enters'.total
      (List.subset_append_left _ _) (List.mem_append_right _ List.mem_cons_self)

/-- The sums over all arcs are alike. -/
theorem mirrors_of_sums (nodup : (g.arcs .all).Nodup) {s : ArcSums Value} {s' : ArcSums Extended}
    (summed : t.sums g = .ok s) (summed' : t'.sums g = .ok s') : s.Mirrors s' (g.arcs .all) := by
  refine related_of_foldlM_ok (fun arcs s s' => ArcSums.Mirrors s s' arcs)
    (fun arcs a rest s s' next next' split mirrors entered entered' => ?_) ⟨fun k => ?_, ?_⟩
    summed summed'
  · exact mirrors_of_enters mirrors (not_mem_done nodup split) (enters_of_enter entered)
      (enters_of_enter entered')
  · cases k <;> exact DegreeMap.mirrors_empty
  · exact Expression.mirrors_zero

/-- What a bound answers with are doubles. -/
def AnswersInDoubles (bound : Option (Node → Except Fault Value)) : Prop :=
  ∀ f, bound = some f → ∀ n v, f n = .ok v → ∃ x, v = .float x

private theorem origin_numeric : (Arithmetic.origin : Value).isNumeric = true := rfl

private theorem top_numeric : (Arithmetic.top : Value).isNumeric = true := rfl

private theorem exact_top : (Arithmetic.top : Value).exact = Arithmetic.top := by decide +kernel

/-- A row that depends on two tests alone. -/
private theorem row_exact {e : Expression Arc Value} {relation : Relation} {b : Value}
    {isNaN : Bool} {fault : Fault} {binding : Except Fault Bool} {rows : List (Constraint Arc Value)}
    (computed : (do
      if isNaN then throw fault
      if ← binding then return [⟨e, relation, b⟩] else return [] :
      Except Fault (List (Constraint Arc Value))) = .ok rows) :
    (do
      if isNaN then throw fault
      if ← binding then return [⟨e.exact, relation, b.exact⟩] else return [] :
      Except Fault (List (Constraint Arc Extended))) = .ok (rows.map Constraint.exact) := by
  cases isNaN with
  | true => cases computed
  | false =>
      cases binding with
      | error refused => cases computed
      | ok holds => cases holds <;> cases computed <;> rfl

/-- The row of a bound on either side is alike where the bound binds alike. -/
theorem boundRow_exact {side : String} {relation : Relation} {binds : Value → Except Fault Bool}
    {binds' : Extended → Except Fault Bool}
    (alike : ∀ v : Value, v.isNumeric = true → binds v = binds' v.exact)
    {e : Expression Arc Value} {n : Node} {bound : Option (Node → Except Fault Value)}
    (doubles : AnswersInDoubles bound) {rows : List (Constraint Arc Value)}
    (computed : boundRow side relation binds e n bound = .ok rows) :
    boundRow side relation binds' e.exact n (bound.map exactly) =
      .ok (rows.map Constraint.exact) := by
  cases bound with
  | none =>
      cases computed
      rfl
  | some f =>
      obtain ⟨b, answer, rest⟩ := bind_eq_ok_iff.mp computed
      obtain ⟨x, rfl⟩ := doubles f rfl n b answer
      have numeric : (Value.float x).isNumeric = true := rfl
      rw [Value.isNaN_of_numeric numeric, alike _ numeric] at rest
      rw [Option.map_some, boundRow, exactly_of_ok answer]
      exact row_exact rest

/-- A row for a lower bound is compiled in exact numbers as in doubles. -/
theorem lowerRow_exact {e : Expression Arc Value} {n : Node}
    {lower : Option (Node → Except Fault Value)} (doubles : AnswersInDoubles lower)
    {rows : List (Constraint Arc Value)} (computed : lowerRow e n lower = .ok rows) :
    lowerRow e.exact n (lower.map exactly) = .ok (rows.map Constraint.exact) := by
  rw [lowerRow_eq] at computed ⊢
  refine boundRow_exact (fun v numeric => ?_) doubles computed
  rw [Value.less_of_numeric origin_numeric numeric, exact_origin]

/-- A row for an upper bound is compiled in exact numbers as in doubles. -/
theorem upperRow_exact {e : Expression Arc Value} {n : Node}
    {upper : Option (Node → Except Fault Value)} (doubles : AnswersInDoubles upper)
    {rows : List (Constraint Arc Value)} (computed : upperRow e n upper = .ok rows) :
    upperRow e.exact n (upper.map exactly) = .ok (rows.map Constraint.exact) := by
  rw [upperRow_eq] at computed ⊢
  refine boundRow_exact (fun v numeric => ?_) doubles computed
  rw [Value.less_of_numeric numeric top_numeric, exact_top]

/-- The rows of one kind of degree. -/
theorem degreeRows_exact {m : DegreeMap Value} {m' : DegreeMap Extended} {arcs : List Arc}
    (mirrors : m.Mirrors m' arcs) {b : DegreeBounds Value} (lower : AnswersInDoubles b.lower)
    (upper : AnswersInDoubles b.upper) {rows : List (Constraint Arc Value)}
    (computed : degreeRows g m b = .ok rows) :
    degreeRows g m' b.exact = .ok (rows.map Constraint.exact) := by
  have absent : (b.exact.lower.isNone && b.exact.upper.isNone) =
      (b.lower.isNone && b.upper.isNone) := by
    simp [DegreeBounds.exact]
  rw [degreeRows] at computed ⊢
  rw [absent]
  split at computed
  · rename_i unbounded
    cases computed
    rw [if_pos unbounded]
    rfl
  · rename_i bounded
    obtain ⟨groups, mapped, made⟩ := bind_eq_ok_iff.mp computed
    cases made
    rw [if_neg bounded, mapM_ok_of_image (h := List.map Constraint.exact) ?_ mapped]
    · simp [bind, Except.bind, pure, Except.pure, List.map_flatten]
    · intro n _ group computedHere
      obtain ⟨below, lowerEq, rest⟩ := bind_eq_ok_iff.mp computedHere
      obtain ⟨above, upperEq, made⟩ := bind_eq_ok_iff.mp rest
      cases made
      rw [(mirrors n).exact, DegreeBounds.exact, lowerRow_exact lower lowerEq,
        upperRow_exact upper upperEq, List.map_append]
      rfl

/-- The rows for the number of arcs are compiled in exact numbers as in values. -/
theorem countRows_exact (t : SelectionTask Value) (total : Expression Arc Value) :
    t.exact.countRows total.exact = (t.countRows total).map Constraint.exact := by
  have least : t.exact.minimum = t.minimum := rfl
  have most : t.exact.maximum = t.maximum := rfl
  rw [countRows, countRows, List.map_append, least, most]
  congr 1
  · split <;> rfl
  · cases t.maximum <;> rfl

/-- Read exactly, the rows that a checked configuration compiles to are those of the task in
exact numbers. -/
theorem constraints_exact_of_compile {input : TaskInput} (accepted : ofInput input = .ok t)
    (nodup : (g.arcs .all).Nodup) {p : Problem Arc Arc Value} (compiled : t.compile g = .ok p)
    {q : Problem Arc Arc Extended} (compiled' : t.exact.compile g = .ok q) :
    q.constraints = p.constraints.map Constraint.exact := by
  have doubles : ∀ k : DegreeKey, AnswersInDoubles ((t.bounds k.kind).onSide k) :=
    fun k f isBound n v => float_of_readBound (bound_of_ofInput accepted k) isBound
  simp only [compile, bind_eq_ok_iff] at compiled compiled'
  obtain ⟨s, summed, whole, wholeEq, entering, enteringEq, leaving, leavingEq, made⟩ := compiled
  obtain ⟨s', summed', whole', wholeEq', entering', enteringEq', leaving', leavingEq', made'⟩ :=
    compiled'
  have mirrors := mirrors_of_sums nodup summed summed'
  cases wholeEq'.symm.trans (degreeRows_exact (mirrors.degree .whole) (doubles .minDegree)
    (doubles .maxDegree) wholeEq)
  cases enteringEq'.symm.trans (degreeRows_exact (mirrors.degree .entering) (doubles .minInDegree)
    (doubles .maxInDegree) enteringEq)
  cases leavingEq'.symm.trans (degreeRows_exact (mirrors.degree .leaving) (doubles .minOutDegree)
    (doubles .maxOutDegree) leavingEq)
  cases made
  cases made'
  simp only [List.map_append, mirrors.total.exact, countRows_exact]

/-- The rows of a checked configuration hold exactly where its bounds are kept. -/
theorem rows_of_compile {input : TaskInput} (accepted : ofInput input = .ok t)
    (nodup : (g.arcs .all).Nodup) {p : Problem Arc Arc Value} (compiled : t.compile g = .ok p)
    {x : Arc → Rat} (nonneg : ∀ a ∈ g.arcs .all, 0 ≤ x a) :
    (∀ c ∈ p.exact.constraints, c.HoldsAt x) ↔ t.exact.MetBy g x := by
  obtain ⟨q, compiled', describes⟩ := compile_ok (finiteWeights_of_ofInput accepted) nodup
    (definedOn_exact_of_compile accepted compiled)
  rw [← describes.rows x nonneg, constraints_exact_of_compile accepted nodup compiled compiled',
    Problem.exact]

/-- Every variable of a compiled program is that of an arc. -/
theorem variable_of_compile {p : Problem Arc Arc Value} (compiled : t.compile g = .ok p) :
    ∀ e ∈ p.unknowns.entries, e.2 = t.variableOf e.1 := by
  simp only [compile, bind_eq_ok_iff] at compiled
  obtain ⟨s, summed, _, _, _, _, _, _, built⟩ := compiled
  cases built
  refine invariant_of_foldlM_ok
    (fun _ (s : ArcSums Value) => ∀ e ∈ s.unknowns.entries, e.2 = t.variableOf e.1)
    (fun _ a s next holds entered => ?_) (List.forall_mem_nil _) summed
  rw [(enters_of_enter entered).unknowns]
  split
  · exact holds
  · rename_i absent
    rw [OrderedMap.entries_insert_of_absent (Bool.eq_false_of_not_eq_true absent),
      List.forall_mem_append]
    exact ⟨holds, fun e last => by rw [List.mem_singleton.mp last]⟩

/-- The program of a checked configuration admits the sets that keep the bounds and no others. -/
theorem feasible_indicator_iff_keptBy {input : TaskInput} (accepted : ofInput input = .ok t)
    (nodup : (g.arcs .all).Nodup) {p : Problem Arc Arc Value} (compiled : t.compile g = .ok p)
    {S : Finset Arc} (within : S ⊆ g.arcSet) :
    p.exact.Feasible (indicator S) ↔ t.exact.KeptBy g S := by
  rw [← metBy_indicator_iff nodup within,
    ← rows_of_compile accepted nodup compiled fun a _ => indicator_nonneg S a]
  refine ⟨fun feasible => feasible.satisfied, fun satisfied => ⟨fun i v member => ?_, satisfied⟩⟩
  obtain ⟨e, listed, same⟩ := List.mem_map.mp member
  cases same
  have unit : (Arithmetic.unit : Value).exact = .finite 1 := by decide +kernel
  change e.2.exact.Allows (indicator S e.1)
  rw [variable_of_compile compiled e listed, Variable.exact, variableOf, exact_origin, unit]
  exact Describes.allows_indicator S e.1

/-- A feasible point of a compiled program is one of the program in exact numbers. -/
theorem feasible_of_compile {input : TaskInput} (accepted : ofInput input = .ok t)
    (nodup : (g.arcs .all).Nodup) {p : Problem Arc Arc Value} (compiled : t.compile g = .ok p)
    {q : Problem Arc Arc Extended} (compiled' : t.exact.compile g = .ok q)
    (describes : t.exact.Describes g q) {x : Arc → Rat} (feasible : p.exact.Feasible x) :
    q.Feasible x := by
  have unit : (Arithmetic.unit : Value).exact = .finite 1 := by decide +kernel
  refine ⟨fun i v member => ?_, ?_⟩
  · rw [describes.unknowns] at member
    obtain ⟨a, listed, same⟩ := List.mem_map.mp member
    cases same
    have known : i ∈ p.unknowns.keys := by
      rw [keys_of_compile compiled]
      exact List.mem_eraseDups.mpr listed
    obtain ⟨e, entry, rfl⟩ := List.mem_map.mp known
    have allows := feasible.allowed e.1 e.2.exact (List.mem_map.mpr ⟨e, entry, rfl⟩)
    rwa [variable_of_compile compiled e entry, Variable.exact, variableOf, exact_origin, unit]
      at allows
  · rw [constraints_exact_of_compile accepted nodup compiled compiled']
    exact feasible.satisfied

end SelectionTask

end ArcSelection
