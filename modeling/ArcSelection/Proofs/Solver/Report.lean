import ArcSelection.Proofs.Solver.Encoding

/-!
# Reading reports of a backend

A point that a backend reports becomes the values of the variables by key, and the value
of the costs becomes that of the objective. `Solver.encoding_faithful` puts together what
the arrays say and what is read back from them. A program without variables is decided
without a backend, by its constants.
-/

namespace ArcSelection

open Decimal Fallible

variable {ι κ : Type} [BEq ι]

/-- The report gives a coordinate to each column, if it has a point, and the value of the
costs there. -/
def BackendReport.Weighs (r : BackendReport Extended) (e : Encoding Extended) : Prop :=
  ∀ reported, r.point = some reported → ∃ x : List Rat, x.length = e.costs.length ∧
    reported = x.map .finite ∧ r.value = some (weigh e.costs x)

namespace Problem

/-- The values that a solution gives the variables, by their keys; zero for an absent one. -/
def reading [BEq κ] (p : Problem ι κ Extended) (s : Solution κ Extended) : ι → Except Fault Extended :=
  fun i => .ok (((p.unknowns.get? i).map fun v => s.value v.key).getD Arithmetic.origin)

/-- Values for all items are the values of a function. -/
private theorem exists_map_eq {β : Type} {items : List β} (nodup : items.Nodup) {values : List Rat}
    (length : values.length = items.length) : ∃ f : β → Rat, items.map f = values := by
  classical
  induction items generalizing values with
  | nil => exact ⟨fun _ => 0, (List.eq_nil_of_length_eq_zero length).symm⟩
  | cons item rest ih =>
      cases values with
      | nil => cases length
      | cons value values =>
          obtain ⟨f, same⟩ := ih (List.nodup_cons.mp nodup).2 (Nat.succ.inj length)
          have fresh : item ∉ rest := (List.nodup_cons.mp nodup).1
          refine ⟨Function.update f item value, ?_⟩
          rw [List.map_cons, Function.update_self, ← same]
          refine congrArg (value :: ·) (List.map_congr_left fun other member => ?_)
          have different : other ≠ item := fun equal => fresh (equal ▸ member)
          exact Function.update_of_ne different value f

variable {p : Problem ι κ Extended}

/-- Coordinates for all columns are those of a point. -/
theorem exists_columnsAt_eq [LawfulBEq ι] {x : List Rat} (length : x.length = p.unknowns.size) :
    ∃ y, p.columnsAt y = x :=
  exists_map_eq p.unknowns.nodup_keys (length.trans p.unknowns.length_keys.symm)

variable [BEq κ]

/-- The entries of a point have keys apart. -/
theorem WellFormed.entriesAt_distinct (wellFormed : p.WellFormed) (x : ι → Rat) :
    (p.entriesAt x).Pairwise fun a b => (a.1 == b.1) = false := by
  have distinct := wellFormed.keys_distinct
  rw [OrderedMap.values, List.pairwise_map] at distinct
  rw [entriesAt, List.pairwise_map]
  exact distinct

/-- An entry is found by its key. -/
private theorem find?_of_mem {entries : List (κ × Extended)}
    (distinct : entries.Pairwise fun a b => (a.1 == b.1) = false) {e : κ × Extended}
    (member : e ∈ entries) (self : (e.1 == e.1) = true) :
    entries.find? (fun e' => e'.1 == e.1) = some e := by
  induction entries with
  | nil => cases member
  | cons first rest ih =>
      rw [List.pairwise_cons] at distinct
      rcases List.mem_cons.mp member with rfl | later
      · rw [List.find?_cons, self]
      · rw [List.find?_cons, distinct.1 e later]
        exact ih distinct.2 later

/-- A solution with the values of a point gives every variable its coordinate. -/
theorem WellFormed.reading_eq [LawfulBEq ι] (wellFormed : p.WellFormed)
    {s : Solution κ Extended} {x : ι → Rat} (values : s.values = p.entriesAt x) {i : ι}
    (own : p.unknowns.contains i = true) : p.reading s i = point x i := by
  rw [OrderedMap.contains_eq_isSome, Option.isSome_iff_exists] at own
  obtain ⟨v, found⟩ := own
  have member : (i, v) ∈ p.unknowns.entries := (OrderedMap.mem_entries_iff _ _ _).mpr found
  have listed : (v.key, Extended.finite (x i)) ∈ p.entriesAt x := List.mem_map_of_mem member
  have self : (v.key == v.key) = true := wellFormed.key_self v (List.mem_map_of_mem member)
  have value : s.value v.key = .finite (x i) := by
    rw [Solution.value, values, find?_of_mem (wellFormed.entriesAt_distinct x) listed self]
  rw [reading, found, Option.map_some, Option.getD_some, value, point]

end Problem

namespace Solver

variable {p : Problem ι κ Extended}

/-- The coordinates of a point are read off column by column. -/
theorem valuesAt_columnsAt (p : Problem ι κ Extended) (x : ι → Rat) :
    valuesAt p ((p.columnsAt x).map .finite) = .ok (p.entriesAt x) := by
  have length : ((p.columnsAt x).map Extended.finite).length = p.unknowns.values.length := by
    simp [Problem.columnsAt, OrderedMap.keys, OrderedMap.values]
  generalize coordinatesEq : (p.columnsAt x).map Extended.finite = coordinates at length
  have read : valuesAt p coordinates =
      .ok (p.unknowns.values.zipIdx.map fun e => (e.1.key, coordinates[e.2]?.getD .nan)) := by
    refine mapM_eq_map ?_
    rintro ⟨v, i⟩ member
    have inside : i < coordinates.length := length ▸ (List.mem_zipIdx' member).1
    dsimp only
    rw [List.getElem?_eq_getElem inside]
    dsimp only
    rw [Extended.asReal_eq]
    rfl
  rw [read]
  refine congrArg Except.ok (List.ext_getElem ?_ fun i here there => ?_)
  · simp [Problem.entriesAt, OrderedMap.values]
  · have inside : i < p.unknowns.entries.length := by simpa [Problem.entriesAt] using there
    simp [← coordinatesEq, Problem.entriesAt, Problem.columnsAt, OrderedMap.values,
      OrderedMap.keys, inside]

/-- The objective of a reported value: the sign is undone and the constant comes back. -/
theorem objectiveOf_eq (p : Problem ι κ Extended) (value : Extended) :
    objectiveOf p value = .ok ((value.mul (.finite p.sense.sign)).add p.objective.constant) := by
  rw [objectiveOf, Extended.asReal_eq]
  cases p.sense <;> rfl

/-- The value of the costs at a point stands for the value of the objective there. -/
theorem objectiveOf_costs (finite : p.objective.IsFinite) {e : Encoding Extended}
    (encodes : Encodes e p) (x : ι → Rat) :
    objectiveOf p (weigh e.costs (p.columnsAt x)) = .ok (.finite (p.objective.valueAt x)) := by
  have back : p.sense.sign * p.objective.linearAt x * p.sense.sign +
      p.objective.constant.rational = p.objective.valueAt x := by
    rw [Expression.valueAt_eq, mul_right_comm, Sense.sign_mul_self, one_mul, add_comm]
  rw [objectiveOf_eq, encodes.costs, finite.constant.eq, ← back]
  rfl

variable [BEq κ]

/-- A report with a solution is interpreted by its point and value. -/
private theorem interpret_eq {r : BackendReport Extended} {type : SolutionType}
    (classified : classify? p r = some type) (solved : type.hasSolution = true) :
    interpret p r = match r.point, r.value with
      | some reported, some value => do
          let values ← valuesAt p reported
          let objective ← objectiveOf p value
          return ⟨type, some objective, byKey values⟩
      | _, _ => .error .wrongType := by
  rw [interpret, classified]
  cases type with
  | infeasible => cases solved
  | unbounded => cases solved
  | feasible => cases r.point <;> cases r.value <;> rfl
  | optimal => cases r.point <;> cases r.value <;> rfl

/-- A report with a point that stands for a solution becomes that solution, with the values
of the point. -/
theorem interpret_point (wellFormed : p.WellFormed) {r : BackendReport Extended}
    {type : SolutionType} (classified : classify? p r = some type)
    (solved : type.hasSolution = true) {x : ι → Rat}
    (pointEq : r.point = some ((p.columnsAt x).map .finite)) {value : Extended}
    (valueEq : r.value = some value) {objective : Extended}
    (objectiveEq : objectiveOf p value = .ok objective) :
    interpret p r = .ok ⟨type, some objective, p.entriesAt x⟩ := by
  have kept : byKey (p.entriesAt x) = p.entriesAt x :=
    OrderedMap.entries_ofList (wellFormed.entriesAt_distinct x)
  rw [interpret_eq classified solved, pointEq, valueEq]
  dsimp only
  rw [valuesAt_columnsAt, objectiveEq]
  exact congrArg (fun values => Except.ok (Solution.mk type (some objective) values)) kept

/-- A solution with values was read from a point and a value of the report. -/
theorem interpret_solved {r : BackendReport Extended} {s : Solution κ Extended}
    (interpreted : interpret p r = .ok s) (solved : s.type.hasSolution = true) :
    classify? p r = some s.type ∧ ∃ reported value, r.point = some reported ∧
      r.value = some value := by
  cases classified : classify? p r with
  | none =>
      rw [interpret, classified] at interpreted
      cases interpreted
  | some type =>
      have typeSolved : type.hasSolution = true := by
        cases type with
        | infeasible =>
            rw [interpret, classified] at interpreted
            cases interpreted
            cases solved
        | unbounded =>
            rw [interpret, classified] at interpreted
            cases interpreted
            cases solved
        | feasible => rfl
        | optimal => rfl
      rw [interpret_eq classified typeSolved] at interpreted
      cases pointEq : r.point with
      | none =>
          rw [pointEq] at interpreted
          cases interpreted
      | some reported =>
          cases valueEq : r.value with
          | none =>
              rw [pointEq, valueEq] at interpreted
              cases interpreted
          | some value =>
              rw [pointEq, valueEq] at interpreted
              obtain ⟨values, _, rest⟩ := bind_eq_ok_iff.mp interpreted
              obtain ⟨objective, _, built⟩ := bind_eq_ok_iff.mp rest
              cases built
              exact ⟨rfl, reported, value, rfl, rfl⟩

/-- The objective of a solution read from a report that weighs its point is the value of
the program's objective at the values of the solution. -/
theorem interpret_objective [LawfulBEq ι] (wellFormed : p.WellFormed) {e : Encoding Extended}
    (encodes : Encodes e p) {r : BackendReport Extended} (weighs : r.Weighs e)
    {s : Solution κ Extended} (interpreted : interpret p r = .ok s)
    (solved : s.type.hasSolution = true) :
    ∃ value, p.objective.evaluate (p.reading s) = .ok value ∧ s.objective = some value := by
  obtain ⟨classified, reported, _, pointEq, _⟩ := interpret_solved interpreted solved
  obtain ⟨coordinates, length, rfl, valueEq⟩ := weighs reported pointEq
  obtain ⟨x, rfl⟩ := Problem.exists_columnsAt_eq (length.trans encodes.width)
  have objectiveEq := objectiveOf_costs wellFormed.objective.finite encodes x
  rw [interpret_point wellFormed classified solved pointEq valueEq objectiveEq] at interpreted
  have built := Except.ok.inj interpreted
  have values : s.values = p.entriesAt x := congrArg Solution.values built.symm
  have reported : s.objective = some (.finite (p.objective.valueAt x)) :=
    congrArg Solution.objective built.symm
  refine ⟨.finite (p.objective.valueAt x), ?_, reported⟩
  rw [Expression.evaluate_congr fun i listed =>
    wellFormed.reading_eq values (wellFormed.objective.own i listed)]
  exact wellFormed.objective.finite.computes.evaluate x

section Constant

omit [BEq κ] in
/-- An expression over no variables is its constant. -/
theorem evaluate_constant {e : Expression ι Extended} (closed : e.Over p.unknowns)
    (bare : p.unknowns.isEmpty = true) (values : ι → Except Fault Extended) :
    e.evaluate values = .ok e.constant := by
  have absent : e.terms.entries = [] := by
    rw [List.eq_nil_iff_forall_not_mem]
    intro t member
    have own := closed.own t.1 (List.mem_map_of_mem member)
    rw [OrderedMap.isEmpty_of_contains own] at bare
    cases bare
  have whole : Arithmetic.add e.constant (Extended.finite 0) = .ok e.constant := by
    rw [closed.finite.constant.eq, Extended.add_finite, add_zero]
  rw [Expression.evaluate, absent]
  exact whole

omit [BEq κ] in
/-- Numbers can always be compared with a bound. -/
private theorem admits_ok (relation : Relation) (q bound : Extended) :
    ∃ holds, Constraint.admits relation q bound = .ok holds := by
  cases relation with
  | atMost => exact Extended.atMost_ok q bound
  | atLeast => exact Extended.atMost_ok bound q
  | equal => exact ⟨_, rfl⟩

/-- Constraints that are constants are all decided, in their order. -/
private theorem constantsHold_ok (constraints : List (Constraint ι Extended)) (x : ι → Rat)
    (constant : ∀ c ∈ constraints,
      c.expression.evaluate (point x) = .ok c.expression.constant) :
    ∃ hold, constantsHold constraints = .ok hold ∧
      (hold = true ↔ ∀ c ∈ constraints, c.HoldsAt x) := by
  induction constraints with
  | nil => exact ⟨true, rfl, by simp⟩
  | cons c rest ih =>
      obtain ⟨holds, decided⟩ := admits_ok c.relation c.expression.constant c.bound
      have here : c.HoldsAt x ↔ holds = true := by
        rw [Constraint.HoldsAt, constant c List.mem_cons_self]
        simp [decided]
      rw [List.forall_mem_cons, here, constantsHold, decided]
      cases holds with
      | false => exact ⟨false, rfl, by simp⟩
      | true =>
          obtain ⟨hold, held, iff⟩ := ih fun c member => constant c (List.mem_cons_of_mem _ member)
          exact ⟨hold, held, by simpa using iff⟩

/-- A program without variables is optimal with the constant of its objective if its
constraints hold, and infeasible otherwise. -/
theorem ofBackend_constant (wellFormed : p.WellFormed) (bare : p.unknowns.isEmpty = true)
    (backend : Backend Extended) (x : ι → Rat) :
    ((∀ c ∈ p.constraints, c.HoldsAt x) ∧
        (ofBackend backend p).result = .ok ⟨.optimal, some p.objective.constant, []⟩) ∨
      ((¬ ∀ c ∈ p.constraints, c.HoldsAt x) ∧
        (ofBackend backend p).result = .ok (.without .infeasible)) := by
  obtain ⟨hold, decided, iff⟩ := constantsHold_ok p.constraints x
    fun c member => evaluate_constant (wellFormed.constraints c member) bare (point x)
  have direct : (ofBackend backend p).result = solveConstant p := by
    rw [ofBackend, if_pos bare]
  rw [direct, solveConstant, decided]
  cases hold with
  | true => exact .inl ⟨iff.mp rfl, rfl⟩
  | false => exact .inr ⟨fun all => Bool.false_ne_true (iff.mpr all), rfl⟩

end Constant

/-- A program with variables goes to the backend, and its report is interpreted. -/
theorem ofBackend_encoded {e : Encoding Extended} (encoded : Encoding.ofProblem p = .ok e)
    (some : p.unknowns.isEmpty = false) (backend : Backend Extended) :
    (ofBackend backend p).result = match backend e with
      | .error reason => .error (.rejectedProblem reason)
      | .ok r => interpret p r := by
  rw [ofBackend, some, if_neg Bool.false_ne_true, encoded]
  dsimp only
  cases backend e with
  | error reason => rfl
  | ok r => rfl

/-- The arrays of a program are faithful to it. Encoding succeeds; the arrays admit exactly
the feasible points, and their costs order points as the objective does. If the backend
reports the value of the costs at its point, then a solution with values has the objective
of these values. A program without variables is decided by its constants. -/
theorem encoding_faithful [LawfulBEq ι] (wellFormed : p.WellFormed) :
    (∃ e, Encoding.ofProblem p = .ok e ∧
      (∀ x, e.Admits (p.columnsAt x) ↔ p.Feasible x) ∧
      ∀ x y, weigh e.costs (p.columnsAt x) ≤ weigh e.costs (p.columnsAt y) ↔ p.AsGoodAs x y) ∧
    (∀ backend s,
      (∀ e r, Encoding.ofProblem p = .ok e → backend e = .ok r → r.Weighs e) →
      (ofBackend backend p).result = .ok s → s.type.hasSolution = true →
      ∃ value, p.objective.evaluate (p.reading s) = .ok value ∧ s.objective = some value) ∧
    (p.unknowns.isEmpty = true → ∀ backend x,
      ∃ value, p.objective.evaluate (point x) = .ok value ∧
        ((ofBackend backend p).result = .ok ⟨.optimal, some value, []⟩ ↔
          ∀ c ∈ p.constraints, c.HoldsAt x) ∧
        ((ofBackend backend p).result = .ok (.without .infeasible) ↔
          ¬ ∀ c ∈ p.constraints, c.HoldsAt x)) := by
  obtain ⟨e, encoded, encodes⟩ := wellFormed.encodes
  refine ⟨⟨e, encoded, encodes.admits_iff, encodes.costs_le_iff wellFormed.objective.finite⟩,
    ?_, ?_⟩
  · intro backend s weighs answered solved
    cases bare : p.unknowns.isEmpty with
    | true =>
        have evaluated := evaluate_constant wellFormed.objective bare (p.reading s)
        refine ⟨_, evaluated, ?_⟩
        obtain ⟨_, direct⟩ | ⟨_, direct⟩ := ofBackend_constant wellFormed bare backend fun _ => 0
        · rw [direct] at answered
          cases answered
          rfl
        · rw [direct] at answered
          cases answered
          cases solved
    | false =>
        rw [ofBackend_encoded encoded bare] at answered
        cases reported : backend e with
        | error reason =>
            rw [reported] at answered
            cases answered
        | ok r =>
            rw [reported] at answered
            exact interpret_objective wellFormed encodes (weighs e r encoded reported) answered
              solved
  · intro bare backend x
    refine ⟨_, evaluate_constant wellFormed.objective bare (point x), ?_⟩
    obtain ⟨all, direct⟩ | ⟨broken, direct⟩ := ofBackend_constant wellFormed bare backend x
    · rw [direct]
      exact ⟨iff_of_true rfl all, iff_of_false nofun (not_not_intro all)⟩
    · rw [direct]
      exact ⟨iff_of_false nofun broken, iff_of_true rfl broken⟩

/-- A program to be maximised over a natural number and a number without bounds, with a
constant in the objective and in each of its constraints. -/
def mixedProgram : Problem Nat Nat Extended where
  unknowns := (OrderedMap.empty.insert 0 ⟨10, .integer, .finite 0, .top⟩).insert 1
    ⟨20, .real, .bottom, .top⟩
  constraints := [
    ⟨⟨OrderedMap.empty.insert 0 (.finite 1), .finite 1⟩, .atMost, .finite (5 / 2)⟩,
    ⟨⟨(OrderedMap.empty.insert 1 (.finite 2)).insert 0 (.finite (-1)), .finite (1 / 2)⟩, .equal,
      .finite 1⟩]
  objective := ⟨(OrderedMap.empty.insert 1 (.finite 4)).insert 0 (.finite 1), .finite 3⟩
  sense := .maximize

/-- Takes one for the first column and three quarters for the second, and weighs them. -/
def weighing : Backend Extended := fun e =>
  .ok ⟨0, none, some [.finite 1, .finite (3 / 4)], some (weigh e.costs [1, 3 / 4])⟩

/-- A program with mixed rows is encoded and solved. -/
theorem encoding_faithful_mixedProgram :
    mixedProgram.WellFormed ∧
      (∃ e, Encoding.ofProblem mixedProgram = .ok e ∧
        ∀ x, e.Admits (mixedProgram.columnsAt x) ↔ mixedProgram.Feasible x) ∧
      ∃ s, (ofBackend weighing mixedProgram).result = .ok s ∧ s.type = .optimal ∧
        s.objective = some (.finite 7) ∧
        mixedProgram.objective.evaluate (mixedProgram.reading s) = .ok (.finite 7) := by
  have wellFormed : mixedProgram.WellFormed := by decide
  have weighs : ∀ e r, Encoding.ofProblem mixedProgram = .ok e → weighing e = .ok r →
      r.Weighs e := by
    intro e r encoded reported point pointEq
    cases encoded
    cases reported
    cases pointEq
    exact ⟨[1, 3 / 4], rfl, rfl, rfl⟩
  obtain ⟨⟨e, encoded, admits, _⟩, objective, _⟩ := encoding_faithful wellFormed
  obtain ⟨s, answered, isOptimal, seven⟩ :
      ∃ s, (ofBackend weighing mixedProgram).result = .ok s ∧ s.type = .optimal ∧
        s.objective = some (.finite 7) := ⟨_, rfl, rfl, by decide +kernel⟩
  obtain ⟨value, evaluated, same⟩ := objective weighing s weighs answered (isOptimal ▸ rfl)
  obtain rfl : Extended.finite 7 = value := Option.some.inj (seven.symm.trans same)
  exact ⟨wellFormed, ⟨e, encoded, admits⟩, s, answered, isOptimal, seven, evaluated⟩

end Solver

end ArcSelection
