import ArcSelection.Proofs.Program.Operand

/-!
# Formulas and the expressions they build

A formula is built operation by operation: each operator is applied to the operands its
parts have become, in the workspace that building them has left. What the formula becomes stands
for its value, and no operand changes on the way, since each operator leaves what is there.
-/

namespace ArcSelection

open Decimal

/-- An arithmetic formula over what a workspace holds. -/
inductive Formula (α : Type) where
  | plain (c : α)
  | unknown (position : Nat)
  | expression (position : Nat)
  | add (a b : Formula α)
  | sub (a b : Formula α)
  | neg (a : Formula α)
  | mul (a b : Formula α)

namespace Formula

variable {α : Type}

/-- Builds a formula, its left parts first. -/
def build [Scalar α] : Formula α → Workspace α → Except Fault (Operand α × Workspace α)
  | .plain c, w => .ok (.plain c, w)
  | .unknown i, w => .ok (.variable i, w)
  | .expression i, w => .ok (.expression i, w)
  | .add a b, w => do
      let (x, w) ← a.build w
      let (y, w) ← b.build w
      w.add x y
  | .sub a b, w => do
      let (x, w) ← a.build w
      let (y, w) ← b.build w
      w.sub x y
  | .neg a, w => do
      let (x, w) ← a.build w
      w.neg x
  | .mul a b, w => do
      let (x, w) ← a.build w
      let (y, w) ← b.build w
      w.mul x y

/-- The formula has no variables and no expressions. -/
def isPlain : Formula α → Bool
  | .plain _ => true
  | .unknown _ | .expression _ => false
  | .add a b | .sub a b | .mul a b => a.isPlain && b.isPlain
  | .neg a => a.isPlain

/-- All numbers of the formula are finite, its expressions are there and finite, and every
product has a plain factor. -/
def Linear (w : Workspace Extended) : Formula Extended → Prop
  | .plain c => c.IsFinite
  | .unknown _ => True
  | .expression i => ∃ e, w.expressions[i]? = some e ∧ e.IsFinite
  | .add a b | .sub a b => a.Linear w ∧ b.Linear w
  | .neg a => a.Linear w
  | .mul a b => a.Linear w ∧ b.Linear w ∧ (a.isPlain = true ∨ b.isPlain = true)

/-- The value of the formula when its variables have values. -/
def value (w : Workspace Extended) : Formula Extended → (Nat → Rat) → Rat
  | .plain c, _ => c.rational
  | .unknown i, x => x i
  | .expression i, x => (w.expressionAt i).valueAt x
  | .add a b, x => a.value w x + b.value w x
  | .sub a b, x => a.value w x - b.value w x
  | .neg a, x => -a.value w x
  | .mul a b, x => a.value w x * b.value w x

/-- The coefficient of a variable in the formula, that of its occurrences together. -/
def coefficient (w : Workspace Extended) (i : Nat) : Formula Extended → Rat
  | .plain _ => 0
  | .unknown j => if j = i then 1 else 0
  | .expression j => (w.expressionAt j).coefficient i
  | .add a b => a.coefficient w i + b.coefficient w i
  | .sub a b => a.coefficient w i - b.coefficient w i
  | .neg a => -a.coefficient w i
  | .mul a b => a.coefficient w i * b.value w (fun _ => 0) +
      a.value w (fun _ => 0) * b.coefficient w i

end Formula

namespace Formula

variable {w now : Workspace Extended}

/-- The formula can be built: it becomes an operand for its value, plain if the formula is, and
nothing that is there changes. -/
def Builds (w now : Workspace Extended) (t : Formula Extended) : Prop :=
  now.Yields (t.build now) (t.value w) t.isPlain

/-- Two parts are built one after the other; the second leaves what the first has become, and so
both can be operands. -/
private theorem builds_parts {a b : Formula Extended} (later : w.Extends now)
    (left : ∀ {now}, w.Extends now → a.Builds w now)
    (right : ∀ {now}, w.Extends now → b.Builds w now) :
    ∃ x y first second, a.build now = .ok (x, first) ∧ b.build first = .ok (y, second) ∧
      now.Extends second ∧ x.Means second (a.value w) ∧ y.Means second (b.value w) ∧
      x.isPlain = a.isPlain ∧ y.isPlain = b.isPlain := by
  obtain ⟨x, first, builtLeft, grown, means, plain⟩ := left later
  obtain ⟨y, second, builtRight, grown', means', plain'⟩ := right (later.trans grown)
  exact ⟨x, y, first, second, builtLeft, builtRight, grown.trans grown', means.mono grown', means',
    plain, plain'⟩

/-- A linear formula can be built in its workspace and in every later one. -/
theorem Linear.builds {t : Formula Extended} (linear : t.Linear w) (later : w.Extends now) :
    t.Builds w now := by
  induction t generalizing now with
  | plain c =>
      obtain ⟨q, rfl⟩ := linear
      exact ⟨_, _, rfl, .refl now, .plain q, rfl⟩
  | unknown i => exact ⟨_, _, rfl, .refl now, .unknown i, rfl⟩
  | expression i =>
      obtain ⟨e, stored, finite⟩ := linear
      have same : (Formula.expression i).value w = e.valueAt := by
        funext x
        rw [value, Workspace.expressionAt_of_getElem? stored]
      refine ⟨_, _, rfl, .refl now, ?_, rfl⟩
      rw [same]
      exact .expression (later.expressions i e stored) finite.computes
  | add a b iha ihb =>
      obtain ⟨x, y, first, second, built, built', grown, left, right, plain, plain'⟩ :=
        builds_parts later (iha linear.1) (ihb linear.2)
      have sum := left.add right
      rw [plain, plain'] at sum
      simp only [Builds, build, built, built', bind, Except.bind]
      exact sum.of_extends grown
  | sub a b iha ihb =>
      obtain ⟨x, y, first, second, built, built', grown, left, right, plain, plain'⟩ :=
        builds_parts later (iha linear.1) (ihb linear.2)
      have difference := left.sub right
      rw [plain, plain'] at difference
      simp only [Builds, build, built, built', bind, Except.bind]
      exact difference.of_extends grown
  | neg a ih =>
      obtain ⟨x, first, built, grown, means, plain⟩ := ih linear later
      have negative := means.neg
      rw [plain] at negative
      simp only [Builds, build, built, bind, Except.bind]
      exact negative.of_extends grown
  | mul a b iha ihb =>
      obtain ⟨x, y, first, second, built, built', grown, left, right, plain, plain'⟩ :=
        builds_parts later (iha linear.1) (ihb linear.2.1)
      have product := left.mul right (by rw [plain, plain']; exact linear.2.2)
      rw [plain, plain'] at product
      simp only [Builds, build, built, built', bind, Except.bind]
      exact product.of_extends grown

/-- Without variables and expressions the value is constant. -/
theorem value_of_isPlain {t : Formula Extended} (plain : t.isPlain = true) (x y : Nat → Rat) :
    t.value w x = t.value w y := by
  induction t with
  | plain c => rfl
  | unknown i => cases plain
  | expression i => cases plain
  | neg a ih => rw [value, value, ih plain]
  | add a b iha ihb | sub a b iha ihb | mul a b iha ihb =>
      rw [isPlain, Bool.and_eq_true] at plain
      rw [value, value, iha plain.1, ihb plain.2]

/-- One unit of a variable adds its coefficient to the value. -/
theorem Linear.value_unit {t : Formula Extended} (linear : t.Linear w) (i : Nat) :
    t.value w (fun j => if j = i then 1 else 0) - t.value w (fun _ => 0) = t.coefficient w i := by
  induction t with
  | plain c => simp [value, coefficient]
  | unknown j => simp [value, coefficient]
  | expression j =>
      obtain ⟨e, stored, finite⟩ := linear
      rw [value, value, coefficient, Workspace.expressionAt_of_getElem? stored]
      exact (finite.computes.coefficient_eq i).symm
  | add a b iha ihb =>
      rw [value, value, coefficient, ← iha linear.1, ← ihb linear.2]
      ring
  | sub a b iha ihb =>
      rw [value, value, coefficient, ← iha linear.1, ← ihb linear.2]
      ring
  | neg a ih =>
      rw [value, value, coefficient, ← ih linear]
      ring
  | mul a b iha ihb =>
      rw [value, value, coefficient, ← iha linear.1, ← ihb linear.2.1]
      -- The plain factor has the same value with and without the variable.
      rcases linear.2.2 with plain | plain
      · rw [value_of_isPlain plain (fun j => if j = i then 1 else 0) fun _ => 0]
        ring
      · rw [value_of_isPlain plain (fun j => if j = i then 1 else 0) fun _ => 0]
        ring

end Formula

/-- Evaluation reads the variables of an expression by their keys; one without a value is zero. -/
theorem Workspace.evaluate_computes {w : Workspace Extended} {e : Expression Nat Extended}
    {form : (Nat → Rat) → Rat} (computes : e.Computes form) (values : List (Value × Rat)) :
    w.evaluate e (values.map fun v => (v.1, .finite v.2)) =
      .ok (.finite (form fun i => ((OrderedMap.ofList values).get? (w.keyAt i)).getD 0)) := by
  rw [← computes.evaluate, Workspace.evaluate, OrderedMap.ofList_map_value]
  refine congrArg e.evaluate (funext fun i => ?_)
  rw [OrderedMap.get?_mapValues, point]
  cases (OrderedMap.ofList values).get? (w.keyAt i) <;> rfl

/-- The expression a linear formula builds is the formula: it evaluates to the formula's value at
every assignment of numbers to keys, its terms are those of distinct variables, each with the
coefficients of all occurrences together, and the operands stay as they are. -/
theorem Formula.build_evaluate {w : Workspace Extended} {t : Formula Extended}
    (linear : t.Linear w) :
    ∃ a built e, t.build w = .ok (a, built) ∧ w.Extends built ∧ built.toExpression a = .ok e ∧
      (∀ values : List (Value × Rat),
        built.evaluate e (values.map fun v => (v.1, .finite v.2)) =
          .ok (.finite (t.value w fun i =>
            ((OrderedMap.ofList values).get? (w.keyAt i)).getD 0))) ∧
      e.terms.keys.Nodup ∧ ∀ i, e.coefficient i = t.coefficient w i := by
  obtain ⟨a, built, done, grown, means, _⟩ := linear.builds (.refl w)
  obtain ⟨e, coerced, computes⟩ := means.toExpression
  have sameKeys : built.keyAt = w.keyAt := by
    funext i
    rw [Workspace.keyAt, Workspace.keyAt, Workspace.variableAt?, Workspace.variableAt?,
      grown.unknowns]
  refine ⟨a, built, e, done, grown, coerced, fun values => ?_, e.terms.nodup_keys, fun i => ?_⟩
  · rw [Workspace.evaluate_computes computes, sameKeys]
  · rw [computes.coefficient_eq, linear.value_unit]

/-- Two variables `x` and `y`, and the expression `2 * x + 1`. -/
private def twoVariables : Workspace Extended where
  unknowns := #[⟨.text "x", .real, .bottom, .top⟩, ⟨.text "y", .real, .bottom, .top⟩]
  expressions := #[⟨.ofList [(0, .finite 2)], .finite 1⟩]
  problems := #[]

/-- The formula `3 * (x + (2 * x + 1)) - ((5 - x) * 2 + -y)`, that is `11 * x + y - 7`. -/
private def mixedFormula : Formula Extended :=
  .sub (.mul (.plain (.finite 3)) (.add (.unknown 0) (.expression 0)))
    (.add (.mul (.sub (.plain (.finite 5)) (.unknown 0)) (.plain (.finite 2))) (.neg (.unknown 1)))

/-- A formula with two variables is built and evaluated. -/
theorem Formula.build_evaluate_mixed :
    mixedFormula.Linear twoVariables ∧
      ∃ a built e, mixedFormula.build twoVariables = .ok (a, built) ∧
        built.toExpression a = .ok e ∧ e.coefficient 0 = 11 ∧
        built.evaluate e [(.text "y", .finite 4), (.text "x", .finite (1 / 2))] =
          .ok (.finite (5 / 2)) := by
  have linear : mixedFormula.Linear twoVariables := by
    refine ⟨⟨⟨3, rfl⟩, ⟨trivial, _, rfl, ⟨1, rfl⟩, ?_⟩, .inl rfl⟩,
      ⟨⟨⟨5, rfl⟩, trivial⟩, ⟨2, rfl⟩, .inr rfl⟩, trivial⟩
    intro i c member
    cases List.mem_singleton.mp member
    exact ⟨2, rfl⟩
  obtain ⟨a, built, e, done, _, coerced, evaluates, _, coefficients⟩ :=
    Formula.build_evaluate linear
  refine ⟨linear, a, built, e, done, coerced, (coefficients 0).trans ?_,
    (evaluates [(.text "y", 4), (.text "x", 1 / 2)]).trans ?_⟩
  · decide +kernel
  · exact congrArg (Except.ok ∘ Extended.finite) (by decide +kernel)

end ArcSelection
