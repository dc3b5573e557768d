import ArcSelection.Program.Workspace
import ArcSelection.Proofs.Program.LinearForm

/-!
# What operators do to a workspace

An operand stands for a linear form, and an operator on operands of any kinds becomes an operand
for the operation on their forms. Operators work on copies: a sum is made by adding terms in place
to a copy of the left operand, which is stored behind everything that was there before. So
whatever is added in place, the operands stay as they are (`Workspace.Extends.put`).

Everything is computed exactly here. The workspace of dynamic values runs the same operations.
-/

namespace ArcSelection

open Decimal Fallible

/-- The workspace has the variables and problems of another, and its expressions as they are. -/
structure Workspace.Extends {α : Type} (w w' : Workspace α) : Prop where
  unknowns : w'.unknowns = w.unknowns
  problems : w'.problems = w.problems
  expressions : ∀ (i : Nat) (e : Expression Nat α), w.expressions[i]? = some e →
    w'.expressions[i]? = some e

namespace Workspace

section Expressions

variable {α : Type} {w w' w'' : Workspace α} {e f : Expression Nat α} {i j : Nat}

/-- A stored expression is found. -/
theorem expressionAt_of_getElem? [Scalar α] (stored : w.expressions[i]? = some e) :
    w.expressionAt i = e := by
  rw [expressionAt, stored, Option.getD_some]

/-- A stored expression is found at its position. -/
theorem getElem?_store (w : Workspace α) (e : Expression Nat α) :
    (w.store e).2.expressions[(w.store e).1]? = some e :=
  Array.getElem?_push_size

/-- What was put is found. -/
theorem getElem?_put_self (inside : i < w.expressions.size) :
    (w.put i e).expressions[i]? = some e := by
  simp [put, inside]

/-- What was put changes no other expression. -/
theorem getElem?_put_of_ne (apart : i ≠ j) :
    (w.put i e).expressions[j]? = w.expressions[j]? := by
  simp [put, Array.getElem?_setIfInBounds_ne apart]

@[simp] theorem put_put : (w.put i e).put i f = w.put i f := by simp [put]

theorem put_of_getElem? (stored : w.expressions[i]? = some e) : w.put i e = w := by
  obtain ⟨inside, rfl⟩ := Array.getElem?_eq_some_iff.mp stored
  rw [put, Array.set!_eq_setIfInBounds, Array.setIfInBounds, dif_pos inside, Array.set_getElem_self]

namespace Extends

theorem refl (w : Workspace α) : w.Extends w := ⟨rfl, rfl, fun _ _ found => found⟩

/-- A workspace that grows twice has grown. -/
theorem trans (first : w.Extends w') (second : w'.Extends w'') : w.Extends w'' where
  unknowns := second.unknowns.trans first.unknowns
  problems := second.problems.trans first.problems
  expressions i e found := second.expressions i e (first.expressions i e found)

/-- A workspace that grows does not lose expressions. -/
theorem size_le (grown : w.Extends w') : w.expressions.size ≤ w'.expressions.size := by
  by_contra smaller
  have found := grown.expressions w'.expressions.size _ (Array.getElem?_eq_getElem (by omega))
  simp at found

/-- Storing an expression changes nothing that is there. -/
theorem store (w : Workspace α) (e : Expression Nat α) : w.Extends (w.store e).2 := by
  refine ⟨rfl, rfl, fun i other found => ?_⟩
  obtain ⟨inside, rfl⟩ := Array.getElem?_eq_some_iff.mp found
  exact Array.getElem?_push_lt inside

/-- Changing an expression that was added later changes nothing that was there. -/
theorem put (grown : w.Extends w') (new : w.expressions.size ≤ i) :
    w.Extends (w'.put i e) := by
  refine ⟨grown.unknowns, grown.problems, fun j other found => ?_⟩
  obtain ⟨inside, _⟩ := Array.getElem?_eq_some_iff.mp found
  rw [getElem?_put_of_ne (by omega), grown.expressions j other found]

end Extends

end Expressions

end Workspace

/-- An operand stands for a linear form. -/
inductive Operand.Means (w : Workspace Extended) :
    Operand Extended → ((Nat → Rat) → Rat) → Prop
  | plain (c : Rat) : Operand.Means w (.plain (.finite c)) fun _ => c
  | unknown (i : Nat) : Operand.Means w (.variable i) fun x => x i
  | expression {i : Nat} {e : Expression Nat Extended} {form : (Nat → Rat) → Rat}
      (stored : w.expressions[i]? = some e) (computes : e.Computes form) :
      Operand.Means w (.expression i) form

/-- Whether an operand is a plain value. -/
def Operand.isPlain {α : Type} : Operand α → Bool
  | .plain _ => true
  | .variable _ | .expression _ => false

namespace Workspace

/-- An operation ends with an operand for a form, plain or not, and leaves what is there. -/
def Yields (w : Workspace Extended) (r : Except Fault (Operand Extended × Workspace Extended))
    (form : (Nat → Rat) → Rat) (plain : Bool) : Prop :=
  ∃ a built, r = .ok (a, built) ∧ w.Extends built ∧ a.Means built form ∧ a.isPlain = plain

/-- An operation of expressions ends with a new expression for a form, and leaves what is
there. -/
def Places (w : Workspace Extended) (r : Except Fault (Nat × Workspace Extended))
    (form : (Nat → Rat) → Rat) : Prop :=
  ∃ i built, r = .ok (i, built) ∧ w.Extends built ∧ w.expressions.size ≤ i ∧
    (Operand.expression i).Means built form

variable {w w' : Workspace Extended} {r : Except Fault (Nat × Workspace Extended)}
variable {form form' : (Nat → Rat) → Rat}

/-- The form may be told in other words. -/
theorem Places.congr (places : w.Places r form) (same : ∀ x, form x = form' x) :
    w.Places r form' :=
  (funext same : form = form') ▸ places

/-- What is yielded in a grown workspace is yielded in the first one. -/
theorem Yields.of_extends {r : Except Fault (Operand Extended × Workspace Extended)}
    {plain : Bool} (yields : w'.Yields r form plain) (grown : w.Extends w') :
    w.Yields r form plain := by
  obtain ⟨a, built, done, later, means⟩ := yields
  exact ⟨a, built, done, grown.trans later, means⟩

/-- An expression that is stored is placed behind the others. -/
theorem places_store {e : Expression Nat Extended} (computes : e.Computes form) :
    w.Places (.ok (w.store e)) form :=
  ⟨_, _, rfl, .store w e, le_rfl, .expression (getElem?_store w e) computes⟩

/-- An operation may go on with what another has placed. -/
theorem Places.bind {f : Nat × Workspace Extended → Except Fault (Nat × Workspace Extended)}
    (places : w.Places r form)
    (next : ∀ i w', w.Extends w' → (Operand.expression i).Means w' form →
      w'.Places (f (i, w')) form') : w.Places (r >>= f) form' := by
  obtain ⟨i, first, rfl, grown, _, means⟩ := places
  obtain ⟨k, built, done, later, new, meansLast⟩ := next i first grown means
  exact ⟨k, built, done, grown.trans later, grown.size_le.trans new, meansLast⟩

end Workspace

namespace Operand.Means

open Workspace (Places Yields)

variable {w w' : Workspace Extended} {a b : Operand Extended} {form form' : (Nat → Rat) → Rat}
variable {i j : Nat}

/-- An operand keeps its meaning when the workspace grows. -/
theorem mono (means : a.Means w form) (later : w.Extends w') : a.Means w' form := by
  cases means with
  | plain c => exact .plain c
  | unknown i => exact .unknown i
  | expression stored computes => exact .expression (later.expressions _ _ stored) computes

/-- The expression an operand is coerced to computes its form. -/
theorem toExpression (means : a.Means w form) :
    ∃ e, w.toExpression a = .ok e ∧ e.Computes form := by
  cases means with
  | plain c => exact ⟨_, rfl, .ofConstant c⟩
  | unknown i => exact ⟨_, rfl, .ofVariable i⟩
  | expression stored computes =>
      refine ⟨_, rfl, ?_⟩
      rwa [Workspace.expressionAt_of_getElem? stored]

/-- A plain operand is a number. -/
theorem eq_plain (means : a.Means w form) (isPlain : a.isPlain = true) :
    ∃ c : Rat, a = .plain (.finite c) ∧ form = fun _ => c := by
  cases means with
  | plain c => exact ⟨c, rfl, rfl⟩
  | unknown i => cases isPlain
  | expression stored computes => cases isPlain

/-! ### Operations of expressions -/

/-- A copy is stored, and computes the form of the operand. -/
theorem copy_eq (means : a.Means w form) : ∃ e, w.copy a = .ok (w.store e) ∧ e.Computes form := by
  obtain ⟨e, coerced, computes⟩ := means.toExpression
  refine ⟨e, ?_, computes⟩
  rw [Workspace.copy, coerced]
  rfl

/-- A copy means what the operand means. -/
theorem copy (means : a.Means w form) : w.Places (w.copy a) form := by
  obtain ⟨e, copied, computes⟩ := means.copy_eq
  exact copied ▸ Workspace.places_store computes

/-- Adding terms in place adds their shares to the form of the expression, which is the only one
to change. -/
private theorem addTerms {e : Expression Nat Extended} (stored : w.expressions[i]? = some e)
    (computes : e.Computes form) {terms : List (Nat × Extended)}
    (finite : ∀ x c, (x, c) ∈ terms → c.IsFinite) :
    ∃ sum, terms.foldlM (fun w t => w.addTerm i t.1 t.2) w = .ok (w.put i sum) ∧
      sum.Computes fun x => form x + (terms.map fun t => t.2.rational * x t.1).sum := by
  have inside := (Array.getElem?_eq_some_iff.mp stored).1
  have folded : ∃ last, terms.foldlM (fun w t => w.addTerm i t.1 t.2) w = .ok last ∧
      ∃ sum : Expression Nat Extended, last = w.put i sum ∧
        sum.Computes fun x => form x + (terms.map fun t => t.2.rational * x t.1).sum := by
    refine foldlM_ok (fun (done : List (Nat × Extended)) (s : Workspace Extended) =>
      ∃ sum : Expression Nat Extended, s = w.put i sum ∧
        sum.Computes fun x => form x + (done.map fun t => t.2.rational * x t.1).sum)
      ⟨e, (Workspace.put_of_getElem? stored).symm, computes.congr fun x => by simp⟩ ?_
    rintro done ⟨x, c⟩ rest _ split ⟨sum, rfl, computes⟩
    obtain ⟨next, added, computesNext⟩ := computes.addTerm x c.rational
    rw [← (finite x c (by simp [split])).eq] at added
    refine ⟨w.put i next, ?_, next, rfl, computesNext.congr fun x => by simp [add_assoc]⟩
    rw [Workspace.addTerm,
      Workspace.expressionAt_of_getElem? (Workspace.getElem?_put_self inside), added]
    exact congrArg Except.ok Workspace.put_put
  obtain ⟨last, done, sum, rfl, computesSum⟩ := folded
  exact ⟨sum, done, computesSum⟩

/-- Adding another expression in place adds its form, and no other expression changes. -/
theorem addTo {e f : Expression Nat Extended} (stored : w.expressions[i]? = some e)
    (computes : e.Computes form) (stored' : w.expressions[j]? = some f)
    (computes' : f.Computes form') :
    ∃ sum, w.addTo i j = .ok (w.put i sum) ∧ sum.Computes fun x => form x + form' x := by
  have inside := (Array.getElem?_eq_some_iff.mp stored).1
  obtain ⟨terms, folded, computesTerms⟩ := addTerms stored computes computes'.finite.terms
  obtain ⟨c, added, computesSum⟩ := computesTerms.addConstant f.constant.rational
  rw [← computes'.finite.constant.eq] at added
  refine ⟨{ terms with constant := c }, ?_, computesSum.congr fun x => ?_⟩
  · rw [Workspace.addTo, Workspace.expressionAt_of_getElem? stored', folded]
    simp only [bind, Except.bind,
      Workspace.expressionAt_of_getElem? (Workspace.getElem?_put_self inside), added]
    exact congrArg Except.ok Workspace.put_put
  · rw [← computes'.valueAt_eq x, Expression.valueAt, OrderedMap.sum]
    ring

/-- A sum is made in a copy of the expression, and the operands are left alone. -/
theorem plus (left : (Operand.expression i).Means w form) (right : b.Means w form') :
    w.Places (w.plus i b) fun x => form x + form' x := by
  obtain ⟨e, copied, computes⟩ := left.copy_eq
  obtain ⟨f, copied', computes'⟩ := (right.mono (.store w e)).copy_eq
  have later := Workspace.Extends.store (w.store e).2 f
  have stored := later.expressions _ _ (Workspace.getElem?_store w e)
  obtain ⟨sum, added, computesSum⟩ :=
    addTo stored computes (Workspace.getElem?_store (w.store e).2 f) computes'
  have inside := (Array.getElem?_eq_some_iff.mp stored).1
  have done : w.plus i b = .ok ((w.store e).1, ((w.store e).2.store f).2.put (w.store e).1 sum) :=
    bind_eq_ok_iff.mpr ⟨_, copied, bind_eq_ok_iff.mpr ⟨_, copied', bind_eq_ok_iff.mpr
      ⟨_, added, rfl⟩⟩⟩
  exact ⟨_, _, done, ((Workspace.Extends.store w e).trans later).put le_rfl, le_rfl,
    .expression (Workspace.getElem?_put_self inside) computesSum⟩

/-- A multiple is a new expression. -/
theorem times (means : (Operand.expression i).Means w form) (c : Rat) :
    w.Places (w.times i (.finite c)) fun x => form x * c := by
  obtain ⟨e, coerced, computes⟩ := means.toExpression
  obtain rfl : w.expressionAt i = e := Except.ok.inj coerced
  obtain ⟨scaled, multiplied, computesScaled⟩ := computes.scale c
  have done : w.times i (.finite c) = .ok (w.store scaled) :=
    bind_eq_ok_iff.mpr ⟨_, multiplied, rfl⟩
  exact done ▸ Workspace.places_store computesScaled

/-- A difference means the difference. -/
theorem minus (left : (Operand.expression i).Means w form) (right : b.Means w form') :
    w.Places (w.minus i b) fun x => form x - form' x := by
  refine right.copy.bind fun taken w₁ grown meansTaken => ?_
  refine (meansTaken.times (-1)).bind fun negative w₂ grown' meansNegative => ?_
  exact ((left.mono (grown.trans grown')).plus meansNegative).congr fun x => by ring

/-! ### Operators -/

/-- An operation of expressions applies to any operand. -/
theorem lifted {f : Workspace Extended → Nat → Except Fault (Nat × Workspace Extended)}
    (means : a.Means w form)
    (places : ∀ i w', w.Extends w' → (Operand.expression i).Means w' form →
      w'.Places (f w' i) form') : w.Yields (w.lifted a f) form' false := by
  have ends : ∀ {r : Except Fault (Nat × Workspace Extended)}, w.Places r form' →
      w.Yields (r >>= fun p => .ok (.expression p.1, p.2)) form' false := by
    rintro _ ⟨k, built, rfl, grown, _, meansResult⟩
    exact ⟨_, _, rfl, grown, meansResult, rfl⟩
  have copied := ends (means.copy.bind (f := fun p => f p.2 p.1) places)
  rw [bind_assoc] at copied
  cases means with
  | expression stored computes => exact ends (places _ w (.refl w) (.expression stored computes))
  | _ => exact copied

/-- The sum of two operands stands for the sum of their forms, whatever their kinds. -/
theorem add (left : a.Means w form) (right : b.Means w form') :
    w.Yields (w.add a b) (fun x => form x + form' x) (a.isPlain && b.isPlain) := by
  have onLeft : w.Yields (w.lifted a fun w i => w.plus i b) (fun x => form x + form' x) false :=
    left.lifted fun i w' grown means => means.plus (right.mono grown)
  -- A number on the left joins the expression, so the terms of the right operand come first.
  have onRight : w.Yields (w.lifted b fun w i => w.plus i a) (fun x => form x + form' x) false :=
    right.lifted fun i w' grown means =>
      (means.plus (left.mono grown)).congr fun x => add_comm _ _
  cases left with
  | plain c =>
      cases right with
      | plain d => exact ⟨_, _, rfl, .refl w, .plain (c + d), rfl⟩
      | _ => exact onRight
  | _ => exact onLeft

/-- The difference of two operands stands for the difference of their forms. -/
theorem sub (left : a.Means w form) (right : b.Means w form') :
    w.Yields (w.sub a b) (fun x => form x - form' x) (a.isPlain && b.isPlain) := by
  have difference : w.Yields (w.lifted a fun w i => w.minus i b) (fun x => form x - form' x)
      false := left.lifted fun i w' grown means => means.minus (right.mono grown)
  cases left with
  | plain c =>
      cases right with
      | plain d =>
          refine ⟨.plain (.finite (c - d)), w, ?_, .refl w, .plain (c - d), rfl⟩
          rw [sub_eq_add_neg, ← mul_neg_one]
          rfl
      | _ => exact difference
  | _ => exact difference

/-- The negative of an operand stands for the negative of its form. -/
theorem neg (means : a.Means w form) : w.Yields (w.neg a) (fun x => -form x) a.isPlain := by
  have negative : w.Yields (w.lifted a fun w i => w.times i Arithmetic.minusOne)
      (fun x => -form x) false :=
    means.lifted fun i w' _ means => (means.times (-1)).congr fun x => mul_neg_one _
  cases means with
  | plain c =>
      refine ⟨.plain (.finite (-c)), w, ?_, .refl w, .plain (-c), rfl⟩
      rw [neg_eq_neg_one_mul]
      rfl
  | _ => exact negative

/-- The product of two operands stands for the product of their forms, if one is a number. -/
theorem mul (left : a.Means w form) (right : b.Means w form')
    (linear : a.isPlain = true ∨ b.isPlain = true) :
    w.Yields (w.mul a b) (fun x => form x * form' x) (a.isPlain && b.isPlain) := by
  have multiple : ∀ {a : Operand Extended} {form}, a.Means w form → ∀ c : Rat,
      w.Yields (w.lifted a fun w i => w.times i (.finite c)) (fun x => form x * c) false :=
    fun means c => means.lifted fun i w' _ means => means.times c
  cases left with
  | plain c =>
      have product := multiple right c
      simp only [mul_comm _ c] at product
      cases right with
      | plain d => exact ⟨_, _, rfl, .refl w, .plain (c * d), rfl⟩
      | _ => exact product
  | unknown i =>
      obtain ⟨d, rfl, rfl⟩ := right.eq_plain (linear.resolve_left Bool.false_ne_true)
      exact multiple (.unknown i) d
  | expression stored computes =>
      obtain ⟨d, rfl, rfl⟩ := right.eq_plain (linear.resolve_left Bool.false_ne_true)
      exact multiple (.expression stored computes) d

end Operand.Means

end ArcSelection
