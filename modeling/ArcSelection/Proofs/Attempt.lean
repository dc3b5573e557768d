import ArcSelection.Attempt
import ArcSelection.Proofs.Fallible

/-!
# Attempts that are all or nothing

An attempt is atomic if a refusal leaves the state as it was.  What such an attempt does in a
state is told by its outcome there.
-/

namespace ArcSelection.Attempt

variable {σ τ α β : Type} {x : Attempt σ α} {s : σ} {r : Except Fault (α × σ)}

/-- What an attempt with an outcome does if a refusal leaves the state as it was. -/
def settle (s : σ) : Except Fault (α × σ) → EStateM.Result Fault σ α
  | .ok (a, next) => .ok a next
  | .error fault => .error fault s

/-- A refusal leaves the state as it was. -/
def Atomic (x : Attempt σ α) : Prop := ∀ s fault s', x s = .error fault s' → s' = s

@[simp]
theorem get_bind_apply (f : σ → Attempt σ α) (s : σ) : (get >>= f) s = f s s := rfl

@[simp]
theorem throw_apply (fault : Fault) (s : σ) :
    (throw fault : Attempt σ α) s = .error fault s := rfl

@[simp]
theorem throw_bind_apply (fault : Fault) (f : β → Attempt σ α) (s : σ) :
    (throw fault >>= f) s = .error fault s := rfl

@[simp]
theorem pure_apply (a : α) (s : σ) : (pure a : Attempt σ α) s = .ok a s := rfl

@[simp]
theorem modify_bind_apply (g : σ → σ) (f : PUnit → Attempt σ α) (s : σ) :
    (modify g >>= f) s = f ⟨⟩ (g s) := rfl

@[simp]
theorem modify_apply (g : σ → σ) (s : σ) : (modify g : Attempt σ PUnit) s = .ok ⟨⟩ (g s) := rfl

@[simp]
theorem check_apply (c : Prop) [Decidable c] (y : Attempt σ α) (s : σ) :
    (if c then x else y) s = if c then x s else y s := by
  split <;> rfl

/-- An attempt that settles an outcome has it. -/
theorem outcome_of_settle (ran : x s = settle s r) : x.outcome s = r := by
  unfold outcome
  rw [ran]
  cases r <;> rfl

/-- An attempt that settles an outcome in every state is atomic. -/
theorem atomic_of_settle (settles : ∀ s, ∃ r, x s = settle s r) : x.Atomic := by
  intro s fault s' refused
  obtain ⟨r, ran⟩ := settles s
  rw [ran] at refused
  cases r with
  | ok done => cases refused
  | error other =>
      cases refused
      rfl

/-- An atomic attempt settles its outcome. -/
theorem Atomic.eq_settle (atomic : x.Atomic) (s : σ) : x s = settle s (x.outcome s) := by
  unfold outcome
  cases ran : x s with
  | ok a next => rfl
  | error fault next =>
      cases atomic s fault next ran
      rfl

/-- An atomic attempt whose result is dropped settles the states of its outcome. -/
theorem Atomic.drop_apply (atomic : x.Atomic) (s : σ) :
    (do let _ <- x : Attempt σ Unit) s =
      settle s (((x.outcome s).map (·.2)).map fun next => ((), next)) := by
  simp only [bind, EStateM.bind]
  rw [atomic.eq_settle s]
  cases x.outcome s <;> rfl

/-- The state that is left, if a refusal leaves it as it was. -/
theorem left_of_settle {x : Attempt σ Unit} {s : σ} {r : Except Fault σ} :
    x s = settle s (r.map fun next => ((), next)) → x.left s = match r with
      | .ok next => next
      | .error _ => s := by
  intro ran
  unfold left
  rw [ran]
  cases r <;> rfl

/-- An atomic attempt on a part settles the outcome on the part, with the part put back. -/
theorem Atomic.on_eq {t : τ} {part : σ} {put : σ → τ} (atomic : x.Atomic) (same : put part = t) :
    x.on part put = settle t ((x.outcome part).map fun r => (r.1, put r.2)) := by
  subst same
  unfold Attempt.on
  rw [atomic.eq_settle part]
  cases x.outcome part <;> rfl

end ArcSelection.Attempt
