import ArcSelection.Fault

/-!
# Attempts

A change of a state is attempted step by step.  A step reads the state, writes it, or refuses to
go on; a refusal leaves the state that was reached, with every write before it.
-/

namespace ArcSelection

/-- A computation on a state that leaves the state it has reached, also when it fails. -/
abbrev Attempt (σ : Type) := EStateM Fault σ

namespace Attempt

variable {σ τ α : Type}

/-- The result and the state after it, or the cause of a failure. -/
def outcome (x : Attempt σ α) (s : σ) : Except Fault (α × σ) :=
  match x s with
  | .ok a s => .ok (a, s)
  | .error fault _ => .error fault

/-- The state that is left, after a failure too. -/
def left (x : Attempt σ α) (s : σ) : σ :=
  match x s with
  | .ok _ s => s
  | .error _ s => s

/-- Attempts a change of a part of a state and puts back what is left of the part. -/
def on (x : Attempt σ α) (part : σ) (put : σ -> τ) : EStateM.Result Fault τ α :=
  match x part with
  | .ok a s => .ok a (put s)
  | .error fault s => .error fault (put s)

end Attempt

end ArcSelection
