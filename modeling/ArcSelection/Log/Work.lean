import ArcSelection.Fault
import ArcSelection.Log.Record

/-!
# Work that reports

A piece of work makes reports as it goes on and ends with a result or a fault.  The
reports made before a fault stay.
-/

namespace ArcSelection

/-- Reports, and a result or a fault. -/
def Work (β : Type) : Type := Traced (Except Fault β)

namespace Work

/-- Goes on with the result of a piece of work, unless it failed. -/
def andThen {β γ : Type} (w : Work β) (f : β -> Work γ) : Work γ :=
  match w.result with
  | .ok x => Traced.after w.log (f x)
  | .error fault => ⟨w.log, .error fault⟩

instance : Monad Work where
  pure x := ⟨[], .ok x⟩
  bind := andThen

/-- Makes one report. -/
def report (r : LogRecord) : Work Unit := ⟨[r], .ok ()⟩

/-- A step that reports nothing. -/
def quietly {β : Type} (r : Except Fault β) : Work β := ⟨[], r⟩

end Work

end ArcSelection
