import Mathlib.Logic.Basic

/-!
# Tasks of a timer

A task goes to a timer once: it is armed by `schedule`, and no more after it ran or was cancelled.
-/

namespace Ong.Lib

inductive TimerTask
  | virgin | scheduled | executed | cancelled
  deriving DecidableEq

namespace TimerTask

variable {t u : TimerTask}

/-- `none` when it throws an `IllegalStateException`. -/
def schedule : TimerTask → Option TimerTask
  | virgin => some scheduled
  | _ => none

/-- Whether it prevents an execution, and the task afterwards. -/
def cancel (t : TimerTask) : Bool × TimerTask := (t = scheduled, cancelled)

/-- The timer runs the task; `none` when it is not armed. -/
def fire : TimerTask → Option TimerTask
  | scheduled => some executed
  | _ => none

theorem fire_eq_some : t.fire = some u ↔ t = scheduled ∧ u = executed := by
  cases t <;> simp [fire, eq_comm]

@[simp] theorem cancel_fst : t.cancel.1 = true ↔ t = scheduled := decide_eq_true_iff

end TimerTask

end Ong.Lib
