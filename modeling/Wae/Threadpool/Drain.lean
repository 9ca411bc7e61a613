import Wae.Threadpool.Deliver

/-! The pool comes to rest.

As long as no task schedules another, what is left to do is a number: of the submissions
to be made, the callbacks to begin, and the steps of those that have begun. Whichever
thread goes next, each step is one less. A callback that drops the pool's last handle
takes no step after that: it waits for itself, with nothing left to serve. -/
namespace Wae.Threadpool
open Transition

/-- The steps a callback has yet to take. -/
def Callback.left (c : Callback) : Nat :=
  match c.phase with
  | .pop => 5
  | .enter _ => 4
  | .run _ => 3
  | .leave _ => 2
  | .drop _ => 1
  | .closing _ | .returned _ | .panicked => 0

namespace Pool

/-- The steps that submit, begin callbacks and take them on. -/
def serves : Action → Bool
  | .submit _ | .start _ | .callback _ => true
  | _ => false

/-- A step that serves. -/
def Serves (a : Action) : Prop := serves a = true

variable {s s' : Pool}

theorem callback_left {k : Nat} {c : Callback} (hk : s.callbacks[k]? = some c)
    (hleft : 0 < c.left) : (s.callback k).isSome = true := by
  obtain ⟨p, phase⟩ := c
  cases phase with
  | pop =>
    simp only [Pool.callback, hk]
    split <;> rfl
  | enter | run | leave | drop => simp [Pool.callback, hk]
  | closing | returned | panicked => exact absurd hleft (Nat.lt_irrefl 0)

end Pool

end Wae.Threadpool
