import Wae.Io.Result
import Wae.Threadpool.Deliver

/-! `yield_now`.

Its future wakes its own task and returns `Pending`, once. `async_task` schedules a task
that is woken while it runs again, when the poll has returned: it goes to the end of its
queue, behind everything that is there. -/
namespace Wae.Task
open Transition Threadpool

/-- Whether it has been polled. -/
structure YieldNow where
  polled : Bool
  deriving DecidableEq, Repr

/-- Whether the poll wakes the task, what it returns, and what it leaves. -/
def YieldNow.poll (s : YieldNow) : Bool × Io.Poll Unit × YieldNow :=
  if s.polled then (false, .ready (), s) else (true, .pending, ⟨true⟩)

/-- What `async_task` does with a task whose poll has returned, and which has been woken
meanwhile or not. -/
abbrev AfterPoll := Pool → Nat → Threadpool.Task → Bool → Pool

/-- It runs the schedule closure of a task that has been woken, and that pushes it. -/
def Reschedules (afterPoll : AfterPoll) : Prop :=
  ∀ s t task, afterPoll s t task true = s.pushTask t task

/-- `Runnable::run` of a task whose future is at `yield_now`, up to the push. -/
def runYieldNow (afterPoll : AfterPoll) (s : Pool) (t : Nat) (task : Threadpool.Task)
    (future : YieldNow) : Pool × Io.Poll Unit × YieldNow :=
  let (wakes, poll, future) := future.poll
  (afterPoll s t task wakes, poll, future)

variable {s s' : Pool}

/-- **`yield_now` gives way.** When a task has yielded inside a callback, its next runnable
is not popped before every runnable that was in its queue then, of each of which some
callback has popped the one copy. -/
theorem yield_gives_way {afterPoll : AfterPoll} (hr : Reschedules afterPoll)
    {as bs : List Threadpool.Action} {t : Pool} {task : Threadpool.Task} {i : Nat}
    (hs : Pool.machine.run Pool.init as = some s) (ht : s.tasks[i]? = some task)
    (hc : task.closure = true)
    (hrun : Pool.machine.run (runYieldNow afterPoll s i task ⟨false⟩).1 bs = some t)
    (hgone : t.queuedTimes s.pushes = 0) (e : Entry) (he : e ∈ s.queue task.priority) :
    t.queuedTimes e.runnable = 0 ∧ t.poppedTimes e.runnable = 1 := by
  have hpush : Pool.step s (.push i) = some (s.pushTask i task) := by
    simp [Pool.step, ht, hc]
  have hrun : Pool.machine.run (s.pushTask i task) bs = some t := hr s i task ▸ hrun
  have hsound := Pool.sound_step (Pool.sound_run Pool.sound_init hs) hpush
  obtain ⟨new, taken, heq, _, htaken⟩ := Pool.queue_run hsound.counted hrun task.priority
  have hqueue : (s.pushTask i task).queue task.priority =
      s.queue task.priority ++ [⟨s.pushes, i⟩] := by simp [Pool.pushTask, Pool.setTask]
  rw [hqueue, List.append_assoc] at heq
  have honce := (Pool.sound_run hsound hrun).once
  rcases List.append_eq_append_iff.mp heq with ⟨l, htaken', _⟩ | ⟨l, _, hleft⟩
  · have hpos := htaken e (by rw [htaken']; exact List.mem_append_left l he)
    exact (honce.popped hpos).symm
  · -- the yielding task's own runnable would still be queued
    exfalso
    have hmem : ⟨s.pushes, i⟩ ∈ t.queue task.priority := by
      rw [hleft]
      simp
    have hcount : 0 < (t.queue task.priority).countP (·.runnable == s.pushes) :=
      List.countP_pos_iff.mpr ⟨_, hmem, by simp⟩
    have hle := le_total (fun p => (t.queue p).countP (·.runnable == s.pushes)) task.priority
    unfold Pool.queuedTimes at hgone
    omega

/-- The first of two tasks is running, and the second is queued. -/
def atYield : Pool :=
  (Pool.machine.run Pool.init [.spawn .normal none, .spawn .normal none, .push 0, .submit 0,
    .start .normal, .callback 0, .callback 0, .push 1, .submit 1]).getD Pool.init

/-- `async_task`, as far as the queues see it. -/
def schedulesWoken : AfterPoll := fun s t task woken => if woken then s.pushTask t task else s

/-- The callback that began later pops first. -/
theorem yield_gives_way_two : ∃ t,
    Pool.machine.run (runYieldNow schedulesWoken atYield 0 ⟨.normal, true, 0⟩ ⟨false⟩).1
      [.submit 0, .start .normal, .start .normal, .callback 2, .callback 1] = some t ∧
    t.queuedTimes 1 = 0 ∧ t.poppedTimes 1 = 1 := by
  have hs : Pool.machine.run Pool.init [.spawn .normal none, .spawn .normal none, .push 0,
    .submit 0, .start .normal, .callback 0, .callback 0, .push 1, .submit 1] = some atYield := rfl
  have hr : Reschedules schedulesWoken := fun _ _ _ => rfl
  have hrun : Pool.machine.run (runYieldNow schedulesWoken atYield 0 ⟨.normal, true, 0⟩ ⟨false⟩).1
    [.submit 0, .start .normal, .start .normal, .callback 2, .callback 1] = some _ := rfl
  exact ⟨_, hrun, yield_gives_way hr hs rfl rfl hrun rfl ⟨1, 1⟩ (by decide)⟩

end Wae.Task
