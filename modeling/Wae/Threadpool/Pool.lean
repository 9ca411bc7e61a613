import Wae.Transition.Machine
import Mathlib.Logic.Function.Basic

/-! A thread pool, its handles and its tasks.

Every `Handle` holds the pool's `HandleInner` by one reference count. The count is
here as the code has it, a number that goes up by one where a handle is cloned and
down by one where it is dropped; the handles themselves are where they are: with
users, in the schedule closure of each task, in each queued entry, and in each
running callback, first its own and then also the one in its thread's context.

`push_task` is two steps, the push and the submission, and a callback of the work
object is one step for each thing it does. Any number of threads and callbacks may
be part way through. -/
namespace Wae.Threadpool
open Transition

inductive Priority where
  | high
  | normal
  | low
  deriving DecidableEq, Repr

/-- A `Runnable` with its `Handle`, as queued. Runnables are numbered by their pushes. -/
structure Entry where
  runnable : Nat
  task : Nat
  deriving DecidableEq, Repr

structure Task where
  /-- The priority of the handle in its schedule closure. -/
  priority : Priority
  /-- The schedule closure has not been dropped. -/
  closure : Bool
  /-- Threads inside `push_task` that have pushed and not yet submitted. -/
  pushing : Nat
  deriving DecidableEq, Repr

/-- Where a callback stands: what it does next. -/
inductive Phase where
  | pop
  | enter (entry : Entry)
  | run (entry : Entry)
  /-- Drop the context guard. -/
  | leave (entry : Entry)
  /-- Drop the callback's own handle. -/
  | drop (entry : Entry)
  /-- That was the last handle: the callback is in the destructor, in the call that closes
  the cleanup group's members and waits for every running callback. -/
  | closing (entry : Entry)
  | returned (entry : Entry)
  /-- `unwrap` met an empty queue. -/
  | panicked
  deriving DecidableEq, Repr

structure Callback where
  queue : Priority
  phase : Phase
  deriving DecidableEq, Repr

structure Pool where
  /-- The reference count of the `HandleInner`. -/
  strong : Nat
  /-- Handles that users hold, the one in the `Threadpool` among them. -/
  users : Nat
  tasks : List Task
  queue : Priority → List Entry
  /-- Submissions whose callback has not begun. -/
  submitted : Priority → Nat
  callbacks : List Callback
  /-- Pushes so far. -/
  pushes : Nat

/-- `thread`: the callback on whose thread it happens, if it is inside one. -/
inductive Action where
  | clone (thread : Option Nat)
  | dropHandle (thread : Option Nat)
  | spawn (priority : Priority) (thread : Option Nat)
  | push (task : Nat)
  | submit (task : Nat)
  | dropClosure (task : Nat) (thread : Option Nat)
  | start (queue : Priority)
  | callback (k : Nat)
  deriving DecidableEq

/-- The callback on whose thread it happens. -/
def Action.thread : Action → Option Nat
  | .clone thread | .dropHandle thread | .spawn _ thread | .dropClosure _ thread => thread
  | .callback k => some k
  | .push _ | .submit _ | .start _ => none

/-- It drops a handle of the users' or of a schedule closure. -/
def Action.drops : Action → Bool
  | .dropHandle _ | .dropClosure _ _ => true
  | .clone _ | .spawn _ _ | .push _ | .submit _ | .start _ | .callback _ => false

namespace Pool

/-- As `Builder::build` leaves it: one handle, in the `Threadpool`. -/
def init : Pool where
  strong := 1
  users := 1
  tasks := []
  queue := fun _ => []
  submitted := fun _ => 0
  callbacks := []
  pushes := 0

/-- A callback runs tasks' code between its `enter` and its guard's drop. -/
def running (s : Pool) (k : Nat) : Bool :=
  match s.callbacks[k]? with
  | some ⟨_, .run _⟩ => true
  | _ => false

/-- Code runs there. -/
def inside (s : Pool) (thread : Option Nat) : Bool := thread.all s.running

/-- The code that runs there has a handle to clone: one of the users', or the one
in its thread's context. -/
def reaches (s : Pool) : Option Nat → Bool
  | none => decide (0 < s.users)
  | some k => s.running k

def setTask (s : Pool) (t : Nat) (task : Task) : Pool := {s with tasks := s.tasks.set t task}

def setPhase (s : Pool) (k : Nat) (queue : Priority) (phase : Phase) : Pool :=
  {s with callbacks := s.callbacks.set k ⟨queue, phase⟩}

/-- A `Runnable` of this task is queued, or popped and not yet run. -/
def runnable (s : Pool) (t : Nat) : Bool :=
  [Priority.high, .normal, .low].any (fun p => (s.queue p).any (·.task == t)) ||
    s.callbacks.any fun c =>
      match c.phase with
      | .enter entry => entry.task == t
      | _ => false

/-- `push_task` up to the queue's `push`, with the handle cloned into the entry. -/
def pushTask (s : Pool) (t : Nat) (task : Task) : Pool :=
  {s.setTask t {task with pushing := task.pushing + 1} with
    queue := Function.update s.queue task.priority (s.queue task.priority ++ [⟨s.pushes, t⟩])
    pushes := s.pushes + 1
    strong := s.strong + 1}

/-- `SubmitThreadpoolWork` on the queue's work object. -/
def submitWork (s : Pool) (t : Nat) (task : Task) (pushing : Nat) : Pool :=
  {s.setTask t {task with pushing} with
    submitted := Function.update s.submitted task.priority (s.submitted task.priority + 1)}

/-- Where a callback stands once it has dropped its own handle. -/
def afterDrop (s : Pool) (entry : Entry) : Phase :=
  if s.strong = 1 then .closing entry else .returned entry

/-- The next step of the `k`-th callback. One that waits for itself takes none. -/
def callback (s : Pool) (k : Nat) : Option Pool :=
  match s.callbacks[k]? with
  | some ⟨p, .pop⟩ =>
    match s.queue p with
    | [] => some (s.setPhase k p .panicked)
    | entry :: rest =>
      some {s.setPhase k p (.enter entry) with queue := Function.update s.queue p rest}
  | some ⟨p, .enter entry⟩ => some {s.setPhase k p (.run entry) with strong := s.strong + 1}
  | some ⟨p, .run entry⟩ => some (s.setPhase k p (.leave entry))
  | some ⟨p, .leave entry⟩ => some {s.setPhase k p (.drop entry) with strong := s.strong - 1}
  | some ⟨p, .drop entry⟩ => some {s.setPhase k p (s.afterDrop entry) with strong := s.strong - 1}
  | some ⟨_, .closing _⟩ | some ⟨_, .returned _⟩ | some ⟨_, .panicked⟩ | none => none

def step (s : Pool) : Action → Option Pool
  | .clone thread =>
    if s.reaches thread then some {s with users := s.users + 1, strong := s.strong + 1} else none
  | .dropHandle thread =>
    if 0 < s.users ∧ s.inside thread = true then
      some {s with users := s.users - 1, strong := s.strong - 1}
    else none
  | .spawn priority thread =>
    if s.reaches thread then
      some {s with tasks := s.tasks ++ [⟨priority, true, 0⟩], strong := s.strong + 1}
    else none
  | .push t =>
    match s.tasks[t]? with
    | some task => if task.closure then some (s.pushTask t task) else none
    | none => none
  | .submit t =>
    match s.tasks[t]? with
    | some task =>
      match task.pushing with
      | pushing + 1 => some (s.submitWork t task pushing)
      | 0 => none
    | none => none
  | .dropClosure t thread =>
    -- a task that is queued, or being scheduled, is not destroyed
    match s.tasks[t]? with
    | some task =>
      if task.closure = true ∧ task.pushing = 0 ∧ s.runnable t = false ∧ s.inside thread = true then
        some {s.setTask t {task with closure := false} with strong := s.strong - 1}
      else none
    | none => none
  | .start p =>
    match s.submitted p with
    | submitted + 1 =>
      some {s with
        submitted := Function.update s.submitted p submitted
        callbacks := s.callbacks ++ [⟨p, .pop⟩]}
    | 0 => none
  | .callback k => s.callback k

def machine : Machine Pool Action := ⟨init, step⟩

/-! ### What a step can do -/

/-- A step of the `k`-th callback. -/
inductive Called (s : Pool) (k : Nat) : Pool → Prop
  | panics (p : Priority) (hk : s.callbacks[k]? = some ⟨p, .pop⟩) (hq : s.queue p = []) :
      Called s k (s.setPhase k p .panicked)
  | pops (p : Priority) (entry : Entry) (rest : List Entry)
      (hk : s.callbacks[k]? = some ⟨p, .pop⟩) (hq : s.queue p = entry :: rest) :
      Called s k {s.setPhase k p (.enter entry) with queue := Function.update s.queue p rest}
  | enters (p : Priority) (entry : Entry) (hk : s.callbacks[k]? = some ⟨p, .enter entry⟩) :
      Called s k {s.setPhase k p (.run entry) with strong := s.strong + 1}
  | runs (p : Priority) (entry : Entry) (hk : s.callbacks[k]? = some ⟨p, .run entry⟩) :
      Called s k (s.setPhase k p (.leave entry))
  | leaves (p : Priority) (entry : Entry) (hk : s.callbacks[k]? = some ⟨p, .leave entry⟩) :
      Called s k {s.setPhase k p (.drop entry) with strong := s.strong - 1}
  | drops (p : Priority) (entry : Entry) (hk : s.callbacks[k]? = some ⟨p, .drop entry⟩) :
      Called s k {s.setPhase k p (s.afterDrop entry) with strong := s.strong - 1}

theorem callback_cases {s s' : Pool} {k : Nat} (hs : s.callback k = some s') : Called s k s' := by
  unfold callback at hs
  split at hs <;> rename_i hk
  · split at hs <;> rename_i hq <;> cases hs
    · exact .panics _ hk hq
    · exact .pops _ _ _ hk hq
  · cases hs
    exact .enters _ _ hk
  · cases hs
    exact .runs _ _ hk
  · cases hs
    exact .leaves _ _ hk
  · cases hs
    exact .drops _ _ hk
  all_goals cases hs

/-- A step of the machine. -/
inductive Moved (s : Pool) : Action → Pool → Prop
  | clone (thread : Option Nat) (hr : s.reaches thread = true) :
      Moved s (.clone thread) {s with users := s.users + 1, strong := s.strong + 1}
  | dropHandle (thread : Option Nat) (hu : 0 < s.users) (hi : s.inside thread = true) :
      Moved s (.dropHandle thread) {s with users := s.users - 1, strong := s.strong - 1}
  | spawn (priority : Priority) (thread : Option Nat) (hr : s.reaches thread = true) :
      Moved s (.spawn priority thread)
        {s with tasks := s.tasks ++ [⟨priority, true, 0⟩], strong := s.strong + 1}
  | push (t : Nat) (task : Task) (ht : s.tasks[t]? = some task) (hc : task.closure = true) :
      Moved s (.push t) (s.pushTask t task)
  | submit (t : Nat) (task : Task) (pushing : Nat) (ht : s.tasks[t]? = some task)
      (hp : task.pushing = pushing + 1) : Moved s (.submit t) (s.submitWork t task pushing)
  | dropClosure (t : Nat) (task : Task) (thread : Option Nat) (ht : s.tasks[t]? = some task)
      (hc : task.closure = true) (hi : s.inside thread = true) :
      Moved s (.dropClosure t thread)
        {s.setTask t {task with closure := false} with strong := s.strong - 1}
  | start (p : Priority) (submitted : Nat) (hp : s.submitted p = submitted + 1) :
      Moved s (.start p)
        {s with
          submitted := Function.update s.submitted p submitted
          callbacks := s.callbacks ++ [⟨p, .pop⟩]}
  | callback (k : Nat) (hs : s.callback k = some s') : Moved s (.callback k) s'

theorem step_cases {s s' : Pool} {a : Action} (hs : step s a = some s') : Moved s a s' := by
  cases a with
  | clone thread =>
    simp only [step, Option.ite_none_right_eq_some, Option.some.injEq] at hs
    obtain ⟨hr, rfl⟩ := hs
    exact .clone thread hr
  | dropHandle thread =>
    simp only [step, Option.ite_none_right_eq_some, Option.some.injEq] at hs
    obtain ⟨⟨hu, hi⟩, rfl⟩ := hs
    exact .dropHandle thread hu hi
  | spawn priority thread =>
    simp only [step, Option.ite_none_right_eq_some, Option.some.injEq] at hs
    obtain ⟨hr, rfl⟩ := hs
    exact .spawn priority thread hr
  | push t =>
    simp only [step] at hs
    split at hs
    · rename_i task ht
      split at hs <;> rename_i hc <;> cases hs
      exact .push t task ht hc
    · cases hs
  | submit t =>
    simp only [step] at hs
    split at hs
    · rename_i task ht
      split at hs <;> rename_i hp <;> cases hs
      exact .submit t task _ ht hp
    · cases hs
  | dropClosure t thread =>
    simp only [step] at hs
    split at hs
    · rename_i task ht
      split at hs <;> rename_i hc <;> cases hs
      exact .dropClosure t task thread ht hc.1 hc.2.2.2
    · cases hs
  | start p =>
    simp only [step] at hs
    split at hs <;> rename_i hp <;> cases hs
    exact .start p _ hp
  | callback k => exact .callback k hs

end Pool

end Wae.Threadpool
