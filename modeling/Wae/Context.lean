import Wae.Threadpool.Pool

/-! The context of a thread: the handle in its `HANDLE`.

A callback of a pool's work object enters the handle it has popped, with the callback's own
instance in it, and its guard puts the context back as it was. Handles are plain data that
any code can copy, keep and send to other threads, and so are the guards of `enter`. Any
thread may do anything in between, also one that no callback runs on.

A callback instance is known by the number of the callback. Each kept handle and guard has
with it the callback in which it came about; no step reads that. -/
namespace Wae.Context
open Transition
open Threadpool (Priority)

structure Handle where
  /-- The pool it is a handle of. -/
  inner : Nat
  priority : Priority
  callbackInstance : Option Nat
  deriving DecidableEq, Repr

structure ContextGuard where
  previous : Option Handle
  deriving DecidableEq, Repr

/-- The callback that a thread runs, with its own guard. -/
structure Callback where
  callbackInstance : Nat
  context : ContextGuard
  deriving DecidableEq, Repr

structure Thread where
  /-- `HANDLE`. -/
  handle : Option Handle
  callback : Option Callback
  deriving DecidableEq, Repr

/-- What came about in a callback, or outside of any. -/
structure Within (α : Type) where
  value : α
  callback : Option Nat
  deriving DecidableEq, Repr

/-- The queue of a pool for one priority. -/
abbrev Queue := Nat × Priority

structure System where
  thread : Nat → Thread
  /-- The handles that code has had to use. -/
  handles : List (Within Handle)
  /-- The guards of calls of `enter`; a dropped one is gone. -/
  guards : List (Option (Within ContextGuard))
  /-- The handles in the schedule closures of the tasks. -/
  tasks : List Handle
  /-- The handles of the queued entries. -/
  queue : Queue → List Handle
  pools : Nat
  /-- Callbacks so far. -/
  callbacks : Nat

/-- On a thread, unless it does not matter where; handles, guards and tasks are known by
their places. -/
inductive Action where
  | build (thread : Nat)
  | current (thread : Nat)
  /-- A clone of the handle, with this priority set. -/
  | setPriority (handle : Nat) (priority : Priority)
  | spawn (handle : Nat)
  /-- The task's schedule closure, on a wake-up. -/
  | schedule (task : Nat)
  /-- A callback of a work object begins, up to the task's code. -/
  | start (thread : Nat) (queue : Queue)
  /-- The task's code has come back; the callback's guard is dropped, and it returns. -/
  | finish (thread : Nat)
  | enter (thread handle : Nat)
  | dropGuard (thread guard : Nat)
  | mayBlock (thread handle : Nat)
  /-- On the handle that is current, if there is one: `may_block`, `IoHandle::cancel`
  before it waits, `IoEvent::drop`. -/
  | mayBlockCurrent (thread : Nat)
  deriving DecidableEq, Repr

/-- The instance that is passed to `CallbackMayRunLong`; without one, that is not called. -/
def Handle.mayBlock (h : Handle) : Option Nat := h.callbackInstance

namespace System

def init : System where
  thread := fun _ => ⟨none, none⟩
  handles := []
  guards := []
  tasks := []
  queue := fun _ => []
  pools := 0
  callbacks := 0

/-- The instance of the callback that the thread runs. -/
def running (s : System) (t : Nat) : Option Nat := (s.thread t).callback.map (·.callbackInstance)

def setThread (s : System) (t : Nat) (thread : Thread) : System :=
  {s with thread := Function.update s.thread t thread}

@[simp] theorem setThread_self (s : System) (t : Nat) (thread : Thread) :
    (s.setThread t thread).thread t = thread := Function.update_self ..

def keep (s : System) (h : Handle) (callback : Option Nat) : System :=
  {s with handles := s.handles ++ [⟨h, callback⟩]}

/-- `push_task`, on this handle. -/
def pushTask (s : System) (h : Handle) : System :=
  {s with
    queue := Function.update s.queue (h.inner, h.priority)
      (s.queue (h.inner, h.priority) ++ [h])}

/-- `Handle::enter`, up to the guard. -/
def enter (s : System) (t : Nat) (h : Handle) : System :=
  s.setThread t {s.thread t with handle := some h}

/-- The drop of a guard. -/
def restore (s : System) (t : Nat) (guard : ContextGuard) : System :=
  s.setThread t {s.thread t with handle := guard.previous}

/-- `callback` up to the run of the task, with what it has popped. -/
def start (s : System) (t : Nat) (handle : Handle) : System :=
  {s with
    thread := Function.update s.thread t
      ⟨some {handle with callbackInstance := some s.callbacks},
        some ⟨s.callbacks, ⟨(s.thread t).handle⟩⟩⟩
    callbacks := s.callbacks + 1}

def step (s : System) : Action → Option System
  | .build t =>
    some {s.keep ⟨s.pools, .normal, none⟩ (s.running t) with pools := s.pools + 1}
  | .current t =>
    match (s.thread t).handle with
    | some h => some (s.keep h (s.running t))
    | none => none
  | .setPriority i priority =>
    match s.handles[i]? with
    | some ⟨h, callback⟩ => some (s.keep {h with priority} callback)
    | none => none
  | .spawn i =>
    match s.handles[i]? with
    | some ⟨h, _⟩ => some ({s with tasks := s.tasks ++ [h]}.pushTask h)
    | none => none
  | .schedule task => (s.tasks[task]?).map s.pushTask
  | .start t q =>
    match (s.thread t).callback, s.queue q with
    | none, h :: rest => some ({s with queue := Function.update s.queue q rest}.start t h)
    | _, _ => none
  | .finish t =>
    match (s.thread t).callback with
    | some callback => some (s.setThread t ⟨callback.context.previous, none⟩)
    | none => none
  | .enter t i =>
    match s.handles[i]? with
    | some ⟨h, _⟩ =>
      some {s.enter t h with guards := s.guards ++ [some ⟨⟨(s.thread t).handle⟩, s.running t⟩]}
    | none => none
  | .dropGuard t g =>
    match s.guards[g]? with
    | some (some ⟨guard, _⟩) => some {s.restore t guard with guards := s.guards.set g none}
    | _ => none
  | .mayBlock _ i => if i < s.handles.length then some s else none
  | .mayBlockCurrent _ => some s

def machine : Machine System Action := ⟨init, step⟩

/-- The thread and the instance of a call of `CallbackMayRunLong`. -/
def callbackMayRunLong (s : System) : Action → Option (Nat × Nat)
  | .mayBlock t i => (s.handles[i]?).bind fun kept => kept.value.mayBlock.map fun n => (t, n)
  | .mayBlockCurrent t => (s.thread t).handle.bind fun h => h.mayBlock.map fun n => (t, n)
  | .build _ | .current _ | .setPriority _ _ | .spawn _ | .schedule _ | .start _ _ | .finish _
  | .enter _ _ | .dropGuard _ _ => none

/-! ### What a step can do -/

inductive Moved (s : System) : Action → System → Prop
  | build (t : Nat) : Moved s (.build t)
      {s.keep ⟨s.pools, .normal, none⟩ (s.running t) with pools := s.pools + 1}
  | current (t : Nat) (h : Handle) (ht : (s.thread t).handle = some h) :
      Moved s (.current t) (s.keep h (s.running t))
  | setPriority (i : Nat) (priority : Priority) (kept : Within Handle)
      (hi : s.handles[i]? = some kept) :
      Moved s (.setPriority i priority) (s.keep {kept.value with priority} kept.callback)
  | spawn (i : Nat) (kept : Within Handle) (hi : s.handles[i]? = some kept) :
      Moved s (.spawn i) ({s with tasks := s.tasks ++ [kept.value]}.pushTask kept.value)
  | schedule (task : Nat) (h : Handle) (ht : s.tasks[task]? = some h) :
      Moved s (.schedule task) (s.pushTask h)
  | start (t : Nat) (q : Queue) (h : Handle) (rest : List Handle)
      (ht : (s.thread t).callback = none) (hq : s.queue q = h :: rest) :
      Moved s (.start t q) ({s with queue := Function.update s.queue q rest}.start t h)
  | finish (t : Nat) (callback : Callback) (ht : (s.thread t).callback = some callback) :
      Moved s (.finish t) (s.setThread t ⟨callback.context.previous, none⟩)
  | enter (t i : Nat) (kept : Within Handle) (hi : s.handles[i]? = some kept) :
      Moved s (.enter t i)
        {s.enter t kept.value with
          guards := s.guards ++ [some ⟨⟨(s.thread t).handle⟩, s.running t⟩]}
  | dropGuard (t g : Nat) (made : Within ContextGuard) (hg : s.guards[g]? = some (some made)) :
      Moved s (.dropGuard t g) {s.restore t made.value with guards := s.guards.set g none}
  | mayBlock (t i : Nat) : Moved s (.mayBlock t i) s
  | mayBlockCurrent (t : Nat) : Moved s (.mayBlockCurrent t) s

theorem step_cases {s s' : System} {a : Action} (hs : step s a = some s') : Moved s a s' := by
  cases a with
  | build t =>
    cases hs
    exact .build t
  | current t =>
    simp only [step] at hs
    split at hs <;> rename_i ht <;> cases hs
    exact .current t _ ht
  | setPriority i priority =>
    simp only [step] at hs
    split at hs <;> rename_i hi <;> cases hs
    exact .setPriority i priority _ hi
  | spawn i =>
    simp only [step] at hs
    split at hs <;> rename_i hi <;> cases hs
    exact .spawn i _ hi
  | schedule task =>
    obtain ⟨h, ht, rfl⟩ := Option.map_eq_some_iff.mp hs
    exact .schedule task h ht
  | start t q =>
    simp only [step] at hs
    split at hs <;> cases hs
    rename_i ht hq
    exact .start t q _ _ ht hq
  | finish t =>
    simp only [step] at hs
    split at hs <;> rename_i ht <;> cases hs
    exact .finish t _ ht
  | enter t i =>
    simp only [step] at hs
    split at hs <;> rename_i hi <;> cases hs
    exact .enter t i _ hi
  | dropGuard t g =>
    simp only [step] at hs
    split at hs <;> cases hs
    rename_i hg
    exact .dropGuard t g _ hg
  | mayBlock t i =>
    simp only [step, Option.ite_none_right_eq_some, Option.some.injEq] at hs
    obtain ⟨_, rfl⟩ := hs
    exact .mayBlock t i
  | mayBlockCurrent t =>
    cases hs
    exact .mayBlockCurrent t

end System

end Wae.Context
