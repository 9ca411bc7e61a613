import Wae.Threadpool.Pool

/-! How a thread pool is built, and the system calls made for it.

`Builder::build` goes from one system call to the next. From the creation of the
`HandleInner` on, an early return drops that too, and its destructor closes what it
holds. A pool that is built then lives as `Pool` has it: the drop that takes the last
reference runs the same destructor, which gets through unless it runs in a callback that it
waits for, one of the work objects' or one of an object made in the pool's environment. -/
namespace Wae.Threadpool
open Transition

structure Builder where
  maxThreads : UInt32
  minThreads : UInt32
  /-- `false` without the feature `net`. -/
  net : Bool
  deriving DecidableEq, Repr

/-- A system call about the pool or its cleanup group that has returned; `ok`, where it can
fail, says that it did not. -/
inductive Call where
  | createThreadpool (ok : Bool)
  | setThreadpoolThreadMaximum (maximum : UInt32)
  | setThreadpoolThreadMinimum (minimum : UInt32) (ok : Bool)
  | createThreadpoolCleanupGroup (ok : Bool)
  | createThreadpoolWork (priority : Priority) (ok : Bool)
  | wsaStartup (ok : Bool)
  /-- `CreateThreadpoolIo` or `CreateThreadpoolWait`, in the pool's environment. -/
  | createMember
  | closeThreadpoolCleanupGroupMembers
  | closeThreadpoolCleanupGroup
  | closeThreadpool
  deriving DecidableEq, Repr

/-- It is given the cleanup group, by itself or in the callback environment. -/
def Call.usesGroup : Call → Bool
  | .createThreadpoolWork _ _ | .createMember | .closeThreadpoolCleanupGroupMembers
  | .closeThreadpoolCleanupGroup => true
  | .createThreadpool _ | .setThreadpoolThreadMaximum _ | .setThreadpoolThreadMinimum _ _
  | .createThreadpoolCleanupGroup _ | .wsaStartup _ | .closeThreadpool => false

/-- The calls of the destructor. -/
def HandleInner.drop : List Call :=
  [.closeThreadpoolCleanupGroupMembers, .closeThreadpoolCleanupGroup, .closeThreadpool]

namespace Builder

/-- The calls of `build` that can fail. -/
inductive Point where
  | createThreadpool
  | setThreadpoolThreadMinimum
  | createThreadpoolCleanupGroup
  | createThreadpoolWork (priority : Priority)
  | wsaStartup
  deriving DecidableEq, Repr

/-- The `HandleInner` has been made. -/
def Point.inner : Point → Bool
  | .createThreadpoolWork _ | .wsaStartup => true
  | .createThreadpool | .setThreadpoolThreadMinimum | .createThreadpoolCleanupGroup => false

/-- How a call has failed. -/
structure Failure where
  /-- The error it has left, or returned. -/
  code : Int32
  /-- The last error when the calls that close what there is have returned. -/
  closed : Int32
  deriving DecidableEq, Repr

inductive Stage where
  /-- `build` stands at this call. -/
  | runs (point : Point)
  /-- `build` has returned this error. -/
  | failed (code : Int32)
  /-- `build` has returned the `Threadpool`. -/
  | built (pool : Pool)

/-- `create_work`, from the call's return; a null pointer is its failure. -/
def createWork (priority : Priority) (ok : Bool) : List Call :=
  if ok then [.createThreadpoolWork priority true]
  else
    [.createThreadpoolWork priority false, .closeThreadpoolCleanupGroupMembers,
      .closeThreadpoolCleanupGroup, .closeThreadpool]

/-- Where `build` goes when the work object is there. -/
def afterWork (b : Builder) : Priority → Stage
  | .high => .runs (.createThreadpoolWork .normal)
  | .normal => .runs (.createThreadpoolWork .low)
  | .low => if b.net then .runs .wsaStartup else .built .init

/-- What `build` does when the call it stands at returns. It reads the last error after it
has closed what there is; `WSAStartup` returns its own. -/
def build (b : Builder) : Point → Option Failure → List Call × Stage
  | .createThreadpool, none =>
    ([.createThreadpool true, .setThreadpoolThreadMaximum b.maxThreads],
      .runs .setThreadpoolThreadMinimum)
  | .createThreadpool, some failure => ([.createThreadpool false], .failed failure.code)
  | .setThreadpoolThreadMinimum, none =>
    ([.setThreadpoolThreadMinimum b.minThreads true], .runs .createThreadpoolCleanupGroup)
  | .setThreadpoolThreadMinimum, some failure =>
    ([.setThreadpoolThreadMinimum b.minThreads false, .closeThreadpool], .failed failure.closed)
  | .createThreadpoolCleanupGroup, none =>
    ([.createThreadpoolCleanupGroup true], .runs (.createThreadpoolWork .high))
  | .createThreadpoolCleanupGroup, some failure =>
    ([.createThreadpoolCleanupGroup false, .closeThreadpool], .failed failure.closed)
  | .createThreadpoolWork priority, none => (createWork priority true, b.afterWork priority)
  | .createThreadpoolWork priority, some failure =>
    -- the `?` drops `inner`, the only reference
    (createWork priority false ++ HandleInner.drop, .failed failure.closed)
  | .wsaStartup, none => ([.wsaStartup true], .built .init)
  | .wsaStartup, some failure =>
    ([.wsaStartup false, .closeThreadpool] ++ HandleInner.drop, .failed failure.code)

end Builder

/-- A `build`, and then the life of the pool it returned. -/
structure Build where
  stage : Builder.Stage
  /-- The calls made so far, the earliest first. -/
  calls : List Call

namespace Build

inductive Action where
  /-- The call that `build` stands at returns. -/
  | reply (error : Option Builder.Failure)
  /-- `member`: in a callback of an object made in the pool's environment. -/
  | pool (action : Threadpool.Action) (member : Bool)
  /-- Code that has a handle makes a thread-pool object in its environment. -/
  | createMember (thread : Option Nat)
  deriving DecidableEq

def init : Build where
  stage := .runs .createThreadpool
  calls := []

/-- The drop that takes the reference count from one runs the destructor. In a callback of
one of the cleanup group's members none of its calls returns: the first waits for that
callback. -/
def destroys (pool : Pool) (action : Threadpool.Action) (member : Bool) (pool' : Pool) :
    List Call :=
  if pool.strong = 1 ∧ pool'.strong = 0 ∧ action.thread = none ∧ member = false then
    HandleInner.drop
  else []

def step (b : Builder) (s : Build) : Action → Option Build
  | .reply error =>
    match s.stage with
    | .runs point => some ⟨(b.build point error).2, s.calls ++ (b.build point error).1⟩
    | .failed _ | .built _ => none
  | .pool action member =>
    match s.stage with
    | .built pool =>
      -- the callbacks of the work objects are `action`'s own
      if member = true ∧ (action.thread ≠ none ∨ .createMember ∉ s.calls) then none
      else
        (pool.step action).map fun pool' =>
          ⟨.built pool', s.calls ++ destroys pool action member pool'⟩
    | .runs _ | .failed _ => none
  | .createMember thread =>
    match s.stage with
    | .built pool =>
      if pool.reaches thread then some {s with calls := s.calls ++ [.createMember]} else none
    | .runs _ | .failed _ => none

def machine (b : Builder) : Machine Build Action := ⟨init, step b⟩

/-! ### What a step can do -/

inductive Moved (b : Builder) (s : Build) : Action → Build → Prop
  | reply (point : Builder.Point) (error : Option Builder.Failure) (hp : s.stage = .runs point) :
      Moved b s (.reply error) ⟨(b.build point error).2, s.calls ++ (b.build point error).1⟩
  | pool (pool pool' : Pool) (action : Threadpool.Action) (member : Bool)
      (hp : s.stage = .built pool)
      (hm : member = true → action.thread = none ∧ .createMember ∈ s.calls)
      (hs : pool.step action = some pool') :
      Moved b s (.pool action member) ⟨.built pool', s.calls ++ destroys pool action member pool'⟩
  | createMember (pool : Pool) (thread : Option Nat) (hp : s.stage = .built pool)
      (hr : pool.reaches thread = true) :
      Moved b s (.createMember thread) {s with calls := s.calls ++ [.createMember]}

theorem step_cases {b : Builder} {s s' : Build} {a : Action} (hs : step b s a = some s') :
    Moved b s a s' := by
  cases a with
  | reply error =>
    simp only [step] at hs
    split at hs <;> rename_i hp <;> cases hs
    exact .reply _ error hp
  | pool action member =>
    simp only [step] at hs
    split at hs <;> rename_i hp
    · obtain ⟨hm, hs⟩ := Option.ite_none_left_eq_some.mp hs
      obtain ⟨pool', hpool, rfl⟩ := Option.map_eq_some_iff.mp hs
      refine .pool _ pool' action member hp (fun hmember => ?_) hpool
      simpa [hmember] using hm
    all_goals cases hs
  | createMember thread =>
    simp only [step] at hs
    split at hs <;> rename_i hp
    · split at hs <;> rename_i hr <;> cases hs
      exact .createMember _ thread hp hr
    all_goals cases hs

end Build

end Wae.Threadpool
