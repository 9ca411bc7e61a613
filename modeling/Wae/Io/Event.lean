import Wae.Io.Result
import Wae.Io.State
import Wae.Transition.Machine
import Mathlib.Logic.Function.Basic

/-! An `IoEvent`: its owner, the event object, the wait on it and the wait's callbacks.

The event object is signaled by completions and reset by `ResetEvent`, and may be
cleared when an operation begins. `SetThreadpoolWait` arms the wait, once: an armed
wait on a signaled event is disarmed and queues one callback. The callbacks a wait
queues are numbered from 1, and any of them may be part way through.

One operation is in flight at a time, which the state word sees to, and its status
is left in the `OVERLAPPED`, where `GetOverlappedResult` finds it. -/
namespace Wae.Io
open Transition

namespace IoEvent

/-- Where a wait callback stands: the access it makes next. -/
inductive CallbackPc where
  | callbackPending
  | set
  | setReady
  | wake
  deriving DecidableEq, Repr

/-- How far one callback of the wait has come. -/
inductive Callback where
  | absent
  | queued (result : UInt32)
  | running (result : UInt32) (pc : CallbackPc)
  | done
  deriving DecidableEq, Repr

/-- What the closure given to `poll` came to. -/
inductive Answer where
  /-- Complete at once; the event may be signaled for it. -/
  | accepted (signals : Bool)
  | failed (err : IoError)
  | pending
  deriving DecidableEq, Repr

/-- A result on its way to the caller of `poll`; nothing, when it was read from a
cell nobody has written. -/
abbrev Reading := Option (Except IoError Unit)

/-- Where the owner stands in `poll`: the access it makes next. -/
inductive Owner where
  | outside
  | finish (handle : Bool)
  | resetEvent (handle : Bool)
  | setThreadpoolWait (handle : Bool)
  | get (handle : Bool)
  | getOverlappedResult
  | schedule
  /-- The closure. -/
  | issue
  | setIdle (reading : Reading)
  | registerPending
  | setPending
  | register
  deriving DecidableEq

/-- How far the destructor has come. -/
inductive Life where
  | alive
  | isBusy
  | closeThreadpoolWait
  /-- `CloseHandle`, and the end of the memory. -/
  | closeHandle
  | released
  deriving DecidableEq, Repr

end IoEvent

structure IoEvent where
  state : IoState
  result : Option IoResult
  waker : Option Nat
  owner : IoEvent.Owner
  life : IoEvent.Life
  signaled : Bool
  armed : Bool
  /-- Callbacks the wait has queued. -/
  fired : Nat
  callbacks : Nat → IoEvent.Callback
  inFlight : Bool
  /-- The status of the latest operation to complete. -/
  status : UInt32
  /-- The waker given to the latest poll, whether it has been woken since that poll
  began, and whether that poll has returned `Pending`. -/
  polled : Nat
  woken : Bool
  waiting : Bool
  /-- What polls returned as `Ready`, newest first. -/
  returned : List IoEvent.Reading

namespace IoEvent

inductive Action where
  /-- `handle`: the caller gave a handle to ask for the outcome. -/
  | poll (waker : Nat) (handle : Bool)
  /-- The owner's next step, where the system is not asked anything. -/
  | owner
  | resetEvent (err : Option Int32)
  /-- The closure runs; `clears`, where the system resets the event as the operation
  begins. -/
  | issue (clears : Bool) (answer : Answer)
  | complete (status : UInt32)
  | fire
  | callback (k : Nat)
  | drop
  /-- The destructor's next call. -/
  | next
  | release
  deriving DecidableEq

/-- `IoEvent::new` arms the wait on the event, which is not signaled. -/
def init : IoEvent where
  state := .new
  result := none
  waker := none
  owner := .outside
  life := .alive
  signaled := false
  armed := true
  fired := 0
  callbacks := fun _ => .absent
  inFlight := false
  status := 0
  polled := 0
  woken := false
  waiting := false
  returned := []

def setCallback (s : IoEvent) (k : Nat) (c : Callback) : IoEvent :=
  {s with callbacks := Function.update s.callbacks k c}

/-! ### `poll` -/

def pollFinish (s : IoEvent) (handle : Bool) : IoEvent :=
  {s with owner := if s.state.finish then .resetEvent handle else .schedule}

def pollResetEvent (s : IoEvent) (handle : Bool) : Option Int32 → IoEvent
  | some err => {s with owner := .setIdle (some (.error (.rawOsError err)))}
  | none => {s with signaled := false, owner := .setThreadpoolWait handle}

def pollSetThreadpoolWait (s : IoEvent) (handle : Bool) : IoEvent :=
  {s with armed := true, owner := .get handle}

def pollGet (s : IoEvent) (handle : Bool) : IoEvent :=
  match s.result.map IoResult.get, handle with
  | none, _ => {s with owner := .setIdle none}
  | some (.error err), _ => {s with owner := .setIdle (some (.error err))}
  | some (.ok _), true => {s with owner := .getOverlappedResult}
  | some (.ok _), false => {s with owner := .setIdle (some (.ok ()))}

/-- What `GetOverlappedResult` finds in the `OVERLAPPED`. -/
def overlappedResult (s : IoEvent) : Except IoError Unit :=
  if s.status = 0 then .ok () else .error (.rawOsError s.status.toInt32)

/-- `GetOverlappedResult` waits for the operation. -/
def pollGetOverlappedResult (s : IoEvent) : Option IoEvent :=
  if s.inFlight then none else some {s with owner := .setIdle (some s.overlappedResult)}

def pollSchedule (s : IoEvent) : IoEvent :=
  match s.state.schedule with
  | some word => {s with state := word, owner := .issue}
  | none => {s with owner := .register}

def pollIssue (s : IoEvent) (clears : Bool) : Answer → IoEvent
  | .accepted signals =>
    {s with
      signaled := signals || s.signaled && !clears
      status := 0
      owner := .setIdle (some (.ok ()))}
  | .failed err =>
    {s with signaled := s.signaled && !clears, owner := .setIdle (some (.error err))}
  | .pending =>
    {s with signaled := s.signaled && !clears, inFlight := true, owner := .registerPending}

def pollSetIdle (s : IoEvent) (reading : Reading) : IoEvent :=
  {s with
    state := s.state.setIdle
    owner := .outside
    returned := reading :: s.returned}

def pollRegisterPending (s : IoEvent) : IoEvent :=
  {s with waker := some s.polled, owner := .setPending}

def pollSetPending (s : IoEvent) : IoEvent :=
  {s with state := s.state.setPending, owner := .outside, waiting := true}

def pollRegister (s : IoEvent) : IoEvent :=
  {s with waker := some s.polled, owner := .outside, waiting := true}

def owned (s : IoEvent) : Option IoEvent :=
  match s.owner with
  | .finish handle => some (s.pollFinish handle)
  | .setThreadpoolWait handle => some (s.pollSetThreadpoolWait handle)
  | .get handle => some (s.pollGet handle)
  | .getOverlappedResult => s.pollGetOverlappedResult
  | .schedule => some s.pollSchedule
  | .setIdle reading => some (s.pollSetIdle reading)
  | .registerPending => some s.pollRegisterPending
  | .setPending => some s.pollSetPending
  | .register => some s.pollRegister
  | .outside | .resetEvent _ | .issue => none

/-! ### The kernel, `callback` and the destructor -/

def complete (s : IoEvent) (status : UInt32) : Option IoEvent :=
  if s.inFlight then some {s with inFlight := false, status, signaled := true} else none

/-- The wait is over: `WAIT_OBJECT_0`, since it was set without a timeout. -/
def fire (s : IoEvent) : Option IoEvent :=
  if s.armed ∧ s.signaled then
    some {s.setCallback (s.fired + 1) (.queued 0) with armed := false, fired := s.fired + 1}
  else none

/-- The owner's waker taken and woken, if one is registered. -/
def wake (s : IoEvent) : IoEvent :=
  {s with waker := none, woken := s.woken || s.waker == some s.polled}

/-- One step of the `k`-th callback. A spinning callback takes none. -/
def callback (s : IoEvent) (k : Nat) : Option IoEvent :=
  match s.callbacks k with
  | .queued result =>
    if s.state.spins then none else some (s.setCallback k (.running result .callbackPending))
  | .running result .callbackPending =>
    match s.state.callbackPending with
    | some word => some {s.setCallback k (.running result .set) with state := word}
    | none => some (s.setCallback k .done)
  | .running result .set =>
    some {s.setCallback k (.running result .setReady) with
      result := some (IoResult.set result 0)}
  | .running result .setReady =>
    some {s.setCallback k (.running result .wake) with state := s.state.setReady}
  | .running _ .wake => some (s.setCallback k .done).wake
  | .absent | .done => none

/-- The spin loop while the word is busy; then the wait is closed, which lets no more
callbacks be queued and waits for none. -/
def next (s : IoEvent) : Option IoEvent :=
  match s.life with
  | .isBusy => if s.state.isBusy then none else some {s with life := .closeThreadpoolWait}
  | .closeThreadpoolWait => some {s with armed := false, life := .closeHandle}
  | _ => none

def step (s : IoEvent) : Action → Option IoEvent
  | .poll waker handle =>
    if s.owner = .outside ∧ s.life = .alive then
      some {s with owner := .finish handle, polled := waker, woken := false, waiting := false}
    else none
  | .owner => s.owned
  | .resetEvent err =>
    match s.owner with
    | .resetEvent handle => some (s.pollResetEvent handle err)
    | _ => none
  | .issue clears answer => if s.owner = .issue then some (s.pollIssue clears answer) else none
  | .complete status => s.complete status
  | .fire => s.fire
  | .callback k => s.callback k
  | .drop =>
    if s.life = .alive ∧ s.owner = .outside then some {s with life := .isBusy} else none
  | .next => s.next
  | .release => if s.life = .closeHandle then some {s with life := .released} else none

def machine : Machine IoEvent Action := ⟨init, step⟩

/-! ### What a step can do -/

/-- A step of the `k`-th callback. -/
inductive Called (s : IoEvent) (k : Nat) : IoEvent → Prop
  | begins (result : UInt32) (hc : s.callbacks k = .queued result)
      (hspin : s.state ≠ .scheduling) :
      Called s k (s.setCallback k (.running result .callbackPending))
  | taken (result : UInt32) (hc : s.callbacks k = .running result .callbackPending)
      (hw : s.state = .pending) :
      Called s k {s.setCallback k (.running result .set) with state := .callback}
  | missed (result : UInt32) (hc : s.callbacks k = .running result .callbackPending)
      (hw : s.state ≠ .pending) : Called s k (s.setCallback k .done)
  | set (result : UInt32) (hc : s.callbacks k = .running result .set) :
      Called s k {s.setCallback k (.running result .setReady) with
        result := some (IoResult.set result 0)}
  | setReady (result : UInt32) (hc : s.callbacks k = .running result .setReady) :
      Called s k {s.setCallback k (.running result .wake) with state := .ready}
  | wake (result : UInt32) (hc : s.callbacks k = .running result .wake) :
      Called s k (s.setCallback k .done).wake

theorem callback_cases {s s' : IoEvent} {k : Nat} (hs : s.callback k = some s') :
    Called s k s' := by
  unfold callback at hs
  split at hs <;> rename_i hc
  · split at hs
    · cases hs
    · rename_i hspin
      cases hs
      exact .begins _ hc fun hw => hspin (s.state.spins_iff.mpr hw)
  · split at hs <;> rename_i hx <;> cases hs
    · obtain ⟨hw, rfl⟩ := IoState.compareExchange_eq_some.mp hx
      exact .taken _ hc hw
    · exact .missed _ hc (IoState.compareExchange_eq_none.mp hx)
  · cases hs
    exact .set _ hc
  · cases hs
    exact .setReady _ hc
  · cases hs
    exact .wake _ hc
  all_goals cases hs

/-- A step of the machine. -/
inductive Moved (s : IoEvent) : Action → IoEvent → Prop
  | poll (waker : Nat) (handle : Bool) (ho : s.owner = .outside) (hl : s.life = .alive) :
      Moved s (.poll waker handle)
        {s with owner := .finish handle, polled := waker, woken := false, waiting := false}
  | finish (handle : Bool) (ho : s.owner = .finish handle) :
      Moved s .owner (s.pollFinish handle)
  | resetEvent (handle : Bool) (err : Option Int32) (ho : s.owner = .resetEvent handle) :
      Moved s (.resetEvent err) (s.pollResetEvent handle err)
  | setThreadpoolWait (handle : Bool) (ho : s.owner = .setThreadpoolWait handle) :
      Moved s .owner (s.pollSetThreadpoolWait handle)
  | get (handle : Bool) (ho : s.owner = .get handle) : Moved s .owner (s.pollGet handle)
  | getOverlappedResult (ho : s.owner = .getOverlappedResult) (hc : s.inFlight = false) :
      Moved s .owner {s with owner := .setIdle (some s.overlappedResult)}
  | schedule (ho : s.owner = .schedule) (hidle : s.state = .idle) :
      Moved s .owner {s with state := .scheduling, owner := .issue}
  | busy (ho : s.owner = .schedule) (hidle : s.state ≠ .idle) :
      Moved s .owner {s with owner := .register}
  | issue (clears : Bool) (answer : Answer) (ho : s.owner = .issue) :
      Moved s (.issue clears answer) (s.pollIssue clears answer)
  | setIdle (reading : Reading) (ho : s.owner = .setIdle reading) :
      Moved s .owner (s.pollSetIdle reading)
  | registerPending (ho : s.owner = .registerPending) : Moved s .owner s.pollRegisterPending
  | setPending (ho : s.owner = .setPending) : Moved s .owner s.pollSetPending
  | register (ho : s.owner = .register) : Moved s .owner s.pollRegister
  | complete (status : UInt32) (hc : s.inFlight = true) :
      Moved s (.complete status) {s with inFlight := false, status, signaled := true}
  | fire (ha : s.armed = true) (hs : s.signaled = true) :
      Moved s .fire
        {s.setCallback (s.fired + 1) (.queued 0) with armed := false, fired := s.fired + 1}
  | callback (k : Nat) (hs : s.callback k = some s') : Moved s (.callback k) s'
  | drop (hl : s.life = .alive) (ho : s.owner = .outside) :
      Moved s .drop {s with life := .isBusy}
  | unbusy (hl : s.life = .isBusy) (hb : s.state = .idle ∨ s.state = .ready) :
      Moved s .next {s with life := .closeThreadpoolWait}
  | closeThreadpoolWait (hl : s.life = .closeThreadpoolWait) :
      Moved s .next {s with armed := false, life := .closeHandle}
  | release (hl : s.life = .closeHandle) : Moved s .release {s with life := .released}

theorem owned_cases {s s' : IoEvent} (hs : s.owned = some s') : Moved s .owner s' := by
  unfold owned at hs
  split at hs <;> rename_i ho
  · cases hs
    exact .finish _ ho
  · cases hs
    exact .setThreadpoolWait _ ho
  · cases hs
    exact .get _ ho
  · unfold pollGetOverlappedResult at hs
    split at hs <;> rename_i hc <;> cases hs
    exact .getOverlappedResult ho (Bool.eq_false_iff.mpr hc)
  · cases hs
    unfold pollSchedule
    split <;> rename_i hx
    · obtain ⟨hidle, rfl⟩ := IoState.compareExchange_eq_some.mp hx
      exact .schedule ho hidle
    · exact .busy ho (IoState.compareExchange_eq_none.mp hx)
  · cases hs
    exact .setIdle _ ho
  · cases hs
    exact .registerPending ho
  · cases hs
    exact .setPending ho
  · cases hs
    exact .register ho
  all_goals cases hs

theorem step_cases {s s' : IoEvent} {a : Action} (hs : step s a = some s') : Moved s a s' := by
  cases a with
  | poll waker handle =>
    simp only [step, Option.ite_none_right_eq_some, Option.some.injEq] at hs
    obtain ⟨⟨ho, hl⟩, rfl⟩ := hs
    exact .poll waker handle ho hl
  | owner => exact owned_cases hs
  | resetEvent err =>
    simp only [step] at hs
    split at hs <;> cases hs
    rename_i ho
    exact .resetEvent _ err ho
  | issue clears answer =>
    simp only [step, Option.ite_none_right_eq_some, Option.some.injEq] at hs
    obtain ⟨ho, rfl⟩ := hs
    exact .issue clears answer ho
  | complete status =>
    simp only [step, complete, Option.ite_none_right_eq_some, Option.some.injEq] at hs
    obtain ⟨hc, rfl⟩ := hs
    exact .complete status hc
  | fire =>
    simp only [step, fire, Option.ite_none_right_eq_some, Option.some.injEq] at hs
    obtain ⟨⟨ha, hsig⟩, rfl⟩ := hs
    exact .fire ha hsig
  | callback k => exact .callback k hs
  | drop =>
    simp only [step, Option.ite_none_right_eq_some, Option.some.injEq] at hs
    obtain ⟨⟨hl, ho⟩, rfl⟩ := hs
    exact .drop hl ho
  | next =>
    simp only [step, next] at hs
    split at hs <;> rename_i hl
    · split at hs <;> rename_i hb <;> cases hs
      exact .unbusy hl (s.state.not_busy_iff.mp (Bool.eq_false_iff.mpr hb))
    · cases hs
      exact .closeThreadpoolWait hl
    · cases hs
  | release =>
    simp only [step, Option.ite_none_right_eq_some, Option.some.injEq] at hs
    obtain ⟨hl, rfl⟩ := hs
    exact .release hl

end IoEvent

end Wae.Io
