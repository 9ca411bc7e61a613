import Wae.Io.State
import Wae.Net.Tcp.Schedule
import Wae.Transition.Machine
import Mathlib.Logic.Function.Basic

/-! One half of an `IoHandle`, its owner, the kernel and the completion callbacks.

The owner polls and cancels; the kernel accepts or refuses each operation and
completes the ones it accepted; a completion's packet waits in the port until
some pool thread runs `callback` on it, and any number of such callbacks may be
part way through. Every operation on the state word is one step, and so is every
other access to the half's cells, so a list of actions is one interleaving of
all of them.

Operations are numbered by the `IDLE → SCHEDULING` steps, from 1, and each number
has one `Completion`: at most one packet per operation is built in. What no code
of the half stores but statements about it need is in the last group of fields:
who scheduled each operation, what it came to, what each poll returned. -/
namespace Wae.Io
open Transition Net.Tcp

/-- Where a completion callback stands: the access it makes next. -/
inductive CallbackPc where
  | callbackPending
  | callbackCancelledNowait
  | callbackCancelledWait
  | set
  | setReady
  | wake
  /-- The store of the branch that took `CANCELLED_WAIT`. -/
  | setReadyOnly
  deriving DecidableEq, Repr

/-- How far the completion of one operation has come. -/
inductive Completion where
  /-- No packet, and none owed. -/
  | absent
  | inFlight
  /-- Posted; its callback has not got past the loop of `callback_pending`. -/
  | queued (packet : Packet)
  | running (packet : Packet) (pc : CallbackPc)
  | done
  deriving DecidableEq, Repr

/-- A result on its way to the caller of `poll`, and the operation whose outcome it
is; nothing, when it was read from a cell nobody has written. -/
abbrev Reading := Option (Nat × Except IoError Nat)

/-- Where the owner stands in `poll` or `cancel`: the access it makes next. -/
inductive Owner where
  | outside
  | finish
  | get
  | schedule
  /-- `StartThreadpoolIo` and the half's `schedule`. -/
  | issue
  | registerReady (reading : Reading)
  | setIdle (reading : Reading)
  | setPending
  | register
  | isCancellable (wait : Bool)
  | cancel (wait : Bool)
  /-- The half's own `cancel`: `CancelIoEx`. -/
  | halfCancel (wait : Bool)
  | isBusy (ret : Option Int32)
  deriving DecidableEq

/-- Who scheduled an operation: which future, counted by the drops before it, with
which buffer. -/
structure Operation where
  future : Nat
  buffer : Nat
  deriving DecidableEq, Repr

structure Half where
  state : IoState
  /-- The result cell, with the operation whose packet was written to it. -/
  result : Option (Nat × IoResult)
  waker : Option Nat
  owner : Owner
  completion : Nat → Completion
  /-- `StartThreadpoolIo` calls. -/
  announced : Nat
  /-- The buffer the owner's future points its polls at. -/
  buffer : Nat
  /-- Waiting cancels that have returned: only destructors make them. -/
  future : Nat
  /-- The error the latest `cancel` returned, if it did not return `Ok`. -/
  cancelled : Option Int32
  /-- The operation of the latest `IDLE → SCHEDULING` step. -/
  latest : Nat
  operation : Nat → Operation
  outcome : Nat → Option (Except IoError Nat)
  /-- The waker given to the latest poll, whether it has been woken since that poll
  began, and whether that poll has returned `Pending`. -/
  polled : Nat
  woken : Bool
  waiting : Bool
  /-- What polls returned as `Ready`, newest first. -/
  returned : List Reading

inductive Action where
  | poll (waker : Nat)
  /-- The owner's future moves on to another buffer. -/
  | offer (buffer : Nat)
  | cancel (wait : Bool)
  /-- The owner's next step, where the kernel is not asked anything. -/
  | owner
  | issue (answer : Answer)
  | halfCancel (err : Option Int32)
  | complete (op : Nat) (packet : Packet)
  | callback (op : Nat)
  deriving DecidableEq

namespace Half

def init : Half where
  state := .new
  result := none
  waker := none
  owner := .outside
  completion := fun _ => .absent
  announced := 0
  buffer := 0
  future := 0
  cancelled := none
  latest := 0
  operation := fun _ => ⟨0, 0⟩
  outcome := fun _ => none
  polled := 0
  woken := false
  waiting := false
  returned := []

def setCompletion (s : Half) (op : Nat) (c : Completion) : Half :=
  {s with completion := Function.update s.completion op c}

/-! ### `poll` -/

def pollFinish (s : Half) : Half :=
  {s with owner := if s.state.finish then .get else .schedule}

def pollGet (s : Half) : Half :=
  {s with owner := .setIdle (s.result.map fun (op, val) => (op, val.get))}

def pollSetIdle (s : Half) (reading : Reading) : Half :=
  {s with
    state := s.state.setIdle
    owner := .outside
    returned := reading :: s.returned}

def pollSchedule (s : Half) : Half :=
  match s.state.schedule with
  | some word =>
    {s with
      state := word
      owner := .issue
      latest := s.latest + 1
      operation := Function.update s.operation (s.latest + 1) ⟨s.future, s.buffer⟩}
  | none => {s with owner := .register}

/-- What the kernel owes for a call it answered at once: a packet if it accepted
the operation and the socket posts on success, else nothing. -/
def answered (posts : Bool) : Answer → Completion
  | .accepted packet => if posts then .queued packet else .absent
  | .failed _ => .absent

/-- The `schedule` of a stream's halves: `Read.schedule` and `Write.schedule` are
this function of the kernel's answer. -/
def pollIssue (posts : Bool) (answer : Answer) (s : Half) : Half :=
  match scheduled answer with
  | .ready result =>
    {s with
      announced := s.announced + 1
      owner := .registerReady (some (s.latest, result))
      completion := Function.update s.completion s.latest (answered posts answer)
      outcome := Function.update s.outcome s.latest (some result)}
  | .pending =>
    {s with
      announced := s.announced + 1
      owner := .setPending
      completion := Function.update s.completion s.latest .inFlight}

theorem pollIssue_eq (posts : Bool) (answer : Answer) (s : Half) :
    ∃ owner completion outcome, s.pollIssue posts answer =
      {s with announced := s.announced + 1, owner, completion, outcome} := by
  unfold pollIssue
  split <;> exact ⟨_, _, _, rfl⟩

def pollRegisterReady (s : Half) (reading : Reading) : Half :=
  {s with waker := some s.polled, owner := .setIdle reading}

def pollSetPending (s : Half) : Half :=
  {s with state := s.state.setPending, owner := .outside, waiting := true}

def pollRegister (s : Half) : Half :=
  {s with waker := some s.polled, owner := .outside, waiting := true}

/-! ### `cancel` -/

def cancelReturn (s : Half) (wait : Bool) (ret : Option Int32) : Half :=
  {s with
    owner := .outside
    cancelled := ret
    future := if wait then s.future + 1 else s.future
    waiting := if wait then false else s.waiting}

/-- After the half's own `cancel`, or without it: a waiting cancel spins. -/
def cancelWait (s : Half) (wait : Bool) (ret : Option Int32) : Half :=
  if wait then {s with owner := .isBusy ret} else s.cancelReturn wait ret

def cancelTest (s : Half) (wait : Bool) : Half :=
  if s.state.isCancellable then {s with owner := .cancel wait} else s.cancelReturn wait none

def cancelSwap (s : Half) (wait : Bool) : Half :=
  let (cancel, word) := s.state.cancel wait
  if cancel then {s with state := word, owner := .halfCancel wait}
  else {s with state := word}.cancelWait wait none

theorem cancelWait_eq (s : Half) (wait : Bool) (ret : Option Int32) :
    ∃ owner cancelled future waiting,
      s.cancelWait wait ret = {s with owner, cancelled, future, waiting} := by
  unfold cancelWait
  split <;> exact ⟨_, _, _, _, rfl⟩

/-- Whether or not the half's own `cancel` is called, the swap leaves the same word. -/
theorem cancelSwap_eq (s : Half) (wait : Bool) :
    ∃ owner cancelled future waiting, s.cancelSwap wait =
      {s with state := (s.state.cancel wait).2, owner, cancelled, future, waiting} := by
  unfold cancelSwap
  simp only
  split
  · exact ⟨_, _, _, _, rfl⟩
  · obtain ⟨_, _, _, _, hs⟩ :=
      {s with state := (s.state.cancel wait).2}.cancelWait_eq wait none
    exact ⟨_, _, _, _, hs⟩

/-! ### `callback` -/

/-- The owner's waker taken and woken, if one is registered. -/
def wake (s : Half) : Half :=
  {s with waker := none, woken := s.woken || s.waker == some s.polled}

/-- One step of the callback on the packet of `op`. A spinning callback takes none. -/
def callback (s : Half) (op : Nat) : Option Half :=
  match s.completion op with
  | .queued packet =>
    if s.state.spins then none else some (s.setCompletion op (.running packet .callbackPending))
  | .running packet .callbackPending =>
    match s.state.callbackPending with
    | some word => some {s.setCompletion op (.running packet .set) with state := word}
    | none => some (s.setCompletion op (.running packet .callbackCancelledNowait))
  | .running packet .callbackCancelledNowait =>
    match s.state.callbackCancelledNowait with
    | some word => some {s.setCompletion op (.running packet .set) with state := word}
    | none => some (s.setCompletion op (.running packet .callbackCancelledWait))
  | .running packet .callbackCancelledWait =>
    match s.state.callbackCancelledWait with
    | some word => some {s.setCompletion op (.running packet .setReadyOnly) with state := word}
    | none => some (s.setCompletion op .done)
  | .running packet .set =>
    some {s.setCompletion op (.running packet .setReady) with
      result := some (op, IoResult.set packet.result packet.transferred)}
  | .running packet .setReady =>
    some {s.setCompletion op (.running packet .wake) with state := s.state.setReady}
  | .running _ .wake => some (s.setCompletion op .done).wake
  | .running _ .setReadyOnly => some {s.setCompletion op .done with state := s.state.setReady}
  | .absent | .inFlight | .done => none

/-! ### The machine -/

def owned (s : Half) : Option Half :=
  match s.owner with
  | .finish => some s.pollFinish
  | .get => some s.pollGet
  | .schedule => some s.pollSchedule
  | .registerReady reading => some (s.pollRegisterReady reading)
  | .setIdle reading => some (s.pollSetIdle reading)
  | .setPending => some s.pollSetPending
  | .register => some s.pollRegister
  | .isCancellable wait => some (s.cancelTest wait)
  | .cancel wait => some (s.cancelSwap wait)
  | .isBusy ret => if s.state.isBusy then none else some (s.cancelReturn true ret)
  | .outside | .issue | .halfCancel _ => none

/-- `CancelIoEx` finds the operation or fails. The wait of `GetOverlappedResult` is
on the socket, which any other completion on it also signals, so it promises
nothing here and the spin loop does the waiting. -/
def cancelIoEx (s : Half) (wait : Bool) (err : Option Int32) : Option Half :=
  if err = none ∧ s.completion s.latest ≠ .inFlight then none else some (s.cancelWait wait err)

def complete (s : Half) (op : Nat) (packet : Packet) : Option Half :=
  match s.completion op with
  | .inFlight =>
    some {s.setCompletion op (.queued packet) with
      outcome := Function.update s.outcome op (some packet.outcome)}
  | _ => none

def step (posts : Bool) (s : Half) : Action → Option Half
  | .poll waker =>
    if s.owner = .outside then
      some {s with owner := .finish, polled := waker, woken := false, waiting := false}
    else none
  | .offer buffer =>
    -- a buffer stays the same until the poll it was given to has returned `Ready`
    if s.owner = .outside ∧ s.waiting = false then some {s with buffer} else none
  | .cancel wait => if s.owner = .outside then some {s with owner := .isCancellable wait} else none
  | .owner => s.owned
  | .issue answer => if s.owner = .issue then some (s.pollIssue posts answer) else none
  | .halfCancel err =>
    match s.owner with
    | .halfCancel wait => s.cancelIoEx wait err
    | _ => none
  | .complete op packet => s.complete op packet
  | .callback op => s.callback op

/-- `posts`: an operation accepted synchronously posts its packet like any other. -/
def machine (posts : Bool) : Machine Half Action := ⟨init, step posts⟩

/-! ### What a step can do

One constructor a branch, with the guard that was passed: what is proved of a step
is proved by cases on these. -/

/-- A step of the callback on `op`. -/
inductive Called (s : Half) (op : Nat) : Half → Prop
  | begins (packet : Packet) (hc : s.completion op = .queued packet)
      (hspin : s.state ≠ .scheduling) :
      Called s op (s.setCompletion op (.running packet .callbackPending))
  | pendingTaken (packet : Packet) (hc : s.completion op = .running packet .callbackPending)
      (hw : s.state = .pending) :
      Called s op {s.setCompletion op (.running packet .set) with state := .callback}
  | pendingMissed (packet : Packet) (hc : s.completion op = .running packet .callbackPending)
      (hw : s.state ≠ .pending) :
      Called s op (s.setCompletion op (.running packet .callbackCancelledNowait))
  | nowaitTaken (packet : Packet)
      (hc : s.completion op = .running packet .callbackCancelledNowait)
      (hw : s.state = .cancelledNowait) :
      Called s op {s.setCompletion op (.running packet .set) with state := .callback}
  | nowaitMissed (packet : Packet)
      (hc : s.completion op = .running packet .callbackCancelledNowait)
      (hw : s.state ≠ .cancelledNowait) :
      Called s op (s.setCompletion op (.running packet .callbackCancelledWait))
  | waitTaken (packet : Packet) (hc : s.completion op = .running packet .callbackCancelledWait)
      (hw : s.state = .cancelledWait) :
      Called s op {s.setCompletion op (.running packet .setReadyOnly) with state := .callback}
  | waitMissed (packet : Packet) (hc : s.completion op = .running packet .callbackCancelledWait)
      (hw : s.state ≠ .cancelledWait) : Called s op (s.setCompletion op .done)
  | set (packet : Packet) (hc : s.completion op = .running packet .set) :
      Called s op {s.setCompletion op (.running packet .setReady) with
        result := some (op, IoResult.set packet.result packet.transferred)}
  | setReady (packet : Packet) (hc : s.completion op = .running packet .setReady) :
      Called s op {s.setCompletion op (.running packet .wake) with state := .ready}
  | wake (packet : Packet) (hc : s.completion op = .running packet .wake) :
      Called s op (s.setCompletion op .done).wake
  | setReadyOnly (packet : Packet) (hc : s.completion op = .running packet .setReadyOnly) :
      Called s op {s.setCompletion op .done with state := .ready}

theorem callback_cases {s s' : Half} {op : Nat} (hs : s.callback op = some s') :
    Called s op s' := by
  unfold callback at hs
  split at hs <;> rename_i hc
  · split at hs
    · cases hs
    · rename_i hspin
      cases hs
      exact .begins _ hc fun hw => hspin (s.state.spins_iff.mpr hw)
  · split at hs <;> rename_i hx <;> cases hs
    · obtain ⟨hw, rfl⟩ := IoState.compareExchange_eq_some.mp hx
      exact .pendingTaken _ hc hw
    · exact .pendingMissed _ hc (IoState.compareExchange_eq_none.mp hx)
  · split at hs <;> rename_i hx <;> cases hs
    · obtain ⟨hw, rfl⟩ := IoState.compareExchange_eq_some.mp hx
      exact .nowaitTaken _ hc hw
    · exact .nowaitMissed _ hc (IoState.compareExchange_eq_none.mp hx)
  · split at hs <;> rename_i hx <;> cases hs
    · obtain ⟨hw, rfl⟩ := IoState.compareExchange_eq_some.mp hx
      exact .waitTaken _ hc hw
    · exact .waitMissed _ hc (IoState.compareExchange_eq_none.mp hx)
  · cases hs
    exact .set _ hc
  · cases hs
    exact .setReady _ hc
  · cases hs
    exact .wake _ hc
  · cases hs
    exact .setReadyOnly _ hc
  all_goals cases hs

/-- A step of the machine. -/
inductive Moved (posts : Bool) (s : Half) : Action → Half → Prop
  | poll (waker : Nat) (ho : s.owner = .outside) :
      Moved posts s (.poll waker)
        {s with owner := .finish, polled := waker, woken := false, waiting := false}
  | offer (buffer : Nat) (ho : s.owner = .outside) (hw : s.waiting = false) :
      Moved posts s (.offer buffer) {s with buffer}
  | cancel (wait : Bool) (ho : s.owner = .outside) :
      Moved posts s (.cancel wait) {s with owner := .isCancellable wait}
  | finish (ho : s.owner = .finish) : Moved posts s .owner s.pollFinish
  | get (ho : s.owner = .get) : Moved posts s .owner s.pollGet
  | schedule (ho : s.owner = .schedule) (hidle : s.state = .idle) :
      Moved posts s .owner
        {s with
          state := .scheduling
          owner := .issue
          latest := s.latest + 1
          operation := Function.update s.operation (s.latest + 1) ⟨s.future, s.buffer⟩}
  | busy (ho : s.owner = .schedule) (hidle : s.state ≠ .idle) :
      Moved posts s .owner {s with owner := .register}
  | issue (answer : Answer) (ho : s.owner = .issue) :
      Moved posts s (.issue answer) (s.pollIssue posts answer)
  | registerReady (reading : Reading) (ho : s.owner = .registerReady reading) :
      Moved posts s .owner (s.pollRegisterReady reading)
  | setIdle (reading : Reading) (ho : s.owner = .setIdle reading) :
      Moved posts s .owner (s.pollSetIdle reading)
  | setPending (ho : s.owner = .setPending) : Moved posts s .owner s.pollSetPending
  | register (ho : s.owner = .register) : Moved posts s .owner s.pollRegister
  | cancellable (wait : Bool) (ho : s.owner = .isCancellable wait) (hp : s.state = .pending) :
      Moved posts s .owner {s with owner := .cancel wait}
  | uncancellable (wait : Bool) (ho : s.owner = .isCancellable wait) (hp : s.state ≠ .pending) :
      Moved posts s .owner (s.cancelReturn wait none)
  | swap (wait : Bool) (ho : s.owner = .cancel wait) : Moved posts s .owner (s.cancelSwap wait)
  | halfCancel (wait : Bool) (err : Option Int32) (ho : s.owner = .halfCancel wait)
      (hc : err = none → s.completion s.latest = .inFlight) :
      Moved posts s (.halfCancel err) (s.cancelWait wait err)
  | unbusy (ret : Option Int32) (ho : s.owner = .isBusy ret)
      (hb : s.state = .idle ∨ s.state = .ready) : Moved posts s .owner (s.cancelReturn true ret)
  | complete (op : Nat) (packet : Packet) (hc : s.completion op = .inFlight) :
      Moved posts s (.complete op packet)
        {s.setCompletion op (.queued packet) with
          outcome := Function.update s.outcome op (some packet.outcome)}
  | callback (op : Nat) (hs : s.callback op = some s') : Moved posts s (.callback op) s'

theorem owned_cases {posts : Bool} {s s' : Half} (hs : s.owned = some s') :
    Moved posts s .owner s' := by
  unfold owned at hs
  split at hs <;> rename_i ho
  · cases hs
    exact .finish ho
  · cases hs
    exact .get ho
  · cases hs
    unfold pollSchedule
    split <;> rename_i hx
    · obtain ⟨hidle, rfl⟩ := IoState.compareExchange_eq_some.mp hx
      exact .schedule ho hidle
    · exact .busy ho (IoState.compareExchange_eq_none.mp hx)
  · cases hs
    exact .registerReady _ ho
  · cases hs
    exact .setIdle _ ho
  · cases hs
    exact .setPending ho
  · cases hs
    exact .register ho
  · cases hs
    unfold cancelTest
    split <;> rename_i hp
    · exact .cancellable _ ho (s.state.isCancellable_iff.mp hp)
    · exact .uncancellable _ ho fun hw => hp (s.state.isCancellable_iff.mpr hw)
  · cases hs
    exact .swap _ ho
  · split at hs <;> rename_i hb <;> cases hs
    exact .unbusy _ ho (s.state.not_busy_iff.mp (Bool.eq_false_iff.mpr hb))
  all_goals cases hs

theorem step_cases {posts : Bool} {s s' : Half} {a : Action} (hs : step posts s a = some s') :
    Moved posts s a s' := by
  cases a with
  | poll waker =>
    simp only [step, Option.ite_none_right_eq_some, Option.some.injEq] at hs
    obtain ⟨ho, rfl⟩ := hs
    exact .poll waker ho
  | offer buffer =>
    simp only [step, Option.ite_none_right_eq_some, Option.some.injEq] at hs
    obtain ⟨⟨ho, hw⟩, rfl⟩ := hs
    exact .offer buffer ho hw
  | cancel wait =>
    simp only [step, Option.ite_none_right_eq_some, Option.some.injEq] at hs
    obtain ⟨ho, rfl⟩ := hs
    exact .cancel wait ho
  | owner => exact owned_cases hs
  | issue answer =>
    simp only [step, Option.ite_none_right_eq_some, Option.some.injEq] at hs
    obtain ⟨ho, rfl⟩ := hs
    exact .issue answer ho
  | halfCancel err =>
    simp only [step] at hs
    split at hs
    · rename_i wait ho
      simp only [cancelIoEx, Option.ite_none_left_eq_some, Option.some.injEq] at hs
      obtain ⟨hc, rfl⟩ := hs
      exact .halfCancel wait err ho fun he => by
        by_contra hne
        exact hc ⟨he, hne⟩
    · cases hs
  | complete op packet =>
    simp only [step, complete] at hs
    split at hs
    · rename_i hc
      cases hs
      exact .complete op packet hc
    · cases hs
  | callback op => exact .callback op hs

end Half

end Wae.Io
