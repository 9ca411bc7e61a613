import Mathlib.Logic.Function.Basic
import Wae.Task.Waker
import Wae.Transition.Machine

/-! The thread that waits with an `InlineWaker`, and the threads that wake it.

A wake is two steps, the exchange and `WakeByAddressAll`, and only the call that wins the
exchange takes the second. A wait is two steps also, the test and `WaitOnAddress`, which
looks at the word once more and sleeps only while it is 0. So whoever finds the waiting
thread asleep behind a word that is set has yet to see the signal of the call that set
it. The word is never put back. -/
namespace Wae.Task
open Transition

namespace Waiting

/-- Where the waiting thread stands: what it does next. -/
inductive Waiter where
  /-- `block_on`: the poll of the future. -/
  | poll
  /-- `wait`: the test of its loop. -/
  | load
  | waitOnAddress
  | asleep
  | returned
  deriving DecidableEq, Repr

/-- Where a thread stands that has got the waker. -/
inductive Caller where
  | idle
  /-- `wake`: the exchange. -/
  | exchange
  | wakeByAddressAll
  deriving DecidableEq, Repr

inductive Action where
  /-- The poll returns `Pending` or not. -/
  | poll (pending : Bool)
  | load
  | waitOnAddress
  /-- `WaitOnAddress` returns for no reason. -/
  | spurious
  /-- The thread calls `wake`. -/
  | wake (thread : Nat)
  | exchange (thread : Nat)
  | wakeByAddressAll (thread : Nat)
  deriving DecidableEq, Repr

end Waiting

structure Waiting where
  waiter : Waiting.Waiter
  caller : Nat → Waiting.Caller
  /-- The word. -/
  state : UInt32
  /-- The calls of `wake` that have returned. -/
  completed : Nat

namespace Waiting

def init : Waiting where
  waiter := .poll
  caller := fun _ => .idle
  state := InlineWaker.new
  completed := 0

def setCaller (s : Waiting) (thread : Nat) (caller : Caller) : Waiting :=
  {s with caller := Function.update s.caller thread caller}

/-- The call returns. -/
def complete (s : Waiting) (thread : Nat) : Waiting :=
  {s.setCaller thread .idle with completed := s.completed + 1}

/-- The exchange, and whether `WakeByAddressAll` follows. -/
def exchanged (s : Waiting) (thread : Nat) : Waiting :=
  match InlineWaker.wake s.state with
  | some state => {s.setCaller thread .wakeByAddressAll with state := state}
  | none => s.complete thread

def step (s : Waiting) : Action → Option Waiting
  | .poll pending =>
    if s.waiter = .poll then some {s with waiter := if pending then .load else .returned} else none
  | .load =>
    if s.waiter = .load then
      some {s with waiter := if InlineWaker.woken s.state then .poll else .waitOnAddress}
    else none
  | .waitOnAddress =>
    if s.waiter = .waitOnAddress then
      some {s with waiter := if InlineWaker.sleeps s.state then .asleep else .load}
    else none
  | .spurious => if s.waiter = .asleep then some {s with waiter := .load} else none
  | .wake thread =>
    if s.caller thread = .idle then some (s.setCaller thread .exchange) else none
  | .exchange thread =>
    if s.caller thread = .exchange then some (s.exchanged thread) else none
  | .wakeByAddressAll thread =>
    if s.caller thread = .wakeByAddressAll then
      some {s.complete thread with waiter := if s.waiter = .asleep then .load else s.waiter}
    else none

def machine : Machine Waiting Action := ⟨init, step⟩

/-- What a step can do. -/
inductive Moved (s : Waiting) : Action → Waiting → Prop
  | poll (pending : Bool) (hw : s.waiter = .poll) :
      Moved s (.poll pending) {s with waiter := if pending then .load else .returned}
  | load (hw : s.waiter = .load) :
      Moved s .load {s with waiter := if InlineWaker.woken s.state then .poll else .waitOnAddress}
  | waitOnAddress (hw : s.waiter = .waitOnAddress) :
      Moved s .waitOnAddress {s with waiter := if InlineWaker.sleeps s.state then .asleep else .load}
  | spurious (hw : s.waiter = .asleep) : Moved s .spurious {s with waiter := .load}
  | wake (thread : Nat) (hc : s.caller thread = .idle) :
      Moved s (.wake thread) (s.setCaller thread .exchange)
  | won (thread : Nat) (hc : s.caller thread = .exchange) (h0 : s.state = 0) :
      Moved s (.exchange thread) {s.setCaller thread .wakeByAddressAll with state := 1}
  | lost (thread : Nat) (hc : s.caller thread = .exchange) (h0 : s.state ≠ 0) :
      Moved s (.exchange thread) (s.complete thread)
  | wakeByAddressAll (thread : Nat) (hc : s.caller thread = .wakeByAddressAll) :
      Moved s (.wakeByAddressAll thread)
        {s.complete thread with waiter := if s.waiter = .asleep then .load else s.waiter}

variable {s s' : Waiting}

theorem step_cases {a : Action} (hs : step s a = some s') : Moved s a s' := by
  cases a with
  | poll pending =>
    simp only [step, Option.ite_none_right_eq_some, Option.some.injEq] at hs
    obtain ⟨hw, rfl⟩ := hs
    exact .poll pending hw
  | load =>
    simp only [step, Option.ite_none_right_eq_some, Option.some.injEq] at hs
    obtain ⟨hw, rfl⟩ := hs
    exact .load hw
  | waitOnAddress =>
    simp only [step, Option.ite_none_right_eq_some, Option.some.injEq] at hs
    obtain ⟨hw, rfl⟩ := hs
    exact .waitOnAddress hw
  | spurious =>
    simp only [step, Option.ite_none_right_eq_some, Option.some.injEq] at hs
    obtain ⟨hw, rfl⟩ := hs
    exact .spurious hw
  | wake thread =>
    simp only [step, Option.ite_none_right_eq_some, Option.some.injEq] at hs
    obtain ⟨hc, rfl⟩ := hs
    exact .wake thread hc
  | exchange thread =>
    simp only [step, Option.ite_none_right_eq_some, Option.some.injEq] at hs
    obtain ⟨hc, rfl⟩ := hs
    by_cases h0 : s.state = 0
    · have hwon : s.exchanged thread = {s.setCaller thread .wakeByAddressAll with state := 1} := by
        simp [exchanged, InlineWaker.wake, h0]
      rw [hwon]
      exact .won thread hc h0
    · have hlost : s.exchanged thread = s.complete thread := by
        simp [exchanged, InlineWaker.wake, h0]
      rw [hlost]
      exact .lost thread hc h0
  | wakeByAddressAll thread =>
    simp only [step, Option.ite_none_right_eq_some, Option.some.injEq] at hs
    obtain ⟨hc, rfl⟩ := hs
    exact .wakeByAddressAll thread hc

theorem setCaller_same (s : Waiting) (thread : Nat) (caller : Caller) :
    (s.setCaller thread caller).caller thread = caller := Function.update_self ..

theorem setCaller_other (s : Waiting) {thread i : Nat} (h : i ≠ thread) (caller : Caller) :
    (s.setCaller thread caller).caller i = s.caller i := Function.update_of_ne h ..

/-! ### No wake is lost -/

/-- The thread sleeps on, though it has been woken: no signal is still to come. -/
def Lost (s : Waiting) : Prop :=
  0 < s.completed ∧ s.waiter = .asleep ∧ ∀ thread, s.caller thread ≠ .wakeByAddressAll

/-- Behind a word that is set, no one sleeps to whom no signal is still to come. -/
structure Signaled (s : Waiting) : Prop where
  completed : 0 < s.completed → s.state ≠ 0
  signals : ∀ thread, s.caller thread = .wakeByAddressAll → s.state ≠ 0
  asleep : s.waiter = .asleep → s.state ≠ 0 → ∃ thread, s.caller thread = .wakeByAddressAll

theorem signaled_init : Signaled init where
  completed := nofun
  signals := nofun
  asleep := nofun

/-- A step of the waiting thread, which falls asleep only while the word is 0. -/
theorem Signaled.move (h : Signaled s) {waiter : Waiter} (hw : waiter = .asleep → s.state = 0) :
    Signaled {s with waiter := waiter} where
  completed := h.completed
  signals := h.signals
  asleep ha hs := absurd (hw ha) hs

/-- A thread that has no signal to send gets none to send. -/
theorem Signaled.setCaller (h : Signaled s) {thread : Nat} {caller : Caller}
    (hfrom : s.caller thread ≠ .wakeByAddressAll) (hto : caller ≠ .wakeByAddressAll) :
    Signaled (s.setCaller thread caller) where
  completed := h.completed
  signals i hi := by
    by_cases hit : i = thread
    · subst hit
      rw [setCaller_same] at hi
      exact absurd hi hto
    · rw [setCaller_other s hit] at hi
      exact h.signals i hi
  asleep ha hs := by
    obtain ⟨i, hi⟩ := h.asleep ha hs
    have hit : i ≠ thread := fun hit => hfrom (hit ▸ hi)
    exact ⟨i, (setCaller_other s hit caller).trans hi⟩

theorem signaled_step {a : Action} (h : Signaled s) (hs : step s a = some s') : Signaled s' := by
  cases step_cases hs with
  | poll pending hw =>
    apply h.move
    cases pending <;> nofun
  | load hw =>
    apply h.move
    split <;> nofun
  | waitOnAddress hw =>
    apply h.move
    split <;> rename_i hsleeps
    · intro _
      exact eq_of_beq hsleeps
    · nofun
  | spurious hw =>
    apply h.move
    nofun
  | wake thread hc =>
    apply h.setCaller
    · rw [hc]
      nofun
    · nofun
  | won thread hc h0 =>
    -- The word is set, and the signal of this call is to come.
    have hset : (1 : UInt32) ≠ 0 := by decide
    exact ⟨fun _ => hset, fun _ _ => hset, fun _ _ => ⟨thread, setCaller_same s thread _⟩⟩
  | lost thread hc h0 =>
    have hidle : Signaled (s.setCaller thread .idle) := by
      apply h.setCaller
      · rw [hc]
        nofun
      · nofun
    exact ⟨fun _ => h0, hidle.signals, hidle.asleep⟩
  | wakeByAddressAll thread hc =>
    -- The signal is sent: nobody is asleep any more.
    have hset := h.signals thread hc
    refine ⟨fun _ => hset, fun _ _ => hset, fun hasleep => ?_⟩
    dsimp only at hasleep
    split at hasleep
    · cases hasleep
    · contradiction

/-- **No wake is lost**, whoever calls and whenever: while the thread is asleep and a call
of `wake` has returned, the signal is still to come. -/
theorem no_wake_lost (as : List Action) {t : Waiting}
    (hrun : machine.run machine.init as = some t) : ¬ Lost t := by
  have h := Machine.run_keeps (M := machine) (I := Signaled)
    (fun _ _ _ h hs => signaled_step h hs) signaled_init hrun
  intro ⟨hcompleted, hasleep, hnone⟩
  obtain ⟨thread, hthread⟩ := h.asleep hasleep (h.completed hcompleted)
  exact hnone thread hthread

/-- Two calls while the thread falls asleep, of which one has returned. -/
theorem no_wake_lost_two : ∃ t, machine.run machine.init [.poll true, .load, .wake 0, .wake 1,
    .waitOnAddress, .exchange 0, .exchange 1] = some t ∧ t.completed = 1 ∧ t.waiter = .asleep ∧
    ¬ Lost t :=
  ⟨_, rfl, rfl, rfl, no_wake_lost [.poll true, .load, .wake 0, .wake 1, .waitOnAddress,
    .exchange 0, .exchange 1] rfl⟩

end Waiting

end Wae.Task
