import Wae.Task.Waker
import Wae.Transition.Lifetime

/-! `block_on` and the worker that completes its task.

The worker publishes the task's output, takes the registered waker, and wakes it, in
three steps at least. A poll of the task looks for the output, registers the waker and
looks again. So a poll may see the output that a worker with the waker in its hand has
published, and `block_on` then returns with the waker's word on its stack. -/
namespace Wae.Task
open Transition

namespace BlockOn

/-- Where `block_on` stands: what it does next. -/
inductive Main where
  /-- `poll`: the first look for the output. -/
  | poll
  | register
  | recheck
  /-- The poll that found the output takes it. -/
  | ready
  | output
  /-- `wait`: the test of its loop. -/
  | wait
  | waitOnAddress
  | asleep
  | returned
  deriving DecidableEq, Repr

/-- Where the worker stands: what it does next. -/
inductive Worker where
  | publish
  | take
  /-- `InlineWaker::wake`: the exchange. -/
  | wake
  | wakeByAddressAll
  | done
  deriving DecidableEq, Repr

inductive Action where
  | main
  /-- `WaitOnAddress` returns for no reason. -/
  | spurious
  /-- `block_on` returns, and its locals are gone. -/
  | ret
  | publish
  | take
  | wake
  | wakeByAddressAll
  deriving DecidableEq, Repr

end BlockOn

structure BlockOn where
  main : BlockOn.Main
  worker : BlockOn.Worker
  /-- The task's output is published. -/
  completed : Bool
  /-- The task holds a clone of the waker. -/
  registered : Bool
  /-- The word. -/
  state : UInt32

namespace BlockOn

def init : BlockOn where
  main := .poll
  worker := .publish
  completed := false
  registered := false
  state := InlineWaker.new

/-- `clears`: the poll that takes the output also takes the registered waker away. -/
def mainStep (clears : Bool) (s : BlockOn) : Option BlockOn :=
  match s.main with
  | .poll => some {s with main := if s.completed then .ready else .register}
  | .register => some {s with registered := true, main := .recheck}
  | .recheck => some {s with main := if s.completed then .ready else .wait}
  | .ready => some {s with registered := s.registered && !clears, main := .output}
  | .wait => some {s with main := if InlineWaker.woken s.state then .poll else .waitOnAddress}
  | .waitOnAddress => some {s with main := if InlineWaker.sleeps s.state then .asleep else .wait}
  | .output | .asleep | .returned => none

/-- The waker taken, if one is registered. -/
def taken (s : BlockOn) : BlockOn :=
  if s.registered then {s with registered := false, worker := .wake} else {s with worker := .done}

/-- The exchange, and whether `WakeByAddressAll` follows. -/
def woken (s : BlockOn) : BlockOn :=
  match InlineWaker.wake s.state with
  | some state => {s with state, worker := .wakeByAddressAll}
  | none => {s with worker := .done}

def step (clears : Bool) (s : BlockOn) : Action → Option BlockOn
  | .main => s.mainStep clears
  | .spurious => if s.main = .asleep then some {s with main := .wait} else none
  | .ret => if s.main = .output then some {s with main := .returned} else none
  | .publish =>
    if s.worker = .publish then some {s with completed := true, worker := .take} else none
  | .take => if s.worker = .take then some s.taken else none
  | .wake => if s.worker = .wake then some s.woken else none
  | .wakeByAddressAll =>
    if s.worker = .wakeByAddressAll then
      some {s with worker := .done, main := if s.main = .asleep then .wait else s.main}
    else none

def machine (clears : Bool) : Machine BlockOn Action := ⟨init, step clears⟩

/-- What a step can do. -/
inductive Moved (clears : Bool) (s : BlockOn) : Action → BlockOn → Prop
  | main (s' : BlockOn) (hs : s.mainStep clears = some s') : Moved clears s .main s'
  | spurious (hm : s.main = .asleep) : Moved clears s .spurious {s with main := .wait}
  | ret (hm : s.main = .output) : Moved clears s .ret {s with main := .returned}
  | publish (hw : s.worker = .publish) :
      Moved clears s .publish {s with completed := true, worker := .take}
  | take (hw : s.worker = .take) : Moved clears s .take s.taken
  | wake (hw : s.worker = .wake) : Moved clears s .wake s.woken
  | wakeByAddressAll (hw : s.worker = .wakeByAddressAll) :
      Moved clears s .wakeByAddressAll
        {s with worker := .done, main := if s.main = .asleep then .wait else s.main}

variable {clears : Bool} {s s' : BlockOn}

theorem step_cases {a : Action} (hs : step clears s a = some s') : Moved clears s a s' := by
  cases a with
  | main => exact .main _ hs
  | spurious =>
    simp only [step, Option.ite_none_right_eq_some, Option.some.injEq] at hs
    obtain ⟨hm, rfl⟩ := hs
    exact .spurious hm
  | ret =>
    simp only [step, Option.ite_none_right_eq_some, Option.some.injEq] at hs
    obtain ⟨hm, rfl⟩ := hs
    exact .ret hm
  | publish =>
    simp only [step, Option.ite_none_right_eq_some, Option.some.injEq] at hs
    obtain ⟨hw, rfl⟩ := hs
    exact .publish hw
  | take =>
    simp only [step, Option.ite_none_right_eq_some, Option.some.injEq] at hs
    obtain ⟨hw, rfl⟩ := hs
    exact .take hw
  | wake =>
    simp only [step, Option.ite_none_right_eq_some, Option.some.injEq] at hs
    obtain ⟨hw, rfl⟩ := hs
    exact .wake hw
  | wakeByAddressAll =>
    simp only [step, Option.ite_none_right_eq_some, Option.some.injEq] at hs
    obtain ⟨hw, rfl⟩ := hs
    exact .wakeByAddressAll hw

/-- A step of `InlineWaker::wake`: each of them goes to the word. -/
def Action.wakes : Action → Bool
  | .wake | .wakeByAddressAll => true
  | _ => false

/-- The worker is through with the waker, or there is none for it to take. -/
def Quiet (s : BlockOn) : Prop :=
  s.worker = .done ∨ s.worker = .take ∧ s.registered = false

/-- The output is there when `block_on` takes it, and the worker is past publishing it. -/
structure Published (s : BlockOn) : Prop where
  seen : s.main = .ready ∨ s.main = .output ∨ s.main = .returned → s.completed = true
  past : s.completed = true → s.worker ≠ .publish

theorem published_init : Published init := ⟨by decide, nofun⟩

theorem published_main (h : Published s) (hs : s.mainStep clears = some s') : Published s' := by
  unfold mainStep at hs
  split at hs <;> rename_i hm <;> cases hs
  case h_1 | h_3 =>
    refine ⟨fun hr => ?_, h.past⟩
    by_cases hc : s.completed = true
    · exact hc
    · simp [hc] at hr
  case h_2 => exact ⟨by simp, h.past⟩
  case h_4 => exact ⟨fun _ => h.seen (.inl hm), h.past⟩
  case h_5 | h_6 =>
    refine ⟨fun hr => ?_, h.past⟩
    simp only at hr
    split at hr <;> simp at hr

theorem published_step {a : Action} (h : Published s) (hs : step clears s a = some s') :
    Published s' := by
  cases step_cases hs with
  | main _ hmain => exact published_main h hmain
  | spurious => exact ⟨by simp, h.past⟩
  | ret hm => exact ⟨fun _ => h.seen (.inr (.inl hm)), h.past⟩
  | publish => exact ⟨fun _ => rfl, by simp⟩
  | take =>
    unfold taken
    split <;> exact ⟨h.seen, by simp⟩
  | wake =>
    unfold woken
    split <;> exact ⟨h.seen, by simp⟩
  | wakeByAddressAll =>
    refine ⟨fun hr => h.seen ?_, by simp⟩
    by_cases hm : s.main = .asleep
    · simp [hm] at hr
    · simpa [hm] using hr

/-- Only `ret` returns. -/
theorem ret_only {a : Action} (hs : step clears s a = some s') (hr : s'.main = .returned) :
    s.main = .returned ∨ a = .ret := by
  cases step_cases hs with
  | main _ hmain =>
    unfold mainStep at hmain
    split at hmain <;> cases hmain <;> simp only at hr
    case h_1 | h_3 | h_5 | h_6 => split at hr <;> cases hr
    all_goals cases hr
  | spurious => cases hr
  | ret => exact .inr rfl
  | publish => exact .inl hr
  | take =>
    unfold taken at hr
    split at hr <;> exact .inl hr
  | wake =>
    unfold woken at hr
    split at hr <;> exact .inl hr
  | wakeByAddressAll =>
    by_cases hm : s.main = .asleep
    · simp [hm] at hr
    · simp only [hm, if_false] at hr
      exact .inl hr

/-- Returned with nothing left to wake, it stays so. -/
theorem quiet_step {a : Action} (hr : s.main = .returned) (hq : s.Quiet)
    (hs : step clears s a = some s') : s'.main = .returned ∧ s'.Quiet := by
  cases step_cases hs with
  | take hw =>
    rcases hq with hdone | ⟨_, hreg⟩
    · exact nomatch hw.symm.trans hdone
    · rw [taken, hreg]
      exact ⟨hr, .inl rfl⟩
  | main _ hmain => simp [mainStep, hr] at hmain
  | spurious hm | ret hm => exact nomatch hr.symm.trans hm
  | publish hw | wake hw | wakeByAddressAll hw =>
    rcases hq with hdone | ⟨hdone, _⟩ <;> exact nomatch hw.symm.trans hdone

/-- Once `block_on` has returned with nothing left to wake, nothing wakes. -/
theorem never_of_quiet (hr : s.main = .returned) (hq : s.Quiet) :
    (machine clears).Never (·.wakes = true) s := by
  refine Machine.Never.of_invariant (I := fun s => s.main = .returned ∧ s.Quiet)
    (fun t a t' ⟨hr, hq⟩ hs => quiet_step hr hq hs) (fun t a ⟨_, hq⟩ ha => ?_) ⟨hr, hq⟩
  cases a with
  | wake | wakeByAddressAll => rcases hq with hw | ⟨hw, _⟩ <;> simp [machine, step, hw]
  | _ => cases ha

/-- If nothing ever wakes once it has returned, there was nothing left to wake. -/
theorem quiet_of_never (h : Published s) (hr : s.main = .returned)
    (hn : (machine clears).Never (·.wakes = true) s) : s.Quiet := by
  have hwake : step clears s .wake = none := hn.disabled .wake rfl
  have hall : step clears s .wakeByAddressAll = none := hn.disabled .wakeByAddressAll rfl
  cases hw : s.worker with
  | publish => exact absurd hw (h.past (h.seen (.inr (.inr hr))))
  | take =>
    cases hreg : s.registered with
    | false => exact .inr ⟨hw, hreg⟩
    | true =>
      have hs : (machine clears).step s .take =
          some {s with registered := false, worker := .wake} := by
        simp [machine, step, hw, taken, hreg]
      have hnext : step clears {s with registered := false, worker := .wake} .wake = none :=
        (hn.step hs).disabled .wake rfl
      simp [step] at hnext
  | wake => simp [step, hw] at hwake
  | wakeByAddressAll => simp [step, hw] at hall
  | done => exact .inl hw

theorem lifetime (clears : Bool) : (machine clears).Lifetime Published (fun _ a => a = .ret)
    (·.wakes = true) (·.main = .returned) Quiet where
  init := published_init
  step := fun _ _ _ h hs => published_step h hs
  alive := nofun
  only := fun _ _ _ hs hr => ret_only hs hr
  decided := fun s a s' h hs ha => by
    subst ha
    have hs : step clears s .ret = some s' := hs
    have h' := published_step h hs
    cases step_cases hs with
    | ret =>
      exact ⟨quiet_of_never (s := {s with main := .returned}) h' rfl,
        never_of_quiet (s := {s with main := .returned}) rfl⟩

/-- However the run goes on, `InlineWaker::wake` is not executed after this return. -/
def ReturnsForGood (clears : Bool) (_ : BlockOn) (a : Action) (s' : BlockOn) : Prop :=
  a = .ret → (machine clears).Never (·.wakes = true) s'

/-- The condition on a step: when `block_on` returns, the worker is through with the
waker, or there is none for it to take. -/
def ReturnsQuiet (s : BlockOn) (a : Action) (_ : BlockOn) : Prop := a = .ret → s.Quiet

/-- `InlineWaker::wake` is not executed once `block_on` has returned. -/
def WakesWithin (s : BlockOn) (a : Action) (_ : BlockOn) : Prop :=
  s.main = .returned → ¬ a.wakes = true

/-- **The waker outlives its users** exactly when `block_on` returns after the worker's
`wake`, or before the worker has taken a waker that is no longer registered. -/
theorem waker_outlives (clears : Bool) (as : List Action) :
    ((machine clears).Steps (ReturnsForGood clears) init as ↔
      (machine clears).Steps ReturnsQuiet init as) ∧
    ((machine clears).Steps ReturnsQuiet init as → (machine clears).Steps WakesWithin init as) :=
  ⟨(lifetime clears).forGood_iff as, (lifetime clears).within as⟩

instance (s : BlockOn) (a : Action) (s' : BlockOn) : Decidable (ReturnsQuiet s a s') :=
  inferInstanceAs
    (Decidable (a = .ret → s.worker = .done ∨ s.worker = .take ∧ s.registered = false))

instance (s : BlockOn) (a : Action) (s' : BlockOn) : Decidable (WakesWithin s a s') :=
  inferInstanceAs (Decidable (s.main = .returned → ¬ a.wakes = true))

/-- `block_on` sleeps until the worker's wake, and returns after it. -/
theorem waker_outlives_slept : (machine true).Steps WakesWithin init
    [.main, .main, .main, .main, .main, .publish, .take, .wake, .wakeByAddressAll, .main, .main,
     .main, .ret] :=
  (waker_outlives true _).2 (by decide)

/-- The second look of a poll finds the output that a worker with the waker in its hand
has published. -/
theorem waker_outlived (clears : Bool) : ¬ (machine clears).Steps WakesWithin init
    [.main, .main, .publish, .take, .main, .main, .ret, .wake] := by
  cases clears <;> decide

theorem wake_after_return : ¬ ∀ as : List Action, (machine true).Steps WakesWithin init as :=
  fun h => waker_outlived true (h _)

end BlockOn

end Wae.Task
