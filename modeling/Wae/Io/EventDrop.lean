import Wae.Io.Arming
import Wae.Transition.Observer

/-! Whether the destructor of an event leaves its spin loop.

`IoEvent::drop` spins until the word is not busy. It asks the kernel for nothing, and no
other code of the crate cancels the operation of an event, so an operation that is in
flight stays so until it completes by itself. One that has completed still needs the
callback, which the wait queues if it is armed. -/
namespace Wae.Io
open Transition

namespace IoEvent

/-- What the code of an event asks of the system. -/
inductive Call where
  | resetEvent
  | setThreadpoolWait
  | getOverlappedResult
  /-- The closure's: `AcceptEx`, `ConnectEx` or `GetAddrInfoExW`. -/
  | issue
  /-- `CancelIoEx`, or `GetAddrInfoExCancel`. -/
  | cancel
  | closeThreadpoolWait
  | closeHandle
  deriving DecidableEq, Repr

/-- The call that a step makes. -/
def call (s : IoEvent) : Action → Option Call
  | .owner =>
    match s.owner with
    | .setThreadpoolWait _ => some .setThreadpoolWait
    | .getOverlappedResult => some .getOverlappedResult
    | _ => none
  | .resetEvent _ => some .resetEvent
  | .issue .. => some .issue
  | .next =>
    match s.life with
    | .closeThreadpoolWait => some .closeThreadpoolWait
    | _ => none
  | .release => some .closeHandle
  | .poll .. | .complete _ | .fire | .callback _ | .drop => none

/-- Whether the operation last begun has been asked to be cancelled. -/
def requests : Observer IoEvent Action Bool where
  init := false
  see s a _ requested :=
    match s.call a with
    | some .cancel => true
    | some .issue => false
    | _ => requested

/-- What comes about without a remote peer: of the completions, those that were asked for. -/
def Unaided (requested : Bool) (a : Action) : Prop :=
  ∀ status, a = .complete status → requested = true

/-- The spin loop can be left without a remote peer. -/
def Leaves (s : IoEvent) (requested : Bool) : Prop :=
  machine.Leads (Unaided requested) (·.life = .closeThreadpoolWait) s

/-- The callback that will take the word is there, or the wait is about to queue it. -/
def Coming (s : IoEvent) : Prop :=
  s.armed = true ∧ s.signaled = true ∨ (s.callbacks s.fired).Awaited

/-- A dropped event has asked for the end of the operation in flight, and leaves its loop. -/
def DropsFreely (s : IoEvent × Bool) (a : Action) (s' : IoEvent × Bool) : Prop :=
  a = .drop → (s.1.inFlight = true → s.2 = true) ∧ s'.1.Leaves s'.2

/-- The condition on a step: an event that is dropped has no operation in flight, and
where its word is `PENDING` the callback is to come. -/
def DropsSettled (s : IoEvent) (a : Action) (_ : IoEvent) : Prop :=
  a = .drop → s.inFlight = false ∧ (s.state = .pending → s.Coming)

variable {s s' : IoEvent}

theorem call_ne_cancel (s : IoEvent) (a : Action) : s.call a ≠ some .cancel := by
  cases a with
  | owner =>
    simp only [call]
    split <;> nofun
  | next =>
    simp only [call]
    split <;> nofun
  | _ => nofun

/-- Nothing is ever asked to be cancelled. -/
theorem requests_none {t t' : IoEvent × Bool} {a : Action} (h : t.2 = false)
    (hs : (requests.watch machine).step t a = some t') : t'.2 = false := by
  rw [(Observer.watch_step hs).2]
  unfold requests
  dsimp only
  split
  · rename_i hcall
    exact absurd hcall (t.1.call_ne_cancel a)
  · rfl
  · exact h

/-! ### Leaving -/

theorem Leaves.callback {k : Nat} {r : Bool} (hs : s.callback k = some s') (h : Leaves s' r) :
    Leaves s r :=
  h.step (a := .callback k) nofun hs

theorem leaves_settled {r : Bool} (hl : s.life = .isBusy) (hw : s.state = .idle ∨ s.state = .ready) :
    Leaves s r := by
  have hs : step s .next = some {s with life := .closeThreadpoolWait} := by
    simp [step, next, hl, s.state.not_busy_iff.mpr hw]
  exact .step (a := .next) (fun _ h => by cases h) hs (.here rfl)

theorem leaves_setReady {r : Bool} {result : UInt32} {k : Nat} (hl : s.life = .isBusy)
    (hc : s.callbacks k = .running result .setReady) : Leaves s r := by
  have hs : s.callback k = some {s.setCallback k (.running result .wake) with state := .ready} := by
    simp only [IoEvent.callback, hc]
    rfl
  exact .callback hs (leaves_settled hl (.inr rfl))

theorem leaves_set {r : Bool} {result : UInt32} {k : Nat} (hl : s.life = .isBusy)
    (hc : s.callbacks k = .running result .set) : Leaves s r := by
  have hs : s.callback k = some {s.setCallback k (.running result .setReady) with
      result := some (IoResult.set result 0)} := by
    simp only [IoEvent.callback, hc]
  exact .callback hs (leaves_setReady hl (setCallback_same ..))

theorem leaves_callbackPending {r : Bool} {result : UInt32} {k : Nat} (hl : s.life = .isBusy)
    (hw : s.state = .pending) (hc : s.callbacks k = .running result .callbackPending) :
    Leaves s r := by
  have hs : s.callback k = some {s.setCallback k (.running result .set) with state := .callback} := by
    simp only [IoEvent.callback, hc, hw]
    rfl
  exact .callback hs (leaves_set hl (setCallback_same ..))

theorem leaves_queued {r : Bool} {result : UInt32} {k : Nat} (hl : s.life = .isBusy)
    (hw : s.state = .pending) (hc : s.callbacks k = .queued result) : Leaves s r := by
  have hs : s.callback k = some (s.setCallback k (.running result .callbackPending)) := by
    simp only [IoEvent.callback, hc, hw]
    rfl
  exact .callback hs (leaves_callbackPending hl hw (setCallback_same ..))

theorem leaves_coming {r : Bool} (hl : s.life = .isBusy) (hw : s.state = .pending) (h : s.Coming) :
    Leaves s r := by
  rcases h with ⟨harmed, hsignaled⟩ | hawaited
  · have hs : step s .fire = some {s.setCallback (s.fired + 1) (.queued 0) with
        armed := false, fired := s.fired + 1} := by
      simp [step, fire, harmed, hsignaled]
    have hqueued : Leaves {s.setCallback (s.fired + 1) (.queued 0) with
        armed := false, fired := s.fired + 1} r := by
      refine leaves_queued ?_ ?_ (setCallback_same s (s.fired + 1) (.queued 0))
      · exact hl
      · exact hw
    exact .step (a := .fire) (fun _ h => by cases h) hs hqueued
  · cases hc : s.callbacks s.fired with
    | queued result => exact leaves_queued hl hw hc
    | running result pc =>
      rw [hc] at hawaited
      cases pc with
      | callbackPending => exact leaves_callbackPending hl hw hc
      | _ => exact hawaited.elim
    | _ =>
      rw [hc] at hawaited
      exact hawaited.elim

/-- A callback that holds the word gives it back. -/
theorem leaves_inside {r : Bool} (hl : s.life = .isBusy) (h : (s.callbacks s.fired).Inside) :
    Leaves s r := by
  cases hc : s.callbacks s.fired with
  | running result pc =>
    rw [hc] at h
    cases pc with
    | set => exact leaves_set hl hc
    | setReady => exact leaves_setReady hl hc
    | _ => exact h.elim
  | _ =>
    rw [hc] at h
    exact h.elim

/-- Dropped by an owner outside `poll`, with the callback to come wherever it is needed. -/
theorem Sole.leaves {r : Bool} (h : Sole s) (hl : s.life = .isBusy) (ho : s.owner = .outside)
    (hcoming : s.state = .pending → s.Coming) : Leaves s r := by
  have howner := h.owner
  rw [ho] at howner
  cases hw : s.state with
  | idle => exact leaves_settled hl (.inl hw)
  | ready => exact leaves_settled hl (.inr hw)
  | pending => exact leaves_coming hl hw (hcoming hw)
  | callback => exact leaves_inside hl (h.inside.mp hw)
  | scheduling => exact absurd hw howner
  | cancelledNowait => exact absurd hw h.uncancelled.1
  | cancelledWait => exact absurd hw h.uncancelled.2

/-! ### Not leaving -/

/-- Spinning over `PENDING`, and no callback comes. -/
structure Stalled (s : IoEvent) : Prop where
  life : s.life = .isBusy
  owner : s.owner = .outside
  state : s.state = .pending
  alone : ¬ s.Coming

/-- All its callbacks are past the word. -/
theorem Stalled.past (h : Stalled s) (hi : Sole s) {k : Nat} (hk : k ≤ s.fired) :
    (s.callbacks k).Past := by
  rcases Nat.lt_or_eq_of_le hk with hlt | rfl
  · exact hi.older k hlt
  · refine (Callback.past_or _).resolve_right fun hc => ?_
    rcases hc with hc | hc
    · exact h.alone (.inr hc)
    · exact nomatch h.state.symm.trans (hi.inside.mpr hc)

/-- Without the kernel's completion it goes on spinning. -/
theorem stalled_step {a : Action} (hi : Sole s) (h : Stalled s) (ha : Unaided false a)
    (hs : step s a = some s') : Stalled s' := by
  have ho := h.owner
  cases step_cases hs with
  | complete status => exact nomatch ha status rfl
  | callback k hcall =>
    have hpast := h.past hi (hi.le_fired hcall)
    obtain rfl := callback_past hpast hcall
    refine ⟨h.life, h.owner, h.state, fun hc => ?_⟩
    refine hc.elim (fun hc => h.alone (.inl hc)) fun hc => ?_
    have hc : ((s.setCallback k .done).callbacks s.fired).Awaited := hc
    by_cases hk : s.fired = k
    · subst hk
      rw [setCallback_same] at hc
      exact hc
    · rw [setCallback_other s .done hk] at hc
      exact h.alone (.inr hc)
  | fire harmed hsignaled => exact absurd (.inl ⟨harmed, hsignaled⟩) h.alone
  | unbusy _ hb => rcases hb with hb | hb <;> exact nomatch h.state.symm.trans hb
  | poll _ _ _ hl | drop hl | closeThreadpoolWait hl | release hl => exact nomatch h.life.symm.trans hl
  | finish _ hi | resetEvent _ _ hi | setThreadpoolWait _ hi | get _ hi | getOverlappedResult hi
  | schedule hi | busy hi | issue _ _ hi | setIdle _ hi | registerPending hi | setPending hi
  | register hi => exact nomatch ho.symm.trans hi

theorem Stalled.not_leaves (h : Stalled s) (hi : Sole s) : ¬ Leaves s false := by
  rintro ⟨as, has, t, hrun, ht⟩
  have hstalled := Machine.run_keeps_of (M := machine) (I := fun s => Sole s ∧ Stalled s)
    (fun s a s' ⟨hi, h⟩ ha hs => ⟨sole_step hi hs, stalled_step hi h ha hs⟩) ⟨hi, h⟩
    (Machine.Steps.of_actions has) hrun
  exact nomatch hstalled.2.life.symm.trans ht

/-! ### Drops -/

/-- **The step lemma**: the loop that a drop enters can be left without a remote peer just
where the callback is to come. -/
theorem leaves_drop_iff (hi : Sole s) (hs : step s .drop = some s') :
    s'.Leaves false ↔ (s.state = .pending → s.Coming) := by
  have hi' := sole_step hi hs
  cases step_cases hs with
  | drop hl ho =>
    refine ⟨fun h hw => ?_, fun h => hi'.leaves rfl ho h⟩
    by_contra hcoming
    have hstalled : Stalled {s with life := .isBusy} := ⟨rfl, ho, hw, hcoming⟩
    exact hstalled.not_leaves hi' h

/-- **A dropped event leaves its loop without a remote peer**, having asked for the end of
what is in flight, exactly when nothing is in flight and the callback that `PENDING`
waits for is to come. -/
theorem events_dropped (as : List Action) :
    (requests.watch machine).Steps DropsFreely (requests.watch machine).init as ↔
      machine.Steps DropsSettled init as := by
  show _ ↔ machine.Steps DropsSettled (requests.watch machine).init.1 as
  rw [← Observer.steps_watch (O := requests)]
  have hstep : ∀ t a t', Sole t.1 ∧ t.2 = false → (requests.watch machine).step t a = some t' →
      (Sole t'.1 ∧ t'.2 = false) ∧ (DropsFreely t a t' ↔ DropsSettled t.1 a t'.1) := by
    intro t a t' ⟨hi, hr⟩ hs
    have hs' := (Observer.watch_step hs).1
    have hr' := requests_none hr hs
    refine ⟨⟨sole_step hi hs', hr'⟩, forall_congr' fun ha => ?_⟩
    subst ha
    rw [hr, hr', leaves_drop_iff hi hs']
    simp
  have hinit : Sole (requests.watch machine).init.1 ∧ (requests.watch machine).init.2 = false :=
    ⟨sole_init, rfl⟩
  constructor
  · exact Machine.Steps.of_invariant (fun t a t' hI hd hs =>
      ⟨(hstep t a t' hI hs).1, (hstep t a t' hI hs).2.mp hd⟩) hinit
  · exact Machine.Steps.of_invariant (fun t a t' hI hd hs =>
      ⟨(hstep t a t' hI hs).1, (hstep t a t' hI hs).2.mpr hd⟩) hinit

/-- An accept that nobody connects to is polled once and dropped. -/
theorem pending_drop_spins : ¬ ∀ as : List Action,
    (requests.watch machine).Steps DropsFreely (requests.watch machine).init as := by
  intro h
  have hasked := (h [.poll 0 true, .owner, .owner, .issue true .pending, .owner, .owner, .drop]).mono
    (Q := fun s a _ => a = .drop → s.1.inFlight = true → s.2 = true) fun _ _ _ _ hd ha => (hd ha).1
  exact absurd hasked (by decide)

end IoEvent

end Wae.Io
