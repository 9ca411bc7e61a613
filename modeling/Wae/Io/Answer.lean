import Wae.Io.Cancel
import Wae.Io.Release
import Wae.Io.Slot
import Wae.Transition.Countdown

/-! A pending poll is answered.

While the owner stays away, the kernel and the callbacks have so many steps to take on a
half and no more, and each of the callbacks can always go on unless it has to wait for the
latest operation's. So they come to rest, in whatever order they go, and the next poll then
returns what the operation came to. -/
namespace Wae.Io
open Transition Net.Tcp

/-- The steps that the kernel and the callback have yet to take, at most. -/
def Completion.left : Completion → Nat
  | .inFlight => 9
  | .queued _ => 8
  | .running _ .callbackPending => 7
  | .running _ .callbackCancelledNowait => 6
  | .running _ .callbackCancelledWait => 5
  | .running _ .set => 4
  | .running _ .setReady => 3
  | .running _ .wake | .running _ .setReadyOnly => 1
  | .absent | .done => 0

namespace Half

/-- The same, over all operations. -/
def stepsLeft (s : Half) : Nat :=
  ∑ op ∈ Finset.range (s.latest + 1), (s.completion op).left

variable {posts : Bool} {s s' : Half}

/-- The owner is away, and its latest poll has returned `Pending`. -/
structure Away (posts : Bool) (s : Half) : Prop extends Serial posts s where
  uncovered : Uncovered s
  outside : s.owner = .outside
  waiting : s.waiting = true

/-- The word is left to the latest operation, or `READY`. -/
theorem Away.word (h : Away posts s) :
    s.state = .ready ∨ s.state.Owed ∨ s.state = .callback := by
  have howner := h.coherent.owner
  rw [h.outside] at howner
  have hidle := (h.coherent.waiting h.waiting).1
  cases hw : s.state with
  | idle => exact absurd hw hidle
  | scheduling => exact absurd hw howner.1
  | pending => exact .inr (.inl (.inl rfl))
  | callback => exact .inr (.inr rfl)
  | ready => exact .inl rfl
  | cancelledNowait => exact .inr (.inl (.inr (.inl rfl)))
  | cancelledWait => exact .inr (.inl (.inr (.inr rfl)))

theorem stepsLeft_lt {op : Nat} {c : Completion} (hl : s'.latest = s.latest)
    (hcomp : s'.completion = Function.update s.completion op c) (hop : op ≤ s.latest)
    (hlt : c.left < (s.completion op).left) : s'.stepsLeft < s.stepsLeft := by
  unfold stepsLeft
  rw [hl, hcomp]
  exact Machine.sum_update_lt Completion.left hop hlt

theorem callback_left {op : Nat} (hs : s.callback op = some s') :
    ∃ c, s'.completion = Function.update s.completion op c ∧ c.left < (s.completion op).left := by
  cases callback_cases hs with
  | begins _ hc | pendingTaken _ hc | pendingMissed _ hc | nowaitTaken _ hc | nowaitMissed _ hc
  | waitTaken _ hc | waitMissed _ hc | set _ hc | setReady _ hc | wake _ hc | setReadyOnly _ hc =>
    exact ⟨_, rfl, by simp [hc, Completion.left]⟩

/-- **The step lemma**: each step of the kernel and the callbacks is one less to take. -/
theorem away_step {a : Action} (h : Away posts s) (ha : a.Completes) (hq : s.Orderly a)
    (hs : step posts s a = some s') : Away posts s' ∧ s'.stepsLeft < s.stepsLeft := by
  have hserial := serial_step h.toSerial hq hs
  have hfresh : Fresh s := h.coherent.fresh
  have hcovers : SwapsInTime s a s' := by
    cases a <;> first | rfl | cases ha
  have huncovered := uncovered_step h.coherent h.uncovered hq.1 hcovers hs
  cases step_cases hs with
  | complete op packet hc =>
    refine ⟨⟨hserial, huncovered, h.outside, h.waiting⟩, ?_⟩
    refine stepsLeft_lt rfl rfl (hfresh.le (by rw [hc]; nofun)) ?_
    rw [hc]
    exact Nat.lt_succ_self 8
  | callback op hcall =>
    have hkept := callback_kept hcall
    refine ⟨⟨hserial, huncovered, hkept.owner.trans h.outside, hkept.waiting.trans h.waiting⟩, ?_⟩
    obtain ⟨c, hcomp, hlt⟩ := callback_left hcall
    refine stepsLeft_lt hkept.latest hcomp (hfresh.le ?_) hlt
    intro habsent
    simp [habsent, Completion.left] at hlt
  | poll | offer | cancel | finish | get | schedule | busy | issue | registerReady | setIdle
  | setPending | register | cancellable | uncancellable | swap | halfCancel | unbusy => cases ha

/-- The steps of the kernel and the callbacks, as long as they are orderly. -/
def CanStep (posts : Bool) (s : Half) : Prop :=
  ∃ a : Action, a.Completes ∧ (((machine posts).within Orderly).step s a).isSome = true

theorem canStep_of {a : Action} (ha : a.Completes) (hq : s.Orderly a)
    (hs : step posts s a ≠ none) : CanStep posts s := by
  refine ⟨a, ha, ?_⟩
  show (if s.Orderly a then step posts s a else none).isSome = true
  rw [if_pos hq]
  exact Option.isSome_iff_ne_none.mpr hs

/-- The latest operation's completion can always go on. -/
theorem Away.latest_steps (h : Away posts s) (hquiet : ¬ (s.completion s.latest = .absent ∨
    s.completion s.latest = .done)) : CanStep posts s := by
  have howner := h.coherent.owner
  rw [h.outside] at howner
  have horderly : s.Orderly (.callback s.latest) := ⟨fun hi => hi.1 rfl, fun ht => nomatch ht.1⟩
  cases hc : s.completion s.latest with
  | absent => exact absurd (.inl hc) hquiet
  | done => exact absurd (.inr hc) hquiet
  | inFlight =>
    refine canStep_of (a := .complete s.latest ⟨0, 0⟩) trivial ⟨id, fun ht => nomatch ht.1⟩ ?_
    simp [step, complete, hc]
  | queued p => exact canStep_of (a := .callback s.latest) trivial horderly (callback_queued hc howner.1)
  | running p pc => exact canStep_of (a := .callback s.latest) trivial horderly (callback_running hc)

/-- Under `READY` no exchange of a callback succeeds. -/
theorem not_takes_ready (hw : s.state = .ready) (op : Nat) : s.takes op = false := by
  unfold takes
  rw [hw]
  split <;> rfl

/-- **Where no step is left**, the word is `READY` and no callback is on its way: a half
that waits for its latest operation has that operation's steps, and under `READY` each
earlier callback goes through its tests. -/
theorem Away.rests (h : Away posts s) (hno : ¬ CanStep posts s) : s.state = .ready ∧ Quiet s := by
  have hlatest : s.completion s.latest = .absent ∨ s.completion s.latest = .done := by
    by_contra hn
    exact hno (h.latest_steps hn)
  have hready : s.state = .ready := by
    rcases h.word with hw | hw
    · exact hw
    · have hstores := h.coherent.storesReady h.uncovered hw
      rcases hlatest with hc | hc <;> (rw [hc] at hstores; exact hstores.elim)
  refine ⟨hready, fun op => ?_⟩
  have horderly : s.Orderly (.callback op) := by
    refine ⟨fun hi => ?_, fun ht => nomatch ht.1⟩
    have htakes := hi.2
    rw [not_takes_ready hready op] at htakes
    exact nomatch htakes
  by_cases hop : op = s.latest
  · subst hop
    exact hlatest
  · have hrest := h.coherent.older op hop
    cases hc : s.completion op with
    | absent => exact .inl rfl
    | done => exact .inr rfl
    | inFlight => exact absurd hc hrest.not_inFlight
    | queued p =>
      have hspin : s.state ≠ .scheduling := by rw [hready]; decide
      exact absurd (canStep_of (a := .callback op) trivial horderly (callback_queued hc hspin)) hno
    | running p pc =>
      exact absurd (canStep_of (a := .callback op) trivial horderly (callback_running hc)) hno

/-- Nothing is on its way, and a poll with any waker returns what the operation `op` came
to and leaves the half to the next one. -/
structure Answers (posts : Bool) (op : Nat) (s : Half) : Prop where
  quiet : Quiet s
  latest : s.latest = op
  polled : ∀ waker, ∃ result t, s.outcome op = some result ∧
    (machine posts).run s [.poll waker, .owner, .owner, .owner] = some t ∧
    t.returned = some (op, result) :: s.returned ∧ t.state = .idle ∧ t.owner = .outside

/-- A poll that finds `READY` with nobody else at the half. -/
theorem run_poll_ready (ho : s.owner = .outside) (hw : s.state = .ready) (waker : Nat) :
    (machine posts).run s [.poll waker, .owner, .owner, .owner] =
      some {s with
        state := .idle
        owner := .outside
        polled := waker
        woken := false
        waiting := false
        returned := s.reading :: s.returned} := by
  show (step posts s (.poll waker)).bind _ = _
  simp only [step, if_pos ho, Option.bind_some, Machine.run, machine, owned, pollFinish, hw]
  rfl

theorem Away.answers (h : Away posts s) (hno : ¬ CanStep posts s) : Answers posts s.latest s where
  quiet := (h.rests hno).2
  latest := rfl
  polled := fun waker => by
    have hready := (h.rests hno).1
    obtain ⟨result, hout, hreading⟩ := h.faithful.ready hready
    refine ⟨result, _, hout, run_poll_ready h.outside hready waker, ?_, rfl, rfl⟩
    show s.reading :: s.returned = _
    rw [hreading]

/-- What the kernel and the callbacks do is not for another operation. -/
theorem completes_latest {a : Action} (ha : a.Completes) (hs : step posts s a = some s') :
    s'.latest = s.latest := by
  cases step_cases hs with
  | complete => rfl
  | callback op hcall => exact (callback_kept hcall).latest
  | poll | offer | cancel | finish | get | schedule | busy | issue | registerReady | setIdle
  | setPending | register | cancellable | uncancellable | swap | halfCancel | unbusy => cases ha

/-- **A pending poll is answered.** In every orderly run whose swaps come in time, where the
owner is outside and its latest poll returned `Pending`, the kernel and the callbacks have at
most `stepsLeft` steps to take in whatever order; they can come to where none is left; and
wherever none is left, the next poll returns what the operation came to. -/
theorem pending_answered {t : Half} {as cs : List Action}
    (hok : (machine posts).Steps (fun s a s' => s.Orderly a ∧ SwapsInTime s a s') init as)
    (hrun : (machine posts).run init as = some s) (ho : s.owner = .outside)
    (hw : s.waiting = true) (hcs : ∀ a ∈ cs, a.Completes)
    (hrun' : ((machine posts).within Orderly).run s cs = some t) :
    cs.length ≤ s.stepsLeft ∧ (CanStep posts t ∨ Answers posts s.latest t) ∧
    ((machine posts).within Orderly).Leads Action.Completes (Answers posts s.latest) t := by
  have hinv : Serial posts s ∧ Uncovered s :=
    Machine.run_keeps_of (I := fun s => Serial posts s ∧ Uncovered s)
      (fun s a s' h hok hs => ⟨serial_step h.1 hok.1 hs,
        uncovered_step h.1.coherent h.2 hok.1.1 hok.2 hs⟩)
      ⟨⟨coherent_init, faithful_init⟩, uncovered_init⟩ hok hrun
  have hstep : ∀ u a u', Away posts u ∧ u.latest = s.latest → Action.Completes a →
      ((machine posts).within Orderly).step u a = some u' →
      (Away posts u' ∧ u'.latest = s.latest) ∧ u'.stepsLeft < u.stepsLeft := by
    intro u a u' h ha hu
    obtain ⟨hq, hu'⟩ := Machine.within_step hu
    obtain ⟨haway, hlt⟩ := away_step h.1 ha hq hu'
    exact ⟨⟨haway, (completes_latest ha hu').trans h.2⟩, hlt⟩
  have hon : ∀ u, Away posts u ∧ u.latest = s.latest →
      Answers posts s.latest u ∨ CanStep posts u := by
    intro u h
    by_cases hc : CanStep posts u
    · exact .inr hc
    · exact .inl (h.2 ▸ h.1.answers hc)
  exact Machine.comes_to_rest (f := stepsLeft) hstep hon ⟨⟨hinv.1, hinv.2, ho, hw⟩, rfl⟩ hcs hrun'

/-- A poll that went pending, and the operation's packet taken up by a callback. -/
theorem pending_answered_read :
    [Action.complete 1 ⟨0, 7⟩, .callback 1].length ≤ 9 ∧
    ∃ t, ((machine false).within Orderly).Leads Action.Completes (Answers false 1) t := by
  have hrun : (machine false).run init [.poll 0, .owner, .owner, .issue (.failed 997), .owner] =
      some _ := rfl
  have hcs : ∀ a ∈ [Action.complete 1 ⟨0, 7⟩, .callback 1], a.Completes := by
    simp [Action.Completes]
  have hleft := pending_answered (by decide) hrun rfl rfl hcs rfl
  exact ⟨hleft.1, _, hleft.2.2⟩

end Half

end Wae.Io
