import Wae.Io.OneShot
import Wae.Transition.Observer

/-! Whether an event that is used again still has its wait armed.

Each callback uses up the registration of the wait, and of the ways out of `poll` only the
one that takes a `READY` renews it, after `ResetEvent`. If `ResetEvent` fails, the poll
returns before it has armed the wait, and no later one does: an operation of the same
event that does not complete at once is left `PENDING` with no callback to come. -/
namespace Wae.Io
open Transition

namespace IoEvent

/-- The wait has queued it, and it has not run to its end. -/
def Callback.Here : Callback → Prop
  | .queued _ | .running .. => True
  | .absent | .done => False

/-- What has happened to an event so far. -/
structure History where
  /-- The callbacks queued before the latest operation. -/
  since : Nat
  /-- `ResetEvent` has failed. -/
  failed : Bool
  /-- An operation has been accepted at once. -/
  accepted : Bool

def history : Observer IoEvent Action History where
  init := ⟨0, false, false⟩
  see s a _ r :=
    match a with
    | .resetEvent (some _) => {r with failed := true}
    | .issue _ (.accepted _) => {r with since := s.fired, accepted := true}
    | .issue _ (.failed _) | .issue _ .pending => {r with since := s.fired}
    | _ => r

/-- A wait that is armed, or a callback of it since the operation was begun. -/
def Served (s : IoEvent) (since : Nat) : Prop :=
  s.armed = true ∨ ∃ k, since < k ∧ (s.callbacks k).Here

/-- Where the word is `PENDING` afterwards, there is somebody to wake the owner. -/
def WaitsArmed (_ : IoEvent × History) (_ : Action) (s' : IoEvent × History) : Prop :=
  s'.1.state = .pending → s'.1.Served s'.2.since

/-- Once an operation has been accepted, no other is begun. -/
def StopsAtSuccess (s : IoEvent × History) (a : Action) (_ : IoEvent × History) : Prop :=
  ∀ clears answer, a = .issue clears answer → s.2.accepted = false

/-- No operation is left pending once `ResetEvent` has failed. -/
def PendsReset (s : IoEvent × History) (a : Action) (_ : IoEvent × History) : Prop :=
  a = .owner → s.1.owner = .setPending → s.2.failed = false

/-! ### While `ResetEvent` has not failed -/

/-- The closure has returned `Pending`, and the word is not `PENDING` yet. -/
def Owner.begun : Owner → Bool
  | .registerPending | .setPending => true
  | _ => false

def Armed (s : IoEvent) : Prop := s.armed = true ∧ s.signaled = false

/-- The wait is armed, or has queued a callback for the operation, which has completed. -/
def Serves (s : IoEvent) (since : Nat) (c : Callback → Prop) : Prop :=
  s.armed = true ∨ since < s.fired ∧ c (s.callbacks s.fired) ∧ s.inFlight = false

/-- Between operations the wait is armed on an event that is not signaled. -/
structure Rearmed (s : IoEvent) (since : Nat) : Prop where
  calm : s.signaled = true → s.inFlight = false
  le : since ≤ s.fired
  rests : s.state = .idle ∨ s.owner = .issue ∨ s.owner.rearms = true → s.life.over = false → Armed s
  reset : ∀ handle, s.owner = .setThreadpoolWait handle → s.signaled = false
  begun : s.owner.begun = true → Serves s since fun c => ∃ result, c = .queued result
  waits : s.state = .pending → Serves s since Callback.Awaited
  closed : s.life.over = true → s.state ≠ .pending

variable {s s' : IoEvent} {since : Nat}

theorem rearmed_init : Rearmed init 0 where
  calm := nofun
  le := Nat.le_refl 0
  rests := fun _ _ => ⟨rfl, rfl⟩
  reset := nofun
  begun := nofun
  waits := nofun
  closed := nofun

theorem Busy.alive (h : Busy s) (ho : s.owner ≠ .outside) : s.life = .alive := by
  by_contra hl
  exact ho (h.left hl)

/-- The event and its wait stay as they are, and so do the word and the operation. -/
structure Still (s s' : IoEvent) : Prop where
  armed : s'.armed = s.armed
  signaled : s'.signaled = s.signaled
  fired : s'.fired = s.fired
  callbacks : s'.callbacks = s.callbacks
  inFlight : s'.inFlight = s.inFlight
  state : s'.state = s.state
  life : s'.life = s.life

theorem Serves.still {c : Callback → Prop} (h : Serves s since c) (hs : Still s s') :
    Serves s' since c := by
  unfold Serves
  rw [hs.armed, hs.fired, hs.callbacks, hs.inFlight]
  exact h

/-- A step of the owner's that only takes it on. -/
theorem Rearmed.proceed (h : Rearmed s since) (hs : Still s s')
    (hrests : s'.owner = .issue ∨ s'.owner.rearms = true → Armed s)
    (hreset : ∀ handle, s'.owner = .setThreadpoolWait handle → s.signaled = false)
    (hbegun : s'.owner.begun = true → s.owner.begun = true) : Rearmed s' since where
  calm := by
    rw [hs.signaled, hs.inFlight]
    exact h.calm
  le := by
    rw [hs.fired]
    exact h.le
  rests := fun hr hl => by
    rw [hs.state] at hr
    rw [hs.life] at hl
    unfold Armed
    rw [hs.armed, hs.signaled]
    exact hr.elim (fun hw => h.rests (.inl hw) hl) hrests
  reset := fun handle ho => hs.signaled.trans (hreset handle ho)
  begun := fun hb => (h.begun (hbegun hb)).still hs
  waits := fun hw => (h.waits (hs.state ▸ hw)).still hs
  closed := by
    rw [hs.life, hs.state]
    exact h.closed

/-! ### Callbacks -/

theorem Callback.awaited_of_exchanges {c : Callback} (h : c.exchanges = true) : c.Awaited := by
  cases c with
  | running result pc =>
    cases pc with
    | callbackPending => trivial
    | set | setReady | wake => cases h
  | absent | queued | done => cases h

theorem Callback.Awaited.not_past {c : Callback} (h : c.Awaited) : ¬ c.Past := by
  cases c with
  | running result pc =>
    cases pc with
    | callbackPending => exact id
    | set | setReady | wake => exact h.elim
  | queued => exact id
  | absent | done => exact h.elim

theorem Callback.Awaited.here {c : Callback} (h : c.Awaited) : c.Here := by
  cases c with
  | queued | running => trivial
  | absent | done => exact h

/-- A callback that is to make its exchange is the latest. -/
theorem Sole.latest (h : Sole s) {k : Nat} (hc : (s.callbacks k).Awaited) : k = s.fired := by
  rcases Nat.lt_trichotomy k s.fired with hlt | heq | hgt
  · exact absurd (h.older k hlt) hc.not_past
  · exact heq
  · rw [h.fresh k hgt] at hc
    exact hc.elim

/-- A callback takes the word for the operation, and not before that has completed. -/
theorem Rearmed.not_intrudes (hb : Busy s) (h : Rearmed s since) (a : Action) : ¬ s.Intrudes a := by
  cases a with
  | callback k =>
    intro ⟨hc, hw, hin⟩
    have hawaited := Callback.awaited_of_exchanges hc
    obtain rfl := hb.sole.latest hawaited
    rcases h.waits hw with harmed | ⟨_, _, hout⟩
    · exact hawaited.not_past (hb.sole.armed harmed)
    · exact absurd (hout.symm.trans hin) nofun
  | _ => exact id

theorem callback_others {k j : Nat} (hs : s.callback k = some s') (h : j ≠ k) :
    s'.callbacks j = s.callbacks j := by
  cases callback_cases hs <;> exact setCallback_other s _ h

theorem Owner.begun_scheduling {owner : Owner} {word : IoState} (h : owner.begun = true)
    (hf : owner.Fits word) : word = .scheduling := by
  cases owner with
  | registerPending | setPending => exact hf
  | _ => cases h

/-- While the word is `SCHEDULING`, a queued callback waits. -/
theorem callback_scheduling {k : Nat} {result : UInt32} (hw : s.state = .scheduling)
    (hq : s.callbacks s.fired = .queued result) (hs : s.callback k = some s') :
    s'.callbacks s.fired = .queued result := by
  by_cases hk : s.fired = k
  · subst hk
    cases callback_cases hs with
    | begins _ hc hspin => exact absurd hw hspin
    | taken _ hc | missed _ hc | set _ hc | setReady _ hc | wake _ hc => cases hq.symm.trans hc
  · exact (callback_others hs hk).trans hq

/-- While the word is `PENDING`, it goes on to its exchange. -/
theorem callback_pending {k : Nat} (hw : s'.state = .pending)
    (hq : (s.callbacks s.fired).Awaited) (hs : s.callback k = some s') :
    (s'.callbacks s.fired).Awaited := by
  by_cases hk : s.fired = k
  · subst hk
    cases callback_cases hs with
    | begins result hc hspin =>
      rw [setCallback_same]
      trivial
    | missed _ hc hne => exact absurd hw hne
    | taken | setReady => cases hw
    | set _ hc | wake _ hc =>
      rw [hc] at hq
      exact hq.elim
  · rw [callback_others hs hk]
    exact hq

/-- A callback leaves the word, or takes it from `PENDING`, or makes it `READY`. -/
theorem callback_word {k : Nat} (hs : s.callback k = some s') :
    s'.state = s.state ∨ s'.state = .callback ∨ s'.state = .ready := by
  cases callback_cases hs with
  | taken => exact .inr (.inl rfl)
  | setReady => exact .inr (.inr rfl)
  | begins | missed | set | wake => exact .inl rfl

theorem callback_word_eq {k : Nat} {word : IoState} (hs : s.callback k = some s')
    (hw : s'.state = word) (hc : word ≠ .callback) (hr : word ≠ .ready) : s.state = word := by
  rcases callback_word hs with h | h | h
  · exact h.symm.trans hw
  · exact absurd (hw.symm.trans h) hc
  · exact absurd (hw.symm.trans h) hr

theorem rearmed_callback {k : Nat} (hb : Busy s) (h : Rearmed s since)
    (hs : s.callback k = some s') : Rearmed s' since := by
  have hk := callback_keeps hs
  refine ⟨?_, ?_, fun hr hl => ?_, fun handle ho => ?_, fun ho => ?_, fun hw => ?_, fun hl hw => ?_⟩
  · rw [hk.signaled, hk.inFlight]
    exact h.calm
  · rw [hk.fired]
    exact h.le
  · rw [hk.owner] at hr
    rw [hk.life] at hl
    unfold Armed
    rw [hk.armed, hk.signaled]
    exact h.rests (hr.imp_left fun hw => callback_word_eq hs hw nofun nofun) hl
  · rw [hk.owner] at ho
    rw [hk.signaled]
    exact h.reset handle ho
  · rw [hk.owner] at ho
    have hsched := Owner.begun_scheduling ho hb.sole.owner
    unfold Serves
    rw [hk.armed, hk.fired, hk.inFlight]
    exact (h.begun ho).imp_right fun ⟨hlt, ⟨result, hc⟩, hin⟩ =>
      ⟨hlt, ⟨result, callback_scheduling hsched hc hs⟩, hin⟩
  · have hpending := callback_word_eq hs hw nofun nofun
    unfold Serves
    rw [hk.armed, hk.fired, hk.inFlight]
    exact (h.waits hpending).imp_right fun ⟨hlt, hc, hin⟩ =>
      ⟨hlt, callback_pending hw hc hs, hin⟩
  · rw [hk.life] at hl
    exact h.closed hl (callback_word_eq hs hw nofun nofun)

/-! ### The other steps -/

/-- What a step adds to the history that matters here. -/
def sinceNext (s : IoEvent) (a : Action) (since : Nat) : Nat :=
  match a with
  | .issue .. => s.fired
  | _ => since

/-- Between operations there is none in flight. -/
theorem Busy.grounded (h : Busy s)
    (hr : s.state = .idle ∨ s.owner = .issue ∨ s.owner.rearms = true) : s.inFlight = false := by
  refine Bool.eq_false_iff.mpr fun hin => ?_
  have hfits := h.sole.owner
  rcases h.flying hin with hw | ho | ho
  · rw [hw] at hr hfits
    rcases hr with hidle | ho | ho
    · cases hidle
    · rw [ho] at hfits
      cases hfits
    · cases howner : s.owner <;> rw [howner] at ho hfits <;> simp [Owner.rearms, Owner.Fits] at ho hfits
  all_goals
    rw [ho] at hr hfits
    rcases hr with hidle | ho' | ho'
    · exact nomatch hidle.symm.trans hfits
    · cases ho'
    · cases ho'

theorem rearmed_fire (h : Rearmed s since) (hsignaled : s.signaled = true) : Rearmed
    {s.setCallback (s.fired + 1) (.queued 0) with armed := false, fired := s.fired + 1} since := by
  have hserves {c : Callback → Prop} (hc : c (.queued 0)) : Serves
      {s.setCallback (s.fired + 1) (.queued 0) with armed := false, fired := s.fired + 1} since c := by
    refine .inr ⟨Nat.lt_succ_of_le h.le, ?_, h.calm hsignaled⟩
    show c ((s.setCallback (s.fired + 1) (.queued 0)).callbacks (s.fired + 1))
    rw [setCallback_same]
    exact hc
  refine ⟨h.calm, Nat.le_succ_of_le h.le, fun hr hl => ?_, h.reset, fun _ => hserves ⟨0, rfl⟩,
    fun _ => hserves trivial, h.closed⟩
  -- Between operations it is not signaled.
  have hsilent : s.signaled = false := (h.rests hr hl).2
  exact nomatch hsignaled.symm.trans hsilent

/-- The operation in flight completes. -/
theorem rearmed_complete (hb : Busy s) (h : Rearmed s since) (hin : s.inFlight = true)
    (status : UInt32) :
    Rearmed {s with inFlight := false, status := status, signaled := true} since := by
  have hserves {c : Callback → Prop} (hc : Serves s since c) :
      Serves {s with inFlight := false, status := status, signaled := true} since c :=
    hc.imp_right fun ⟨hlt, hc, _⟩ => ⟨hlt, hc, rfl⟩
  refine ⟨fun _ => rfl, h.le, fun hr hl => ?_, fun handle ho => ?_, fun ho => hserves (h.begun ho),
    fun hw => hserves (h.waits hw), h.closed⟩
  · exact nomatch (hb.grounded hr).symm.trans hin
  · have hfits := hb.sole.owner
    rw [show s.owner = .setThreadpoolWait handle from ho] at hfits
    have hword : s.state = .ready := hfits
    have hout := hb.free (by rw [hword]; nofun) (by rw [show s.owner = _ from ho]; nofun)
      (by rw [show s.owner = _ from ho]; nofun)
    exact nomatch hout.symm.trans hin

theorem rearmed_issue {clears : Bool} {answer : Answer} (hb : Busy s) (h : Rearmed s since)
    (ho : s.owner = .issue) (ha : ∀ signals, answer ≠ .accepted signals) :
    Rearmed (s.pollIssue clears answer) s.fired := by
  have halive := hb.alive (by rw [ho]; nofun)
  have hover : s.life.over = false := by
    rw [halive]
    rfl
  obtain ⟨harmed, hsilent⟩ := h.rests (.inr (.inl ho)) hover
  have hsilent' : (s.signaled && !clears) = false := by
    rw [hsilent]
    rfl
  cases answer with
  | accepted signals => exact absurd rfl (ha signals)
  | failed err =>
    exact ⟨fun hs => absurd (hsilent'.symm.trans hs) nofun, Nat.le_refl _,
      fun _ _ => ⟨harmed, hsilent'⟩, nofun, nofun, fun _ => .inl harmed, h.closed⟩
  | pending =>
    exact ⟨fun hs => absurd (hsilent'.symm.trans hs) nofun, Nat.le_refl _,
      fun _ _ => ⟨harmed, hsilent'⟩, nofun, fun _ => .inl harmed, fun _ => .inl harmed, h.closed⟩

/-- **The step lemma**, where `ResetEvent` does not fail and no operation is accepted. -/
theorem rearmed_step {a : Action} (hb : Busy s) (h : Rearmed s since)
    (hreset : ∀ err, a ≠ .resetEvent (some err))
    (haccepted : ∀ clears signals, a ≠ .issue clears (.accepted signals))
    (hs : step s a = some s') : Rearmed s' (sinceNext s a since) := by
  have hover (ho : s.owner ≠ .outside) : s.life.over = false := by
    rw [hb.alive ho]
    rfl
  cases step_cases hs with
  | poll waker handle ho hl =>
    exact h.proceed ⟨rfl, rfl, rfl, rfl, rfl, rfl, rfl⟩ (fun hr => hr.elim nofun nofun) nofun nofun
  | finish handle ho =>
    unfold pollFinish
    split
    · exact h.proceed ⟨rfl, rfl, rfl, rfl, rfl, rfl, rfl⟩ (fun hr => hr.elim nofun nofun) nofun nofun
    · exact h.proceed ⟨rfl, rfl, rfl, rfl, rfl, rfl, rfl⟩ (fun hr => hr.elim nofun nofun) nofun nofun
  | resetEvent handle err ho =>
    cases err with
    | some err => exact absurd rfl (hreset err)
    | none =>
      have hfits := hb.sole.owner
      rw [ho] at hfits
      have hword : s.state = .ready := hfits
      refine ⟨nofun, h.le, fun hr _ => ?_, fun _ _ => rfl, nofun, h.waits, h.closed⟩
      rcases hr with hw | ho' | ho'
      · exact nomatch hword.symm.trans hw
      · cases ho'
      · cases ho'
  | setThreadpoolWait handle ho =>
    have hsilent := h.reset handle ho
    exact ⟨h.calm, h.le, fun _ _ => ⟨rfl, hsilent⟩, nofun, nofun, fun _ => .inl rfl, h.closed⟩
  | get handle ho =>
    have hrests := h.rests (.inr (.inr (by rw [ho]; rfl))) (hover (by rw [ho]; nofun))
    unfold pollGet
    split
    all_goals
      exact h.proceed ⟨rfl, rfl, rfl, rfl, rfl, rfl, rfl⟩ (fun _ => hrests) nofun nofun
  | getOverlappedResult ho =>
    have hrests := h.rests (.inr (.inr (by rw [ho]; rfl))) (hover (by rw [ho]; nofun))
    exact h.proceed ⟨rfl, rfl, rfl, rfl, rfl, rfl, rfl⟩ (fun _ => hrests) nofun nofun
  | schedule ho hidle =>
    have hrests := h.rests (.inl hidle) (hover (by rw [ho]; nofun))
    exact ⟨h.calm, h.le, fun _ _ => hrests, nofun, nofun, nofun, fun _ => nofun⟩
  | busy ho =>
    exact h.proceed ⟨rfl, rfl, rfl, rfl, rfl, rfl, rfl⟩ (fun hr => hr.elim nofun nofun) nofun nofun
  | issue clears answer ho =>
    exact rearmed_issue hb h ho fun signals hans => haccepted clears signals (by rw [hans])
  | setIdle reading ho =>
    have hrests := h.rests (.inr (.inr (by rw [ho]; rfl))) (hover (by rw [ho]; nofun))
    exact ⟨h.calm, h.le, fun _ _ => hrests, nofun, nofun, nofun, fun _ => nofun⟩
  | registerPending ho =>
    exact h.proceed ⟨rfl, rfl, rfl, rfl, rfl, rfl, rfl⟩ (fun hr => hr.elim nofun nofun) nofun
      (fun _ => by rw [ho]; rfl)
  | setPending ho =>
    have hbegun := h.begun (by rw [ho]; rfl)
    have hopen := hover (by rw [ho]; nofun)
    refine ⟨h.calm, h.le, nofun, nofun, nofun, fun _ => ?_, fun hl => nomatch hopen.symm.trans hl⟩
    refine hbegun.imp_right fun ⟨hlt, ⟨result, hc⟩, hin⟩ => ⟨hlt, ?_, hin⟩
    show (s.callbacks s.fired).Awaited
    rw [hc]
    trivial
  | register ho =>
    exact h.proceed ⟨rfl, rfl, rfl, rfl, rfl, rfl, rfl⟩ (fun hr => hr.elim nofun nofun) nofun nofun
  | complete status hin => exact rearmed_complete hb h hin status
  | fire _ hsignaled => exact rearmed_fire h hsignaled
  | callback k hcall => exact rearmed_callback hb h hcall
  | drop hl ho =>
    refine ⟨h.calm, h.le, fun hr _ => h.rests hr ?_, h.reset, h.begun, h.waits, nofun⟩
    rw [hl]
    rfl
  | unbusy hl hw =>
    refine ⟨h.calm, h.le, fun _ => nofun, h.reset, h.begun, h.waits, fun _ hp => ?_⟩
    rcases hw with hw | hw <;> exact nomatch hw.symm.trans hp
  | closeThreadpoolWait hl =>
    have ho := hb.left (by rw [hl]; nofun)
    have hclosed := h.closed (by rw [hl]; rfl)
    refine ⟨h.calm, h.le, fun _ => nofun, h.reset, fun hbegun => ?_, fun hw => absurd hw hclosed,
      fun _ => hclosed⟩
    rw [show s.owner = .outside from ho] at hbegun
    cases hbegun
  | release hl =>
    have hclosed := h.closed (by rw [hl]; rfl)
    exact ⟨h.calm, h.le, fun _ => nofun, h.reset, h.begun, fun hw => absurd hw hclosed,
      fun _ => hclosed⟩

/-! ### Once it has failed, or an operation has been accepted -/

/-- The word goes between `IDLE` and `SCHEDULING`, or back to `IDLE`. -/
def Parked (s : IoEvent) : Prop :=
  s.state = .idle ∨ s.state = .scheduling ∨ s.state = .ready ∧ ∃ reading, s.owner = .setIdle reading

theorem Parked.not_intrudes (h : Parked s) (a : Action) : ¬ s.Intrudes a := by
  cases a with
  | callback k =>
    intro ⟨_, hw, _⟩
    rcases h with hq | hq | ⟨hq, _⟩ <;> exact nomatch hq.symm.trans hw
  | _ => exact id

/-- A step where the word stays. -/
theorem Parked.stays (h : Parked s) (hw : s'.state = s.state)
    (ho : ∀ reading, s.owner ≠ .setIdle reading) : Parked s' := by
  unfold Parked
  rw [hw]
  rcases h with hq | hq | ⟨_, reading, hq⟩
  · exact .inl hq
  · exact .inr (.inl hq)
  · exact absurd hq (ho reading)

theorem Parked.not_ready (h : Parked s) (ho : ∀ reading, s.owner ≠ .setIdle reading) :
    s.state ≠ .ready := by
  intro hw
  rcases h with hq | hq | ⟨_, reading, hq⟩
  · exact nomatch hq.symm.trans hw
  · exact nomatch hq.symm.trans hw
  · exact ho reading hq

/-- A step that no owner takes and that leaves the word. -/
theorem Parked.aside (h : Parked s) (hw : s'.state = s.state) (ho : s'.owner = s.owner) :
    Parked s' := by
  unfold Parked
  rw [hw, ho]
  exact h

/-- A callback leaves a word alone that it has not taken and cannot take. -/
theorem callback_leaves {k : Nat} (hi : Sole s) (hp : s.state ≠ .pending) (hc : s.state ≠ .callback)
    (hs : s.callback k = some s') : s'.state = s.state := by
  cases callback_cases hs with
  | begins | missed | set | wake => rfl
  | taken _ _ hw => exact absurd hw hp
  | setReady result hk =>
    have hlatest : k = s.fired := by
      refine Nat.le_antisymm (hi.le_fired hs) (Nat.le_of_not_lt fun hlt => ?_)
      have hpast := hi.older k hlt
      rw [hk] at hpast
      exact hpast
    subst hlatest
    have hinside : s.state = .callback := by
      refine hi.inside.mpr ?_
      rw [hk]
      trivial
    exact absurd hinside hc

theorem parked_callback {k : Nat} (hi : Sole s) (h : Parked s) (hs : s.callback k = some s') :
    Parked s' := by
  have hword : s.state ≠ .pending ∧ s.state ≠ .callback := by
    rcases h with hq | hq | ⟨hq, _⟩ <;> rw [hq] <;> exact ⟨nofun, nofun⟩
  exact h.aside (callback_leaves hi hword.1 hword.2 hs) (callback_keeps hs).owner

theorem parked_step {a : Action} (hi : Sole s) (h : Parked s)
    (hp : a = .owner → s.owner ≠ .setPending) (hs : step s a = some s') : Parked s' := by
  have hfits := hi.owner
  cases step_cases hs with
  | poll waker handle ho => exact h.stays rfl (by rw [ho]; nofun)
  | finish handle ho =>
    refine h.stays ?_ (by rw [ho]; nofun)
    rfl
  | resetEvent handle err ho | setThreadpoolWait handle ho | get handle ho
  | getOverlappedResult ho =>
    rw [ho] at hfits
    exact absurd hfits (h.not_ready (by rw [ho]; nofun))
  | schedule => exact .inr (.inl rfl)
  | busy ho => exact h.stays rfl (by rw [ho]; nofun)
  | issue clears answer ho =>
    refine h.stays ?_ (by rw [ho]; nofun)
    cases answer <;> rfl
  | setIdle => exact .inl rfl
  | registerPending ho => exact h.stays rfl (by rw [ho]; nofun)
  | setPending ho => exact absurd ho (hp rfl)
  | register ho => exact h.stays rfl (by rw [ho]; nofun)
  | callback k hcall => exact parked_callback hi h hcall
  | complete | fire | drop | unbusy | closeThreadpoolWait | release => exact h.aside rfl rfl

/-- An operation that is pending is one that has just been begun. -/
theorem begun_step {a : Action} (hs : step s a = some s') (hb : s'.owner.begun = true) :
    (∃ clears, a = .issue clears .pending) ∨ s.owner.begun = true := by
  cases step_cases hs with
  | finish =>
    revert hb
    unfold pollFinish
    split <;> nofun
  | resetEvent handle err =>
    cases err <;> cases hb
  | get =>
    revert hb
    unfold pollGet
    split <;> nofun
  | issue clears answer =>
    cases answer with
    | pending => exact .inl ⟨clears, rfl⟩
    | accepted | failed => cases hb
  | registerPending ho =>
    right
    rw [ho]
    rfl
  | callback k hcall =>
    rw [(callback_keeps hcall).owner] at hb
    exact .inr hb
  | complete | fire | drop | unbusy | closeThreadpoolWait | release => exact .inr hb
  | poll | setThreadpoolWait | getOverlappedResult | schedule | busy | setIdle | setPending | register =>
    cases hb

/-! ### Along a run -/

/-- What the history says of the event. -/
structure Followed (s : IoEvent) (r : History) : Prop where
  busy : Busy s
  rearmed : r.failed = false → r.accepted = false → Rearmed s r.since
  disarmed : r.failed = true → s.armed = false ∧ (s.owner.begun = true → r.since = s.fired)
  parked : r.failed = true ∨ r.accepted = true → Parked s
  ended : r.accepted = true → s.owner.begun = false

theorem followed_init : Followed init history.init where
  busy := busy_init
  rearmed := fun _ _ => rearmed_init
  disarmed := nofun
  parked := fun h => h.elim nofun nofun
  ended := nofun

theorem Followed.not_intrudes {r : History} (h : Followed s r) (a : Action) : ¬ s.Intrudes a := by
  by_cases hq : r.failed = true ∨ r.accepted = true
  · exact (h.parked hq).not_intrudes a
  · obtain ⟨hf, ha⟩ := not_or.mp hq
    exact (h.rearmed (Bool.eq_false_iff.mpr hf) (Bool.eq_false_iff.mpr ha)).not_intrudes h.busy a

/-- Nothing arms the wait, and so nothing is queued. -/
theorem Parked.disarmed (hi : Sole s) (h : Parked s) (ha : s.armed = false) {a : Action}
    (hs : step s a = some s') : s'.armed = false ∧ s'.fired = s.fired := by
  cases step_cases hs with
  | setThreadpoolWait handle ho =>
    have hfits := hi.owner
    rw [ho] at hfits
    exact absurd hfits (h.not_ready (by rw [ho]; nofun))
  | fire harmed => exact nomatch ha.symm.trans harmed
  | callback k hcall =>
    have hk := callback_keeps hcall
    exact ⟨hk.armed.trans ha, hk.fired⟩
  | closeThreadpoolWait => exact ⟨rfl, rfl⟩
  | resetEvent handle err =>
    cases err <;> exact ⟨ha, rfl⟩
  | get handle =>
    obtain ⟨owner, heq, _⟩ := s.pollGet_eq handle
    rw [heq]
    exact ⟨ha, rfl⟩
  | issue clears answer =>
    cases answer <;> exact ⟨ha, rfl⟩
  | poll | finish | getOverlappedResult | schedule | busy | setIdle | registerPending | setPending
  | register | complete | drop | unbusy | release => exact ⟨ha, rfl⟩

theorem see_since (a : Action) (r : History) : (history.see s a s' r).since = sinceNext s a r.since := by
  cases a with
  | resetEvent err => cases err <;> rfl
  | issue clears answer => cases answer <;> rfl
  | _ => rfl

theorem see_failed (a : Action) (r : History) : (history.see s a s' r).failed = true ↔
    r.failed = true ∨ ∃ err, a = .resetEvent (some err) := by
  cases a with
  | resetEvent err => cases err <;> simp [history]
  | issue clears answer => cases answer <;> simp [history]
  | _ => simp [history]

theorem see_accepted (a : Action) (r : History) : (history.see s a s' r).accepted = true ↔
    r.accepted = true ∨ ∃ clears signals, a = .issue clears (.accepted signals) := by
  cases a with
  | resetEvent err => cases err <;> simp [history]
  | issue clears answer => cases answer <;> simp [history]
  | _ => simp [history]

/-- `ResetEvent` fails on a `READY`, which no one has armed the wait for. -/
theorem resetEvent_fails {err : Int32} (hi : Sole s) (hs : step s (.resetEvent (some err)) = some s') :
    s'.armed = false ∧ s'.owner.begun = false ∧ Parked s' := by
  cases step_cases hs with
  | resetEvent handle _ ho =>
    have hfits := hi.owner
    rw [ho] at hfits
    have hready := (hi.ready hfits).resolve_left (by rw [ho]; nofun)
    exact ⟨hready.1, rfl, .inr (.inr ⟨hfits, _, rfl⟩)⟩

theorem issue_accepted {clears signals : Bool} (hi : Sole s)
    (hs : step s (.issue clears (.accepted signals)) = some s') :
    s'.owner.begun = false ∧ Parked s' := by
  cases step_cases hs with
  | issue _ _ ho =>
    have hfits := hi.owner
    rw [ho] at hfits
    exact ⟨rfl, .inr (.inl hfits)⟩

variable {t t' : IoEvent × History} {a : Action}

theorem followed_step (h : Followed t.1 t.2) (hstop : StopsAtSuccess t a t')
    (hreset : PendsReset t a t') (hw : (history.watch machine).step t a = some t') :
    Followed t'.1 t'.2 := by
  obtain ⟨hs, hr⟩ := Observer.watch_step hw
  have hs : step t.1 a = some t'.1 := hs
  have hi := h.busy.sole
  have hparked (hq : t.2.failed = true ∨ t.2.accepted = true) : Parked t'.1 := by
    refine parked_step hi (h.parked hq) (fun ha ho => ?_) hs
    rcases hq with hf | hacc
    · exact nomatch (hreset ha ho).symm.trans hf
    · have hended := h.ended hacc
      rw [ho] at hended
      cases hended
  rw [hr]
  refine ⟨busy_step h.busy (h.not_intrudes a) hs, fun hf hacc => ?_, fun hf => ?_, fun hq => ?_,
    fun hacc => ?_⟩
  · obtain ⟨hf, hnr⟩ := not_or.mp (mt (see_failed a t.2).mpr (Bool.eq_false_iff.mp hf))
    obtain ⟨hacc, hna⟩ := not_or.mp (mt (see_accepted a t.2).mpr (Bool.eq_false_iff.mp hacc))
    have hrearmed := h.rearmed (Bool.eq_false_iff.mpr hf) (Bool.eq_false_iff.mpr hacc)
    rw [see_since]
    exact rearmed_step h.busy hrearmed (fun err ha => hnr ⟨err, ha⟩)
      (fun clears signals ha => hna ⟨clears, signals, ha⟩) hs
  · rcases (see_failed a t.2).mp hf with hf | ⟨err, rfl⟩
    · obtain ⟨hdisarmed, hsince⟩ := h.disarmed hf
      obtain ⟨harmed, hfired⟩ := (h.parked (.inl hf)).disarmed hi hdisarmed hs
      refine ⟨harmed, fun hb => ?_⟩
      rw [see_since, hfired]
      rcases begun_step hs hb with ⟨clears, rfl⟩ | hb
      · rfl
      · unfold sinceNext
        split
        · rfl
        · exact hsince hb
    · obtain ⟨harmed, hb', _⟩ := resetEvent_fails hi hs
      exact ⟨harmed, fun hb => nomatch hb'.symm.trans hb⟩
  · rcases hq with hf | hacc
    · rcases (see_failed a t.2).mp hf with hf | ⟨err, rfl⟩
      · exact hparked (.inl hf)
      · exact (resetEvent_fails hi hs).2.2
    · rcases (see_accepted a t.2).mp hacc with hacc | ⟨clears, signals, rfl⟩
      · exact hparked (.inr hacc)
      · exact (issue_accepted hi hs).2
  · rcases (see_accepted a t.2).mp hacc with hacc | ⟨clears, signals, rfl⟩
    · refine Bool.eq_false_iff.mpr fun hb => ?_
      rcases begun_step hs hb with ⟨clears, rfl⟩ | hb
      · exact nomatch (hstop clears _ rfl).symm.trans hacc
      · exact nomatch (h.ended hacc).symm.trans hb
    · exact (issue_accepted hi hs).1

/-- Wherever the word is `PENDING`, neither has happened, and somebody will wake. -/
theorem Followed.served {r : History} (h : Followed s r) (hw : s.state = .pending) :
    s.Served r.since := by
  have hnot : ¬ (r.failed = true ∨ r.accepted = true) := fun hq => by
    rcases h.parked hq with hq | hq | ⟨hq, _⟩ <;> exact nomatch hq.symm.trans hw
  obtain ⟨hf, hacc⟩ := not_or.mp hnot
  have hrearmed := h.rearmed (Bool.eq_false_iff.mpr hf) (Bool.eq_false_iff.mpr hacc)
  exact (hrearmed.waits hw).imp_right fun ⟨hlt, hc, _⟩ => ⟨s.fired, hlt, hc.here⟩

/-- An operation left pending after a failed `ResetEvent` has nobody to wake its owner. -/
theorem Followed.pendsReset (h : Followed t.1 t.2)
    (hw : (history.watch machine).step t a = some t') (hp : WaitsArmed t a t') :
    PendsReset t a t' := by
  rintro rfl ho
  refine Bool.eq_false_iff.mpr fun hf => ?_
  obtain ⟨hs, hr⟩ := Observer.watch_step hw
  have hs' : t'.1 = t.1.pollSetPending := by
    have hs : step t.1 .owner = some t'.1 := hs
    simp only [step, owned, ho, Option.some.injEq] at hs
    exact hs.symm
  obtain ⟨hdisarmed, hsince⟩ := h.disarmed hf
  have hserved := hp (by rw [hs']; rfl)
  rw [hs', hr, see_since] at hserved
  rcases hserved with harmed | ⟨k, hlt, hc⟩
  · cases hdisarmed.symm.trans harmed
  · have hfired : t.2.since = t.1.fired := hsince (by rw [ho]; rfl)
    have hlt : t.1.fired < k := hfired ▸ hlt
    have hc : (t.1.callbacks k).Here := hc
    rw [h.busy.sole.fresh k hlt] at hc
    exact hc

theorem pendsReset_of_waitsArmed {as : List Action}
    (h : (history.watch machine).Steps StopsAtSuccess (history.watch machine).init as)
    (hp : (history.watch machine).Steps WaitsArmed (history.watch machine).init as) :
    (history.watch machine).Steps PendsReset (history.watch machine).init as := by
  apply Machine.Steps.of_invariant (I := fun t => Followed t.1 t.2) _ followed_init (h.and hp)
  intro t a t' hi ⟨hstop, hp⟩ hw
  have hreset := hi.pendsReset hw hp
  exact ⟨followed_step hi hstop hreset hw, hreset⟩

theorem waitsArmed_of_pendsReset {as : List Action}
    (h : (history.watch machine).Steps StopsAtSuccess (history.watch machine).init as)
    (hc : (history.watch machine).Steps PendsReset (history.watch machine).init as) :
    (history.watch machine).Steps WaitsArmed (history.watch machine).init as := by
  apply Machine.Steps.of_invariant (I := fun t => Followed t.1 t.2) _ followed_init (h.and hc)
  intro t a t' hi ⟨hstop, hreset⟩ hw
  have hi' := followed_step hi hstop hreset hw
  exact ⟨hi', fun hpending => hi'.served hpending⟩

/-- **An event that waits has its wait armed**, or its callback to come, exactly when no
operation is left pending after `ResetEvent` has failed. -/
theorem waits_armed_iff (as : List Action)
    (h : (history.watch machine).Steps StopsAtSuccess (history.watch machine).init as) :
    (history.watch machine).Steps WaitsArmed (history.watch machine).init as ↔
      (history.watch machine).Steps PendsReset (history.watch machine).init as :=
  ⟨pendsReset_of_waitsArmed h, waitsArmed_of_pendsReset h⟩

instance (s : IoEvent × History) : (a : Action) → (s' : IoEvent × History) →
    Decidable (StopsAtSuccess s a s')
  | .issue clears answer, _ =>
    decidable_of_iff (s.2.accepted = false) ⟨fun h _ _ _ => h, fun h => h clears answer rfl⟩
  | .poll .., _ | .owner, _ | .resetEvent _, _ | .complete _, _ | .fire, _ | .callback _, _
  | .drop, _ | .next, _ | .release, _ => isTrue nofun

instance (s : IoEvent × History) (a : Action) (s' : IoEvent × History) :
    Decidable (PendsReset s a s') :=
  inferInstanceAs (Decidable (a = .owner → s.1.owner = .setPending → s.2.failed = false))

/-- One operation fails late and one at once, and the third is left pending. -/
theorem waits_armed_third : (history.watch machine).Steps WaitsArmed (history.watch machine).init
    [.poll 0 true, .owner, .owner, .issue true .pending, .owner, .owner, .complete 5, .fire,
      .callback 1, .callback 1, .callback 1, .callback 1, .callback 1,
      .poll 0 true, .owner, .resetEvent none, .owner, .owner, .owner, .owner,
      .poll 0 true, .owner, .owner, .issue true (.failed (.rawOsError 10051)), .owner,
      .poll 0 true, .owner, .owner, .issue true .pending, .owner, .owner] :=
  (waits_armed_iff _ (by decide)).mpr (by decide)

/-- `ResetEvent` fails after the first operation, and the second is left pending. -/
theorem reset_failure_disarms : ¬ ∀ as : List Action,
    (history.watch machine).Steps StopsAtSuccess (history.watch machine).init as →
    (history.watch machine).Steps WaitsArmed (history.watch machine).init as := by
  intro h
  have hstop : (history.watch machine).Steps StopsAtSuccess (history.watch machine).init
      [.poll 0 true, .owner, .owner, .issue true .pending, .owner, .owner, .complete 5, .fire,
        .callback 1, .callback 1, .callback 1, .callback 1, .callback 1,
        .poll 0 true, .owner, .resetEvent (some 6), .owner,
        .poll 0 true, .owner, .owner, .issue true .pending, .owner, .owner] := by decide
  exact absurd (pendsReset_of_waitsArmed hstop (h _ hstop)) (by decide)

end IoEvent

end Wae.Io
