import Wae.Io.Arming

/-! The operation of an `IoEvent` and the destructor's wait for it.

While an operation is in flight the word is busy, so that the destructor goes on spinning,
unless a callback takes the word early: one that the wait has queued for a signal of before.
An event that is polled until it is ready, and then no more, as a future is, begins one
operation at most. Until that has completed nothing signals it, and there is no callback. -/
namespace Wae.Io
open Transition

namespace IoEvent

/-- About to make its exchange. -/
def Callback.exchanges : Callback → Bool
  | .running _ .callbackPending => true
  | .absent | .queued _ | .done | .running _ .set | .running _ .setReady | .running _ .wake => false

/-- A callback takes the word while the operation is in flight. -/
def Intrudes (s : IoEvent) : Action → Prop
  | .callback k => (s.callbacks k).exchanges = true ∧ s.state = .pending ∧ s.inFlight = true
  | _ => False

instance (s : IoEvent) : (a : Action) → Decidable (s.Intrudes a)
  | .callback k => inferInstanceAs
      (Decidable ((s.callbacks k).exchanges = true ∧ s.state = .pending ∧ s.inFlight = true))
  | .poll .. | .owner | .resetEvent _ | .issue .. | .complete _ | .fire | .drop | .next | .release =>
    isFalse id

/-- The destructor is past its loop. -/
def Life.over : Life → Bool
  | .closeThreadpoolWait | .closeHandle | .released => true
  | .alive | .isBusy => false

structure Busy (s : IoEvent) : Prop where
  sole : Sole s
  left : s.life ≠ .alive → s.owner = .outside
  flying : s.inFlight = true →
    s.state = .pending ∨ s.owner = .registerPending ∨ s.owner = .setPending
  gone : s.life.over = true → s.inFlight = false

variable {s s' : IoEvent}

theorem busy_init : Busy init where
  sole := sole_init
  left := fun h => absurd rfl h
  flying := nofun
  gone := nofun

/-- Where the word is not `PENDING`, an operation can only have just begun. -/
theorem Busy.free (h : Busy s) (hw : s.state ≠ .pending) (hr : s.owner ≠ .registerPending)
    (hp : s.owner ≠ .setPending) : s.inFlight = false := by
  refine Bool.eq_false_iff.mpr fun hin => ?_
  rcases h.flying hin with hw' | ho | ho
  · exact hw hw'
  · exact hr ho
  · exact hp ho

/-- Before the closure has answered there is none. -/
theorem Busy.issuing (h : Busy s) (ho : s.owner = .issue) : s.inFlight = false := by
  have hword := h.sole.owner
  rw [ho] at hword
  exact h.free (by rw [show s.state = .scheduling from hword]; nofun) (by rw [ho]; nofun)
    (by rw [ho]; nofun)

/-- Nor when the poll is about to return. -/
theorem Busy.returning (h : Busy s) {reading : Reading} (ho : s.owner = .setIdle reading) :
    s.inFlight = false := by
  have hword := h.sole.owner
  rw [ho] at hword
  exact h.free (by rcases hword with hw | hw <;> rw [hw] <;> nofun) (by rw [ho]; nofun)
    (by rw [ho]; nofun)

theorem pollGet_eq (s : IoEvent) (handle : Bool) :
    ∃ owner, s.pollGet handle = {s with owner} ∧ owner ≠ .issue := by
  unfold pollGet
  split
  · exact ⟨_, rfl, nofun⟩
  · exact ⟨_, rfl, nofun⟩
  · exact ⟨_, rfl, nofun⟩
  · exact ⟨_, rfl, nofun⟩

/-- A step of the owner's inside `poll` that leaves the operation and the word alone. -/
theorem Busy.proceed (h : Busy s) (hsole : Sole s') (ho : s.owner ≠ .outside)
    (hlife : s'.life = s.life) (hword : s'.state = s.state) (hin : s'.inFlight = s.inFlight)
    (hpending : s.owner = .registerPending ∨ s.owner = .setPending →
      s'.owner = .registerPending ∨ s'.owner = .setPending) : Busy s' where
  sole := hsole
  left := fun hl => absurd (h.left (by rwa [hlife] at hl)) ho
  flying := by
    rw [hin, hword]
    exact fun hf => (h.flying hf).imp_right hpending
  gone := by
    rw [hlife, hin]
    exact h.gone

theorem busy_callback {k : Nat} (h : Busy s) (ha : ¬ s.Intrudes (.callback k))
    (hs : s.callback k = some s') : Busy s' := by
  have hk := callback_keeps hs
  refine ⟨sole_callback h.sole hs, ?_, fun hin => ?_, ?_⟩
  · rw [hk.life, hk.owner]
    exact h.left
  · rw [hk.inFlight] at hin
    rw [hk.owner]
    cases callback_cases hs with
    | begins | missed | set | wake => exact h.flying hin
    | taken result hc hw =>
      refine absurd ⟨?_, hw, hin⟩ ha
      rw [hc]
      rfl
    | setReady result hc =>
      have hlatest : k = s.fired := by
        refine Nat.le_antisymm (h.sole.le_fired hs) (Nat.le_of_not_lt fun hlt => ?_)
        have hpast := h.sole.older k hlt
        rw [hc] at hpast
        exact hpast
      subst hlatest
      have hw : s.state = .callback := h.sole.inside.mpr (by rw [hc]; trivial)
      have howner := h.sole.owner
      rw [hw] at howner
      rcases h.flying hin with hp | ho | ho
      · exact nomatch hw.symm.trans hp
      · rw [ho] at howner
        cases howner
      · rw [ho] at howner
        cases howner
  · rw [hk.life, hk.inFlight]
    exact h.gone

/-- The closure answers. -/
theorem busy_issue {clears : Bool} {answer : Answer} (h : Busy s) (ho : s.owner = .issue)
    (hsole : Sole (s.pollIssue clears answer)) : Busy (s.pollIssue clears answer) := by
  have hlife : s.life = .alive := by
    by_contra hl
    exact nomatch ho.symm.trans (h.left hl)
  have hin := h.issuing ho
  cases answer with
  | accepted | failed =>
    exact ⟨hsole, fun hl => absurd hlife hl, fun hf => absurd (hin.symm.trans hf) nofun, fun _ => hin⟩
  | pending =>
    refine ⟨hsole, fun hl => absurd hlife hl, fun _ => .inr (.inl rfl), fun hl => ?_⟩
    rw [show (s.pollIssue clears .pending).life = s.life from rfl, hlife] at hl
    cases hl

/-- Past its loop, the destructor has no operation in flight. -/
theorem Busy.settled (h : Busy s) (hl : s.life = .isBusy) (hb : s.state = .idle ∨ s.state = .ready) :
    s.inFlight = false := by
  have ho := h.left (by rw [hl]; nofun)
  refine h.free ?_ (by rw [ho]; nofun) (by rw [ho]; nofun)
  rcases hb with hb | hb <;> rw [hb] <;> nofun

/-- **The step lemma**, where no callback takes the word early. -/
theorem busy_step {a : Action} (h : Busy s) (ha : ¬ s.Intrudes a) (hs : step s a = some s') :
    Busy s' := by
  have hsole := sole_step h.sole hs
  cases step_cases hs with
  | poll waker handle ho hl =>
    refine ⟨hsole, fun hne => absurd hl hne, fun hin => .inl ?_, h.gone⟩
    refine (h.flying hin).resolve_right ?_
    rw [ho]
    exact fun hw => hw.elim nofun nofun
  | finish handle ho | setThreadpoolWait handle ho | getOverlappedResult ho | busy ho =>
    exact h.proceed hsole (by rw [ho]; nofun) rfl rfl rfl (by rw [ho]; nofun)
  | resetEvent handle err ho =>
    cases err <;> exact h.proceed hsole (by rw [ho]; nofun) rfl rfl rfl (by rw [ho]; nofun)
  | get handle ho =>
    obtain ⟨owner, heq, _⟩ := s.pollGet_eq handle
    rw [heq] at hsole ⊢
    exact h.proceed hsole (by rw [ho]; nofun) rfl rfl rfl (by rw [ho]; nofun)
  | schedule ho hidle =>
    have hin := h.free (by rw [hidle]; nofun) (by rw [ho]; nofun) (by rw [ho]; nofun)
    refine ⟨hsole, fun hl => ?_, fun hf => absurd (hin.symm.trans hf) nofun, fun _ => hin⟩
    cases ho.symm.trans (h.left hl)
  | issue clears answer ho => exact busy_issue h ho hsole
  | setIdle reading ho =>
    have hin := h.returning ho
    exact ⟨hsole, fun _ => rfl, fun hf => absurd (hin.symm.trans hf) nofun, fun _ => hin⟩
  | registerPending ho =>
    exact h.proceed hsole (by rw [ho]; nofun) rfl rfl rfl fun _ => .inr rfl
  | setPending ho => exact ⟨hsole, fun _ => rfl, fun _ => .inl rfl, h.gone⟩
  | register ho =>
    refine ⟨hsole, fun _ => rfl, fun hin => .inl ?_, h.gone⟩
    refine (h.flying hin).resolve_right ?_
    rw [ho]
    exact fun hw => hw.elim nofun nofun
  | complete => exact ⟨hsole, h.left, nofun, fun _ => rfl⟩
  | fire => exact ⟨hsole, h.left, h.flying, h.gone⟩
  | callback k hcall => exact busy_callback h ha hcall
  | drop _ ho => exact ⟨hsole, fun _ => ho, h.flying, nofun⟩
  | unbusy hl hb =>
    exact ⟨hsole, fun _ => h.left (by rw [hl]; nofun), h.flying, fun _ => h.settled hl hb⟩
  | closeThreadpoolWait hl | release hl =>
    exact ⟨hsole, fun _ => h.left (by rw [hl]; nofun), h.flying, fun _ => h.gone (by rw [hl]; rfl)⟩

/-! ### Polled until it is ready -/

/-- An action that a future's owner may take: once ready, it is polled no more. -/
def Action.Once (s : IoEvent) (a : Action) : Prop :=
  ∀ waker handle, a = .poll waker handle → s.returned = []

/-- The wait has had nothing to do. -/
def Untouched (s : IoEvent) : Prop := s.signaled = false ∧ ∀ k, s.callbacks k = .absent

structure OneShot (s : IoEvent) : Prop where
  busy : Busy s
  /-- The poll going on is not one after the event was ready. -/
  unread : s.owner ≠ .outside → s.returned = []
  unused : s.returned = [] → s.state = .idle → Untouched s
  issuing : s.owner = .issue → Untouched s
  quiet : s.inFlight = true → Untouched s
  ended : s.returned ≠ [] → s.inFlight = false

theorem oneShot_init : OneShot init where
  busy := busy_init
  unread := fun h => absurd rfl h
  unused := fun _ _ => ⟨rfl, fun _ => rfl⟩
  issuing := nofun
  quiet := nofun
  ended := fun h => absurd rfl h

/-- While the wait has had nothing to do there is no callback to take a step. -/
theorem Untouched.callback_none (h : Untouched s) (k : Nat) : s.callback k = none := by
  simp [callback, h.2 k]

theorem OneShot.not_intrudes (h : OneShot s) (a : Action) : ¬ s.Intrudes a := by
  cases a with
  | callback k =>
    rintro ⟨hc, _, hin⟩
    rw [(h.quiet hin).2 k] at hc
    cases hc
  | _ => exact id

/-- A step of the owner's inside `poll` that leaves the operation and the word alone. -/
theorem OneShot.proceed (h : OneShot s) (hbusy : Busy s') (ho : s.owner ≠ .outside)
    (hread : s'.returned = s.returned) (hword : s'.state = s.state)
    (hin : s'.inFlight = s.inFlight) (hquiet : Untouched s → Untouched s')
    (hissue : s'.owner ≠ .issue) : OneShot s' where
  busy := hbusy
  unread := fun _ => hread.trans (h.unread ho)
  unused := by
    rw [hread, hword]
    exact fun hr hw => hquiet (h.unused hr hw)
  issuing := fun hi => absurd hi hissue
  quiet := by
    rw [hin]
    exact fun hf => hquiet (h.quiet hf)
  ended := fun hr => absurd (hread.trans (h.unread ho)) hr

theorem oneShot_callback {k : Nat} (h : OneShot s) (hbusy : Busy s')
    (hs : s.callback k = some s') : OneShot s' := by
  have hk := callback_keeps hs
  have htouched : ¬ Untouched s := fun hu => nomatch (hu.callback_none k).symm.trans hs
  refine ⟨hbusy, ?_, fun hr hw => ?_, fun ho => ?_, fun hin => ?_, ?_⟩
  · rw [hk.owner, hk.returned]
    exact h.unread
  · rw [hk.returned] at hr
    have hidle : s.state = .idle := by
      cases callback_cases hs with
      | taken | setReady => exact nomatch hw
      | _ => exact hw
    exact absurd (h.unused hr hidle) htouched
  · rw [hk.owner] at ho
    exact absurd (h.issuing ho) htouched
  · rw [hk.inFlight] at hin
    exact absurd (h.quiet hin) htouched
  · rw [hk.returned, hk.inFlight]
    exact h.ended

/-- The closure answers. -/
theorem oneShot_issue {clears : Bool} {answer : Answer} (h : OneShot s) (ho : s.owner = .issue)
    (hbusy : Busy (s.pollIssue clears answer)) : OneShot (s.pollIssue clears answer) := by
  have hword := h.busy.sole.owner
  rw [ho] at hword
  have hread := h.unread (by rw [ho]; nofun)
  have hin := h.busy.issuing ho
  have hunused (hw : s.state = .idle) : False := nomatch hword.symm.trans hw
  cases answer with
  | accepted | failed =>
    exact ⟨hbusy, fun _ => hread, fun _ hw => (hunused hw).elim, nofun,
      fun hf => absurd (hin.symm.trans hf) nofun, fun _ => hin⟩
  | pending =>
    obtain ⟨hsignaled, hcallbacks⟩ := h.issuing ho
    refine ⟨hbusy, fun _ => hread, fun _ hw => (hunused hw).elim, nofun,
      fun _ => ⟨?_, hcallbacks⟩, fun hr => absurd hread hr⟩
    show (s.signaled && !clears) = false
    rw [hsignaled]
    rfl

/-- **The step lemma**. -/
theorem oneShot_step {a : Action} (h : OneShot s) (ha : a.Once s) (hs : step s a = some s') :
    OneShot s' := by
  have hbusy := busy_step h.busy (h.not_intrudes a) hs
  cases step_cases hs with
  | poll waker handle =>
    exact ⟨hbusy, fun _ => ha waker handle rfl, h.unused, nofun, h.quiet, h.ended⟩
  | finish handle ho =>
    refine h.proceed hbusy (by rw [ho]; nofun) rfl rfl rfl id ?_
    unfold pollFinish
    split <;> nofun
  | resetEvent handle err ho =>
    cases err with
    | none =>
      exact h.proceed hbusy (by rw [ho]; nofun) rfl rfl rfl (fun hu => ⟨rfl, hu.2⟩) nofun
    | some err => exact h.proceed hbusy (by rw [ho]; nofun) rfl rfl rfl id nofun
  | setThreadpoolWait handle ho | getOverlappedResult ho | busy ho | registerPending ho =>
    exact h.proceed hbusy (by rw [ho]; nofun) rfl rfl rfl id nofun
  | get handle ho =>
    obtain ⟨owner, heq, hissue⟩ := s.pollGet_eq handle
    rw [heq] at hbusy ⊢
    exact h.proceed hbusy (by rw [ho]; nofun) rfl rfl rfl id hissue
  | schedule ho hidle =>
    have hread := h.unread (by rw [ho]; nofun)
    exact ⟨hbusy, fun _ => hread, nofun, fun _ => h.unused hread hidle, h.quiet, h.ended⟩
  | issue clears answer ho => exact oneShot_issue h ho hbusy
  | setIdle reading ho =>
    have hin := h.busy.returning ho
    exact ⟨hbusy, fun hne => absurd rfl hne, nofun, nofun, h.quiet, fun _ => hin⟩
  | setPending => exact ⟨hbusy, fun hne => absurd rfl hne, nofun, nofun, h.quiet, h.ended⟩
  | register => exact ⟨hbusy, fun hne => absurd rfl hne, h.unused, nofun, h.quiet, h.ended⟩
  | complete status hin =>
    refine ⟨hbusy, h.unread, fun hr hw => ?_, fun ho => ?_, nofun, fun _ => rfl⟩
    · rcases h.busy.flying hin with hp | ho | ho
      · exact nomatch hw.symm.trans hp
      all_goals
        have hword := h.busy.sole.owner
        rw [ho] at hword
        exact nomatch hword.symm.trans hw
    · exact nomatch (h.busy.issuing ho).symm.trans hin
  | fire _ hsignaled =>
    have htouched : ¬ Untouched s := fun hu => nomatch hu.1.symm.trans hsignaled
    exact ⟨hbusy, h.unread, fun hr hw => absurd (h.unused hr hw) htouched,
      fun ho => absurd (h.issuing ho) htouched, fun hin => absurd (h.quiet hin) htouched, h.ended⟩
  | callback k hcall => exact oneShot_callback h hbusy hcall
  | drop | unbusy | closeThreadpoolWait | release =>
    exact ⟨hbusy, h.unread, h.unused, h.issuing, h.quiet, h.ended⟩

end IoEvent

end Wae.Io
