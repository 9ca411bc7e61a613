import Wae.Io.Arming

/-! Whether the owner of an event hears of a completion.

A poll that leaves an operation pending registers its waker before it stores `PENDING`,
and so before the callback can come to it. A poll that finds the event busy registers
after its tests of the word, and makes no other: the callback may have come and gone. -/
namespace Wae.Io
open Transition

namespace IoEvent

/-- The latest poll returned `Pending`, the word is `READY`, the callback that stored it
has run to its end, and the poll's waker has not been woken. -/
def Lost (s : IoEvent) : Prop :=
  s.owner = .outside ∧ s.waiting = true ∧ s.state = .ready ∧ s.callbacks s.fired = .done ∧
    s.woken = false

/-- A busy poll is about to register its waker, and the callback is over. -/
def registersLate (s : IoEvent) (a : Action) : Bool :=
  a == .owner && s.owner == .register && s.state == .ready && s.callbacks s.fired == .done

/-- The condition on a step: a poll that registers after the callback has been woken by
it, through the same waker, left by a poll before. -/
def RegistersInTime (s : IoEvent) (a : Action) (_ : IoEvent) : Prop :=
  s.registersLate a = true → s.woken = true

/-- The step does not end with a wake-up lost. -/
def Woken (_ : IoEvent) (_ : Action) (s' : IoEvent) : Prop := ¬ s'.Lost

/-- Where a poll returns `Pending`, its waker is registered, or has been woken. -/
def Heard (s : IoEvent) : Prop :=
  s.owner = .setPending ∨ s.owner = .outside ∧ s.waiting = true →
    s.woken = true ∨ s.waker = some s.polled

variable {s s' : IoEvent}

theorem registersLate_iff {a : Action} : s.registersLate a = true ↔
    a = .owner ∧ s.owner = .register ∧ s.state = .ready ∧ s.callbacks s.fired = .done := by
  simp [registersLate, and_assoc]

theorem heard_init : Heard init := by
  rintro (h | ⟨_, h⟩) <;> exact nomatch h

/-- A wake-up is not taken back, and a waker is not taken without one. -/
theorem heard_callback {k : Nat} (h : s.woken = true ∨ s.waker = some s.polled)
    (hs : s.callback k = some s') : s'.woken = true ∨ s'.waker = some s'.polled := by
  cases callback_cases hs with
  | wake =>
    left
    show (s.woken || s.waker == some s.polled) = true
    rcases h with h | h <;> simp [h]
  | begins | taken | missed | set | setReady => exact h

theorem heard_step {a : Action} (hi : Sole s) (h : Heard s) (hs : step s a = some s') :
    Heard s' := by
  have hwaiting := hi.waiting
  cases step_cases hs with
  | registerPending | register => exact fun _ => .inr rfl
  | setPending ho => exact fun _ => h (.inl ho)
  | setIdle reading ho =>
    rw [ho] at hwaiting
    rintro (hp | ⟨_, hw⟩)
    · exact nomatch hp
    · exact nomatch (hwaiting hw).1
  | callback k hcall =>
    have hk := callback_keeps hcall
    intro hp
    rw [hk.owner, hk.waiting] at hp
    exact heard_callback (h hp) hcall
  | drop | unbusy | closeThreadpoolWait | release | complete | fire => exact h
  | finish handle =>
    unfold pollFinish
    split <;> rintro (hp | ⟨hp, _⟩) <;> exact nomatch hp
  | resetEvent handle err => cases err <;> rintro (hp | ⟨hp, _⟩) <;> exact nomatch hp
  | get =>
    unfold pollGet
    split <;> rintro (hp | ⟨hp, _⟩) <;> exact nomatch hp
  | issue clears answer => cases answer <;> rintro (hp | ⟨hp, _⟩) <;> exact nomatch hp
  | poll | setThreadpoolWait | getOverlappedResult | schedule | busy =>
    rintro (hp | ⟨hp, _⟩) <;> exact nomatch hp

/-- The callback that ends while the owner waits has taken the owner's waker. -/
theorem lost_callback {k : Nat} (hi : Sole s) (hh : Heard s) (hl : ¬ s.Lost)
    (hs : s.callback k = some s') : ¬ s'.Lost := by
  rintro ⟨ho, hw, hr, hd, hn⟩
  have hk := callback_keeps hs
  rw [hk.owner] at ho
  rw [hk.waiting] at hw
  rw [hk.fired] at hd
  have hheard := hh (.inr ⟨ho, hw⟩)
  cases callback_cases hs with
  | wake result hc =>
    have hn : (s.woken || s.waker == some s.polled) = false := hn
    rcases hheard with h | h <;> simp [h] at hn
  | missed result hc hne =>
    have hr : s.state = .ready := hr
    by_cases hkf : s.fired = k
    · -- the callback that stored `READY` is past its exchange
      subst hkf
      have hover := ((hi.ready hr).resolve_left (by rw [ho]; nofun)).2
      rw [hc] at hover
      exact hover
    · exact hl ⟨ho, hw, hr, (setCallback_other s .done hkf).symm.trans hd, hn⟩
  | taken => exact nomatch hr
  | begins result hc | set result hc =>
    by_cases hkf : s.fired = k
    · subst hkf
      exact nomatch (setCallback_same s s.fired _).symm.trans hd
    · exact hl ⟨ho, hw, hr, (setCallback_other s _ hkf).symm.trans hd, hn⟩
  | setReady result hc =>
    by_cases hkf : s.fired = k
    · subst hkf
      exact nomatch (setCallback_same s s.fired _).symm.trans hd
    · have hle := hi.le_fired hs
      have hpast := hi.older k (by omega)
      rw [hc] at hpast
      exact hpast

/-- **The step lemma**: a wake-up is lost only where a waker is registered too late. -/
theorem lost_step {a : Action} (hi : Sole s) (hh : Heard s) (hl : ¬ s.Lost)
    (hr : RegistersInTime s a s') (hs : step s a = some s') : ¬ s'.Lost := by
  have hwaiting := hi.waiting
  cases step_cases hs with
  | callback k hcall => exact lost_callback hi hh hl hcall
  | register ho =>
    rintro ⟨_, _, hready, hd, hn⟩
    have hwoken := hr (registersLate_iff.mpr ⟨rfl, ho, hready, hd⟩)
    exact nomatch hwoken.symm.trans hn
  | drop | unbusy | closeThreadpoolWait | release | complete => exact hl
  | fire =>
    rintro ⟨_, _, _, hd, _⟩
    exact nomatch (setCallback_same s (s.fired + 1) (.queued 0)).symm.trans hd
  | setIdle | setPending =>
    rintro ⟨_, _, hready, _⟩
    exact nomatch hready
  | finish handle =>
    unfold pollFinish
    split <;> rintro ⟨ho, _⟩ <;> exact nomatch ho
  | resetEvent handle err => cases err <;> rintro ⟨ho, _⟩ <;> exact nomatch ho
  | get =>
    unfold pollGet
    split <;> rintro ⟨ho, _⟩ <;> exact nomatch ho
  | issue clears answer => cases answer <;> rintro ⟨ho, _⟩ <;> exact nomatch ho
  | poll | setThreadpoolWait | getOverlappedResult | schedule | busy | registerPending =>
    rintro ⟨ho, _⟩
    exact nomatch ho

/-- A step that ends with no wake-up lost had its waker registered in time. -/
theorem Woken.registersInTime {a : Action} (h : Woken s a s') (hs : step s a = some s') :
    RegistersInTime s a s' := by
  intro hl
  obtain ⟨rfl, ho, hready, hd⟩ := registersLate_iff.mp hl
  simp only [step, owned, ho, Option.some.injEq] at hs
  subst hs
  by_contra hwoken
  exact h ⟨rfl, rfl, hready, hd, Bool.eq_false_iff.mpr hwoken⟩

/-- **No wake-up is lost on an event** exactly when no busy poll registers its waker after
the callback has run, unless that waker has been woken since the poll began. -/
theorem events_woken (as : List Action) :
    machine.Steps Woken init as ↔ machine.Steps RegistersInTime init as := by
  refine ⟨fun h => h.mono fun s a s' hs hw => hw.registersInTime hs, fun h => ?_⟩
  apply Machine.Steps.of_invariant (I := fun s => Sole s ∧ Heard s ∧ ¬ s.Lost) ?_
    ⟨sole_init, heard_init, fun hl => nomatch hl.2.1⟩ h
  intro s a s' ⟨hi, hh, hl⟩ hr hs
  have hl' := lost_step hi hh hl hr hs
  exact ⟨⟨sole_step hi hs, heard_step hi hh hs, hl'⟩, hl'⟩

instance (s : IoEvent) : Decidable s.Lost :=
  inferInstanceAs (Decidable (s.owner = .outside ∧ s.waiting = true ∧ s.state = .ready ∧
    s.callbacks s.fired = .done ∧ s.woken = false))

instance (s : IoEvent) (a : Action) (s' : IoEvent) : Decidable (Woken s a s') :=
  inferInstanceAs (Decidable (¬ s'.Lost))

/-- Polled again with another waker, and the operation completes before the second poll
comes to register it. -/
theorem busy_poll_unwoken : ¬ ∀ as : List Action, machine.Steps Woken init as := by
  intro h
  exact absurd (h [.poll 0 true, .owner, .owner, .issue true .pending, .owner, .owner,
    .poll 1 true, .owner, .owner, .complete 0, .fire,
    .callback 1, .callback 1, .callback 1, .callback 1, .callback 1, .owner]) (by decide)

end IoEvent

end Wae.Io
