import Wae.Io.Attribution

/-! Whether the owner hears of a completion.

A poll that returns `Pending` is promised a wake-up of its own waker, and the
callback wakes the waker it finds registered. A poll registers on two paths: when
the operation came back `Ready`, which wakes nobody, and when the half was busy.
The poll that leaves an operation pending is on neither. -/
namespace Wae.Io
open Transition Net.Tcp

namespace Half

/-- The latest poll returned `Pending`, the operation's callback has run to its end,
and the poll's waker has not been woken. -/
def Lost (s : Half) : Prop :=
  s.owner = .outside ∧ s.waiting = true ∧ s.completion s.latest = .done ∧ s.woken = false

/-- The callback of the operation in flight is about to take the waker, and the
owner's poll has returned `Pending`. -/
def wakesPending (s : Half) (a : Action) : Bool :=
  match a, s.completion s.latest with
  | .callback op, .running _ .wake => op == s.latest && s.owner == .outside && s.waiting
  | _, _ => false

/-- A busy poll is about to register its waker, and the callback is over. -/
def registersLate (s : Half) (a : Action) : Bool :=
  a == .owner && s.owner == .register && s.completion s.latest == .done

/-- The condition on a step. A callback that wakes after the poll has returned finds
that poll's waker, and a poll that registers after the callback has been woken by
it; either may also have been woken through the same waker, left by a poll before. -/
structure RegistersInTime (s : Half) (a : Action) (_ : Half) : Prop where
  wake : s.wakesPending a = true → s.woken = true ∨ s.waker = some s.polled
  register : s.registersLate a = true → s.woken = true

/-- The step does not end with a wake-up lost. -/
def Woken (_ : Half) (_ : Action) (s' : Half) : Prop := ¬ s'.Lost

variable {posts : Bool} {s s' : Half}

theorem wakesPending_iff {a : Action} : s.wakesPending a = true ↔
    a = .callback s.latest ∧ (∃ p, s.completion s.latest = .running p .wake) ∧
      s.owner = .outside ∧ s.waiting = true := by
  unfold wakesPending
  split
  · rename_i op p hc
    simp [hc, and_assoc]
  · rename_i hne
    refine ⟨nofun, fun ⟨ha, ⟨p, hp⟩, _⟩ => (hne _ _ ha hp).elim⟩

theorem registersLate_iff {a : Action} : s.registersLate a = true ↔
    a = .owner ∧ s.owner = .register ∧ s.completion s.latest = .done := by
  simp [registersLate, and_assoc]

/-- A waiting owner that is outside has left the word to the operation in flight. -/
theorem Coherent.awaiting (h : Coherent posts s) (ho : s.owner = .outside)
    (hw : s.waiting = true) :
    s.state ≠ .idle ∧ s.state ≠ .scheduling ∧ s.state ≠ .cancelledWait := by
  have howner := h.owner
  rw [ho] at howner
  exact ⟨(h.waiting hw).1, howner⟩

/-- While the owner waits, the callback of the operation in flight has no way to its
end but through the wake-up. -/
theorem Polled.ends_awake (h : Polled posts s) (ho : s.owner = .outside) (hw : s.waiting = true)
    (hs : s.callback s.latest = some s') (hd : s'.completion s.latest = .done) :
    ∃ p, s.completion s.latest = .running p .wake ∧ s' = (s.setCompletion s.latest .done).wake := by
  have hword := h.coherent.word
  obtain ⟨hidle, _, hcancelled⟩ := h.coherent.awaiting ho hw
  cases callback_cases hs with
  | wake p hc => exact ⟨p, hc, rfl⟩
  | setReadyOnly p hc => exact absurd hc (h.faithful.kept p)
  | waitMissed p hc hne =>
    rw [hc] at hword
    exact ((fits_lastExchange hword).elim hidle hcancelled).elim
  | _ => exact nomatch (setCompletion_same s s.latest _).symm.trans hd

/-- A callback never takes back a wake-up. -/
theorem callback_woken {op : Nat} (hs : s.callback op = some s') (hw : s'.woken = false) :
    s.woken = false := by
  cases callback_cases hs with
  | wake p hc => exact (Bool.or_eq_false_iff.mp hw).1
  | _ => exact hw

/-- **The step lemma**: a wake-up is lost only where the waker was not registered in
time. -/
theorem lost_step {a : Action} (h : Polled posts s) (hl : ¬ s.Lost) (hp : a.Polls)
    (hr : RegistersInTime s a s') (hs : step posts s a = some s') : ¬ s'.Lost := by
  rintro ⟨ho, hw, hd, hn⟩
  have howner := h.coherent.owner
  have huncancelled := h.uncancelled
  cases step_cases hs with
  | poll | get | schedule | busy | registerReady => exact nomatch ho
  | offer buffer _ hwait => exact absurd (hw.symm.trans hwait) nofun
  | cancel wait _ => exact absurd rfl (hp wait)
  | finish _ =>
    unfold pollFinish at ho
    split at ho <;> exact nomatch ho
  | issue answer _ =>
    unfold pollIssue at ho
    split at ho <;> exact nomatch ho
  | setIdle reading hheld =>
    exact h.coherent.not_waiting (by rw [hheld]; rfl) hw
  | setPending hheld =>
    rw [hheld] at howner
    have hword := h.coherent.word
    rw [howner.1, show s.completion s.latest = .done from hd] at hword
    exact hword
  | register hheld =>
    have hwoken := hr.register (registersLate_iff.mpr ⟨rfl, hheld, hd⟩)
    exact nomatch hwoken.symm.trans hn
  | cancellable _ hheld | uncancellable _ hheld | swap _ hheld | halfCancel _ _ hheld
  | unbusy _ hheld =>
    -- the owner never cancels
    rw [hheld] at huncancelled
    exact nomatch huncancelled
  | complete op packet hc =>
    by_cases hop : s.latest = op
    · subst hop
      exact nomatch (setCompletion_same s s.latest (.queued packet)).symm.trans hd
    · exact hl ⟨ho, hw, (setCompletion_other s (.queued packet) hop).symm.trans hd, hn⟩
  | callback op hcall =>
    have hk := callback_kept hcall
    rw [hk.owner] at ho
    rw [hk.waiting] at hw
    rw [hk.latest] at hd
    by_cases hop : s.latest = op
    · subst hop
      obtain ⟨p, hc, rfl⟩ := h.ends_awake ho hw hcall hd
      rcases hr.wake (wakesPending_iff.mpr ⟨rfl, ⟨p, hc⟩, ho, hw⟩) with hwoken | hwaker
      · exact nomatch hwoken.symm.trans (callback_woken hcall hn)
      · simp [wake, setCompletion, hwaker] at hn
    · obtain ⟨c, hcomp, _⟩ := callback_completion hcall
      rw [hcomp, Function.update_of_ne hop] at hd
      exact hl ⟨ho, hw, hd, callback_woken hcall hn⟩

/-- A step that ends with no wake-up lost had its waker registered in time. -/
theorem Woken.registersInTime {a : Action} (h : Woken s a s') (hs : step posts s a = some s') :
    RegistersInTime s a s' := by
  refine ⟨fun hw => ?_, fun hr => ?_⟩
  · obtain ⟨rfl, ⟨p, hc⟩, ho, hwait⟩ := wakesPending_iff.mp hw
    simp only [step, Half.callback, hc, Option.some.injEq] at hs
    subst hs
    by_contra hne
    obtain ⟨hwoken, hwaker⟩ := not_or.mp hne
    refine h ⟨ho, hwait, setCompletion_same s s.latest .done, ?_⟩
    simpa [wake, setCompletion] using ⟨Bool.eq_false_iff.mpr hwoken, hwaker⟩
  · obtain ⟨rfl, ho, hd⟩ := registersLate_iff.mp hr
    simp only [step, owned, ho, Option.some.injEq] at hs
    subst hs
    by_contra hwoken
    exact h ⟨rfl, rfl, hd, Bool.eq_false_iff.mpr hwoken⟩

/-- **No wake-up is lost** in a run of polls and completions exactly when each wake-up
of a waiting owner finds its waker registered, and no waker is registered after the
wake-up it waits for. -/
theorem polls_woken (as : List Action) (has : ∀ a ∈ as, a.Polls) :
    (machine false).Steps Woken init as ↔ (machine false).Steps RegistersInTime init as := by
  have hpolls := Machine.Steps.of_actions (M := machine false) (s := init) has
  refine ⟨fun h => h.mono fun s a s' hs hw => hw.registersInTime hs, fun h => ?_⟩
  refine Machine.Steps.of_invariant (I := fun s => Polled false s ∧ ¬ s.Lost)
    (fun s a s' ⟨hI, hl⟩ ⟨hr, hp⟩ hs => ?_) ⟨polled_init, fun hl => nomatch hl.2.1⟩ (h.and hpolls)
  have hl' := lost_step hI hl hp hr hs
  exact ⟨⟨(polled_step hI (hI.coherent.not_intrudes a) hp hs).1, hl'⟩, hl'⟩

instance (s : Half) : Decidable s.Lost :=
  inferInstanceAs (Decidable (s.owner = .outside ∧ s.waiting = true ∧
    s.completion s.latest = .done ∧ s.woken = false))

instance (s : Half) (a : Action) (s' : Half) : Decidable (Woken s a s') :=
  inferInstanceAs (Decidable (¬ s'.Lost))

instance (s : Half) (a : Action) (s' : Half) : Decidable (RegistersInTime s a s') :=
  decidable_of_iff
    ((s.wakesPending a = false ∨ s.woken = true ∨ s.waker = some s.polled) ∧
      (s.registersLate a = false ∨ s.woken = true))
    ⟨fun ⟨hw, hr⟩ => ⟨fun h => hw.resolve_left (Bool.eq_false_iff.not.mpr (not_not.mpr h)),
        fun h => hr.resolve_left (Bool.eq_false_iff.not.mpr (not_not.mpr h))⟩,
      fun ⟨hw, hr⟩ => ⟨(Bool.eq_false_or_eq_true _).elim (fun h => .inr (hw h)) .inl,
        (Bool.eq_false_or_eq_true _).elim (fun h => .inr (hr h)) .inl⟩⟩

/-- Polled once more while the operation is in flight, the owner is woken. -/
theorem polls_woken_again : (machine false).Steps Woken init
    [.poll 0, .owner, .owner, .issue (.failed 997), .owner,
     .poll 1, .owner, .owner, .owner, .complete 1 ⟨0, 7⟩,
     .callback 1, .callback 1, .callback 1, .callback 1, .callback 1] :=
  (polls_woken _ (by decide)).mpr (by decide)

/-- Polled once, the owner is never woken. -/
theorem first_poll_unwoken : ¬ ∀ as : List Action, (∀ a ∈ as, a.Polls) →
    (machine false).Steps Woken init as := by
  intro h
  exact absurd (h [.poll 0, .owner, .owner, .issue (.failed 997), .owner, .complete 1 ⟨0, 7⟩,
    .callback 1, .callback 1, .callback 1, .callback 1, .callback 1] (by decide)) (by decide)

end Half

end Wae.Io
