import Wae.Task.BlockOn
import Wae.Transition.Countdown

/-! `block_on` comes to an end.

Its thread sleeps only where the worker has yet to wake it: the waker was registered before
the last look, which found nothing published, and the word is set before the signal is sent.
So the steps of both threads, as long as there are any, lead to the return. Only
`WaitOnAddress` can return for no reason any number of times, and need not. -/
namespace Wae.Task.BlockOn
open Transition

/-- A step of one of the threads, and not a spurious return. -/
def Goes (a : Action) : Prop := a ≠ .spurious

instance : DecidablePred Goes := fun a => inferInstanceAs (Decidable (a ≠ .spurious))

/-- `block_on` waits, or is about to. -/
def Waits (s : BlockOn) : Prop := s.main = .wait ∨ s.main = .waitOnAddress ∨ s.main = .asleep

/-- The worker has yet to get to the word: it will find the waker, or has it. -/
def Coming (s : BlockOn) : Prop :=
  s.worker = .publish ∧ s.registered = true ∨ s.worker = .take ∧ s.registered = true ∨
    s.worker = .wake

/-- Whoever waits will be woken. -/
structure Awaited (s : BlockOn) : Prop extends Published s where
  unpublished : s.completed = false → s.worker = .publish
  word : s.state = 0 ∨ s.state = 1 ∧ s.completed = true
  recheck : s.main = .recheck → s.completed = false → s.registered = true
  coming : Waits s → s.state = 0 → Coming s
  asleep : s.main = .asleep → s.state ≠ 0 → s.worker = .wakeByAddressAll
  signal : s.worker = .wakeByAddressAll → s.state ≠ 0

/-- What is left for `block_on` to do, where nobody else does anything. -/
def mainLeft (s : BlockOn) : Nat :=
  match s.main with
  | .returned => 0
  | .output => 1
  | .ready => 2
  | .recheck => 3
  | .register => 4
  | .poll => 5
  | .wait => if InlineWaker.woken s.state then 6 else 2
  | .waitOnAddress => if InlineWaker.woken s.state then 7 else 1
  | .asleep => if InlineWaker.woken s.state then 7 else 0

/-- What is left for the worker. -/
def workerLeft (s : BlockOn) : Nat :=
  match s.worker with
  | .done => 0
  | .wakeByAddressAll => 1
  | .wake => 2
  | .take => 3
  | .publish => 4

/-- Each step of the worker may set `block_on` back, by less than 10. -/
def left (s : BlockOn) : Nat := 10 * s.workerLeft + s.mainLeft

variable {clears : Bool} {s s' : BlockOn}

theorem awaited_init : Awaited init := ⟨published_init, fun _ => rfl, .inl rfl, nofun, nofun, nofun, nofun⟩

theorem Awaited.woken_zero (h0 : s.state = 0) : InlineWaker.woken s.state = false := by
  rw [h0]
  decide

/-- A word that is set is 1, and set after the output was published. -/
theorem Awaited.set (h : Awaited s) (h0 : s.state ≠ 0) : s.state = 1 ∧ s.completed = true :=
  h.word.resolve_left h0

/-- `block_on` moves on to where it neither waits nor has looked only once. -/
theorem Awaited.moves (h : Awaited s) {main : Main} {registered : Bool}
    (hpub : Published {s with main, registered})
    (hmain : main ≠ .recheck ∧ main ≠ .wait ∧ main ≠ .waitOnAddress ∧ main ≠ .asleep) :
    Awaited {s with main, registered} := by
  obtain ⟨hrecheck, hwait, haddress, hasleep⟩ := hmain
  refine ⟨hpub, h.unpublished, h.word, fun hm => absurd hm hrecheck, fun hw => ?_,
    fun hm => absurd hm hasleep, h.signal⟩
  rcases hw with hw | hw | hw
  · exact absurd hw hwait
  · exact absurd hw haddress
  · exact absurd hw hasleep

theorem awaited_main (h : Awaited s) (hs : s.mainStep clears = some s') :
    Awaited s' ∧ mainLeft s' < mainLeft s := by
  have hpub := published_main h.toPublished hs
  unfold mainStep at hs
  split at hs <;> rename_i hm <;> cases hs
  case h_1 =>
    have hnext : (if s.completed = true then Main.ready else .register) = .ready ∨
        (if s.completed = true then Main.ready else .register) = .register := by
      split <;> simp
    rcases hnext with hnext | hnext <;> rw [hnext] at hpub ⊢
    all_goals exact ⟨h.moves hpub (by decide), by simp [mainLeft, hm]⟩
  case h_2 =>
    refine ⟨⟨hpub, h.unpublished, h.word, fun _ _ => rfl, ?_, ?_, h.signal⟩, ?_⟩
    · rintro (hw | hw | hw) <;> cases hw
    · nofun
    · simp [mainLeft, hm]
  case h_3 =>
    by_cases hc : s.completed = true
    · rw [if_pos hc] at hpub ⊢
      exact ⟨h.moves hpub (by decide), by simp [mainLeft, hm]⟩
    · -- nothing was published at the last look, and the waker is registered
      rw [if_neg hc] at hpub ⊢
      have hc : s.completed = false := Bool.eq_false_iff.mpr hc
      have hcoming : Coming s := .inl ⟨h.unpublished hc, h.recheck hm hc⟩
      have h0 : s.state = 0 := by
        rcases h.word with h0 | ⟨_, hset⟩
        · exact h0
        · exact absurd (hc.symm.trans hset) (by decide)
      refine ⟨⟨hpub, h.unpublished, h.word, ?_, fun _ _ => hcoming, ?_, h.signal⟩, ?_⟩
      · nofun
      · nofun
      · simp [mainLeft, hm, Awaited.woken_zero h0]
  case h_4 => exact ⟨h.moves hpub (by decide), by simp [mainLeft, hm]⟩
  case h_5 =>
    by_cases h0 : s.state = 0
    · have hcoming := h.coming (.inl hm) h0
      rw [Awaited.woken_zero h0] at hpub ⊢
      refine ⟨⟨hpub, h.unpublished, h.word, ?_, fun _ _ => hcoming, ?_, h.signal⟩, ?_⟩
      · nofun
      · nofun
      · simp [mainLeft, hm, Awaited.woken_zero h0]
    · have hwoken : InlineWaker.woken s.state = true := by
        rw [(h.set h0).1]
        decide
      simp only [hwoken, if_true] at hpub ⊢
      exact ⟨h.moves hpub (by decide), by simp [mainLeft, hm, hwoken]⟩
  case h_6 =>
    by_cases h0 : s.state = 0
    · have hcoming := h.coming (.inr (.inl hm)) h0
      have hsleeps : InlineWaker.sleeps s.state = true := by
        rw [h0]
        decide
      simp only [hsleeps, if_true] at hpub ⊢
      refine ⟨⟨hpub, h.unpublished, h.word, ?_, fun _ _ => hcoming, ?_, h.signal⟩, ?_⟩
      · nofun
      · exact fun _ hne => absurd h0 hne
      · simp [mainLeft, hm, Awaited.woken_zero h0]
    · have hone := (h.set h0).1
      have hsleeps : InlineWaker.sleeps s.state = false := by
        rw [hone]
        decide
      have hwoken : InlineWaker.woken s.state = true := by
        rw [hone]
        decide
      simp only [hsleeps, Bool.false_eq_true, if_false] at hpub ⊢
      refine ⟨⟨hpub, h.unpublished, h.word, ?_, fun _ h0' => absurd h0' h0, ?_, h.signal⟩, ?_⟩
      · nofun
      · nofun
      · simp [mainLeft, hm, hwoken]

theorem mainLeft_lt (s : BlockOn) : mainLeft s < 10 := by
  unfold mainLeft
  split
  all_goals first | omega | (split <;> omega)

/-- The worker moves on, and does not touch the word. -/
theorem Awaited.works (h : Awaited s) {worker : Worker} {completed registered : Bool}
    (hpub : Published {s with worker, completed, registered})
    (hcompleted : completed = true) (hsignal : worker ≠ .wakeByAddressAll)
    (hcoming : Waits s → s.state = 0 → Coming {s with worker, completed, registered})
    (hasleep : s.worker ≠ .wakeByAddressAll) :
    Awaited {s with worker, completed, registered} where
  toPublished := hpub
  unpublished hc := absurd (hcompleted.symm.trans hc) (by decide)
  word := h.word.imp_right fun ⟨h1, _⟩ => ⟨h1, hcompleted⟩
  recheck _ hc := absurd (hcompleted.symm.trans hc) (by decide)
  coming := hcoming
  asleep hm h0 := absurd (h.asleep hm h0) hasleep
  signal hw := absurd hw hsignal

theorem awaited_step {a : Action} (h : Awaited s) (hs : step clears s a = some s') :
    Awaited s' ∧ (Goes a → left s' < left s) := by
  have hpub := published_step h.toPublished hs
  have hle := mainLeft_lt s'
  have hpast (hw : s.worker ≠ .publish) : s.completed = true := by
    by_contra hc
    exact hw (h.unpublished (Bool.eq_false_iff.mpr hc))
  cases step_cases hs with
  | main _ hmain =>
    obtain ⟨h', hlt⟩ := awaited_main h hmain
    have hworker : s'.worker = s.worker := by
      unfold mainStep at hmain
      split at hmain <;> cases hmain <;> rfl
    refine ⟨h', fun _ => ?_⟩
    simp only [left, workerLeft, hworker]
    omega
  | spurious hm =>
    refine ⟨⟨hpub, h.unpublished, h.word, nofun, fun _ => h.coming (.inr (.inr hm)), nofun,
      h.signal⟩, fun hgoes => absurd rfl hgoes⟩
  | ret hm =>
    exact ⟨h.moves hpub (by decide), fun _ => by simp [left, workerLeft, mainLeft, hm]⟩
  | publish hw =>
    have hnot : s.worker ≠ .wakeByAddressAll := by simp [hw]
    refine ⟨h.works hpub rfl (by decide) (fun hwaits h0 => ?_) hnot, fun _ => ?_⟩
    · rcases h.coming hwaits h0 with ⟨_, hreg⟩ | ⟨hw', _⟩ | hw'
      · exact .inr (.inl ⟨rfl, hreg⟩)
      · cases hw.symm.trans hw'
      · cases hw.symm.trans hw'
    · simp only [left, workerLeft, hw]
      omega
  | take hw =>
    have hnot : s.worker ≠ .wakeByAddressAll := by simp [hw]
    have hcompleted := hpast (by simp [hw])
    unfold taken at hpub hle ⊢
    by_cases hreg : s.registered = true
    · simp only [if_pos hreg] at hpub hle ⊢
      refine ⟨h.works hpub hcompleted (by decide) (fun _ _ => .inr (.inr rfl)) hnot, fun _ => ?_⟩
      simp only [left, workerLeft, hw]
      omega
    · simp only [if_neg hreg] at hpub hle ⊢
      refine ⟨h.works hpub hcompleted (by decide) (fun hwaits h0 => ?_) hnot, fun _ => ?_⟩
      · rcases h.coming hwaits h0 with ⟨_, hreg'⟩ | ⟨_, hreg'⟩ | hw'
        · exact absurd hreg' hreg
        · exact absurd hreg' hreg
        · cases hw.symm.trans hw'
      · simp only [left, workerLeft, hw]
        omega
  | wake hw =>
    have hnot : s.worker ≠ .wakeByAddressAll := by simp [hw]
    have hcompleted := hpast (by simp [hw])
    unfold woken at hpub hle ⊢
    by_cases h0 : s.state = 0
    · have hwon : InlineWaker.wake s.state = some 1 := by simp [InlineWaker.wake, h0]
      have hset : (1 : UInt32) ≠ 0 := by decide
      simp only [hwon] at hpub hle ⊢
      refine ⟨⟨hpub, fun hc => absurd (hcompleted.symm.trans hc) (by decide), .inr ⟨rfl, hcompleted⟩,
        h.recheck, fun _ h0 => absurd h0 hset, fun _ _ => rfl, fun _ => hset⟩, fun _ => ?_⟩
      simp only [left, workerLeft, hw]
      omega
    · have hlost : InlineWaker.wake s.state = none := by simp [InlineWaker.wake, h0]
      simp only [hlost] at hpub hle ⊢
      refine ⟨h.works hpub hcompleted (by decide) (fun _ hz => absurd hz h0) hnot, fun _ => ?_⟩
      simp only [left, workerLeft, hw]
      omega
  | wakeByAddressAll hw =>
    have hset := h.signal hw
    have hcompleted := hpast (by simp [hw])
    refine ⟨⟨hpub, fun hc => absurd (hcompleted.symm.trans hc) (by decide), h.word, ?_,
      fun _ h0 => absurd h0 hset, fun hm => ?_, nofun⟩, fun _ => ?_⟩
    · intro _ hc
      exact absurd (hcompleted.symm.trans hc) (by decide)
    · split at hm
      · cases hm
      · contradiction
    · simp only [left, workerLeft, hw]
      omega

/-- Where neither thread can take a step, `block_on` has returned. -/
theorem Awaited.stuck (clears : Bool) (h : Awaited s) (hnone : ∀ a, Goes a → step clears s a = none) :
    s.main = .returned ∧ s.worker = .done ∧ s.completed = true := by
  have hworker : s.worker = .done := by
    cases hw : s.worker with
    | done => rfl
    | publish => simpa [step, hw] using hnone .publish (by decide)
    | take => simpa [step, hw] using hnone .take (by decide)
    | wake => simpa [step, hw] using hnone .wake (by decide)
    | wakeByAddressAll => simpa [step, hw] using hnone .wakeByAddressAll (by decide)
  have hcompleted : s.completed = true := by
    by_contra hc
    have hpublish := h.unpublished (Bool.eq_false_iff.mpr hc)
    cases hworker.symm.trans hpublish
  refine ⟨?_, hworker, hcompleted⟩
  have hmain := hnone .main (by decide)
  have hret := hnone .ret (by decide)
  cases hm : s.main with
  | returned => rfl
  | output => simp [step, hm] at hret
  | asleep =>
    -- whoever sleeps is to be woken by the worker, which is through
    by_cases h0 : s.state = 0
    · rcases h.coming (.inr (.inr hm)) h0 with ⟨hw, _⟩ | ⟨hw, _⟩ | hw <;>
        cases hworker.symm.trans hw
    · cases hworker.symm.trans (h.asleep hm h0)
  | poll | register | recheck | ready | wait | waitOnAddress => simp [step, mainStep, hm] at hmain

/-- **`block_on` returns.** In every state of every run the steps of the two threads, in
whatever order they come, are bounded in number and go on until `block_on` has returned,
with the task's output published and the worker through. -/
theorem block_on_returns (clears : Bool) (as : List Action) :
    (machine clears).Steps (fun _ _ s =>
      (∀ bs t, (∀ b ∈ bs, Goes b) → (machine clears).run s bs = some t →
        bs.length ≤ s.left ∧
        ((∀ b, Goes b → (machine clears).step t b = none) →
          t.main = .returned ∧ t.worker = .done ∧ t.completed = true)) ∧
      (machine clears).Leads Goes (·.main = .returned) s) init as := by
  refine Machine.Steps.of_kept (I := Awaited) (fun s a s' h hs => ?_) awaited_init as
  have h' := (awaited_step h hs).1
  have hdescends : ∀ u b u', Awaited u → Goes b → (machine clears).step u b = some u' →
      Awaited u' ∧ u'.left < u.left := fun u b u' hu hb hstep =>
    ⟨(awaited_step hu hstep).1, (awaited_step hu hstep).2 hb⟩
  refine ⟨h', fun bs t hbs hrun => ?_, ?_⟩
  · obtain ⟨ht, hlength⟩ := Machine.run_descends hdescends h' hbs hrun
    exact ⟨by omega, fun hnone => ht.stuck clears hnone⟩
  · have hleads := Machine.leads_descends (Q := (·.main = .returned)) hdescends (fun u hu => ?_) h'
    · exact hleads.mono (fun _ hb => hb) fun _ hQ => hQ.2
    · by_contra hnot
      obtain ⟨hgoes, hnone⟩ := not_or.mp hnot
      refine hgoes (hu.stuck clears fun b hb => ?_).1
      by_contra hsome
      exact hnone ⟨b, hb, Option.isSome_iff_ne_none.mpr hsome⟩

end Wae.Task.BlockOn
