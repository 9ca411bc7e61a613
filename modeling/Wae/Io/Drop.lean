import Wae.Io.Attribution

/-! What a dropped future leaves to the next one.

A drop is a waiting cancel, and it tests the word once. Found `IDLE`, the half is
as good as new: until the next `schedule` there is no outcome to return, and from
then on the latest operation is the new future's (`Current`). Found anywhere
else, the old operation's `READY` is still there, or still to come. -/
namespace Wae.Io
open Transition Net.Tcp

namespace Half

/-- A word that is not `IDLE` is about an operation of the current future, with its
buffer; and a future that awaits nothing has left the word `IDLE`. -/
structure Current (s : Half) : Prop where
  operation : s.state ≠ .idle → s.operation s.latest = ⟨s.future, s.buffer⟩
  settled : s.owner.polling = false → s.waiting = false → s.state = .idle

/-- A drop finds the word `IDLE`. -/
def DropsIdle (s : Half) (a : Action) : Prop :=
  a = .owner → s.owner = .isCancellable true → s.state = .idle

/-- The conditions on a step. -/
def CleanDrop (s : Half) (a : Action) (_ : Half) : Prop := ¬ s.Intrudes a ∧ s.DropsIdle a

/-- What a poll returns is the outcome of an operation that the current future
scheduled, after every drop before it, with its own buffer. -/
def OwnOutcome (s : Half) (_ : Action) (s' : Half) : Prop :=
  ∀ r, s'.returned = r :: s.returned → ∃ op val, r = some (op, val) ∧ s.outcome op = some val ∧
    s.operation op = ⟨s.future, s.buffer⟩

variable {posts : Bool} {s s' : Half}

theorem DropsIdle.not_waitTakes {a : Action} (h : s.DropsIdle a) : ¬ s.WaitTakes a :=
  fun ⟨ha, ho, hp⟩ => nomatch (h ha ho).symm.trans hp

theorem current_init : Current init := ⟨fun h => absurd rfl h, fun _ _ => rfl⟩

/-- The word stays, or moves without becoming `IDLE`, and the future goes on. -/
theorem Current.move (h : Current s) (hl : s'.latest = s.latest) (ho : s'.operation = s.operation)
    (hf : s'.future = s.future) (hb : s'.buffer = s.buffer)
    (hstate : s.state = .idle → s'.state = .idle)
    (hsettled : s'.owner.polling = false → s'.waiting = false → s'.state = .idle) : Current s' := by
  refine ⟨fun hs => ?_, hsettled⟩
  rw [hl, ho, hf, hb]
  exact h.operation fun hidle => hs (hstate hidle)

theorem current_step {a : Action} (hc : Coherent posts s) (hf : Faithful s) (h : Current s)
    (hd : s.DropsIdle a) (hs : step posts s a = some s') : Current s' := by
  have howner := hc.owner
  have hwaits := hf.unwaited.1
  have hsettled := h.settled
  cases step_cases hs with
  | poll | get | busy | registerReady => exact h.move rfl rfl rfl rfl id nofun
  | finish =>
    refine h.move rfl rfl rfl rfl id fun hp => ?_
    unfold pollFinish at hp
    split at hp <;> exact nomatch hp
  | offer buffer ho hw =>
    -- nothing is awaited, so the word is about no operation
    rw [ho] at hsettled
    have hidle := hsettled rfl hw
    exact ⟨fun hs => absurd hidle hs, fun _ _ => hidle⟩
  | cancel wait ho =>
    rw [ho] at hsettled
    exact h.move rfl rfl rfl rfl id fun _ => hsettled rfl
  | schedule => exact ⟨fun _ => Function.update_self .., nofun⟩
  | issue answer =>
    unfold pollIssue
    split <;> exact h.move rfl rfl rfl rfl id nofun
  | setIdle => exact h.move rfl rfl rfl rfl (fun _ => rfl) fun _ _ => rfl
  | setPending ho =>
    rw [ho] at howner
    exact h.move rfl rfl rfl rfl (fun hidle => nomatch hidle.symm.trans howner.1) fun _ => nofun
  | register => exact h.move rfl rfl rfl rfl id fun _ => nofun
  | cancellable wait ho =>
    rw [ho] at hsettled
    exact h.move rfl rfl rfl rfl id fun _ => hsettled rfl
  | uncancellable wait ho =>
    cases wait with
    | true =>
      have hidle := hd rfl ho
      exact ⟨fun hs => absurd hidle hs, fun _ _ => hidle⟩
    | false =>
      rw [ho] at hsettled
      exact h.move rfl rfl rfl rfl id fun _ => hsettled rfl
  | swap wait ho =>
    have hbusy := hc.not_idle ho
    rw [ho] at hwaits hsettled
    obtain rfl : wait = false := hwaits
    rcases cancelSwap_nowait s with hs | hs <;> rw [hs]
    · exact h.move rfl rfl rfl rfl (fun hidle => absurd hidle hbusy)
        fun _ hw => absurd (hsettled rfl hw) hbusy
    · exact h.move rfl rfl rfl rfl (fun hidle => absurd hidle hbusy)
        fun _ hw => absurd (hsettled rfl hw) hbusy
  | halfCancel wait err ho =>
    rw [ho] at hwaits hsettled
    obtain rfl : wait = false := hwaits
    exact h.move rfl rfl rfl rfl id fun _ => hsettled rfl
  | unbusy ret ho =>
    rw [ho] at hwaits
    exact nomatch hwaits
  | complete => exact h.move rfl rfl rfl rfl id hsettled
  | callback op hcall =>
    have hk := callback_kept hcall
    have hidle : s.state = .idle → s'.state = .idle := fun hidle => callback_idle hc hidle hcall
    refine h.move hk.latest hk.operation hk.future hk.buffer hidle fun hp hw => hidle ?_
    rw [hk.owner] at hp
    rw [hk.waiting] at hw
    exact hsettled hp hw

/-- **A drop that finds the word `IDLE` leaves nothing behind.** In a run of polls,
cancels and drops in which every drop does, every poll that returns `Ready`
returns the outcome of an operation that its own future scheduled. -/
theorem drops_leave_nothing (posts : Bool) (as : List Action)
    (h : (machine posts).Steps CleanDrop init as) : (machine posts).Steps OwnOutcome init as := by
  refine Machine.Steps.of_invariant (I := fun s => Coherent posts s ∧ Faithful s ∧ Current s)
    (fun s a s' ⟨hc, hf, hcur⟩ ⟨ha, hd⟩ hs => ?_) ⟨coherent_init, faithful_init, current_init⟩ h
  refine ⟨⟨coherent_step hc ha hs, faithful_step hc hf ha hd.not_waitTakes hs,
    current_step hc hf hcur hd hs⟩, fun r hr => ?_⟩
  obtain ⟨_, ho, _⟩ := returns_held hs hr
  obtain ⟨val, hval, rfl⟩ := hf.held r (.inl ho)
  have howner := hc.owner
  rw [ho] at howner
  refine ⟨s.latest, val, rfl, hval, hcur.operation ?_⟩
  rcases howner with hw | ⟨hw, _⟩ <;> rw [hw] <;> nofun

instance (s : Half) (a : Action) : Decidable (s.DropsIdle a) :=
  if h : a = .owner ∧ s.owner = .isCancellable true ∧ s.state ≠ .idle then
    isFalse fun hd => h.2.2 (hd h.1 h.2.1)
  else isTrue fun ha ho => by
    by_contra hs
    exact h ⟨ha, ho, hs⟩

/-- A future that has finished is dropped; the next one has its own operation. -/
theorem drops_leave_nothing_finished : (machine true).Steps OwnOutcome init
    [.poll 0, .owner, .owner, .issue (.accepted ⟨0, 5⟩), .owner, .owner,
     .callback 1, .callback 1, .callback 1, .callback 1, .cancel true, .owner,
     .offer 1, .poll 0, .owner, .owner, .issue (.failed 997), .owner, .complete 2 ⟨0, 7⟩,
     .callback 2, .callback 2, .callback 2, .callback 2, .callback 2,
     .poll 0, .owner, .owner, .owner] :=
  drops_leave_nothing true _ (by unfold CleanDrop; decide)

/-- A pending operation whose completion is recorded before its future is dropped:
the next future's first poll. -/
def recordedTrace : List Action :=
  [.poll 0, .owner, .owner, .issue (.failed 997), .owner, .complete 1 ⟨0, 7⟩,
   .callback 1, .callback 1, .callback 1, .callback 1, .callback 1, .cancel true, .owner,
   .offer 1, .poll 0, .owner, .owner, .owner]

/-- A poll returns a reading that is no operation's of this future. -/
def returnsForeign (s s' : Half) : Bool :=
  match s'.returned with
  | some (op, _) :: rest => rest == s.returned && s.operation op != ⟨s.future, s.buffer⟩
  | none :: rest => rest == s.returned
  | [] => false

theorem OwnOutcome.not_returnsForeign {a : Action} (h : OwnOutcome s a s') :
    returnsForeign s s' = false := by
  unfold returnsForeign
  split
  · rename_i op val rest hr
    by_cases hrest : rest = s.returned
    · obtain ⟨k, v, he, _, hop⟩ := h _ (by rw [hr, hrest])
      obtain ⟨rfl, rfl⟩ := Prod.mk.inj (Option.some.inj he)
      simp [hop]
    · simp [hrest]
  · rename_i rest hr
    by_cases hrest : rest = s.returned
    · obtain ⟨_, _, he, _⟩ := h _ (by rw [hr, hrest])
      exact nomatch he
    · simp [hrest]
  · rfl

/-- The next future's first poll returns the seven bytes of the dropped one. -/
theorem recorded_drop_returned : ¬ ∀ as : List Action,
    (machine false).Steps OwnOutcome init as := by
  intro h
  have hlast := (h recordedTrace).mono (Q := fun s _ s' => returnsForeign s s' = false)
    fun _ _ _ _ ha => ha.not_returnsForeign
  exact absurd hlast (by decide)

end Half

end Wae.Io
