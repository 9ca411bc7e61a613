import Wae.Io.Answer
import Wae.Io.Unwrap

/-! The destructor of a handle comes to an end.

The last owner spins in it until the words of both halves are let go, and the callbacks of
operations that nobody waits for any more may be on their way still. Each step that anybody
takes then is one of so many, and where no step is left the destructor is through. -/
namespace Wae.Io
open Transition

/-- The steps that an owner has yet to take in `cancel`, at most. -/
def Owner.left : Owner → Nat
  | .isCancellable _ => 4
  | .cancel _ => 3
  | .halfCancel _ => 2
  | .isBusy _ => 1
  | _ => 0

namespace Half

/-- In `cancel`, or nowhere. -/
def Leaving (s : Half) : Prop := s.owner = .outside ∨ s.owner.cancelling = true

/-- The steps left on the half, its owner's included. -/
def cancelLeft (s : Half) : Nat := s.stepsLeft + s.owner.left

variable {posts : Bool} {s s' : Half}

theorem Leaving.not_polling (h : Leaving s) : s.owner.polling = false := by
  rcases h with h | h
  · rw [h]
    rfl
  · cases ho : s.owner <;> rw [ho] at h <;> first | rfl | cases h

/-- `cancel` goes on, or returns. -/
theorem cancelWait_leaving (s : Half) (wait : Bool) (ret : Option Int32) :
    Leaving (s.cancelWait wait ret) ∧ (s.cancelWait wait ret).stepsLeft = s.stepsLeft ∧
      (s.cancelWait wait ret).owner.left ≤ 1 := by
  cases wait with
  | true => exact ⟨.inr rfl, rfl, Nat.le_refl 1⟩
  | false => exact ⟨.inl rfl, rfl, Nat.zero_le 1⟩

theorem cancelSwap_leaving (s : Half) (wait : Bool) :
    Leaving (s.cancelSwap wait) ∧ (s.cancelSwap wait).stepsLeft = s.stepsLeft ∧
      (s.cancelSwap wait).owner.left ≤ 2 := by
  unfold cancelSwap
  simp only
  split
  · exact ⟨.inr rfl, rfl, Nat.le_refl 2⟩
  · obtain ⟨hleaving, hsteps, hleft⟩ :=
      {s with state := (s.state.cancel wait).2}.cancelWait_leaving wait none
    exact ⟨hleaving, hsteps, Nat.le_succ_of_le hleft⟩

/-- **The step lemma**: each step is one less to take, the owner's as well as the kernel's and
the callbacks'. -/
theorem leaving_step {a : Action} (hf : Fresh s) (h : Leaving s) (ha : IoHandle.enters a = false)
    (hs : step posts s a = some s') : Leaving s' ∧ s'.cancelLeft < s.cancelLeft := by
  unfold cancelLeft
  have hpolling := h.not_polling
  cases step_cases hs with
  | poll | offer | cancel => cases ha
  | finish ho | get ho | schedule ho | busy ho | issue _ ho | registerReady _ ho | setIdle _ ho
  | setPending ho | register ho =>
    rw [ho] at hpolling
    cases hpolling
  | cancellable wait ho =>
    refine ⟨.inr rfl, Nat.add_lt_add_left ?_ _⟩
    rw [ho]
    exact Nat.lt_succ_self 3
  | uncancellable wait ho =>
    refine ⟨.inl rfl, Nat.add_lt_add_left ?_ s.stepsLeft⟩
    rw [ho]
    exact Nat.succ_pos 3
  | swap wait ho =>
    obtain ⟨hleaving, hsteps, hleft⟩ := s.cancelSwap_leaving wait
    rw [hsteps, ho]
    exact ⟨hleaving, Nat.add_lt_add_left (Nat.lt_succ_of_le hleft) _⟩
  | halfCancel wait err ho =>
    obtain ⟨hleaving, hsteps, hleft⟩ := s.cancelWait_leaving wait err
    rw [hsteps, ho]
    exact ⟨hleaving, Nat.add_lt_add_left (Nat.lt_succ_of_le hleft) _⟩
  | unbusy ret ho =>
    refine ⟨.inl rfl, Nat.add_lt_add_left ?_ s.stepsLeft⟩
    rw [ho]
    exact Nat.succ_pos 0
  | complete op packet hc =>
    refine ⟨h, Nat.add_lt_add_right ?_ s.owner.left⟩
    refine stepsLeft_lt rfl rfl (hf.le (by rw [hc]; nofun)) ?_
    rw [hc]
    exact Nat.lt_succ_self 8
  | callback op hcall =>
    have hkept := callback_kept hcall
    obtain ⟨c, hcomp, hlt⟩ := callback_left hcall
    have hop : s.completion op ≠ .absent := fun habsent => by
      rw [habsent] at hlt
      exact Nat.not_lt_zero _ hlt
    rw [Leaving, hkept.owner]
    exact ⟨h, Nat.add_lt_add_right (stepsLeft_lt hkept.latest hcomp (hf.le hop) hlt) _⟩

/-- A callback that is to store `READY` can go on, or the kernel can for it. -/
theorem storesReady_steps {op : Nat} (h : (s.completion op).StoresReady s.state)
    (hw : s.state ≠ .scheduling) : ∃ a : Action, a.Completes ∧ step posts s a ≠ none := by
  cases hc : s.completion op with
  | absent | done =>
    rw [hc] at h
    exact h.elim
  | inFlight => exact ⟨.complete op ⟨0, 0⟩, trivial, by simp [step, complete, hc]⟩
  | queued p => exact ⟨.callback op, trivial, callback_queued hc hw⟩
  | running p pc => exact ⟨.callback op, trivial, callback_running hc⟩

/-- A cancel that spins waits for a callback to let the word go. -/
theorem busy_steps {ret : Option Int32} (hc : Coherent posts s) (hu : Uncovered s)
    (ho : s.owner = .isBusy ret) :
    ∃ a, IoHandle.enters a = false ∧ step posts s a ≠ none := by
  have howner := hc.owner
  rw [ho] at howner
  have hwait (hw : s.state.Owed ∨ s.state = .callback) (hne : s.state ≠ .scheduling) :
      ∃ a, IoHandle.enters a = false ∧ step posts s a ≠ none := by
    obtain ⟨a, ha, hs⟩ : ∃ a : Action, a.Completes ∧ step posts s a ≠ none :=
      storesReady_steps (hc.storesReady hu hw) hne
    exact ⟨a, completes_enters ha, hs⟩
  rcases howner with hw | hw | hw
  · exact hwait (.inl (.inr (.inr hw))) (by rw [hw]; nofun)
  · exact hwait (.inr hw) (by rw [hw]; nofun)
  · refine ⟨.owner, rfl, ?_⟩
    simp [step, owned, ho, hw, IoState.isBusy]

/-- **A half that is being left takes a step**, unless it has been left for good. -/
theorem leaving_steps (hc : Coherent posts s) (hu : Uncovered s) (h : Leaving s) :
    (∃ a, IoHandle.enters a = false ∧ step posts s a ≠ none) ∨ s.owner = .outside ∧ Quiet s := by
  by_cases hsteps : ∃ a, IoHandle.enters a = false ∧ step posts s a ≠ none
  · exact .inl hsteps
  · have hnone : ∀ a, IoHandle.enters a = false → step posts s a = none := by
      intro a ha
      by_contra hs
      exact hsteps ⟨a, ha, hs⟩
    refine .inr ?_
    cases ho : s.owner with
    | outside =>
      have howner := hc.owner
      rw [ho] at howner
      refine ⟨rfl, quiet_of_disabled howner.1 (fun op => hnone (.callback op) rfl) ?_⟩
      intro op p s' hs
      have hno : s.complete op p = none := hnone (.complete op p) rfl
      exact nomatch hno.symm.trans hs
    | isCancellable wait | cancel wait =>
      have hno := hnone .owner rfl
      simp [step, owned, ho] at hno
    | halfCancel wait =>
      have hno := hnone (.halfCancel (some 0)) rfl
      simp [step, cancelIoEx, ho] at hno
    | isBusy ret => exact absurd (busy_steps hc hu ho) hsteps
    | finish | get | schedule | issue | registerReady | setIdle | setPending | register =>
      have hpolling := h.not_polling
      rw [ho] at hpolling
      cases hpolling

end Half

namespace IoHandle

/-- The destructor's own steps, with those of the cancel that it has not called yet. -/
def Life.left : Life → Nat
  | .cancelRead => 7
  | .cancelWrite => 2
  | .close => 1
  | .alive | .released | .panicked => 0

/-- The steps left on a handle whose last owner has gone. -/
def stepsLeft (s : IoHandle) : Nat := s.read.cancelLeft + s.write.cancelLeft + s.life.left

/-- The swap of a cancel is about to cover a `READY`. -/
def covers (s : IoHandle) : Action → Bool
  | .read action => s.read.covers action
  | .write action => s.write.covers action
  | .drop | .next | .release => false

/-- The condition on a step: no callback takes the word of a later operation, and no swap
comes after the callback's `set_ready`. -/
def InTime (s : IoHandle) (a : Action) (_ : IoHandle) : Prop :=
  ¬ s.Intrudes a ∧ s.covers a = false

instance (s : IoHandle) (a : Action) (s' : IoHandle) : Decidable (InTime s a s') :=
  inferInstanceAs (Decidable (_ ∧ _))

variable {posts : Bool} {s s' : IoHandle}

/-- What is known in a run whose steps are in time. -/
structure Timeful (posts : Bool) (s : IoHandle) : Prop where
  halves : Halves posts s
  read : Half.Uncovered s.read
  write : Half.Uncovered s.write

/-- The last owner has gone. -/
structure Ending (s : IoHandle) : Prop where
  left : Left s
  gone : s.life ≠ .alive
  read : Half.Leaving s.read
  write : Half.Leaving s.write

theorem timeful_init : Timeful posts init :=
  ⟨halves_init, Half.uncovered_init, Half.uncovered_init⟩

theorem timeful_step {a : Action} (h : Timeful posts s) (ha : InTime s a s')
    (hs : step posts s a = some s') : Timeful posts s' := by
  have hhalves := halves_step h.halves ha.1 hs
  cases step_cases hs with
  | read action half hhalf =>
    exact ⟨hhalves, Half.uncovered_step h.halves.read h.read ha.1 ha.2 hhalf, h.write⟩
  | write action half hhalf =>
    exact ⟨hhalves, h.read, Half.uncovered_step h.halves.write h.write ha.1 ha.2 hhalf⟩
  | drop | nextWrite | nextClose | readPanics | writePanics | release =>
    exact ⟨hhalves, h.read, h.write⟩

/-- Where the destructor begins, the owners have come out of both halves. -/
theorem ending_drop (h : Left s.cancelRead) (hw : s.write.owner = .outside) : Ending s.cancelRead :=
  ⟨h, nofun, .inr rfl, .inl hw⟩

/-- **The step lemma**: whoever takes it, it is one less to take. -/
theorem ending_step {a : Action} (h : Ending s) (hs : step posts s a = some s') :
    Ending s' ∧ s'.stepsLeft < s.stepsLeft := by
  have hleft := left_step h.left hs
  unfold stepsLeft
  cases step_cases hs with
  | read action half hhalf ha =>
    obtain ⟨hleaving, hlt⟩ :=
      Half.leaving_step h.left.readFresh h.read (Bool.eq_false_iff.mpr (mt ha h.gone)) hhalf
    refine ⟨⟨hleft, h.gone, hleaving, h.write⟩, ?_⟩
    show half.cancelLeft + s.write.cancelLeft + s.life.left < _
    omega
  | write action half hhalf ha =>
    obtain ⟨hleaving, hlt⟩ :=
      Half.leaving_step h.left.writeFresh h.write (Bool.eq_false_iff.mpr (mt ha h.gone)) hhalf
    refine ⟨⟨hleft, h.gone, h.read, hleaving⟩, ?_⟩
    show s.read.cancelLeft + half.cancelLeft + s.life.left < _
    omega
  | drop hl => exact absurd hl h.gone
  | nextWrite hl =>
    have hw := h.left.writeLeft (by rw [hl]; rfl)
    refine ⟨⟨hleft, nofun, h.read, .inr rfl⟩, ?_⟩
    show s.read.cancelLeft + (s.write.stepsLeft + 4) + 2 <
      s.read.cancelLeft + s.write.cancelLeft + s.life.left
    rw [Half.cancelLeft, Half.cancelLeft, hl, hw]
    show _ < s.read.stepsLeft + s.read.owner.left + (s.write.stepsLeft + 0) + 7
    omega
  | nextClose hl | readPanics hl | writePanics hl | release hl =>
    refine ⟨⟨hleft, nofun, h.read, h.write⟩, Nat.add_lt_add_left ?_ _⟩
    rw [hl]
    simp [Life.left]

/-- Somebody can take a step. -/
def CanStep (posts : Bool) (s : IoHandle) : Prop := ∃ a, (step posts s a).isSome = true

/-- The destructor is through: the socket is closed, unless one of its cancels has returned
an error. Nothing is in flight, and no callback is on its way. -/
structure Ended (s : IoHandle) : Prop where
  life : s.life = .released ∨ s.life = .panicked
  closed : s.life = .released ↔ s.read.cancelled = none ∧ s.write.cancelled = none
  quiet : s.Quiet

theorem canStep_read {a : Io.Action} (ha : enters a = false)
    (hs : Half.step posts s.read a ≠ none) : CanStep posts s := by
  refine ⟨.read a, ?_⟩
  simp [step, ha, Option.isSome_iff_ne_none, hs]

theorem canStep_write {a : Io.Action} (ha : enters a = false)
    (hs : Half.step posts s.write a ≠ none) : CanStep posts s := by
  refine ⟨.write a, ?_⟩
  simp [step, ha, Option.isSome_iff_ne_none, hs]

/-- **Where no step is left, the destructor is through.** -/
theorem Ending.through (h : Ending s) (ht : Timeful posts s) (hno : ¬ CanStep posts s) :
    (s.life = .released ∨ s.life = .panicked) ∧ s.Quiet := by
  have hread : s.read.owner = .outside ∧ Half.Quiet s.read :=
    (Half.leaving_steps ht.halves.read ht.read h.read).resolve_left
      fun ⟨_, ha, hs⟩ => hno (canStep_read ha hs)
  have hwrite : s.write.owner = .outside ∧ Half.Quiet s.write :=
    (Half.leaving_steps ht.halves.write ht.write h.write).resolve_left
      fun ⟨_, ha, hs⟩ => hno (canStep_write ha hs)
  refine ⟨?_, hread.2, hwrite.2⟩
  cases hl : s.life with
  | alive => exact absurd hl h.gone
  | released => exact .inl rfl
  | panicked => exact .inr rfl
  | cancelRead =>
    refine absurd ⟨.next, ?_⟩ hno
    cases hc : s.read.cancelled <;> simp [step, next, hl, unwrapped, hread.1, hc]
  | cancelWrite =>
    refine absurd ⟨.next, ?_⟩ hno
    cases hc : s.write.cancelled <;> simp [step, next, hl, unwrapped, hwrite.1, hc]
  | close => exact absurd ⟨.release, by simp [step, hl]⟩ hno

/-- Until the last owner goes, and from there on. -/
theorem ending_run {as : List Action} (hrun : (machine posts).run init as = some s)
    (hgone : s.life ≠ .alive) : Ending s := by
  have hkept := Machine.run_keeps (M := machine posts)
    (I := fun s => Left s ∧ (s.life ≠ .alive → Ending s)) (fun s a s' ⟨hl, he⟩ hs => ?_)
    ⟨left_init, fun hne => absurd rfl hne⟩ hrun
  · exact hkept.2 hgone
  · have hleft := left_step hl hs
    refine ⟨hleft, fun hne => ?_⟩
    by_cases halive : s.life = .alive
    · cases step_cases hs with
      | drop _ _ hw => exact ending_drop hleft hw
      | read | write => exact absurd halive hne
      | nextWrite hl' | nextClose hl' | readPanics hl' | writePanics hl' | release hl' =>
        cases halive.symm.trans hl'
    · exact (ending_step (he halive) hs).1

/-- **The destructor comes to an end.** However a run goes on once the last owner has gone,
it is no longer than `stepsLeft`; and if its steps were in time, then wherever nobody can take
a step any more the destructor is through and nothing of the handle is left. -/
theorem destructor_ends {as cs : List Action} {t : IoHandle}
    (hrun : (machine posts).run init as = some s) (hgone : s.life ≠ .alive)
    (hrun' : (machine posts).run s cs = some t) :
    cs.length ≤ s.stepsLeft ∧
      ((machine posts).Steps InTime init (as ++ cs) → ¬ CanStep posts t → Ended t) := by
  obtain ⟨hending, hlength⟩ := Machine.run_descends (M := machine posts) (P := fun _ => True)
    (f := stepsLeft) (fun _ _ _ h _ hs => ending_step h hs) (ending_run hrun hgone)
    (fun _ _ => trivial) hrun'
  refine ⟨by omega, fun hok hno => ?_⟩
  have hall : (machine posts).run init (as ++ cs) = some t := by
    rw [Machine.run_append, hrun]
    exact hrun'
  have htimeful : ∀ s a s', Timeful posts s → InTime s a s' → (machine posts).step s a = some s' →
      Timeful posts s' := fun _ _ _ h ha hs => timeful_step h ha hs
  have ht := Machine.run_keeps_of htimeful timeful_init hok hall
  obtain ⟨hover, hquiet⟩ := hending.through ht hno
  exact ⟨hover, released_iff hall hover, hquiet⟩

/-- A read is pending when the last owner goes. -/
def dropsReading : List Action :=
  [.read (.poll 0), .read .owner, .read .owner, .read (.issue (.failed 997)), .read .owner, .drop]

theorem destructor_ends_reading : ∃ s t, (machine true).run init dropsReading = some s ∧
    (machine true).run s [.read .owner, .read .owner] = some t ∧ 2 ≤ s.stepsLeft ∧
      (¬ CanStep true t → Ended t) := by
  have hrun : (machine true).run init dropsReading = some _ := rfl
  obtain ⟨hlength, hend⟩ := destructor_ends hrun (by decide)
    (show (machine true).run _ [.read .owner, .read .owner] = some _ from rfl)
  exact ⟨_, _, hrun, rfl, hlength, hend (by decide)⟩

end IoHandle

end Wae.Io
