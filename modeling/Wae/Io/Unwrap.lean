import Wae.Io.Apart
import Wae.Io.Cancel

/-! Destructors that unwrap.

`Write::drop` and `IoHandle::drop` unwrap what a waiting cancel returns, and a cancel
returns the error of `CancelIoEx`, which fails where it finds nothing in flight. Between
the test of the word and that call the operation may complete, or have completed already
with its callback still to come: `PENDING` does not tell. -/
namespace Wae.Io
open Transition Net.Tcp

namespace Half

/-- Inside a waiting cancel. -/
def Waits (s : Half) : Prop :=
  s.owner = .isCancellable true ∨ s.owner = .cancel true ∨ s.owner = .halfCancel true ∨
    ∃ ret, s.owner = .isBusy ret

/-- A waiting cancel, once past its test, has its operation in flight until `CancelIoEx`,
and that does not fail. -/
structure Timely (s : Half) : Prop where
  inFlight : s.owner = .cancel true ∨ s.owner = .halfCancel true →
    s.completion s.latest = .inFlight
  succeeds : ∀ err, s.owner ≠ .isBusy (some err)

instance (owner : Owner) : Decidable (∀ err, owner ≠ .isBusy (some err)) :=
  match owner with
  | .isBusy (some err) => isFalse fun h => h err rfl
  | .isBusy none | .outside | .finish | .get | .schedule | .issue | .registerReady _ | .setIdle _
  | .setPending | .register | .isCancellable _ | .cancel _ | .halfCancel _ => isTrue nofun

instance (s : Half) : Decidable s.Timely :=
  decidable_of_iff ((s.owner = .cancel true ∨ s.owner = .halfCancel true →
      s.completion s.latest = .inFlight) ∧ ∀ err, s.owner ≠ .isBusy (some err))
    ⟨fun h => ⟨h.1, h.2⟩, fun h => ⟨h.inFlight, h.succeeds⟩⟩

/-- The waiting cancel can still return `Ok`, without its owner doing anything else. -/
def Returns (posts : Bool) (s : Half) : Prop :=
  (machine posts).Leads (fun a => IoHandle.enters a = false)
    (fun t => t.owner = .outside ∧ t.cancelled = none) s

/-- Under the word of a waiting cancel the callback of the latest operation is not over. -/
def Awaited (s : Half) : Prop := s.state = .cancelledWait → ¬ (s.completion s.latest).Over

variable {posts : Bool} {s s' : Half}

theorem completes_enters {a : Action} (ha : a.Completes) : IoHandle.enters a = false := by
  cases a with
  | complete | callback => rfl
  | _ => exact ha.elim

/-- The kernel and the callbacks do not move the owner. -/
theorem completes_owner {a : Action} (ha : a.Completes) (hs : step posts s a = some s') :
    s'.owner = s.owner := by
  cases step_cases hs with
  | complete => rfl
  | callback op hcall => exact (callback_kept hcall).owner
  | _ => exact ha.elim

/-! ### A waiting cancel that returns -/

theorem returns_unbusy (ho : s.owner = .isBusy none) (hw : s.state = .idle ∨ s.state = .ready) :
    Returns posts s := by
  have hs : step posts s .owner = some (s.cancelReturn true none) := by
    simp [step, owned, ho, s.state.not_busy_iff.mpr hw]
  exact .step (a := .owner) rfl hs (.here ⟨rfl, rfl⟩)

theorem returns_isBusy (hc : Coherent posts s) (ha : Awaited s) (ho : s.owner = .isBusy none) :
    Returns posts s := by
  have howner := hc.owner
  rw [ho] at howner
  have huncovered : Uncovered s := by
    intro hw
    refine hw.elim (fun hw => ?_) ha
    rw [hw] at howner
    exact howner.elim nofun fun h => h.elim nofun nofun
  by_cases hready : s.state = .ready
  · exact returns_unbusy ho (.inr hready)
  · have hends : Ends posts s := by
      refine ends_of_storesReady (hc.storesReady huncovered ?_)
      rcases howner with hw | hw | hw
      · exact .inl (.inr (.inr hw))
      · exact .inr hw
      · exact absurd hw hready
    have hleads := hends.keeping (J := fun t => t.owner = .isBusy none)
      (fun _ _ _ hJ ha hs => (completes_owner ha hs).trans hJ) ho
    refine (hleads.mono (fun _ => completes_enters) fun _ => id).trans ?_
    exact fun t ⟨hw, ho⟩ => returns_unbusy ho (.inr hw)

theorem returns_halfCancel (hc : Coherent posts s) (ho : s.owner = .halfCancel true)
    (hin : s.completion s.latest = .inFlight) : Returns posts s := by
  have hs : step posts s (.halfCancel none) = some (s.cancelWait true none) := by
    simp [step, ho, cancelIoEx, hin]
  refine .step (a := .halfCancel none) rfl hs ?_
  refine returns_isBusy (coherent_halfCancel hc ho none) (fun _ => ?_) rfl
  show ¬ (s.completion s.latest).Over
  rw [hin]
  exact id

theorem returns_cancel (hc : Coherent posts s) (ho : s.owner = .cancel true)
    (hin : s.completion s.latest = .inFlight) : Returns posts s := by
  have hword := hc.word
  have howner := hc.owner
  rw [hin] at hword
  rw [ho] at howner
  have hpending : s.state = .pending := by
    rcases howner with hw | hw | hw
    · exact hw
    · rw [hw] at hword
      exact hword.elim
    · rw [hw] at hword
      exact hword.elim
  have hswap : s.cancelSwap true = {s with state := .cancelledWait, owner := .halfCancel true} := by
    simp [cancelSwap, IoState.cancel, hpending]
  have hs : step posts s .owner = some (s.cancelSwap true) := by simp [step, owned, ho]
  have hc' := coherent_cancelSwap hc ho
  refine .step (a := .owner) rfl hs ?_
  rw [hswap] at hc' ⊢
  exact returns_halfCancel hc' rfl hin

theorem returns_uncancellable (ho : s.owner = .isCancellable true) (hp : s.state ≠ .pending) :
    Returns posts s := by
  have htest : s.state.isCancellable = false :=
    Bool.eq_false_iff.mpr (mt s.state.isCancellable_iff.mp hp)
  have hs : step posts s .owner = some (s.cancelReturn true none) := by
    simp [step, owned, ho, cancelTest, htest]
  exact .step (a := .owner) rfl hs (.here ⟨rfl, rfl⟩)

/-- The callback takes the word before the test. -/
theorem returns_callbackPending {op : Nat} {p : Packet} (ho : s.owner = .isCancellable true)
    (hp : s.state = .pending) (hcomp : s.completion op = .running p .callbackPending) :
    Returns posts s := by
  have hs : step posts s (.callback op) =
      some {s.setCompletion op (.running p .set) with state := .callback} := by
    simp only [step, Half.callback, hcomp, hp]
    rfl
  have hne : IoState.callback ≠ .pending := by decide
  exact .step (a := .callback op) rfl hs (returns_uncancellable ho hne)

theorem returns_isCancellable (hc : Coherent posts s) (ho : s.owner = .isCancellable true) :
    Returns posts s := by
  by_cases hp : s.state = .pending
  · have hword := hc.word
    rw [hp] at hword
    cases hcomp : s.completion s.latest with
    | inFlight =>
      have hs : step posts s .owner = some {s with owner := .cancel true} := by
        simp [step, owned, ho, cancelTest, s.state.isCancellable_iff.mpr hp]
      have hc' : Coherent posts {s with owner := .cancel true} := coherent_cancellable hc hp
      exact .step (a := .owner) rfl hs (returns_cancel hc' rfl hcomp)
    | queued p =>
      have hs : step posts s (.callback s.latest) =
          some (s.setCompletion s.latest (.running p .callbackPending)) := by
        simp only [step, Half.callback, hcomp, hp]
        rfl
      refine .step (a := .callback s.latest) rfl hs ?_
      exact returns_callbackPending ho hp (setCompletion_same ..)
    | running p pc =>
      rw [hcomp] at hword
      cases pc with
      | callbackPending => exact returns_callbackPending ho hp hcomp
      | _ => exact hword.elim
    | absent | done =>
      rw [hcomp] at hword
      exact hword.elim
  · exact returns_uncancellable ho hp

/-- A timely waiting cancel can return `Ok`, wherever it stands. -/
theorem Timely.returns (h : Timely s) (hc : Coherent posts s) (ha : Awaited s) (hw : s.Waits) :
    Returns posts s := by
  rcases hw with ho | ho | ho | ⟨ret, ho⟩
  · exact returns_isCancellable hc ho
  · exact returns_cancel hc ho (h.inFlight (.inl ho))
  · exact returns_halfCancel hc ho (h.inFlight (.inr ho))
  · cases ret with
    | none => exact returns_isBusy hc ha ho
    | some err => exact absurd ho (h.succeeds err)

/-! ### A timely step -/

theorem awaited_callback {op : Nat} (hc : Coherent posts s) (h : Awaited s)
    (ha : ¬ s.Intrudes (.callback op)) (hs : s.callback op = some s') : Awaited s' := by
  intro hw
  rw [(callback_kept hs).latest]
  by_cases hop : op = s.latest
  · subst hop
    cases callback_cases hs with
    | pendingTaken | nowaitTaken | waitTaken | setReady | setReadyOnly => exact nomatch hw
    | begins | pendingMissed | nowaitMissed | set =>
      rw [setCompletion_same]
      exact id
    | wake p hcomp => exact absurd (by rw [hcomp]; trivial) (h hw)
    | waitMissed p hcomp hne => exact absurd hw hne
  · have ht := not_takes ha hop
    obtain ⟨hstate, _⟩ := callback_other hc hop ht hs
    obtain ⟨c, hcomp, _⟩ := callback_completion hs
    rw [hcomp, Function.update_of_ne (Ne.symm hop)]
    exact h (hstate ▸ hw)

theorem awaited_step {a : Action} (hc : Coherent posts s) (h : Awaited s) (ht : Timely s)
    (ha : ¬ s.Intrudes a) (hs : step posts s a = some s') : Awaited s' := by
  have howner := hc.owner
  cases step_cases hs with
  | schedule | setIdle | setPending => exact nofun
  | issue answer ho =>
    rw [ho] at howner
    obtain ⟨_, _, _, heq⟩ := s.pollIssue_eq posts answer
    rw [heq]
    exact fun hw => nomatch howner.1.symm.trans hw
  | swap wait ho =>
    obtain ⟨_, _, _, _, heq⟩ := s.cancelSwap_eq wait
    rw [heq]
    intro hw
    cases wait with
    | false => exact nomatch hw
    | true =>
      show ¬ (s.completion s.latest).Over
      rw [ht.inFlight (.inl ho)]
      exact id
  | halfCancel wait err =>
    obtain ⟨_, _, _, _, heq⟩ := s.cancelWait_eq wait err
    rw [heq]
    exact h
  | complete op packet hcomp =>
    obtain rfl := hc.inFlight_latest hcomp
    exact fun _ => not_over_queued s s.latest packet
  | callback op hcall => exact awaited_callback hc h ha hcall
  | finish | get | busy | registerReady | register | cancellable | uncancellable | unbusy | poll
  | offer | cancel => exact h

/-- A destructor's cancel is going on, or has returned `Ok`. -/
def Cancels (s : Half) : Prop := s.Waits ∨ s.owner = .outside ∧ s.cancelled = none

/-- Past `isCancellable`, a waiting cancel waits. -/
theorem cancelSwap_waits (s : Half) : (s.cancelSwap true).Waits := by
  unfold cancelSwap
  dsimp only
  split
  · exact .inr (.inr (.inl rfl))
  · exact .inr (.inr (.inr ⟨none, rfl⟩))

theorem waits_step {a : Action} (h : s.Waits) (ht : Timely s) (hs : step posts s a = some s') :
    s'.Cancels := by
  cases step_cases hs with
  | cancellable wait ho | uncancellable wait ho =>
    rcases h with h | h | h | ⟨_, h⟩ <;> cases ho.symm.trans h
    first | exact .inl (.inr (.inl rfl)) | exact .inr ⟨rfl, rfl⟩
  | swap wait ho =>
    rcases h with h | h | h | ⟨_, h⟩ <;> cases ho.symm.trans h
    exact .inl s.cancelSwap_waits
  | halfCancel wait err ho =>
    rcases h with h | h | h | ⟨_, h⟩ <;> cases ho.symm.trans h
    exact .inl (.inr (.inr (.inr ⟨err, rfl⟩)))
  | unbusy ret ho =>
    cases ret with
    | none => exact .inr ⟨rfl, rfl⟩
    | some err => exact absurd ho (ht.succeeds err)
  | complete => exact .inl h
  | callback op hcall =>
    refine .inl ?_
    unfold Waits
    rw [(callback_kept hcall).owner]
    exact h
  | poll _ ho | offer _ ho | cancel _ ho | finish ho | get ho | schedule ho | busy ho
  | issue _ ho | registerReady _ ho | setIdle _ ho | setPending ho | register ho =>
    rcases h with h | h | h | ⟨_, h⟩ <;> cases ho.symm.trans h

theorem Cancels.returns (h : s.Cancels) (ht : Timely s) (hc : Coherent posts s)
    (ha : Awaited s) : Returns posts s := by
  rcases h with hw | hret
  · exact ht.returns hc ha hw
  · exact .here hret

theorem Cancels.ok (h : s.Cancels) (ho : s.owner = .outside) : s.cancelled = none := by
  rcases h with (h | h | h | ⟨_, h⟩) | ⟨_, hret⟩
  · cases ho.symm.trans h
  · cases ho.symm.trans h
  · cases ho.symm.trans h
  · cases ho.symm.trans h
  · exact hret

theorem cancels_step {a : Action} (h : s.Cancels) (ht : Timely s)
    (ha : IoHandle.enters a = false) (hs : step posts s a = some s') : s'.Cancels := by
  rcases h with hw | ⟨ho, hret⟩
  · exact waits_step hw ht hs
  · obtain ⟨ho', hret'⟩ := IoHandle.outside_step ho ha hs
    exact .inr ⟨ho', hret'.trans hret⟩

/-! ### A cancel that comes too late -/

/-- The waiting cancel will return an error, if it returns, or has returned one. -/
def Doomed (s : Half) : Prop :=
  (s.owner = .cancel true ∨ s.owner = .halfCancel true) ∧ s.completion s.latest ≠ .inFlight ∨
  (∃ err, s.owner = .isBusy (some err)) ∨ s.owner = .outside ∧ s.cancelled ≠ none

/-- Left to the kernel, the callbacks and itself, a cancel that is not timely is doomed. -/
theorem doomed_of_not_timely (h : ¬ Timely s) : s.Doomed ∧ s.Waits := by
  by_cases hin : s.owner = .cancel true ∨ s.owner = .halfCancel true →
      s.completion s.latest = .inFlight
  · obtain ⟨err, ho⟩ : ∃ err, s.owner = .isBusy (some err) := by
      by_contra hnone
      exact h ⟨hin, fun err ho => hnone ⟨err, ho⟩⟩
    exact ⟨.inr (.inl ⟨err, ho⟩), .inr (.inr (.inr ⟨_, ho⟩))⟩
  · obtain ⟨ho, hne⟩ := Classical.not_imp.mp hin
    exact ⟨.inl ⟨ho, hne⟩, ho.elim (fun ho => .inr (.inl ho)) fun ho => .inr (.inr (.inl ho))⟩

theorem Doomed.kept (h : s.Doomed) (ho : s'.owner = s.owner) (hret : s'.cancelled = s.cancelled)
    (hc : s'.completion s'.latest = .inFlight → s.completion s.latest = .inFlight) : s'.Doomed := by
  unfold Doomed
  rw [ho, hret]
  exact h.imp_left fun h => ⟨h.1, fun hin => h.2 (hc hin)⟩

/-- Nothing comes to be in flight by a callback. -/
theorem callback_inFlight {op : Nat} (hs : s.callback op = some s')
    (hin : s'.completion s'.latest = .inFlight) : s.completion s.latest = .inFlight := by
  obtain ⟨c, hcomp, hc⟩ := callback_completion hs
  rw [(callback_kept hs).latest, hcomp] at hin
  by_cases hop : s.latest = op
  · subst hop
    rw [Function.update_self] at hin
    subst hin
    rcases hc with hc | ⟨_, _, hc, _⟩ <;> cases hc
  · rwa [Function.update_of_ne hop] at hin

theorem callback_cancelled {op : Nat} (hs : s.callback op = some s') :
    s'.cancelled = s.cancelled := by
  cases callback_cases hs <;> rfl

theorem doomed_step {a : Action} (hc : Coherent posts s) (h : s.Doomed)
    (ha : IoHandle.enters a = false) (hs : step posts s a = some s') : s'.Doomed := by
  have howner := hc.owner
  cases step_cases hs with
  | poll | offer | cancel => cases ha
  | swap wait ho =>
    rw [ho] at howner
    rcases h with ⟨h | h, hne⟩ | ⟨_, h⟩ | ⟨h, _⟩ <;> cases ho.symm.trans h
    have hcalled : (s.state.cancel true).1 = true := by
      rcases howner with hw | hw | hw <;> rw [hw] <;> rfl
    unfold cancelSwap
    dsimp only
    rw [if_pos hcalled]
    exact .inl ⟨.inr rfl, hne⟩
  | halfCancel wait err ho hin =>
    rcases h with ⟨h | h, hne⟩ | ⟨_, h⟩ | ⟨h, _⟩ <;> cases ho.symm.trans h
    cases err with
    | none => exact absurd (hin rfl) hne
    | some err => exact .inr (.inl ⟨err, rfl⟩)
  | unbusy ret ho =>
    rcases h with ⟨h | h, _⟩ | ⟨err, h⟩ | ⟨h, _⟩ <;> cases ho.symm.trans h
    exact .inr (.inr ⟨rfl, nofun⟩)
  | complete op packet hcomp =>
    refine h.kept rfl rfl fun hin => ?_
    obtain rfl := hc.inFlight_latest hcomp
    exact hcomp
  | callback op hcall =>
    exact h.kept (callback_kept hcall).owner (callback_cancelled hcall) (callback_inFlight hcall)
  | finish ho | get ho | schedule ho | busy ho | issue _ ho | registerReady _ ho | setIdle _ ho
  | setPending ho | register ho | cancellable _ ho | uncancellable _ ho =>
    rcases h with ⟨h | h, _⟩ | ⟨_, h⟩ | ⟨h, _⟩ <;> cases ho.symm.trans h

/-- A doomed cancel does not return `Ok`. -/
theorem Doomed.not_ok (h : s.Doomed) : ¬ (s.owner = .outside ∧ s.cancelled = none) := by
  rintro ⟨ho, hret⟩
  rcases h with ⟨h | h, _⟩ | ⟨_, h⟩ | ⟨_, h⟩
  · cases ho.symm.trans h
  · cases ho.symm.trans h
  · cases ho.symm.trans h
  · exact h hret

theorem Doomed.not_returns (h : s.Doomed) (hc : Coherent false s) : ¬ Returns false s := by
  rintro ⟨as, has, t, hrun, hret⟩
  have hdoomed := Machine.run_keeps_of (M := machine false)
    (I := fun s => Coherent false s ∧ s.Doomed)
    (fun s a s' ⟨hc, h⟩ ha hs => ⟨coherent_step hc (hc.not_intrudes a) hs, doomed_step hc h ha hs⟩)
    ⟨hc, h⟩ (.of_actions has) hrun
  exact hdoomed.2.not_ok hret

end Half

namespace IoHandle

variable {posts : Bool} {s s' : IoHandle}

/-- A callback on the packet of an earlier operation of its half takes that half's word. -/
def Intrudes (s : IoHandle) : Action → Prop
  | .read action => s.read.Intrudes action
  | .write action => s.write.Intrudes action
  | _ => False

/-- A future of the write half is dropped without a panic: its cancel returns `Ok`, and
can always still return. The handle is dropped without a panic, and its destructor can
always still go on to the closing of the socket. -/
structure DropsSafely (posts : Bool) (s : IoHandle) (_ : Action) (s' : IoHandle) : Prop where
  write : s.life = .alive → Half.ReturnsWaiting s.write s'.write → s'.write.cancelled = none
  returns : s'.life = .alive → s'.write.Waits → s'.write.Returns posts
  panicked : s'.life ≠ .panicked
  closes : s'.life ≠ .alive → (machine posts).Leads (fun _ => True) (·.life = .released) s'

/-- The condition on a state: each cancel that a destructor unwraps is timely. -/
structure CancelsTimely (s : IoHandle) : Prop where
  write : s.write.Timely
  read : s.life = .cancelRead → s.read.Timely

/-- Each half is coherent, and its owner has left it where the destructor is elsewhere. -/
structure Halves (posts : Bool) (s : IoHandle) : Prop where
  left : Left s
  read : s.read.Coherent posts
  write : s.write.Coherent posts

theorem halves_init : Halves posts init := ⟨left_init, Half.coherent_init, Half.coherent_init⟩

theorem halves_step {a : Action} (h : Halves posts s) (ha : ¬ s.Intrudes a)
    (hs : step posts s a = some s') : Halves posts s' := by
  refine ⟨left_step h.left hs, ?_, ?_⟩
  · refine (readHalf posts).keeps h.left h.read (fun b hb hhalf => ?_) hs
    refine Half.coherent_step h.read (fun hi => ha ?_) hhalf
    cases a <;> cases hb <;> exact hi
  · refine (writeHalf posts).keeps h.left h.write (fun b hb hhalf => ?_) hs
    refine Half.coherent_step h.write (fun hi => ha ?_) hhalf
    cases a with
    | write action =>
      cases hb
      exact hi
    | next =>
      simp only [writeHalf, writePart] at hb
      split at hb <;> cases hb
      exact hi.elim
    | _ => cases hb

theorem Halves.not_intrudes (h : Halves false s) (a : Action) : ¬ s.Intrudes a := by
  cases a with
  | read action => exact h.read.not_intrudes action
  | write action => exact h.write.not_intrudes action
  | _ => exact id

/-! ### Where the destructor can go -/

/-- A half's own steps, and the kernel's, are steps of the handle. -/
theorem leads_read {Q : Half → Prop}
    (h : (Half.machine posts).Leads (fun a => enters a = false) Q s.read) :
    (machine posts).Leads (fun _ => True) (fun t => ∃ half, Q half ∧ t = {s with read := half}) s :=
  h.inside (fun half => {s with read := half}) .read fun half a half' ha hs => by
    have hs : Half.step posts half a = some half' := hs
    simp [machine, step, ha, hs]

theorem leads_write {Q : Half → Prop}
    (h : (Half.machine posts).Leads (fun a => enters a = false) Q s.write) :
    (machine posts).Leads (fun _ => True) (fun t => ∃ half, Q half ∧ t = {s with write := half}) s :=
  h.inside (fun half => {s with write := half}) .write fun half a half' ha hs => by
    have hs : Half.step posts half a = some half' := hs
    simp [machine, step, ha, hs]

theorem closes_close (hl : s.life = .close) :
    (machine posts).Leads (fun _ => True) (·.life = .released) s := by
  have hs : step posts s .release = some {s with life := .released} := if_pos hl
  exact .step (a := .release) trivial hs (.here rfl)

theorem closes_written (hl : s.life = .cancelWrite) (ho : s.write.owner = .outside)
    (hret : s.write.cancelled = none) :
    (machine posts).Leads (fun _ => True) (·.life = .released) s := by
  have hs : step posts s .next = some {s with life := .close} := by
    simp [step, next, hl, unwrapped, ho, hret]
  exact .step (a := .next) trivial hs (closes_close rfl)

theorem closes_cancelWrite (hl : s.life = .cancelWrite) (h : s.write.Returns posts) :
    (machine posts).Leads (fun _ => True) (·.life = .released) s := by
  refine (leads_write h).trans fun t ⟨half, ⟨ho, hret⟩, ht⟩ => ?_
  subst ht
  exact closes_written hl ho hret

theorem closes_cancelRead (h : Halves posts s) (hl : s.life = .cancelRead)
    (hr : s.read.Returns posts) :
    (machine posts).Leads (fun _ => True) (·.life = .released) s := by
  have hw := h.left.writeLeft (by rw [hl]; rfl)
  have hc' := Half.coherent_cancel h.write hw true
  refine (leads_read hr).trans fun t ⟨half, ⟨ho, hret⟩, ht⟩ => ?_
  subst ht
  have hs : step posts {s with read := half} .next =
      some (cancelWrite {s with read := half}) := by
    simp [step, next, hl, unwrapped, ho, hret]
  exact .step (a := .next) trivial hs
    (closes_cancelWrite rfl (Half.returns_isCancellable hc' rfl))

/-! ### Runs whose cancels are timely -/

/-- What is known of the halves while every cancel that is unwrapped is timely. -/
structure Timed (posts : Bool) (s : IoHandle) : Prop where
  halves : Halves posts s
  timely : CancelsTimely s
  readAwaited : s.life = .cancelRead → s.read.Awaited
  writeAwaited : s.write.Awaited
  readCancels : s.life = .cancelRead → s.read.Cancels
  writeCancels : s.life = .cancelWrite → s.write.Cancels
  panicked : s.life ≠ .panicked

theorem timed_init : Timed posts init where
  halves := halves_init
  timely := ⟨⟨fun h => h.elim nofun nofun, nofun⟩, nofun⟩
  readAwaited := nofun
  writeAwaited := nofun
  readCancels := nofun
  writeCancels := nofun
  panicked := nofun

/-- A half its owner is outside of is not under the word of a waiting cancel. -/
theorem awaited_enter {half : Half} (h : half.Coherent posts) (ho : half.owner = .outside)
    (owner : Owner) : Half.Awaited {half with owner} := by
  have howner := h.owner
  rw [ho] at howner
  exact fun hw => absurd hw howner.2

/-- **The step lemma**. -/
theorem timed_step {a : Action} (h : Timed posts s) (ha : ¬ s.Intrudes a) (ht : CancelsTimely s')
    (hs : step posts s a = some s') : Timed posts s' := by
  have hhalves := halves_step h.halves ha hs
  cases step_cases hs with
  | read action half hhalf he =>
    refine ⟨hhalves, ht, fun hl => ?_, h.writeAwaited, fun hl => ?_, h.writeCancels, h.panicked⟩
    · exact Half.awaited_step h.halves.read (h.readAwaited hl) (h.timely.read hl) ha hhalf
    · have hdead : enters action = false := Bool.eq_false_iff.mpr fun hent =>
        nomatch (he hent).symm.trans hl
      exact Half.cancels_step (h.readCancels hl) (h.timely.read hl) hdead hhalf
  | write action half hhalf he =>
    refine ⟨hhalves, ht, h.readAwaited, ?_, h.readCancels, fun hl => ?_, h.panicked⟩
    · exact Half.awaited_step h.halves.write h.writeAwaited h.timely.write ha hhalf
    · have hdead : enters action = false := Bool.eq_false_iff.mpr fun hent =>
        nomatch (he hent).symm.trans hl
      exact Half.cancels_step (h.writeCancels hl) h.timely.write hdead hhalf
  | drop _ hr _ =>
    exact ⟨hhalves, ht, fun _ => awaited_enter h.halves.read hr _, h.writeAwaited,
      fun _ => .inl (.inl rfl), nofun, nofun⟩
  | nextWrite hl =>
    have hw := h.halves.left.writeLeft (by rw [hl]; rfl)
    exact ⟨hhalves, ht, nofun, awaited_enter h.halves.write hw _, nofun,
      fun _ => .inl (.inl rfl), nofun⟩
  | nextClose | release => exact ⟨hhalves, ht, nofun, h.writeAwaited, nofun, nofun, nofun⟩
  | readPanics hl hr hc => exact absurd ((h.readCancels hl).ok hr) hc
  | writePanics hl hw hc => exact absurd ((h.writeCancels hl).ok hw) hc

theorem Timed.closes (h : Timed posts s) (hl : s.life ≠ .alive) :
    (machine posts).Leads (fun _ => True) (·.life = .released) s := by
  cases hlife : s.life with
  | alive => exact absurd hlife hl
  | cancelRead =>
    exact closes_cancelRead h.halves hlife ((h.readCancels hlife).returns (h.timely.read hlife)
      h.halves.read (h.readAwaited hlife))
  | cancelWrite =>
    exact closes_cancelWrite hlife ((h.writeCancels hlife).returns h.timely.write h.halves.write
      h.writeAwaited)
  | close => exact closes_close hlife
  | released => exact .here hlife
  | panicked => exact absurd hlife h.panicked

theorem Timed.dropsSafely {a : Action} (h : Timed posts s) (h' : Timed posts s')
    (hs : step posts s a = some s') : DropsSafely posts s a s' where
  write := by
    intro _ ⟨hout, hin⟩
    have hw : s.write.Waits := hin.elim .inl fun hin => .inr (.inr (.inr hin))
    have hcancels : s'.write.Cancels := (writeHalf posts).keeps h.halves.left (.inl hw)
      (fun _ _ hhalf => Half.waits_step hw h.timely.write hhalf) hs
    exact hcancels.ok hout
  returns := fun _ hw => h'.timely.write.returns h'.halves.write h'.writeAwaited hw
  panicked := h'.panicked
  closes := h'.closes

/-! ### A handle that will not be closed -/

/-- The destructor is in a cancel that will return an error, or has unwrapped one. -/
def Doomed (s : IoHandle) : Prop :=
  s.life = .cancelRead ∧ s.read.Doomed ∨ s.life = .cancelWrite ∧ s.write.Doomed ∨
    s.life = .panicked

theorem doomed_step {a : Action} (hh : Halves posts s) (h : s.Doomed)
    (hs : step posts s a = some s') : s'.Doomed := by
  cases step_cases hs with
  | read action half hhalf he =>
    refine h.imp_left fun ⟨hl, hd⟩ => ⟨hl, ?_⟩
    have hdead : enters action = false := Bool.eq_false_iff.mpr fun hent =>
      nomatch (he hent).symm.trans hl
    exact Half.doomed_step hh.read hd hdead hhalf
  | write action half hhalf he =>
    refine h.imp_right (Or.imp_left fun ⟨hl, hd⟩ => ⟨hl, ?_⟩)
    have hdead : enters action = false := Bool.eq_false_iff.mpr fun hent =>
      nomatch (he hent).symm.trans hl
    exact Half.doomed_step hh.write hd hdead hhalf
  | readPanics | writePanics => exact .inr (.inr rfl)
  | nextWrite hl hr hc =>
    rcases h with ⟨_, hd⟩ | ⟨hl', _⟩ | hl'
    · exact absurd ⟨hr, hc⟩ hd.not_ok
    · cases hl.symm.trans hl'
    · cases hl.symm.trans hl'
  | nextClose hl hw hc =>
    rcases h with ⟨hl', _⟩ | ⟨_, hd⟩ | hl'
    · cases hl.symm.trans hl'
    · exact absurd ⟨hw, hc⟩ hd.not_ok
    · cases hl.symm.trans hl'
  | drop hl | release hl =>
    rcases h with ⟨hl', _⟩ | ⟨hl', _⟩ | hl' <;> cases hl.symm.trans hl'

theorem Doomed.not_closes (h : s.Doomed) (hh : Halves false s) :
    ¬ (machine false).Leads (fun _ => True) (·.life = .released) s := by
  rintro ⟨as, _, t, hrun, hl⟩
  have hdoomed := Machine.run_keeps (M := machine false) (I := fun s => Halves false s ∧ s.Doomed)
    (fun s a s' ⟨hh, h⟩ hs => ⟨halves_step hh (hh.not_intrudes a) hs, doomed_step hh h hs⟩)
    ⟨hh, h⟩ hrun
  rcases hdoomed.2 with ⟨hl', _⟩ | ⟨hl', _⟩ | hl' <;> cases hl.symm.trans hl'

/-- What a safe step leaves timely. -/
theorem DropsSafely.timely {a : Action} (h : DropsSafely false s a s') (hh : Halves false s') :
    CancelsTimely s' := by
  have hdead {half : Half} (hw : half.Waits) : half.owner ≠ .outside := by
    intro ho
    rcases hw with h | h | h | ⟨_, h⟩ <;> cases ho.symm.trans h
  constructor
  · by_contra hlate
    obtain ⟨hdoomed, hw⟩ := Half.doomed_of_not_timely hlate
    by_cases hl : s'.life = .alive
    · exact hdoomed.not_returns hh.write (h.returns hl hw)
    · refine Doomed.not_closes (.inr (.inl ⟨?_, hdoomed⟩)) hh (h.closes hl)
      cases hlife : s'.life with
      | cancelWrite => rfl
      | alive => exact absurd hlife hl
      | panicked => exact absurd hlife h.panicked
      | _ => exact absurd (hh.left.writeLeft (by rw [hlife]; rfl)) (hdead hw)
  · intro hl
    by_contra hlate
    obtain ⟨hdoomed, _⟩ := Half.doomed_of_not_timely hlate
    refine Doomed.not_closes (.inl ⟨hl, hdoomed⟩) hh (h.closes ?_)
    rw [hl]
    nofun

/-- **No destructor panics**, and the last one closes the socket, exactly when every cancel
that a destructor unwraps has its operation in flight from its test to its `CancelIoEx`
and that succeeds; where synchronously accepted operations post packets too, as long as
those packets' callbacks do not take the word of a later operation. -/
theorem destructors_safe (as : List Action) :
    ((machine false).Steps (DropsSafely false) init as ↔
      (machine false).Steps (fun _ _ s' => CancelsTimely s') init as) ∧
    ((machine true).Steps (fun s a s' => ¬ s.Intrudes a ∧ CancelsTimely s') init as →
      (machine true).Steps (DropsSafely true) init as) := by
  have hstep : ∀ {posts s a s'}, Timed posts s → ¬ s.Intrudes a → CancelsTimely s' →
      step posts s a = some s' → Timed posts s' ∧ DropsSafely posts s a s' := fun h ha ht hs => by
    have h' := timed_step h ha ht hs
    exact ⟨h', h.dropsSafely h' hs⟩
  refine ⟨⟨fun h => ?_, fun h => ?_⟩, fun h => ?_⟩
  · refine Machine.Steps.of_invariant (I := Halves false) (fun s a s' hh hd hs => ?_) halves_init h
    have hh' := halves_step hh (hh.not_intrudes a) hs
    exact ⟨hh', hd.timely hh'⟩
  · exact Machine.Steps.of_invariant (fun s a s' hI ht hs =>
      hstep hI (hI.halves.not_intrudes a) ht hs) timed_init h
  · exact Machine.Steps.of_invariant (fun s a s' hI ht hs => hstep hI ht.1 ht.2 hs) timed_init h

instance (s : IoHandle) : Decidable s.CancelsTimely :=
  decidable_of_iff (s.write.Timely ∧ (s.life = .cancelRead → s.read.Timely))
    ⟨fun h => ⟨h.1, h.2⟩, fun h => ⟨h.write, h.read⟩⟩

instance (s : IoHandle) (a : Action) : Decidable (s.Intrudes a) :=
  match a with
  | .read action => inferInstanceAs (Decidable (s.read.Intrudes action))
  | .write action => inferInstanceAs (Decidable (s.write.Intrudes action))
  | .drop | .next | .release => isFalse id

/-- A pending write. -/
def pendingWrite : List Action :=
  [.write (.poll 0), .write .owner, .write .owner, .write (.issue (.failed 997)), .write .owner]

/-- It is dropped, `CancelIoEx` finds it, and the handle is dropped after it. -/
def droppedWrite : List Action :=
  pendingWrite ++ [.write (.cancel true), .write .owner, .write .owner, .write (.halfCancel none),
    .write (.complete 1 ⟨995, 0⟩), .write (.callback 1), .write (.callback 1), .write (.callback 1),
    .write (.callback 1), .write (.callback 1), .write .owner,
    .drop, .read .owner, .next, .write .owner, .next, .release]

theorem destructors_safe_found :
    (machine false).Steps (DropsSafely false) init droppedWrite ∧
    (machine true).Steps (DropsSafely true) init droppedWrite :=
  ⟨(destructors_safe _).1.mpr (by decide), (destructors_safe _).2 (by decide)⟩

/-- The write has completed when it is dropped, and its callback has not run. -/
theorem completed_drop_panics : ¬ ∀ as : List Action,
    (machine false).Steps (DropsSafely false) init as := by
  intro h
  have hunwraps := (h (pendingWrite ++ [.write (.complete 1 ⟨0, 5⟩),
    .write (.cancel true), .write .owner, .write .owner, .write (.halfCancel (some 1168)),
    .write (.callback 1), .write (.callback 1), .write (.callback 1), .write (.callback 1),
    .write (.callback 1), .write .owner])).mono
    (Q := fun s _ s' => s.life = .alive → s.write.owner = .isBusy (some 1168) →
      s'.write.owner = .outside → s'.write.cancelled = none)
    fun _ _ _ _ hd hl ho hout => hd.write hl ⟨hout, .inr ⟨_, ho⟩⟩
  exact absurd hunwraps (by decide)

end IoHandle

end Wae.Io
