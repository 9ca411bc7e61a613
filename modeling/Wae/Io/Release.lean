import Wae.Io.Event
import Wae.Io.Handle
import Wae.Transition.Lifetime

/-! Callbacks and the object they point into.

Neither destructor waits for callbacks: closing the thread-pool object stops new
ones, and the word is all that was asked before. So whether a callback still comes
to the object after its release is decided by what is owed at that moment: an
operation in flight, a queued packet or callback, a callback part way through. -/
namespace Wae.Io
open Transition

namespace Half

variable {posts : Bool} {s s' : Half}

/-- No completion is owed and no callback is part way through. -/
def Quiet (s : Half) : Prop := ∀ op, s.completion op = .absent ∨ s.completion op = .done

/-- The owner's places from `IDLE → SCHEDULING` to the store that ends it. -/
def schedules (s : Half) : Prop :=
  s.owner = .issue ∨ (∃ r, s.owner = .registerReady r) ∨ (∃ r, s.owner = .setIdle r) ∨
    s.owner = .setPending

/-- `SCHEDULING` is the owner's own. -/
def Spun (s : Half) : Prop := s.state = .scheduling → s.schedules

theorem spun_init : Spun init := nofun

theorem spun_step {a : Action} (h : Spun s) (hs : step posts s a = some s') : Spun s' := by
  cases step_cases hs with
  | schedule => exact fun _ => .inl rfl
  | registerReady reading => exact fun _ => .inr (.inr (.inl ⟨reading, rfl⟩))
  | setIdle | setPending => exact nofun
  | issue answer =>
    intro _
    unfold pollIssue
    split
    · exact .inr (.inl ⟨_, rfl⟩)
    · exact .inr (.inr (.inr rfl))
  | offer | complete => exact h
  | callback op hcall =>
    intro hw
    have hsame : s.state = .scheduling := by
      cases callback_cases hcall with
      | pendingTaken | nowaitTaken | waitTaken | setReady | setReadyOnly => exact nomatch hw
      | _ => exact hw
    unfold schedules
    rw [(callback_kept hcall).owner]
    exact h hsame
  | swap wait ho =>
    obtain ⟨_, _, _, _, heq⟩ := s.cancelSwap_eq wait
    rw [heq]
    intro hw
    cases wait <;> exact nomatch hw
  | halfCancel wait err ho =>
    obtain ⟨_, _, _, _, heq⟩ := s.cancelWait_eq wait err
    rw [heq]
    exact fun hw => absurd (h hw) (by simp [schedules, ho])
  | poll _ ho | cancel _ ho | finish ho | get ho | busy ho | register ho | cancellable _ ho
  | uncancellable _ ho | unbusy _ ho => exact fun hw => absurd (h hw) (by simp [schedules, ho])

/-- An operation not yet scheduled has no completion. -/
def Fresh (s : Half) : Prop := ∀ op, s.latest < op → s.completion op = .absent

theorem fresh_init : Fresh init := fun _ _ => rfl

/-- A completion that is there may change. -/
theorem Fresh.update (h : Fresh s) {op : Nat} {c : Completion} (hop : op ≤ s.latest)
    (hc : s'.completion = Function.update s.completion op c) (hl : s'.latest = s.latest) :
    Fresh s' := by
  intro k hk
  rw [hl] at hk
  rw [hc, Function.update_of_ne (by omega)]
  exact h k hk

theorem Fresh.le (h : Fresh s) {op : Nat} (hc : s.completion op ≠ .absent) : op ≤ s.latest := by
  by_contra hop
  exact hc (h op (Nat.lt_of_not_le hop))

theorem fresh_step {a : Action} (h : Fresh s) (hs : step posts s a = some s') : Fresh s' := by
  cases step_cases hs with
  | schedule => exact fun op hop => h op (Nat.lt_of_succ_lt hop)
  | issue answer =>
    unfold pollIssue
    split <;> exact h.update (Nat.le_refl _) rfl rfl
  | swap wait =>
    obtain ⟨_, _, _, _, heq⟩ := s.cancelSwap_eq wait
    rw [heq]
    exact h
  | halfCancel wait err =>
    obtain ⟨_, _, _, _, heq⟩ := s.cancelWait_eq wait err
    rw [heq]
    exact h
  | complete op packet hc => exact h.update (h.le (by rw [hc]; nofun)) rfl rfl
  | callback op hcall =>
    have hpresent : s.completion op ≠ .absent := fun hc => by simp [Half.callback, hc] at hcall
    obtain ⟨c, hcomp, _⟩ := callback_completion hcall
    exact h.update (h.le hpresent) hcomp (callback_kept hcall).latest
  | _ => exact h

/-- `Quiet`, as far as there are operations. -/
def settled (s : Half) : Bool :=
  decide (∀ op < s.latest + 1, s.completion op = .absent ∨ s.completion op = .done)

theorem Fresh.quiet (h : Fresh s) (hs : s.settled = true) : Quiet s := by
  intro op
  by_cases hop : s.latest < op
  · exact .inl (h op hop)
  · exact of_decide_eq_true hs op (by omega)

theorem Spun.outside (h : Spun s) (ho : s.owner = .outside) : s.state ≠ .scheduling :=
  fun hw => absurd (h hw) (by simp [schedules, ho])

theorem Spun.cancels (h : Spun s) (ho : s.owner = .outside) :
    Spun {s with owner := .isCancellable true} :=
  fun hw => absurd hw (h.outside ho)

/-- Part way through, a callback can always go on. -/
theorem callback_running {op : Nat} {p : Packet} {pc : CallbackPc}
    (hc : s.completion op = .running p pc) : s.callback op ≠ none := by
  cases pc <;> simp only [Half.callback, hc] <;> first | exact Option.some_ne_none _ |
    (split <;> exact Option.some_ne_none _)

theorem callback_queued {op : Nat} {p : Packet} (hc : s.completion op = .queued p)
    (hw : s.state ≠ .scheduling) : s.callback op ≠ none := by
  have hspin : s.state.spins = false := Bool.eq_false_iff.mpr (mt s.state.spins_iff.mp hw)
  simp [Half.callback, hc, hspin]

/-- Where no callback comes to the half, now or after a completion, none is owed. -/
theorem quiet_of_disabled (hw : s.state ≠ .scheduling) (hnow : ∀ op, s.callback op = none)
    (hthen : ∀ op p s', s.complete op p = some s' → s'.callback op = none) : Quiet s := by
  intro op
  cases hc : s.completion op with
  | absent => exact .inl rfl
  | done => exact .inr rfl
  | running p pc => exact absurd (hnow op) (callback_running hc)
  | queued p => exact absurd (hnow op) (callback_queued hc hw)
  | inFlight =>
    have hs : s.complete op ⟨0, 0⟩ = some {s.setCompletion op (.queued ⟨0, 0⟩) with
        outcome := Function.update s.outcome op (some (Packet.outcome ⟨0, 0⟩))} := by
      simp only [complete, hc]
    exact absurd (hthen op ⟨0, 0⟩ _ hs) (callback_queued (setCompletion_same ..) hw)

/-- A quiet half that its owner has left takes no step by itself. -/
theorem Quiet.stuck {a : Action} (h : Quiet s) (ho : s.owner = .outside)
    (ha : IoHandle.enters a = false) : step posts s a = none := by
  cases a with
  | poll => exact nomatch ha
  | offer => exact nomatch ha
  | cancel => exact nomatch ha
  | owner => simp [step, owned, ho]
  | issue answer => simp [step, ho]
  | halfCancel err => simp [step, ho]
  | complete op p => rcases h op with hc | hc <;> simp [step, complete, hc]
  | callback op => rcases h op with hc | hc <;> simp [step, Half.callback, hc]

/-- A quiet half whose owner waits for the word of its own cancel takes none either. -/
theorem Quiet.spins {a : Action} {ret : Option Int32} (h : Quiet s) (ho : s.owner = .isBusy ret)
    (hw : s.state = .cancelledWait) (ha : IoHandle.enters a = false) : step posts s a = none := by
  cases a with
  | poll => exact nomatch ha
  | offer => exact nomatch ha
  | cancel => exact nomatch ha
  | owner => simp [step, owned, ho, hw, IoState.isBusy]
  | issue answer => simp [step, ho]
  | halfCancel err => simp [step, ho]
  | complete op p => rcases h op with hc | hc <;> simp [step, complete, hc]
  | callback op => rcases h op with hc | hc <;> simp [step, Half.callback, hc]

end Half

namespace IoHandle

variable {posts : Bool} {s s' : IoHandle}

/-- A step of `callback`: each of them reads or writes the half. -/
def Action.accesses : Action → Bool
  | .read (.callback _) | .write (.callback _) => true
  | _ => false

abbrev Action.Accesses (a : Action) : Prop := a.accesses = true

def Quiet (s : IoHandle) : Prop := s.read.Quiet ∧ s.write.Quiet

/-- The object's memory is gone: the destructor has come to its end, or `unwrap` has
panicked, and the unwinding has dropped both halves. -/
def Life.gone : Life → Bool
  | .released | .panicked => true
  | _ => false

/-- `unwrap` meets the error that the destructor's cancel has returned. -/
def panics (s : IoHandle) : Bool :=
  match s.life with
  | .cancelRead => s.read.owner == .outside && s.read.cancelled.isSome
  | .cancelWrite => s.write.owner == .outside && s.write.cancelled.isSome
  | _ => false

/-- The step with which the memory goes. -/
def releases (s : IoHandle) : Action → Bool
  | .release => true
  | .next => s.panics
  | _ => false

/-- The destructor's cancel of the read half is over. -/
def Life.readLeft : Life → Bool
  | .cancelWrite | .close | .released | .panicked => true
  | _ => false

/-- The destructor is not in the write half: not yet, or no more. -/
def Life.writeLeft : Life → Bool
  | .cancelRead | .close | .released | .panicked => true
  | _ => false

theorem Life.gone_left {life : Life} (h : life.gone = true) :
    life.readLeft = true ∧ life.writeLeft = true := by
  cases life with
  | released | panicked => exact ⟨rfl, rfl⟩
  | _ => cases h

/-- Where the owners are while the destructor runs. -/
structure Left (s : IoHandle) : Prop where
  read : Half.Spun s.read
  write : Half.Spun s.write
  readFresh : Half.Fresh s.read
  writeFresh : Half.Fresh s.write
  readLeft : s.life.readLeft = true → s.read.owner = .outside
  writeLeft : s.life.writeLeft = true → s.write.owner = .outside

theorem left_init : Left init :=
  ⟨Half.spun_init, Half.spun_init, Half.fresh_init, Half.fresh_init, fun _ => rfl, fun _ => rfl⟩

theorem left_step {a : Action} (h : Left s) (hs : step posts s a = some s') : Left s' := by
  cases step_cases hs with
  | read action half hhalf ha =>
    refine ⟨Half.spun_step h.read hhalf, h.write, Half.fresh_step h.readFresh hhalf, h.writeFresh,
      fun hl => ?_, h.writeLeft⟩
    have hdead : enters action = false := Bool.eq_false_iff.mpr fun he => by
      rw [show s.life = .alive from ha he] at hl
      cases hl
    exact (outside_step (h.readLeft hl) hdead hhalf).1
  | write action half hhalf ha =>
    refine ⟨h.read, Half.spun_step h.write hhalf, h.readFresh, Half.fresh_step h.writeFresh hhalf,
      h.readLeft, fun hl => ?_⟩
    have hdead : enters action = false := Bool.eq_false_iff.mpr fun he => by
      rw [show s.life = .alive from ha he] at hl
      cases hl
    exact (outside_step (h.writeLeft hl) hdead hhalf).1
  | drop _ hr hw =>
    exact ⟨h.read.cancels hr, h.write, h.readFresh, h.writeFresh, nofun, fun _ => hw⟩
  | nextWrite hl hr _ =>
    have hw := h.writeLeft (by rw [hl]; rfl)
    exact ⟨h.read, h.write.cancels hw, h.readFresh, h.writeFresh, fun _ => hr, nofun⟩
  | nextClose hl hw _ =>
    have hr := h.readLeft (by rw [hl]; rfl)
    exact ⟨h.read, h.write, h.readFresh, h.writeFresh, fun _ => hr, fun _ => hw⟩
  | readPanics hl hr _ =>
    have hw := h.writeLeft (by rw [hl]; rfl)
    exact ⟨h.read, h.write, h.readFresh, h.writeFresh, fun _ => hr, fun _ => hw⟩
  | writePanics hl hw _ =>
    have hr := h.readLeft (by rw [hl]; rfl)
    exact ⟨h.read, h.write, h.readFresh, h.writeFresh, fun _ => hr, fun _ => hw⟩
  | release hl =>
    have hr := h.readLeft (by rw [hl]; rfl)
    have hw := h.writeLeft (by rw [hl]; rfl)
    exact ⟨h.read, h.write, h.readFresh, h.writeFresh, fun _ => hr, fun _ => hw⟩

/-- Where the memory is gone, neither owner is left in a half. -/
theorem Left.outside (h : Left s) (hl : s.life.gone = true) :
    s.read.owner = .outside ∧ s.write.owner = .outside := by
  obtain ⟨hr, hw⟩ := Life.gone_left hl
  exact ⟨h.readLeft hr, h.writeLeft hw⟩

/-- The destructor waits in its first cancel for a word that no callback will replace. -/
structure Spins (s : IoHandle) : Prop where
  life : s.life = .cancelRead
  waits : ∃ ret, s.read.owner = .isBusy ret
  word : s.read.state = .cancelledWait
  outside : s.write.owner = .outside
  quiet : s.Quiet

/-- Nothing moves there, and the destructor is not over. -/
theorem Spins.stuck (h : Spins s) (a : Action) : step posts s a = none := by
  obtain ⟨ret, howner⟩ := h.waits
  cases a with
  | read action =>
    cases he : enters action with
    | true => simp [step, he, h.life]
    | false => simp [step, he, h.quiet.1.spins howner h.word he]
  | write action =>
    cases he : enters action with
    | true => simp [step, he, h.life]
    | false => simp [step, he, h.quiet.2.stuck h.outside he]
  | drop => simp [step, h.life]
  | next => simp [step, next, h.life, unwrapped, howner]
  | release => simp [step, h.life]

/-- Released, with nothing owed: not a step more. -/
theorem never_of_quiet (hl : s.life.gone = true) (h : Left s) (hq : s.Quiet) :
    (machine posts).Never Action.Accesses s := by
  obtain ⟨hr, hw⟩ := h.outside hl
  have hlife {life : Life} (he : s.life = life) : life.gone = true := he ▸ hl
  have hnone : ∀ a, step posts s a = none := fun a => by
    by_contra hne
    obtain ⟨s', hs⟩ := Option.ne_none_iff_exists'.mp hne
    cases step_cases hs with
    | read action half hhalf ha =>
      have hdead : enters action = false := Bool.eq_false_iff.mpr fun he =>
        nomatch hlife (ha he)
      exact nomatch (hq.1.stuck hr hdead).symm.trans hhalf
    | write action half hhalf ha =>
      have hdead : enters action = false := Bool.eq_false_iff.mpr fun he =>
        nomatch hlife (ha he)
      exact nomatch (hq.2.stuck hw hdead).symm.trans hhalf
    | drop he | nextWrite he | nextClose he | readPanics he | writePanics he | release he =>
      cases hlife he
  exact Machine.Never.of_stuck hnone

theorem read_disabled (hn : (machine posts).Never Action.Accesses s) (op : Nat) :
    s.read.callback op = none := by
  have haccess : Action.Accesses (.read (.callback op)) := rfl
  simpa [machine, step, enters, Half.step] using hn.disabled _ haccess

theorem write_disabled (hn : (machine posts).Never Action.Accesses s) (op : Nat) :
    s.write.callback op = none := by
  have haccess : Action.Accesses (.write (.callback op)) := rfl
  simpa [machine, step, enters, Half.step] using hn.disabled _ haccess

/-- Released, with something owed: a callback can come. -/
theorem quiet_of_never (hl : s.life.gone = true) (h : Left s)
    (hn : (machine posts).Never Action.Accesses s) : s.Quiet := by
  have hread := h.read.outside (h.outside hl).1
  have hwrite := h.write.outside (h.outside hl).2
  refine ⟨Half.quiet_of_disabled hread (fun op => ?_) fun op p half hs => ?_,
    Half.quiet_of_disabled hwrite (fun op => ?_) fun op p half hs => ?_⟩
  · exact read_disabled hn op
  · have hs' : (machine posts).step s (.read (.complete op p)) = some {s with read := half} := by
      simp [machine, step, enters, Half.step, hs]
    exact read_disabled (hn.step hs') op
  · exact write_disabled hn op
  · have hs' : (machine posts).step s (.write (.complete op p)) = some {s with write := half} := by
      simp [machine, step, enters, Half.step, hs]
    exact write_disabled (hn.step hs') op

/-- No callback accesses a handle whose memory is gone. -/
def WithinLife (s : IoHandle) (a : Action) (_ : IoHandle) : Prop :=
  s.life.gone = true → ¬ a.Accesses

/-- However the run goes on, no callback accesses the handle that is released here. -/
def ReleasesForGood (posts : Bool) (s : IoHandle) (a : Action) (s' : IoHandle) : Prop :=
  s.releases a = true → (machine posts).Never Action.Accesses s'

/-- The condition on a step. -/
def ReleasesQuiet (s : IoHandle) (a : Action) (_ : IoHandle) : Prop :=
  s.releases a = true → s.Quiet

theorem panics_read (hl : s.life = .cancelRead) (hr : s.read.owner = .outside)
    (hc : s.read.cancelled ≠ none) : s.panics = true := by
  simp [panics, hl, hr, Option.isSome_iff_ne_none.mpr hc]

theorem panics_write (hl : s.life = .cancelWrite) (hw : s.write.owner = .outside)
    (hc : s.write.cancelled ≠ none) : s.panics = true := by
  simp [panics, hl, hw, Option.isSome_iff_ne_none.mpr hc]

/-- The only steps with which the memory goes. -/
theorem release_only {a : Action} (hs : step posts s a = some s') (hl : s'.life.gone = true) :
    s.life.gone = true ∨ s.releases a = true := by
  cases step_cases hs with
  | read | write => exact .inl hl
  | release => exact .inr rfl
  | readPanics hlife hr hc => exact .inr (panics_read hlife hr hc)
  | writePanics hlife hw hc => exact .inr (panics_write hlife hw hc)
  | drop | nextWrite | nextClose => cases hl

/-- A release touches neither half. -/
theorem releases_step {a : Action} (ha : s.releases a = true) (hs : step posts s a = some s') :
    s'.life.gone = true ∧ s'.read = s.read ∧ s'.write = s.write := by
  cases step_cases hs with
  | read | write | drop => cases ha
  | release | readPanics | writePanics => exact ⟨rfl, rfl, rfl⟩
  | nextWrite hlife hr hc =>
    have ha : s.panics = true := ha
    simp [panics, hlife, hc] at ha
  | nextClose hlife hw hc =>
    have ha : s.panics = true := ha
    simp [panics, hlife, hc] at ha

theorem left_steps (posts : Bool) (as : List Action) :
    (machine posts).Steps (fun s _ _ => Left s) init as :=
  Machine.Steps.of_kept (I := Left) (fun _ _ _ h hs => ⟨left_step h hs, h⟩) left_init as

theorem lifetime (posts : Bool) : (machine posts).Lifetime Left (fun s a => s.releases a = true)
    Action.Accesses (·.life.gone = true) Quiet where
  init := left_init
  step := fun _ _ _ h hs => left_step h hs
  alive := nofun
  only := fun _ _ _ hs hl => release_only hs hl
  decided := fun s a s' h hs ha => by
    have hs : step posts s a = some s' := hs
    have h' := left_step h hs
    obtain ⟨hl, hread, hwrite⟩ := releases_step ha hs
    have hsame : s'.Quiet ↔ s.Quiet := by rw [Quiet, Quiet, hread, hwrite]
    rw [← hsame]
    exact ⟨quiet_of_never hl h', never_of_quiet hl h'⟩

end IoHandle

namespace IoEvent

variable {s s' : IoEvent}

def Action.accesses : Action → Bool
  | .callback _ => true
  | _ => false

abbrev Action.Accesses (a : Action) : Prop := a.accesses = true

/-- No callback is queued or part way through. -/
def Quiet (s : IoEvent) : Prop := ∀ k, s.callbacks k = .absent ∨ s.callbacks k = .done

/-- The owner's places from `IDLE → SCHEDULING` to the store that ends it. -/
def schedules (s : IoEvent) : Prop :=
  s.owner = .issue ∨ (∃ r, s.owner = .setIdle r) ∨ s.owner = .registerPending ∨
    s.owner = .setPending

/-- What the destructor has seen to. -/
structure Left (s : IoEvent) : Prop where
  spun : s.state = .scheduling → s.schedules
  outside : s.life ≠ .alive → s.owner = .outside
  disarmed : s.life = .closeHandle ∨ s.life = .released → s.armed = false

theorem left_init : Left init := ⟨nofun, fun h => absurd rfl h, nofun⟩

theorem Left.not_scheduling (h : Left s) (ho : s.owner = .outside) : s.state ≠ .scheduling :=
  fun hw => absurd (h.spun hw) (by simp [schedules, ho])

/-- An owner that is inside `poll` has not dropped the event. -/
theorem Left.alive (h : Left s) (ho : s.owner ≠ .outside) : s.life = .alive := by
  by_contra hl
  exact ho (h.outside hl)

/-- The owner moves. -/
theorem Left.proceed (h : Left s) (ho : s.owner ≠ .outside) (hl : s'.life = s.life)
    (hspun : s'.state = .scheduling → s'.schedules) : Left s' := by
  have halive := h.alive ho
  refine ⟨hspun, fun hne => absurd (hl.trans halive) hne, fun hc => ?_⟩
  rw [hl, halive] at hc
  rcases hc with hc | hc <;> cases hc

/-- What no callback touches. -/
theorem callback_kept {k : Nat} (hs : s.callback k = some s') :
    s'.owner = s.owner ∧ s'.life = s.life ∧ s'.armed = s.armed := by
  cases callback_cases hs <;> exact ⟨rfl, rfl, rfl⟩

theorem left_callback {k : Nat} (h : Left s) (hs : s.callback k = some s') : Left s' := by
  obtain ⟨ho, hl, ha⟩ := callback_kept hs
  refine ⟨fun hw => ?_, by rw [hl, ho]; exact h.outside, by rw [hl, ha]; exact h.disarmed⟩
  have hsame : s.state = .scheduling := by
    cases callback_cases hs with
    | taken | setReady => cases hw
    | _ => exact hw
  unfold schedules
  rw [ho]
  exact h.spun hsame

theorem left_step {a : Action} (h : Left s) (hs : step s a = some s') : Left s' := by
  cases step_cases hs with
  | poll waker handle ho hl =>
    exact ⟨fun hw => absurd hw (h.not_scheduling ho), fun hne => absurd hl hne, h.disarmed⟩
  | finish handle ho | setThreadpoolWait handle ho | busy ho _ | register ho =>
    exact h.proceed (by simp [ho]) rfl fun hw => absurd (h.spun hw) (by simp [schedules, ho])
  | get handle ho =>
    have hsame : (s.pollGet handle).state = s.state ∧ (s.pollGet handle).life = s.life := by
      unfold pollGet
      split <;> exact ⟨rfl, rfl⟩
    refine h.proceed (by simp [ho]) hsame.2 fun hw => absurd (h.spun ?_) (by simp [schedules, ho])
    exact hsame.1 ▸ hw
  | resetEvent handle err ho =>
    cases err <;>
      exact h.proceed (by simp [ho]) rfl fun hw => absurd (h.spun hw) (by simp [schedules, ho])
  | getOverlappedResult ho =>
    exact h.proceed (by simp [ho]) rfl fun hw => absurd (h.spun hw) (by simp [schedules, ho])
  | schedule ho => exact h.proceed (by simp [ho]) rfl fun _ => .inl rfl
  | issue clears answer ho =>
    cases answer with
    | accepted signals => exact h.proceed (by simp [ho]) rfl fun _ => .inr (.inl ⟨_, rfl⟩)
    | failed err => exact h.proceed (by simp [ho]) rfl fun _ => .inr (.inl ⟨_, rfl⟩)
    | pending => exact h.proceed (by simp [ho]) rfl fun _ => .inr (.inr (.inl rfl))
  | setIdle reading ho => exact h.proceed (by simp [ho]) rfl nofun
  | registerPending ho => exact h.proceed (by simp [ho]) rfl fun _ => .inr (.inr (.inr rfl))
  | setPending ho => exact h.proceed (by simp [ho]) rfl nofun
  | complete status => exact ⟨h.spun, h.outside, h.disarmed⟩
  | fire => exact ⟨h.spun, h.outside, fun _ => rfl⟩
  | callback k hcall => exact left_callback h hcall
  | drop _ ho => exact ⟨h.spun, fun _ => ho, nofun⟩
  | unbusy hl => exact ⟨h.spun, fun _ => h.outside (by rw [hl]; nofun), nofun⟩
  | closeThreadpoolWait hl =>
    exact ⟨h.spun, fun _ => h.outside (by rw [hl]; nofun), fun _ => rfl⟩
  | release hl =>
    exact ⟨h.spun, fun _ => h.outside (by rw [hl]; nofun), fun _ => h.disarmed (.inl hl)⟩

/-- A callback not yet queued is absent. -/
def Fresh (s : IoEvent) : Prop := ∀ k, s.fired < k → s.callbacks k = .absent

theorem fresh_init : Fresh init := fun _ _ => rfl

theorem Fresh.update (h : Fresh s) {k : Nat} {c : Callback} (hk : k ≤ s'.fired)
    (hc : s'.callbacks = Function.update s.callbacks k c) (hf : s.fired ≤ s'.fired) :
    Fresh s' := by
  intro n hn
  rw [hc, Function.update_of_ne (by omega)]
  exact h n (by omega)

theorem fresh_callback {k : Nat} (h : Fresh s) (hs : s.callback k = some s') : Fresh s' := by
  have hk : k ≤ s.fired := by
    by_contra hlt
    simp [IoEvent.callback, h k (by omega)] at hs
  cases callback_cases hs <;> exact h.update hk rfl (Nat.le_refl _)

theorem fresh_step {a : Action} (h : Fresh s) (hs : step s a = some s') : Fresh s' := by
  cases step_cases hs with
  | fire => exact h.update (Nat.le_refl _) rfl (Nat.le_succ _)
  | callback k hcall => exact fresh_callback h hcall
  | get =>
    unfold pollGet
    split <;> exact h
  | resetEvent _ err => cases err <;> exact h
  | issue _ answer => cases answer <;> exact h
  | _ => exact h

/-- `Quiet`, as far as there are callbacks. -/
def settled (s : IoEvent) : Bool :=
  decide (∀ k < s.fired + 1, s.callbacks k = .absent ∨ s.callbacks k = .done)

theorem Fresh.quiet (h : Fresh s) (hs : s.settled = true) : Quiet s := by
  intro k
  by_cases hk : s.fired < k
  · exact .inl (h k hk)
  · exact of_decide_eq_true hs k (by omega)

/-- Released, with no callback queued or running: there will be none. -/
theorem never_of_quiet (hl : s.life = .released) (h : Left s) (hq : s.Quiet) :
    machine.Never Action.Accesses s := by
  have hstep : ∀ t a t', (t.life = .released ∧ Left t ∧ t.Quiet) → step t a = some t' →
      t'.life = .released ∧ Left t' ∧ t'.Quiet := by
    rintro t a t' ⟨hl, h, hq⟩ hs
    have ho := h.outside (by rw [hl]; nofun)
    have h' := left_step h hs
    cases step_cases hs with
    | complete => exact ⟨hl, h', hq⟩
    | callback k hcall =>
      rcases hq k with hc | hc <;> simp [IoEvent.callback, hc] at hcall
    | fire ha => exact absurd (ha.symm.trans (h.disarmed (.inr hl))) nofun
    | poll _ _ _ hd | drop hd | unbusy hd | closeThreadpoolWait hd | release hd =>
      exact nomatch hl.symm.trans hd
    | finish _ hi | resetEvent _ _ hi | setThreadpoolWait _ hi | get _ hi
    | getOverlappedResult hi | schedule hi | busy hi | issue _ _ hi | setIdle _ hi
    | registerPending hi | setPending hi | register hi => exact nomatch ho.symm.trans hi
  refine Machine.Never.of_invariant hstep (fun t a ⟨_, _, hq⟩ ha => ?_) ⟨hl, h, hq⟩
  cases a with
  | callback k => rcases hq k with hc | hc <;> simp [machine, step, IoEvent.callback, hc]
  | _ => cases ha

/-- Released, with a callback queued or running: it can go on. -/
theorem quiet_of_never (hl : s.life = .released) (h : Left s)
    (hn : machine.Never Action.Accesses s) : s.Quiet := by
  have hw := h.not_scheduling (h.outside (by rw [hl]; nofun))
  have hspin : s.state.spins = false := Bool.eq_false_iff.mpr (mt s.state.spins_iff.mp hw)
  intro k
  have haccess : Action.Accesses (.callback k) := rfl
  have hnow : s.callback k = none := hn.disabled _ haccess
  cases hc : s.callbacks k with
  | absent => exact .inl rfl
  | done => exact .inr rfl
  | queued result => simp [IoEvent.callback, hc, hspin] at hnow
  | running result pc =>
    cases pc <;> simp only [IoEvent.callback, hc] at hnow <;> first | cases hnow |
      (split at hnow <;> cases hnow)

/-- No callback accesses a released event. -/
def WithinLife (s : IoEvent) (a : Action) (_ : IoEvent) : Prop := s.life = .released → ¬ a.Accesses

/-- However the run goes on, no callback accesses the event that is released here. -/
def ReleasesForGood (_ : IoEvent) (a : Action) (s' : IoEvent) : Prop :=
  a = .release → machine.Never Action.Accesses s'

/-- The condition on a step. -/
def ReleasesQuiet (s : IoEvent) (a : Action) (_ : IoEvent) : Prop := a = .release → s.Quiet

/-- The only step into `released`. -/
theorem release_only {a : Action} (hs : step s a = some s') (hl : s'.life = .released) :
    s.life = .released ∨ a = .release := by
  cases step_cases hs with
  | release => exact .inr rfl
  | drop | unbusy | closeThreadpoolWait => cases hl
  | get =>
    unfold pollGet at hl
    split at hl <;> exact .inl hl
  | resetEvent _ err => cases err <;> exact .inl hl
  | issue _ answer => cases answer <;> exact .inl hl
  | callback k hcall => exact .inl ((callback_kept hcall).2.1 ▸ hl)
  | _ => exact .inl hl

theorem fresh_steps (as : List Action) : machine.Steps (fun s _ _ => Fresh s) init as :=
  Machine.Steps.of_kept (I := Fresh) (fun _ _ _ h hs => ⟨fresh_step h hs, h⟩) fresh_init as

theorem lifetime : machine.Lifetime Left (fun _ a => a = .release) Action.Accesses
    (·.life = .released) Quiet where
  init := left_init
  step := fun _ _ _ h hs => left_step h hs
  alive := nofun
  only := fun _ _ _ hs hl => release_only hs hl
  decided := fun s a s' h hs ha => by
    subst ha
    have hs : step s .release = some s' := hs
    have h' := left_step h hs
    cases step_cases hs with
    | release hl =>
      exact ⟨quiet_of_never (s := {s with life := .released}) rfl h',
        never_of_quiet (s := {s with life := .released}) rfl h'⟩

end IoEvent

/-- **No callback outlives its object** exactly when nothing is owed at the release. In
a run of a handle whose releases, by the destructor's last step or by an `unwrap` that
panics, find no operation in flight, no packet queued and no callback part way through, no
callback's access follows a release; and a release that finds one is followed by an access
in some run. The same of an event, with the callbacks its wait has queued. -/
theorem callbacks_end_first (posts : Bool) (as : List IoHandle.Action) (bs : List IoEvent.Action) :
    (((IoHandle.machine posts).Steps (IoHandle.ReleasesForGood posts) IoHandle.init as ↔
        (IoHandle.machine posts).Steps IoHandle.ReleasesQuiet IoHandle.init as) ∧
      ((IoHandle.machine posts).Steps IoHandle.ReleasesQuiet IoHandle.init as →
        (IoHandle.machine posts).Steps IoHandle.WithinLife IoHandle.init as)) ∧
    ((IoEvent.machine.Steps IoEvent.ReleasesForGood IoEvent.init bs ↔
        IoEvent.machine.Steps IoEvent.ReleasesQuiet IoEvent.init bs) ∧
      (IoEvent.machine.Steps IoEvent.ReleasesQuiet IoEvent.init bs →
        IoEvent.machine.Steps IoEvent.WithinLife IoEvent.init bs)) :=
  ⟨⟨(IoHandle.lifetime posts).forGood_iff as, (IoHandle.lifetime posts).within as⟩,
    ⟨IoEvent.lifetime.forGood_iff bs, IoEvent.lifetime.within bs⟩⟩

/-- A pending read completes while the destructor is between the test of its cancel and the
swap, which then comes over the `READY` that the callback has stored. -/
def lateTrace : List IoHandle.Action :=
  [.read (.poll 0), .read .owner, .read .owner, .read (.issue (.failed 997)), .read .owner, .drop,
   .read .owner, .read (.complete 1 ⟨0, 7⟩), .read (.callback 1), .read (.callback 1),
   .read (.callback 1), .read (.callback 1), .read (.callback 1), .read .owner,
   .read (.halfCancel (some 1168))]

/-- A destructor that never returns. -/
theorem late_spins (posts : Bool) : ∃ s, (IoHandle.machine posts).run IoHandle.init lateTrace =
    some s ∧ s.Spins := by
  obtain ⟨s, hrun, hlife, howner, hword, houtside, hread, hwrite⟩ : ∃ s,
      (IoHandle.machine posts).run IoHandle.init lateTrace = some s ∧ s.life = .cancelRead ∧
        s.read.owner = .isBusy (some 1168) ∧ s.read.state = .cancelledWait ∧ s.write.owner = .outside ∧
          s.read.settled = true ∧ s.write.settled = true := ⟨_, rfl, rfl, rfl, rfl, rfl, rfl, rfl⟩
  have hleft := Machine.run_keeps (M := IoHandle.machine posts)
    (fun _ _ _ h hs => IoHandle.left_step h hs) IoHandle.left_init hrun
  exact ⟨s, hrun, hlife, ⟨_, howner⟩, hword, houtside, hleft.readFresh.quiet hread,
    hleft.writeFresh.quiet hwrite⟩

/-- A pending read, its completion, its callback up to the wake-up; a poll that is not
woken for returns `Ready`, and the handle is dropped. -/
def handleTrace (finished : List IoHandle.Action) : List IoHandle.Action :=
  [.read (.poll 0), .read .owner, .read .owner, .read (.issue (.failed 997)), .read .owner,
   .read (.complete 1 ⟨0, 7⟩), .read (.callback 1), .read (.callback 1), .read (.callback 1),
   .read (.callback 1), .read (.poll 0), .read .owner, .read .owner, .read .owner] ++ finished ++
  [.drop, .read .owner, .next, .write .owner, .next, .release]

/-- The same of an event. -/
def eventTrace (finished : List IoEvent.Action) : List IoEvent.Action :=
  [.poll 0 true, .owner, .owner, .issue false .pending, .owner, .owner,
   .complete 0, .fire, .callback 1, .callback 1, .callback 1, .callback 1,
   .poll 0 true, .owner, .resetEvent none, .owner, .owner, .owner, .owner] ++ finished ++
  [.drop, .next, .next, .release]

theorem callbacks_end_first_finished :
    (IoHandle.machine false).Steps IoHandle.WithinLife IoHandle.init
      (handleTrace [.read (.callback 1)]) ∧
    IoEvent.machine.Steps IoEvent.WithinLife IoEvent.init (eventTrace [.callback 1]) := by
  have h := callbacks_end_first false (handleTrace [.read (.callback 1)]) (eventTrace [.callback 1])
  refine ⟨h.1.2 ?_, h.2.2 ?_⟩
  · have hsettled : (IoHandle.machine false).Steps
        (fun s a _ => s.releases a = true → (s.read.settled && s.write.settled) = true) IoHandle.init
        (handleTrace [.read (.callback 1)]) := by decide
    refine (hsettled.and (IoHandle.left_steps false _)).mono fun s a _ _ ⟨hq, hl⟩ ha => ?_
    obtain ⟨hr, hw⟩ := Bool.and_eq_true_iff.mp (hq ha)
    exact ⟨hl.readFresh.quiet hr, hl.writeFresh.quiet hw⟩
  · have hsettled : IoEvent.machine.Steps (fun s a _ => a = .release → s.settled = true)
        IoEvent.init (eventTrace [.callback 1]) := by decide
    exact (hsettled.and (IoEvent.fresh_steps _)).mono fun s a _ _ ⟨hq, hf⟩ ha => hf.quiet (hq ha)

/-- The wake-up comes after the release. -/
theorem callbacks_outlive :
    (¬ ∀ as, (IoHandle.machine false).Steps IoHandle.WithinLife IoHandle.init as) ∧
    ¬ ∀ bs, IoEvent.machine.Steps IoEvent.WithinLife IoEvent.init bs := by
  unfold IoHandle.WithinLife IoEvent.WithinLife
  constructor
  · intro h
    exact absurd (h (handleTrace [] ++ [.read (.callback 1)])) (by decide)
  · intro h
    exact absurd (h (eventTrace [] ++ [.callback 1])) (by decide)

end Wae.Io
