import Wae.Io.Half

/-! What the state word says about the completion of the latest operation.

`Coherent` ties the word, the owner's place in its code and the completion of the
latest operation together. It holds in every run in which no callback on the
packet of an earlier operation takes the word (`Intrudes`), whatever the owner
polls, cancels and drops. Where only operations that went pending post packets,
nothing can intrude. -/
namespace Wae.Io
open Transition Net.Tcp

namespace Completion

/-- Neither the kernel nor a callback will touch the half, except to wake. With
`posts`, the packet of an operation answered at once may still be on its way, its
callback anywhere in its three tests. -/
def Rest (posts : Bool) : Completion → Prop
  | .absent | .done | .running _ .wake => True
  | .queued _ | .running _ .callbackPending | .running _ .callbackCancelledNowait
  | .running _ .callbackCancelledWait => posts = true
  | .inFlight | .running _ .set | .running _ .setReady | .running _ .setReadyOnly => False

/-- Still to make the exchange from `PENDING`. -/
def Awaited : Completion → Prop
  | .inFlight | .queued _ | .running _ .callbackPending => True
  | _ => False

/-- The callback holds the word: its next store is `READY`, or the one after it. -/
def Inside : Completion → Prop
  | .running _ .set | .running _ .setReady | .running _ .setReadyOnly => True
  | _ => False

/-- `READY` has been stored. -/
def Over : Completion → Prop
  | .running _ .wake | .done => True
  | _ => False

/-- Not past the loop of `callback_pending`. -/
def Unstarted : Completion → Prop
  | .absent | .inFlight | .queued _ => True
  | _ => False

/-- There is a packet, and it is this one. -/
def Carries (c : Completion) (p : Packet) : Prop := c = .queued p ∨ ∃ pc, c = .running p pc

theorem carries_queued {p q : Packet} (h : Carries (.queued p) q) : p = q :=
  h.elim Completion.queued.inj nofun

theorem carries_running {p q : Packet} {pc : CallbackPc} (h : Carries (.running p pc) q) : p = q :=
  h.elim nofun fun ⟨_, h⟩ => (Completion.running.inj h).1

theorem Over.rest {c : Completion} (h : c.Over) (posts : Bool) : c.Rest posts := by
  cases c with
  | running packet pc => cases pc <;> trivial
  | _ => trivial

theorem Awaited.not_over {c : Completion} (h : c.Awaited) : ¬ c.Over := by
  cases c with
  | running packet pc => cases pc <;> first | exact h.elim | exact id
  | done => exact h.elim
  | _ => exact id

theorem Inside.not_over {c : Completion} (h : c.Inside) : ¬ c.Over := by
  cases c with
  | running packet pc => cases pc <;> first | exact h.elim | exact id
  | done => exact h.elim
  | _ => exact id

theorem Rest.not_inFlight {posts : Bool} {c : Completion} (h : c.Rest posts) : c ≠ .inFlight := by
  rintro rfl
  exact h

end Completion

/-- What each word allows of the latest operation's completion. -/
def IoState.Fits (posts : Bool) : IoState → Completion → Prop
  | .idle, c => c.Rest posts
  | .scheduling, c => c.Unstarted
  | .pending, c => c.Awaited
  | .callback, c => c.Inside
  | .ready, c => c.Over
  | .cancelledNowait, c =>
    c.Awaited ∨ (∃ p, c = .running p .callbackCancelledNowait) ∨ c.Inside ∨ c.Over
  | .cancelledWait, c =>
    c.Awaited ∨ (∃ p, c = .running p .callbackCancelledNowait) ∨
      (∃ p, c = .running p .callbackCancelledWait) ∨ c.Inside ∨ c.Over

/-- What the owner knows where it stands. -/
def Owner.Fits (posts : Bool) : Owner → IoState → Completion → Prop
  | .outside, word, _ | .finish, word, _ | .schedule, word, _ | .isCancellable _, word, _ =>
    word ≠ .scheduling ∧ word ≠ .cancelledWait
  | .register, word, _ => word ≠ .idle ∧ word ≠ .scheduling ∧ word ≠ .cancelledWait
  | .get, word, _ => word = .ready
  | .setIdle _, word, c => word = .ready ∨ word = .scheduling ∧ c.Rest posts
  | .issue, word, c => word = .scheduling ∧ c = .absent
  | .registerReady _, word, c => word = .scheduling ∧ c.Rest posts
  | .setPending, word, c => word = .scheduling ∧ c ≠ .absent
  | .cancel _, word, _ => word = .pending ∨ word = .callback ∨ word = .ready
  | .halfCancel wait, word, _ =>
    word = (if wait then .cancelledWait else .cancelledNowait) ∨ word = .callback ∨ word = .ready
  | .isBusy _, word, _ => word = .cancelledWait ∨ word = .callback ∨ word = .ready

/-- Inside `poll`. -/
def Owner.polling : Owner → Bool
  | .finish | .get | .schedule | .issue | .registerReady _ | .setIdle _ | .setPending
  | .register => true
  | _ => false

/-- Inside `cancel`. -/
def Owner.cancelling : Owner → Bool
  | .isCancellable _ | .cancel _ | .halfCancel _ | .isBusy _ => true
  | _ => false

/-- Polled, and never cancelled. -/
def Action.Polls (a : Action) : Prop := ∀ wait, a ≠ .cancel wait

theorem Action.polls_iff (a : Action) : a.Polls ↔ a ≠ .cancel true ∧ a ≠ .cancel false :=
  Bool.forall_bool.trans and_comm

namespace Half

@[simp] theorem setCompletion_same (s : Half) (op : Nat) (c : Completion) :
    (s.setCompletion op c).completion op = c := Function.update_self ..

theorem not_over_queued (s : Half) (op : Nat) (packet : Packet) :
    ¬ ((s.setCompletion op (.queued packet)).completion op).Over := by
  rw [setCompletion_same]
  exact id

theorem setCompletion_other (s : Half) {op k : Nat} (c : Completion) (h : k ≠ op) :
    (s.setCompletion op c).completion k = s.completion k := Function.update_of_ne h ..

/-- The next step of the callback on `op` is an exchange that succeeds. -/
def takes (s : Half) (op : Nat) : Bool :=
  match s.completion op with
  | .running _ .callbackPending => s.state.callbackPending.isSome
  | .running _ .callbackCancelledNowait => s.state.callbackCancelledNowait.isSome
  | .running _ .callbackCancelledWait => s.state.callbackCancelledWait.isSome
  | _ => false

/-- A callback on the packet of an operation that is not the latest takes the word. -/
def Intrudes (s : Half) : Action → Prop
  | .callback op => op ≠ s.latest ∧ s.takes op = true
  | _ => False

instance (s : Half) (a : Action) : Decidable (s.Intrudes a) :=
  match a with
  | .callback op => inferInstanceAs (Decidable (op ≠ s.latest ∧ s.takes op = true))
  | .poll _ | .offer _ | .owner | .issue _ | .halfCancel _ | .complete .. | .cancel _ => isFalse id

theorem not_takes {s : Half} {op : Nat} (ha : ¬ s.Intrudes (.callback op)) (hop : op ≠ s.latest) :
    s.takes op = false := by
  by_contra ht
  exact ha ⟨hop, by simpa using ht⟩

structure Coherent (posts : Bool) (s : Half) : Prop where
  fresh : ∀ op, s.latest < op → s.completion op = .absent
  older : ∀ op, op ≠ s.latest → (s.completion op).Rest posts
  word : s.state.Fits posts (s.completion s.latest)
  owner : s.owner.Fits posts s.state (s.completion s.latest)
  waiting : s.waiting = true → s.state ≠ .idle ∧ s.owner.polling = false

variable {posts : Bool} {s s' : Half}

theorem coherent_init : Coherent posts init where
  fresh := fun _ _ => rfl
  older := fun _ _ => trivial
  word := trivial
  owner := ⟨by decide, by decide⟩
  waiting := fun h => absurd h (by decide)

theorem Coherent.not_waiting (h : Coherent posts s) (hp : s.owner.polling = true) :
    ¬ s.waiting = true := fun hw => by
  rw [(h.waiting hw).2] at hp
  exact Bool.false_ne_true hp

/-- The word and the owner's place may change as long as they still fit. -/
theorem Coherent.move (h : Coherent posts s) (hc : s'.completion = s.completion)
    (hl : s'.latest = s.latest) (hword : s'.state.Fits posts (s.completion s.latest))
    (howner : s'.owner.Fits posts s'.state (s.completion s.latest))
    (hwaiting : s'.waiting = true → s'.state ≠ .idle ∧ s'.owner.polling = false) :
    Coherent posts s' := by
  rw [← hc, ← hl] at hword howner
  exact ⟨by rw [hc, hl]; exact h.fresh, by rw [hc, hl]; exact h.older, hword, howner, hwaiting⟩

/-- The completion of the latest operation moves on, with the word and the owner's
place; every other completion stays. -/
theorem Coherent.advance (h : Coherent posts s) {c : Completion}
    (hc : s'.completion = Function.update s.completion s.latest c) (hl : s'.latest = s.latest)
    (hword : s'.state.Fits posts c) (howner : s'.owner.Fits posts s'.state c)
    (hwaiting : s'.waiting = true → s'.state ≠ .idle ∧ s'.owner.polling = false) :
    Coherent posts s' := by
  have hself : s'.completion s'.latest = c := by rw [hc, hl, Function.update_self]
  have hother : ∀ op, op ≠ s.latest → s'.completion op = s.completion op := fun op hop => by
    rw [hc, Function.update_of_ne hop]
  refine ⟨fun op hop => ?_, fun op hop => ?_, by rw [hself]; exact hword,
    by rw [hself]; exact howner, hwaiting⟩
  · rw [hl] at hop
    rw [hother op (Nat.ne_of_gt hop)]
    exact h.fresh op hop
  · rw [hl] at hop
    rw [hother op hop]
    exact h.older op hop

/-! ### The owner's steps -/

theorem coherent_poll (h : Coherent posts s) (ho : s.owner = .outside) (waker : Nat) :
    Coherent posts {s with owner := .finish, polled := waker, woken := false, waiting := false} := by
  have hw := h.owner
  rw [ho] at hw
  exact h.move rfl rfl h.word hw (fun hf => absurd hf Bool.false_ne_true)

theorem coherent_finish (h : Coherent posts s) (ho : s.owner = .finish) :
    Coherent posts s.pollFinish := by
  have hw := h.owner
  have hwait := h.not_waiting (by rw [ho]; rfl)
  rw [ho] at hw
  refine h.move rfl rfl h.word ?_ (fun hf => absurd hf hwait)
  show Owner.Fits posts (if s.state.finish then .get else .schedule) s.state _
  split
  · rename_i hr
    exact s.state.finish_iff.mp hr
  · exact hw

theorem coherent_get (h : Coherent posts s) (ho : s.owner = .get) : Coherent posts s.pollGet := by
  have hw := h.owner
  have hwait := h.not_waiting (by rw [ho]; rfl)
  rw [ho] at hw
  exact h.move rfl rfl h.word (.inl hw) (fun hf => absurd hf hwait)

theorem coherent_setIdle {reading : Reading} (h : Coherent posts s)
    (ho : s.owner = .setIdle reading) : Coherent posts (s.pollSetIdle reading) := by
  have hw := h.owner
  have hwait := h.not_waiting (by rw [ho]; rfl)
  have hword := h.word
  rw [ho] at hw
  refine h.move rfl rfl ?_ ⟨nofun, nofun⟩ (fun hf => absurd hf hwait)
  show (s.completion s.latest).Rest posts
  rcases hw with hr | ⟨_, hrest⟩
  · rw [hr] at hword
    exact hword.rest posts
  · exact hrest

theorem coherent_schedule (h : Coherent posts s) (ho : s.owner = .schedule)
    (hidle : s.state = .idle) : Coherent posts
      {s with
        state := .scheduling
        owner := .issue
        latest := s.latest + 1
        operation := Function.update s.operation (s.latest + 1) ⟨s.future, s.buffer⟩} := by
  have hwait := h.not_waiting (by rw [ho]; rfl)
  have hlatest : (s.completion s.latest).Rest posts := by
    have := h.word
    rwa [hidle] at this
  have habsent : s.completion (s.latest + 1) = .absent := h.fresh _ (Nat.lt_succ_self _)
  refine ⟨fun op hop => h.fresh op (Nat.lt_of_succ_lt hop), fun op _ => ?_, ?_, ⟨rfl, habsent⟩,
    fun hf => absurd hf hwait⟩
  · by_cases he : op = s.latest
    · exact he ▸ hlatest
    · exact h.older op he
  · show (s.completion (s.latest + 1)).Unstarted
    rw [habsent]
    trivial

theorem coherent_busy (h : Coherent posts s) (ho : s.owner = .schedule) (hidle : s.state ≠ .idle) :
    Coherent posts {s with owner := .register} := by
  have hw := h.owner
  have hwait := h.not_waiting (by rw [ho]; rfl)
  rw [ho] at hw
  exact h.move rfl rfl h.word ⟨hidle, hw⟩ (fun hf => absurd hf hwait)

theorem answered_rest (posts : Bool) (answer : Answer) : (answered posts answer).Rest posts := by
  cases answer with
  | accepted packet => cases posts <;> trivial
  | failed err => trivial

theorem answered_unstarted (posts : Bool) (answer : Answer) :
    (answered posts answer).Unstarted := by
  cases answer with
  | accepted packet => cases posts <;> trivial
  | failed err => trivial

theorem coherent_issue (h : Coherent posts s) (ho : s.owner = .issue) (answer : Answer) :
    Coherent posts (s.pollIssue posts answer) := by
  have hw := h.owner
  have hwait := h.not_waiting (by rw [ho]; rfl)
  rw [ho] at hw
  unfold pollIssue
  cases scheduled answer with
  | ready result =>
    refine h.advance rfl rfl ?_ ⟨hw.1, answered_rest posts answer⟩ (fun hf => absurd hf hwait)
    show s.state.Fits posts _
    rw [hw.1]
    exact answered_unstarted posts answer
  | pending =>
    refine h.advance rfl rfl ?_ ⟨hw.1, nofun⟩ (fun hf => absurd hf hwait)
    show s.state.Fits posts .inFlight
    rw [hw.1]
    trivial

theorem coherent_registerReady {reading : Reading} (h : Coherent posts s)
    (ho : s.owner = .registerReady reading) : Coherent posts (s.pollRegisterReady reading) := by
  have hw := h.owner
  have hwait := h.not_waiting (by rw [ho]; rfl)
  rw [ho] at hw
  exact h.move rfl rfl h.word (.inr hw) (fun hf => absurd hf hwait)

theorem coherent_setPending (h : Coherent posts s) (ho : s.owner = .setPending) :
    Coherent posts s.pollSetPending := by
  have hw := h.owner
  have hword := h.word
  rw [ho] at hw
  rw [hw.1] at hword
  refine h.move rfl rfl ?_ ⟨nofun, nofun⟩ (fun _ => ⟨nofun, rfl⟩)
  show (s.completion s.latest).Awaited
  cases hc : s.completion s.latest with
  | absent => exact absurd hc hw.2
  | inFlight => trivial
  | queued packet => trivial
  | running packet pc =>
    rw [hc] at hword
    exact hword.elim
  | done =>
    rw [hc] at hword
    exact hword.elim

theorem coherent_register (h : Coherent posts s) (ho : s.owner = .register) :
    Coherent posts s.pollRegister := by
  have hw := h.owner
  rw [ho] at hw
  exact h.move rfl rfl h.word hw.2 (fun _ => ⟨hw.1, rfl⟩)

theorem coherent_cancel (h : Coherent posts s) (ho : s.owner = .outside) (wait : Bool) :
    Coherent posts {s with owner := .isCancellable wait} := by
  have hw := h.owner
  rw [ho] at hw
  exact h.move rfl rfl h.word hw (fun hf => ⟨(h.waiting hf).1, rfl⟩)

theorem coherent_cancelReturn (h : Coherent posts s) (wait : Bool) (ret : Option Int32)
    (hw : s.state ≠ .scheduling ∧ s.state ≠ .cancelledWait) :
    Coherent posts (s.cancelReturn wait ret) := by
  refine h.move rfl rfl h.word hw fun hf => ?_
  cases wait with
  | true => exact absurd hf Bool.false_ne_true
  | false => exact ⟨(h.waiting hf).1, rfl⟩

theorem coherent_cancellable {wait : Bool} (h : Coherent posts s) (hp : s.state = .pending) :
    Coherent posts {s with owner := .cancel wait} :=
  h.move rfl rfl h.word (.inl hp) (fun hf => ⟨(h.waiting hf).1, rfl⟩)

/-- Over any word the swap can find, the new word fits what was there. -/
theorem cancel_fits (wait : Bool) {word : IoState} {c : Completion}
    (hw : word = .pending ∨ word = .callback ∨ word = .ready) (hc : word.Fits posts c) :
    (word.cancel wait).2.Fits posts c := by
  rcases hw with rfl | rfl | rfl <;> cases wait
  · exact .inl hc
  · exact .inl hc
  · exact .inr (.inr (.inl hc))
  · exact .inr (.inr (.inr (.inl hc)))
  · exact .inr (.inr (.inr hc))
  · exact .inr (.inr (.inr (.inr hc)))

/-- The two ways a cancel that does not wait can go on from its swap. -/
theorem cancelSwap_nowait (s : Half) :
    s.cancelSwap false = {s with state := .cancelledNowait, owner := .halfCancel false} ∨
    s.cancelSwap false = {s with state := .cancelledNowait}.cancelReturn false none := by
  unfold cancelSwap cancelWait IoState.cancel
  by_cases hw : s.state = .cancelledNowait <;> simp [hw]

/-- Past its test, a cancel does not find the word `IDLE`. -/
theorem Coherent.not_idle {wait : Bool} (h : Coherent posts s) (ho : s.owner = .cancel wait) :
    s.state ≠ .idle := by
  have hw := h.owner
  rw [ho] at hw
  rcases hw with hw | hw | hw <;> rw [hw] <;> nofun

theorem coherent_cancelSwap {wait : Bool} (h : Coherent posts s) (ho : s.owner = .cancel wait) :
    Coherent posts (s.cancelSwap wait) := by
  have hw := h.owner
  rw [ho] at hw
  have hcall : (s.state != .cancelledNowait) = true := by
    rcases hw with hw | hw | hw <;> rw [hw] <;> rfl
  have hfits := cancel_fits wait hw h.word
  simp only [cancelSwap, IoState.cancel, hcall, if_true]
  exact h.move rfl rfl hfits (.inl rfl) (fun _ => ⟨by cases wait <;> nofun, rfl⟩)

theorem coherent_halfCancel {wait : Bool} (h : Coherent posts s) (ho : s.owner = .halfCancel wait)
    (err : Option Int32) : Coherent posts (s.cancelWait wait err) := by
  have hw := h.owner
  rw [ho] at hw
  unfold cancelWait
  cases wait with
  | true => exact h.move rfl rfl h.word hw (fun hf => ⟨(h.waiting hf).1, rfl⟩)
  | false =>
    refine coherent_cancelReturn h false err ?_
    rcases hw with hw | hw | hw <;> rw [hw] <;> exact ⟨nofun, nofun⟩

theorem coherent_unbusy (h : Coherent posts s) (ret : Option Int32)
    (hb : s.state = .idle ∨ s.state = .ready) : Coherent posts (s.cancelReturn true ret) := by
  refine coherent_cancelReturn h true ret ?_
  rcases hb with hb | hb <;> rw [hb] <;> exact ⟨nofun, nofun⟩

/-! ### The kernel's steps and the callbacks' -/

/-- The owner's place does not depend on how far an operation has come, once it has
been issued. -/
theorem Owner.Fits.of_rest {owner : Owner} {word : IoState} {c c' : Completion}
    (h : owner.Fits posts word c) (hrest : c.Rest posts → c'.Rest posts)
    (habsent : c ≠ .absent) (habsent' : c' ≠ .absent) : owner.Fits posts word c' := by
  cases owner with
  | setIdle reading => exact h.imp_right fun ⟨hw, hc⟩ => ⟨hw, hrest hc⟩
  | issue => exact absurd h.2 habsent
  | registerReady reading => exact ⟨h.1, hrest h.2⟩
  | setPending => exact ⟨h.1, habsent'⟩
  | _ => exact h

/-- A word that a callback takes or replaces while it is neither free nor the
owner's may become `CALLBACK` and then `READY`. -/
theorem Owner.Fits.taken {owner : Owner} {word word' : IoState} {c c' : Completion}
    (h : owner.Fits posts word c) (hsched : word ≠ .scheduling)
    (hready : word ≠ .ready) (hword : word' = .callback ∨ word' = .ready) :
    owner.Fits posts word' c' := by
  cases owner with
  | get => exact absurd h hready
  | setIdle reading => exact (h.elim hready fun h => hsched h.1).elim
  | issue => exact absurd h.1 hsched
  | registerReady reading => exact absurd h.1 hsched
  | setPending => exact absurd h.1 hsched
  | cancel wait => exact .inr hword
  | halfCancel wait => exact .inr hword
  | isBusy ret => exact .inr hword
  | register => rcases hword with rfl | rfl <;> exact ⟨nofun, nofun, nofun⟩
  | _ => rcases hword with rfl | rfl <;> exact ⟨nofun, nofun⟩

/-- The latest operation's completion moves on under the same word. -/
theorem Coherent.proceed (h : Coherent posts s) {c : Completion}
    (hc : s'.completion = Function.update s.completion s.latest c) (hl : s'.latest = s.latest)
    (hstate : s'.state = s.state) (howner : s'.owner = s.owner) (hwaiting : s'.waiting = s.waiting)
    (hword : s.state.Fits posts c) (hrest : (s.completion s.latest).Rest posts → c.Rest posts)
    (habsent : s.completion s.latest ≠ .absent) (habsent' : c ≠ .absent) : Coherent posts s' := by
  refine h.advance hc hl (by rw [hstate]; exact hword) ?_ ?_
  · rw [hstate, howner]
    exact Owner.Fits.of_rest h.owner hrest habsent habsent'
  · rw [hwaiting, hstate, howner]
    exact h.waiting

/-- The latest operation's callback takes the word, or gives it back as `READY`. -/
theorem Coherent.take (h : Coherent posts s) {c : Completion}
    (hc : s'.completion = Function.update s.completion s.latest c) (hl : s'.latest = s.latest)
    (howner : s'.owner = s.owner) (hwaiting : s'.waiting = s.waiting)
    (hsched : s.state ≠ .scheduling) (hready : s.state ≠ .ready)
    (hword : s'.state = .callback ∧ c.Inside ∨ s'.state = .ready ∧ c.Over) : Coherent posts s' := by
  have hfits : s'.state.Fits posts c := by
    rcases hword with ⟨hw, hc⟩ | ⟨hw, hc⟩ <;> rw [hw] <;> exact hc
  have hword' : s'.state = .callback ∨ s'.state = .ready := hword.imp And.left And.left
  refine h.advance hc hl hfits ?_ fun hf => ?_
  · rw [howner]
    exact Owner.Fits.taken h.owner hsched hready hword'
  · rw [hwaiting] at hf
    rw [howner]
    exact ⟨by rcases hword' with hw | hw <;> rw [hw] <;> nofun, (h.waiting hf).2⟩

/-- An operation in flight is the latest. -/
theorem Coherent.inFlight_latest (h : Coherent posts s) {op : Nat}
    (hc : s.completion op = .inFlight) : op = s.latest := by
  by_contra hne
  exact (h.older op hne).not_inFlight hc

theorem coherent_complete {op : Nat} (packet : Packet) (h : Coherent posts s)
    (hc : s.completion op = .inFlight) : Coherent posts
      {s.setCompletion op (.queued packet) with
        outcome := Function.update s.outcome op (some packet.outcome)} := by
  obtain rfl := h.inFlight_latest hc
  have hword := h.word
  rw [hc] at hword
  refine h.proceed rfl rfl rfl rfl rfl ?_ (by rw [hc]; exact False.elim) (by rw [hc]; nofun) nofun
  cases hw : s.state <;> rw [hw] at hword
  · exact hword.elim
  · trivial
  · trivial
  · exact hword.elim
  · exact hword.elim
  · exact .inl trivial
  · exact .inl trivial

/-- What a step of an earlier operation's callback comes to, as long as it does not
take the word: its own place moves on, and it may take the registered waker. -/
theorem callback_rest {op : Nat} (hc : (s.completion op).Rest posts) (ht : s.takes op = false)
    (hs : s.callback op = some s') :
    ∃ c, c.Rest posts ∧ (s' = s.setCompletion op c ∨ s' = (s.setCompletion op c).wake) := by
  unfold takes at ht
  cases callback_cases hs with
  | begins packet hcomp | pendingMissed packet hcomp | nowaitMissed packet hcomp =>
    rw [hcomp] at hc
    refine ⟨_, ?_, .inl rfl⟩
    exact hc
  | waitMissed packet hcomp =>
    refine ⟨_, ?_, .inl rfl⟩
    trivial
  | wake packet hcomp =>
    refine ⟨_, ?_, .inr rfl⟩
    trivial
  | pendingTaken packet hcomp hw | nowaitTaken packet hcomp hw | waitTaken packet hcomp hw =>
    rw [hcomp, hw] at ht
    cases ht
  | set packet hcomp | setReady packet hcomp | setReadyOnly packet hcomp =>
    rw [hcomp] at hc
    exact hc.elim

/-- A step of an earlier operation's callback moves neither the word nor the
result. -/
theorem callback_other {op : Nat} (hc : Coherent posts s) (hop : op ≠ s.latest)
    (ht : s.takes op = false) (hs : s.callback op = some s') :
    s'.state = s.state ∧ s'.result = s.result := by
  obtain ⟨c, _, rfl | rfl⟩ := callback_rest (hc.older op hop) ht hs <;> exact ⟨rfl, rfl⟩

theorem coherent_callback_other {op : Nat} (h : Coherent posts s) (hop : op ≠ s.latest)
    (ht : s.takes op = false) (hs : s.callback op = some s') : Coherent posts s' := by
  have hle : ¬ s.latest < op := fun hlt => by
    unfold callback at hs
    rw [h.fresh op hlt] at hs
    cases hs
  obtain ⟨c, hc, hs'⟩ := callback_rest (h.older op hop) ht hs
  have hcoherent : Coherent posts (s.setCompletion op c) := by
    refine ⟨fun k hk => ?_, fun k hk => ?_, ?_, ?_, h.waiting⟩
    · have hne : k ≠ op := fun he => hle (he ▸ hk)
      rw [setCompletion_other s c hne]
      exact h.fresh k hk
    · by_cases he : k = op
      · rw [he, setCompletion_same]
        exact hc
      · rw [setCompletion_other s c he]
        exact h.older k hk
    · show s.state.Fits posts ((s.setCompletion op c).completion s.latest)
      rw [setCompletion_other s c (Ne.symm hop)]
      exact h.word
    · show s.owner.Fits posts s.state ((s.setCompletion op c).completion s.latest)
      rw [setCompletion_other s c (Ne.symm hop)]
      exact h.owner
  rcases hs' with rfl | rfl
  · exact hcoherent
  · exact ⟨hcoherent.fresh, hcoherent.older, hcoherent.word, hcoherent.owner, hcoherent.waiting⟩

/-- The latest operation's callback makes an exchange that fails, or begins. -/
theorem coherent_callback_next {c : Completion} (h : Coherent posts s)
    (hword : s.state.Fits posts c) (hrest : (s.completion s.latest).Rest posts → c.Rest posts)
    (habsent : s.completion s.latest ≠ .absent) (habsent' : c ≠ .absent) :
    Coherent posts (s.setCompletion s.latest c) :=
  h.proceed rfl rfl rfl rfl rfl hword hrest habsent habsent'

/-- The latest operation's callback takes the word. -/
theorem coherent_callback_takes {c : Completion} {word : IoState} (h : Coherent posts s)
    (hw : s.state = word) (hsched : word ≠ .scheduling) (hready : word ≠ .ready) (hc : c.Inside) :
    Coherent posts {s.setCompletion s.latest c with state := .callback} :=
  h.take rfl rfl rfl rfl (hw ▸ hsched) (hw ▸ hready) (.inl ⟨rfl, hc⟩)

/-! What the word says of a callback's place, from one of its accesses to the next, as
long as it does not change the word. -/

theorem fits_begins {word : IoState} {p : Packet} (h : word.Fits posts (.queued p))
    (hspin : word ≠ .scheduling) : word.Fits posts (.running p .callbackPending) := by
  cases word with
  | idle => exact h
  | scheduling => exact absurd rfl hspin
  | pending => trivial
  | callback | ready => exact h.elim
  | cancelledNowait | cancelledWait => exact .inl trivial

theorem fits_pendingMissed {word : IoState} {p : Packet}
    (h : word.Fits posts (.running p .callbackPending)) (hne : word ≠ .pending) :
    word.Fits posts (.running p .callbackCancelledNowait) := by
  cases word with
  | idle => exact h
  | pending => exact absurd rfl hne
  | scheduling | callback | ready => exact h.elim
  | cancelledNowait | cancelledWait => exact .inr (.inl ⟨p, rfl⟩)

theorem fits_nowaitMissed {word : IoState} {p : Packet}
    (h : word.Fits posts (.running p .callbackCancelledNowait)) (hne : word ≠ .cancelledNowait) :
    word.Fits posts (.running p .callbackCancelledWait) := by
  cases word with
  | idle => exact h
  | scheduling | pending | callback | ready => exact h.elim
  | cancelledNowait => exact absurd rfl hne
  | cancelledWait => exact .inr (.inr (.inl ⟨p, rfl⟩))

/-- A callback that has missed two exchanges is under a word that the third takes, or
that is about no operation any more. -/
theorem fits_lastExchange {word : IoState} {p : Packet}
    (h : word.Fits posts (.running p .callbackCancelledWait)) :
    word = .idle ∨ word = .cancelledWait := by
  cases word with
  | idle => exact .inl rfl
  | scheduling | pending | callback | ready => exact h.elim
  | cancelledNowait =>
    rcases h with hf | ⟨_, hf⟩ | hf | hf
    · exact hf.elim
    · cases hf
    · exact hf.elim
    · exact hf.elim
  | cancelledWait => exact .inr rfl

theorem fits_waitMissed {word : IoState} {p : Packet}
    (h : word.Fits posts (.running p .callbackCancelledWait)) (hne : word ≠ .cancelledWait) :
    word.Fits posts .done := by
  obtain rfl := (fits_lastExchange h).resolve_right hne
  trivial

theorem fits_set {word : IoState} {p : Packet} (h : word.Fits posts (.running p .set)) :
    word.Fits posts (.running p .setReady) := by
  cases word with
  | idle | scheduling | pending | ready => exact h.elim
  | callback => trivial
  | cancelledNowait => exact .inr (.inr (.inl trivial))
  | cancelledWait => exact .inr (.inr (.inr (.inl trivial)))

theorem fits_wake {word : IoState} {p : Packet} (h : word.Fits posts (.running p .wake)) :
    word.Fits posts .done := by
  cases word with
  | idle | ready => trivial
  | scheduling | pending | callback => exact h.elim
  | cancelledNowait => exact .inr (.inr (.inr trivial))
  | cancelledWait => exact .inr (.inr (.inr (.inr trivial)))

theorem coherent_callback_latest (h : Coherent posts s) (hs : s.callback s.latest = some s') :
    Coherent posts s' := by
  have hword := h.word
  cases callback_cases hs with
  | begins packet hcomp hspin =>
    rw [hcomp] at hword
    exact coherent_callback_next h (fits_begins hword hspin) (by rw [hcomp]; exact id)
      (by rw [hcomp]; nofun) nofun
  | pendingTaken packet hcomp hw | nowaitTaken packet hcomp hw | waitTaken packet hcomp hw =>
    exact coherent_callback_takes h hw nofun nofun trivial
  | pendingMissed packet hcomp hne =>
    rw [hcomp] at hword
    exact coherent_callback_next h (fits_pendingMissed hword hne) (by rw [hcomp]; exact id)
      (by rw [hcomp]; nofun) nofun
  | nowaitMissed packet hcomp hne =>
    rw [hcomp] at hword
    exact coherent_callback_next h (fits_nowaitMissed hword hne) (by rw [hcomp]; exact id)
      (by rw [hcomp]; nofun) nofun
  | waitMissed packet hcomp hne =>
    rw [hcomp] at hword
    exact coherent_callback_next h (fits_waitMissed hword hne) (fun _ => trivial)
      (by rw [hcomp]; nofun) nofun
  | set packet hcomp =>
    rw [hcomp] at hword
    exact h.proceed rfl rfl rfl rfl rfl (fits_set hword) (by rw [hcomp]; exact id)
      (by rw [hcomp]; nofun) nofun
  | wake packet hcomp =>
    rw [hcomp] at hword
    exact h.proceed rfl rfl rfl rfl rfl (fits_wake hword) (fun _ => trivial)
      (by rw [hcomp]; nofun) nofun
  | setReady packet hcomp | setReadyOnly packet hcomp =>
    rw [hcomp] at hword
    refine h.take rfl rfl rfl rfl ?_ ?_ (.inr ⟨rfl, trivial⟩) <;> intro hw <;> rw [hw] at hword <;>
      exact hword.elim

/-- What no callback touches. -/
structure Kept (s s' : Half) : Prop where
  owner : s'.owner = s.owner
  latest : s'.latest = s.latest
  operation : s'.operation = s.operation
  outcome : s'.outcome = s.outcome
  future : s'.future = s.future
  buffer : s'.buffer = s.buffer
  waiting : s'.waiting = s.waiting
  polled : s'.polled = s.polled
  returned : s'.returned = s.returned

theorem callback_kept {op : Nat} (hs : s.callback op = some s') : Kept s s' := by
  cases callback_cases hs <;> exact ⟨rfl, rfl, rfl, rfl, rfl, rfl, rfl, rfl, rfl⟩

/-- A callback moves on with the packet it has, or ends. -/
theorem callback_completion {op : Nat} (hs : s.callback op = some s') :
    ∃ c, s'.completion = Function.update s.completion op c ∧
      (c = .done ∨ ∃ p pc, c = .running p pc ∧ (s.completion op).Carries p) := by
  cases callback_cases hs with
  | begins packet hc => exact ⟨_, rfl, .inr ⟨_, _, rfl, .inl hc⟩⟩
  | waitMissed | wake | setReadyOnly => exact ⟨_, rfl, .inl rfl⟩
  | pendingTaken packet hc | pendingMissed packet hc | nowaitTaken packet hc
  | nowaitMissed packet hc | waitTaken packet hc | set packet hc | setReady packet hc =>
    exact ⟨_, rfl, .inr ⟨_, _, rfl, .inr ⟨_, hc⟩⟩⟩

/-! ### Runs -/

/-- **The step lemma**: whatever is polled, cancelled, dropped or completed, a step
by which no earlier operation's callback takes the word keeps the half coherent. -/
theorem coherent_step {a : Action} (h : Coherent posts s) (ha : ¬ s.Intrudes a)
    (hs : step posts s a = some s') : Coherent posts s' := by
  cases step_cases hs with
  | poll waker ho => exact coherent_poll h ho waker
  | offer buffer _ _ => exact h.move rfl rfl h.word h.owner h.waiting
  | cancel wait ho => exact coherent_cancel h ho wait
  | finish ho => exact coherent_finish h ho
  | get ho => exact coherent_get h ho
  | schedule ho hidle => exact coherent_schedule h ho hidle
  | busy ho hidle => exact coherent_busy h ho hidle
  | issue answer ho => exact coherent_issue h ho answer
  | registerReady reading ho => exact coherent_registerReady h ho
  | setIdle reading ho => exact coherent_setIdle h ho
  | setPending ho => exact coherent_setPending h ho
  | register ho => exact coherent_register h ho
  | cancellable wait _ hp => exact coherent_cancellable h hp
  | uncancellable wait ho _ =>
    have hw := h.owner
    rw [ho] at hw
    exact coherent_cancelReturn h wait none hw
  | swap wait ho => exact coherent_cancelSwap h ho
  | halfCancel wait err ho _ => exact coherent_halfCancel h ho err
  | unbusy ret _ hb => exact coherent_unbusy h ret hb
  | complete op packet hc => exact coherent_complete packet h hc
  | callback op hcall =>
    by_cases hop : op = s.latest
    · subst hop
      exact coherent_callback_latest h hcall
    · have ht := not_takes ha hop
      exact coherent_callback_other h hop ht hcall

/-- Where only operations that went pending post packets, nothing intrudes. -/
theorem Coherent.not_intrudes (h : Coherent false s) (a : Action) : ¬ s.Intrudes a := by
  cases a with
  | callback op =>
    rintro ⟨hop, ht⟩
    have hrest := h.older op hop
    unfold takes at ht
    split at ht <;> rename_i hc
    · rw [hc] at hrest
      exact Bool.false_ne_true hrest
    · rw [hc] at hrest
      exact Bool.false_ne_true hrest
    · rw [hc] at hrest
      exact Bool.false_ne_true hrest
    · exact Bool.false_ne_true ht
  | _ => exact id

/-- An owner that never cancels is never inside `cancel`. -/
theorem uncancelled_step {a : Action} (h : s.owner.cancelling = false) (ha : a.Polls)
    (hs : step posts s a = some s') : s'.owner.cancelling = false := by
  cases step_cases hs with
  | cancel wait => exact absurd rfl (ha wait)
  | cancellable wait ho | uncancellable wait ho | swap wait ho | halfCancel wait err ho
  | unbusy ret ho =>
    rw [ho] at h
    exact nomatch h
  | finish =>
    unfold pollFinish
    split <;> rfl
  | issue answer =>
    unfold pollIssue
    split <;> rfl
  | callback op hcall =>
    rw [(callback_kept hcall).owner]
    exact h
  | offer | complete => exact h
  | _ => rfl

end Half

end Wae.Io
