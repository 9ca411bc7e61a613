import Wae.Io.Coherent

/-! What `cancel` leaves behind it.

`cancel` tests the word and then swaps it, and goes on only from `PENDING`. So a
waiting cancel that finds `CANCELLED_NOWAIT` returns at once, whether or not the
operation cancelled before it is still in flight; and a swap that comes after the
callback has stored `READY` covers it with a word that nobody will take. -/
namespace Wae.Io
open Transition Net.Tcp

/-- A completion whose callback, undisturbed, stores `READY` over this word. -/
def Completion.StoresReady : Completion → IoState → Prop
  | .inFlight, word | .queued _, word | .running _ .callbackPending, word =>
    word = .pending ∨ word = .cancelledNowait ∨ word = .cancelledWait
  | .running _ .callbackCancelledNowait, word => word = .cancelledNowait ∨ word = .cancelledWait
  | .running _ .callbackCancelledWait, word => word = .cancelledWait
  | .running _ .set, _ | .running _ .setReady, _ | .running _ .setReadyOnly, _ => True
  | .absent, _ | .running _ .wake, _ | .done, _ => False

/-- A word that only a callback replaces. -/
def IoState.Owed (word : IoState) : Prop :=
  word = .pending ∨ word = .cancelledNowait ∨ word = .cancelledWait

theorem Completion.Awaited.storesReady {c : Completion} {word : IoState} (h : c.Awaited)
    (hw : word.Owed) : c.StoresReady word := by
  cases c with
  | running p pc => cases pc <;> first | exact hw | exact h.elim
  | absent => exact h.elim
  | done => exact h.elim
  | _ => exact hw

theorem Completion.Inside.storesReady {c : Completion} (h : c.Inside) (word : IoState) :
    c.StoresReady word := by
  cases c with
  | running p pc => cases pc <;> first | exact h | exact h.elim
  | _ => exact h.elim

/-- The kernel's and the callbacks' steps. -/
def Action.Completes : Action → Prop
  | .complete .. | .callback _ => True
  | _ => False

namespace Half

variable {posts : Bool} {s s' : Half}

/-! ### A waiting cancel that returns -/

/-- A waiting cancel returns: from its test of the word, or from its spin loop. -/
def ReturnsWaiting (s s' : Half) : Prop :=
  s'.owner = .outside ∧ (s.owner = .isCancellable true ∨ ∃ ret, s.owner = .isBusy ret)

/-- A waiting cancel that returns leaves no operation in flight. -/
def Quiescent (s : Half) (_ : Action) (s' : Half) : Prop :=
  ReturnsWaiting s s' → ∀ op, s'.completion op ≠ .inFlight

/-- A waiting cancel is about to find the word of a cancel that did not wait. -/
def findsNowait (s : Half) (a : Action) : Bool :=
  a == .owner && s.owner == .isCancellable true && s.state == .cancelledNowait

/-- The condition on a step: what was cancelled without waiting has completed. -/
def FindsCompleted (s : Half) (a : Action) (_ : Half) : Prop :=
  s.findsNowait a = true → s.completion s.latest ≠ .inFlight

theorem findsNowait_iff {a : Action} : s.findsNowait a = true ↔
    a = .owner ∧ s.owner = .isCancellable true ∧ s.state = .cancelledNowait := by
  simp [findsNowait, and_assoc]

/-- The two ways out of a waiting cancel. -/
theorem ReturnsWaiting.moved {a : Action} (h : ReturnsWaiting s s')
    (hs : step posts s a = some s') : s'.completion = s.completion ∧ a = .owner ∧
      (s.owner = .isCancellable true ∧ s.state ≠ .pending ∨ s.state = .idle ∨ s.state = .ready) := by
  obtain ⟨hout, hin⟩ := h
  have hmoved : s'.owner ≠ s.owner := fun he => by
    rw [he] at hout
    rcases hin with hin | ⟨_, hin⟩ <;> exact nomatch hin.symm.trans hout
  cases step_cases hs with
  | uncancellable wait ho hp =>
    refine ⟨rfl, rfl, .inl ⟨?_, hp⟩⟩
    rcases hin with hin | ⟨_, hin⟩
    · exact hin
    · exact nomatch ho.symm.trans hin
  | unbusy ret _ hb => exact ⟨rfl, rfl, .inr hb⟩
  | callback op hcall => exact absurd (callback_kept hcall).owner hmoved
  | offer _ ho _ | complete _ _ ho => exact absurd rfl hmoved
  | poll _ ho | cancel _ ho | finish ho | get ho | schedule ho _ | busy ho _ | issue _ ho
  | registerReady _ ho | setIdle _ ho | setPending ho | register ho | swap _ ho
  | halfCancel _ _ ho _ =>
    rcases hin with hin | ⟨_, hin⟩ <;> exact nomatch ho.symm.trans hin
  | cancellable _ ho _ => exact nomatch hout

/-- **The step lemma** of quiescence. -/
theorem quiescent_step {a : Action} (h : Coherent posts s) (hf : FindsCompleted s a s')
    (hs : step posts s a = some s') : Quiescent s a s' := by
  intro hret op hop
  obtain ⟨hcomp, rfl, hfound⟩ := hret.moved hs
  rw [hcomp] at hop
  obtain rfl := h.inFlight_latest hop
  have hword := h.word
  have howner := h.owner
  rw [hop] at hword
  rcases hfound with ⟨ho, hp⟩ | hw | hw
  · rw [ho] at howner
    cases hw : s.state <;> rw [hw] at hword
    case pending => exact hp hw
    case scheduling => exact howner.1 hw
    case cancelledWait => exact howner.2 hw
    case cancelledNowait => exact hf (findsNowait_iff.mpr ⟨rfl, ho, hw⟩) hop
    all_goals exact hword
  · rw [hw] at hword
    exact hword
  · rw [hw] at hword
    exact hword

/-- A quiescent step found the operation completed. -/
theorem Quiescent.findsCompleted {a : Action} (h : Quiescent s a s')
    (hs : step posts s a = some s') : FindsCompleted s a s' := by
  intro hf
  obtain ⟨rfl, ho, hw⟩ := findsNowait_iff.mp hf
  simp only [step, owned, ho, cancelTest, hw, Option.some.injEq] at hs
  subst hs
  exact h ⟨rfl, .inl ho⟩ s.latest

/-- **A waiting cancel is quiescent** exactly when it never finds an operation in
flight under the word of a cancel that did not wait; where synchronously accepted
operations post packets too, as long as those packets' callbacks do not take the
word of a later operation. -/
theorem waiting_cancel_quiescent (as : List Action) :
    ((machine false).Steps Quiescent init as ↔ (machine false).Steps FindsCompleted init as) ∧
    ((machine true).Steps (fun s a s' => ¬ s.Intrudes a ∧ FindsCompleted s a s') init as →
      (machine true).Steps Quiescent init as) := by
  refine ⟨⟨fun h => h.mono fun _ _ _ hs hq => hq.findsCompleted hs, fun h => ?_⟩, fun h => ?_⟩
  · exact Machine.Steps.of_invariant (fun s a s' hc hf hs =>
      ⟨coherent_step hc (hc.not_intrudes a) hs, quiescent_step hc hf hs⟩) coherent_init h
  · exact Machine.Steps.of_invariant (fun s a s' hc hf hs =>
      ⟨coherent_step hc hf.1 hs, quiescent_step hc hf.2 hs⟩) coherent_init h

instance (s : Half) (a : Action) (s' : Half) : Decidable (FindsCompleted s a s') :=
  inferInstanceAs (Decidable (s.findsNowait a = true → s.completion s.latest ≠ .inFlight))

/-- Cancelled without waiting, the operation completes; then its future is dropped. -/
def droppedTrace (completed : List Action) : List Action :=
  [.poll 0, .owner, .owner, .issue (.failed 997), .owner,
   .cancel false, .owner, .owner, .halfCancel none] ++ completed ++ [.cancel true, .owner]

theorem waiting_cancel_quiescent_completed :
    (machine false).Steps Quiescent init (droppedTrace [.complete 1 ⟨995, 0⟩]) ∧
    (machine true).Steps Quiescent init (droppedTrace [.complete 1 ⟨995, 0⟩]) :=
  ⟨(waiting_cancel_quiescent _).1.mpr (by decide), (waiting_cancel_quiescent _).2 (by decide)⟩

/-- Nothing completes it: the drop returns over an operation in flight. -/
theorem nowait_drop_not_quiescent : ¬ ∀ as : List Action,
    (machine false).Steps Quiescent init as := by
  intro h
  have hcompleted := (h (droppedTrace [])).mono (Q := FindsCompleted) fun _ _ _ hs hq =>
    hq.findsCompleted hs
  exact absurd hcompleted (by decide)

/-! ### A word nobody takes -/

/-- The word is not left to nobody: where only a callback replaces it, some callback
will; and where it keeps a waiting cancel spinning, the kernel and the callbacks
alone can end that. -/
structure Unstuck (posts : Bool) (s' : Half) : Prop where
  owed : s'.state.Owed → ∃ op, (s'.completion op).StoresReady s'.state
  ends : s'.state.Owed ∨ s'.state = .callback →
    (machine posts).Leads Action.Completes (·.state = .ready) s'

/-- The swap of `cancel` is about to cover a `READY`. -/
def covers (s : Half) (a : Action) : Bool :=
  match a, s.owner with
  | .owner, .cancel _ => s.state == .ready
  | _, _ => false

/-- The condition on a step: the swap comes before the callback's `set_ready`. -/
def SwapsInTime (s : Half) (a : Action) (_ : Half) : Prop := s.covers a = false

/-- Under a cancelled word the callback of the latest operation is not over. -/
def Uncovered (s : Half) : Prop :=
  s.state = .cancelledNowait ∨ s.state = .cancelledWait → ¬ (s.completion s.latest).Over

theorem uncovered_init : Uncovered init := fun h => h.elim nofun nofun

/-- The latest operation's callback moves on, or takes the word. -/
theorem uncovered_callback {op : Nat} (hc : Coherent posts s) (h : Uncovered s)
    (ha : ¬ s.Intrudes (.callback op)) (hs : s.callback op = some s') : Uncovered s' := by
  intro hw
  by_cases hop : op = s.latest
  · subst hop
    have hword := hc.word
    rw [(callback_kept hs).latest]
    cases callback_cases hs with
    | pendingTaken | nowaitTaken | waitTaken | setReady | setReadyOnly => exact hw.elim nofun nofun
    | begins | pendingMissed | nowaitMissed | set =>
      rw [setCompletion_same]
      exact id
    | wake p hcomp => exact absurd (by rw [hcomp]; trivial) (h hw)
    | waitMissed p hcomp hne =>
      rw [hcomp] at hword
      have hidle : s.state = .idle := (fits_lastExchange hword).resolve_right hne
      have hw : s.state = .cancelledNowait ∨ s.state = .cancelledWait := hw
      rw [hidle] at hw
      exact hw.elim nofun nofun
  · have ht := not_takes ha hop
    obtain ⟨hstate, _⟩ := callback_other hc hop ht hs
    obtain ⟨c, hcomp, _⟩ := callback_completion hs
    rw [(callback_kept hs).latest, hcomp, Function.update_of_ne (Ne.symm hop)]
    exact h (hstate ▸ hw)

/-- What the swap finds, when it comes in time, is not over. -/
theorem uncovered_swap {wait : Bool} (hc : Coherent posts s) (ho : s.owner = .cancel wait)
    (hready : s.state ≠ .ready) : ¬ (s.completion s.latest).Over := by
  have hword := hc.word
  have howner := hc.owner
  rw [ho] at howner
  rcases howner with hw | hw | hw
  · rw [hw] at hword
    exact Completion.Awaited.not_over hword
  · rw [hw] at hword
    exact Completion.Inside.not_over hword
  · exact absurd hw hready

theorem uncovered_step {a : Action} (hc : Coherent posts s) (h : Uncovered s)
    (ha : ¬ s.Intrudes a) (hr : SwapsInTime s a s') (hs : step posts s a = some s') :
    Uncovered s' := by
  have howner := hc.owner
  cases step_cases hs with
  | schedule | setIdle | setPending => exact fun hw => hw.elim nofun nofun
  | issue answer ho =>
    rw [ho] at howner
    obtain ⟨_, _, _, heq⟩ := s.pollIssue_eq posts answer
    rw [heq]
    intro hw
    rw [howner.1] at hw
    exact hw.elim nofun nofun
  | swap wait ho =>
    have hready : s.state ≠ .ready := fun hw => by
      simp [SwapsInTime, covers, ho, hw] at hr
    have hover := uncovered_swap hc ho hready
    obtain ⟨_, _, _, _, heq⟩ := s.cancelSwap_eq wait
    rw [heq]
    exact fun _ => hover
  | halfCancel wait err =>
    obtain ⟨_, _, _, _, heq⟩ := s.cancelWait_eq wait err
    rw [heq]
    exact h
  | complete op packet hcomp =>
    obtain rfl := hc.inFlight_latest hcomp
    exact fun _ => not_over_queued s s.latest packet
  | callback op hcall => exact uncovered_callback hc h ha hcall
  | finish | get | busy | registerReady | register | cancellable | uncancellable | unbusy | poll
  | offer | cancel => exact h

/-! ### How a callback ends

From any place on its way to `set_ready`, the callback gets there by its own steps. -/

/-- The kernel and the callbacks can bring the word to `READY`. -/
def Ends (posts : Bool) (s : Half) : Prop :=
  (machine posts).Leads Action.Completes (·.state = .ready) s

theorem Ends.callback {op : Nat} (hs : s.callback op = some s') (h : Ends posts s') :
    Ends posts s :=
  h.step (a := .callback op) trivial hs

theorem ends_setReady {op : Nat} {p : Packet} (hc : s.completion op = .running p .setReady) :
    Ends posts s := by
  have hs : s.callback op = some {s.setCompletion op (.running p .wake) with state := .ready} := by
    simp only [Half.callback, hc]
    rfl
  exact .callback hs (.here rfl)

theorem ends_setReadyOnly {op : Nat} {p : Packet}
    (hc : s.completion op = .running p .setReadyOnly) : Ends posts s := by
  have hs : s.callback op = some {s.setCompletion op .done with state := .ready} := by
    simp only [Half.callback, hc]
    rfl
  exact .callback hs (.here rfl)

theorem ends_set {op : Nat} {p : Packet} (hc : s.completion op = .running p .set) :
    Ends posts s := by
  have hs : s.callback op = some {s.setCompletion op (.running p .setReady) with
      result := some (op, IoResult.set p.result p.transferred)} := by
    simp only [Half.callback, hc]
  exact .callback hs (ends_setReady (setCompletion_same ..))

theorem ends_callbackCancelledWait {op : Nat} {p : Packet}
    (hc : s.completion op = .running p .callbackCancelledWait) (hw : s.state = .cancelledWait) :
    Ends posts s := by
  have hs : s.callback op =
      some {s.setCompletion op (.running p .setReadyOnly) with state := .callback} := by
    simp only [Half.callback, hc, hw]
    rfl
  exact .callback hs (ends_setReadyOnly (setCompletion_same ..))

theorem ends_callbackCancelledNowait {op : Nat} {p : Packet}
    (hc : s.completion op = .running p .callbackCancelledNowait)
    (hw : s.state = .cancelledNowait ∨ s.state = .cancelledWait) : Ends posts s := by
  rcases hw with hw | hw
  · have hs : s.callback op =
        some {s.setCompletion op (.running p .set) with state := .callback} := by
      simp only [Half.callback, hc, hw]
      rfl
    exact .callback hs (ends_set (setCompletion_same ..))
  · have hs : s.callback op = some (s.setCompletion op (.running p .callbackCancelledWait)) := by
      simp only [Half.callback, hc, hw]
      rfl
    exact .callback hs (ends_callbackCancelledWait (setCompletion_same ..) hw)

theorem ends_callbackPending {op : Nat} {p : Packet}
    (hc : s.completion op = .running p .callbackPending) (hw : s.state.Owed) : Ends posts s := by
  rcases hw with hw | hw
  · have hs : s.callback op =
        some {s.setCompletion op (.running p .set) with state := .callback} := by
      simp only [Half.callback, hc, hw]
      rfl
    exact .callback hs (ends_set (setCompletion_same ..))
  · have hs : s.callback op = some (s.setCompletion op (.running p .callbackCancelledNowait)) := by
      rcases hw with hw | hw <;> simp only [Half.callback, hc, hw] <;> rfl
    exact .callback hs (ends_callbackCancelledNowait (setCompletion_same ..) hw)

theorem ends_queued {op : Nat} {p : Packet} (hc : s.completion op = .queued p)
    (hw : s.state.Owed) : Ends posts s := by
  have hs : s.callback op = some (s.setCompletion op (.running p .callbackPending)) := by
    rcases hw with hw | hw | hw <;> simp only [Half.callback, hc, hw] <;> rfl
  exact .callback hs (ends_callbackPending (setCompletion_same ..) hw)

theorem ends_inFlight {op : Nat} (hc : s.completion op = .inFlight) (hw : s.state.Owed) :
    Ends posts s := by
  have hs : step posts s (.complete op ⟨0, 0⟩) = some {s.setCompletion op (.queued ⟨0, 0⟩) with
      outcome := Function.update s.outcome op (some (Packet.outcome ⟨0, 0⟩))} := by
    simp only [step, complete, hc]
  exact .step (a := .complete op ⟨0, 0⟩) trivial hs (ends_queued (setCompletion_same ..) hw)

theorem ends_of_storesReady {op : Nat} (h : (s.completion op).StoresReady s.state) :
    Ends posts s := by
  cases hc : s.completion op with
  | inFlight => rw [hc] at h; exact ends_inFlight hc h
  | queued p => rw [hc] at h; exact ends_queued hc h
  | running p pc =>
    rw [hc] at h
    cases pc with
    | callbackPending => exact ends_callbackPending hc h
    | callbackCancelledNowait => exact ends_callbackCancelledNowait hc h
    | callbackCancelledWait => exact ends_callbackCancelledWait hc h
    | set => exact ends_set hc
    | setReady => exact ends_setReady hc
    | setReadyOnly => exact ends_setReadyOnly hc
    | wake => exact h.elim
  | absent => rw [hc] at h; exact h.elim
  | done => rw [hc] at h; exact h.elim

/-! ### Stuck, and not stuck -/

/-- Under a word that only a callback replaces, the latest operation's callback will
replace it, unless it is over. -/
theorem Coherent.storesReady (hc : Coherent posts s) (h : Uncovered s)
    (hw : s.state.Owed ∨ s.state = .callback) :
    (s.completion s.latest).StoresReady s.state := by
  have hword := hc.word
  rcases hw with (hw | hw | hw) | hw
  · rw [hw] at hword ⊢
    exact Completion.Awaited.storesReady hword (.inl rfl)
  · have hover := h (.inl hw)
    rw [hw] at hword ⊢
    rcases hword with ha | ⟨p, hp⟩ | hi | ho
    · exact ha.storesReady (.inr (.inl rfl))
    · rw [hp]
      exact .inl rfl
    · exact hi.storesReady _
    · exact absurd ho hover
  · have hover := h (.inr hw)
    rw [hw] at hword ⊢
    rcases hword with ha | ⟨p, hp⟩ | ⟨p, hp⟩ | hi | ho
    · exact ha.storesReady (.inr (.inr rfl))
    · rw [hp]
      exact .inr rfl
    · rw [hp]
      exact rfl
    · exact hi.storesReady _
    · exact absurd ho hover
  · rw [hw] at hword ⊢
    exact Completion.Inside.storesReady hword _

theorem Coherent.unstuck (hc : Coherent posts s') (h : Uncovered s') : Unstuck posts s' where
  owed := fun hw => ⟨s'.latest, hc.storesReady h (.inl hw)⟩
  ends := fun hw => ends_of_storesReady (hc.storesReady h hw)

/-- Where only operations that went pending post packets, it is the latest
operation's callback that will store `READY`. -/
theorem Coherent.storesReady_latest (hc : Coherent false s) {op : Nat}
    (h : (s.completion op).StoresReady s.state) : op = s.latest := by
  by_contra hop
  have hrest := hc.older op hop
  cases hcomp : s.completion op with
  | running p pc => rw [hcomp] at h hrest; cases pc <;> first | exact h | exact nomatch hrest
  | queued p => rw [hcomp] at hrest; exact nomatch hrest
  | inFlight => rw [hcomp] at hrest; exact hrest
  | _ => rw [hcomp] at h; exact h

/-- A swap that covers a `READY` leaves the half stuck. -/
theorem Unstuck.swapsInTime {a : Action} (h : Unstuck false s') (hc : Coherent false s)
    (hs : step false s a = some s') : SwapsInTime s a s' := by
  by_contra hcover
  obtain ⟨wait, rfl, ho, hready⟩ : ∃ wait, a = .owner ∧ s.owner = .cancel wait ∧
      s.state = .ready := by
    unfold SwapsInTime covers at hcover
    split at hcover
    · rename_i wait ho
      exact ⟨wait, rfl, ho, by simpa using hcover⟩
    · exact absurd rfl hcover
  have hword := hc.word
  rw [hready] at hword
  have hc' := coherent_step hc (hc.not_intrudes _) hs
  simp only [step, owned, ho, cancelSwap, IoState.cancel, hready, Option.some.injEq] at hs
  subst hs
  obtain ⟨op, hop⟩ := h.owed (by cases wait <;> simp [IoState.Owed])
  obtain rfl := hc'.storesReady_latest hop
  have hover : (s.completion s.latest).Over := hword
  have hop : (s.completion s.latest).StoresReady _ := hop
  cases hcomp : s.completion s.latest with
  | running p pc => rw [hcomp] at hop hover; cases pc <;> first | exact hop | exact hover
  | done => rw [hcomp] at hop; exact hop
  | _ => rw [hcomp] at hover; exact hover

/-- **No half is stuck** exactly when no swap of `cancel` covers the `READY` that the
callback stored since the test; where synchronously accepted operations post
packets too, as long as those packets' callbacks do not take the word of a later
operation. -/
theorem halves_unstuck (as : List Action) :
    ((machine false).Steps (fun _ _ s' => Unstuck false s') init as ↔
      (machine false).Steps SwapsInTime init as) ∧
    ((machine true).Steps (fun s a s' => ¬ s.Intrudes a ∧ SwapsInTime s a s') init as →
      (machine true).Steps (fun _ _ s' => Unstuck true s') init as) := by
  have hstep : ∀ {posts s a s'}, Coherent posts s ∧ Uncovered s → ¬ s.Intrudes a →
      SwapsInTime s a s' → step posts s a = some s' →
      (Coherent posts s' ∧ Uncovered s') ∧ Unstuck posts s' := fun ⟨hc, hu⟩ ha hr hs => by
    have hc' := coherent_step hc ha hs
    have hu' := uncovered_step hc hu ha hr hs
    exact ⟨⟨hc', hu'⟩, hc'.unstuck hu'⟩
  refine ⟨⟨fun h => ?_, fun h => ?_⟩, fun h => ?_⟩
  · exact Machine.Steps.of_invariant (I := Coherent false) (fun s a s' hc hu hs =>
      ⟨coherent_step hc (hc.not_intrudes a) hs, hu.swapsInTime hc hs⟩) coherent_init h
  · exact Machine.Steps.of_invariant (fun s a s' hI hr hs =>
      hstep hI (hI.1.not_intrudes a) hr hs) ⟨coherent_init, uncovered_init⟩ h
  · exact Machine.Steps.of_invariant (fun s a s' hI hr hs =>
      hstep hI hr.1 hr.2 hs) ⟨coherent_init, uncovered_init⟩ h

instance (s : Half) (a : Action) (s' : Half) : Decidable (SwapsInTime s a s') :=
  inferInstanceAs (Decidable (s.covers a = false))

/-- A pending operation, the test of a cancel, what happens then, and the swap. -/
def swapTrace (wait : Bool) (meanwhile : List Action) : List Action :=
  [.poll 0, .owner, .owner, .issue (.failed 997), .owner, .complete 1 ⟨0, 7⟩,
   .cancel wait, .owner] ++ meanwhile ++ [.owner]

/-- The callback has taken the word when the swap comes, and stores `READY` over it. -/
theorem halves_unstuck_inside :
    (machine false).Steps (fun _ _ s' => Unstuck false s') init
      (swapTrace true [.callback 1, .callback 1] ++ [.callback 1, .callback 1]) ∧
    (machine true).Steps (fun _ _ s' => Unstuck true s') init
      (swapTrace true [.callback 1, .callback 1] ++ [.callback 1, .callback 1]) :=
  ⟨(halves_unstuck _).1.mpr (by decide), (halves_unstuck _).2 (by decide)⟩

/-- The callback has stored `READY` when the swap of a cancel, waiting or not, comes. -/
theorem late_swap_sticks (wait : Bool) : ¬ (machine false).Steps
    (fun _ _ s' => Unstuck false s') init
    (swapTrace wait [.callback 1, .callback 1, .callback 1, .callback 1]) := by
  intro h
  have hswaps := Machine.Steps.of_invariant (I := Coherent false) (P := SwapsInTime)
    (fun s a s' hc hu hs =>
      ⟨coherent_step hc (hc.not_intrudes a) hs, hu.swapsInTime hc hs⟩) coherent_init h
  cases wait <;> exact absurd hswaps (by decide)

/-- So a waiting cancel spins for ever, and after one that did not wait every poll
returns `Pending`. -/
theorem late_swap_stuck : ¬ ∀ as : List Action,
    (machine false).Steps (fun _ _ s' => Unstuck false s') init as :=
  fun h => late_swap_sticks true (h _)

end Half

end Wae.Io
