import Wae.Net.Lookup
import Wae.Transition.Countdown

/-! A pending event is answered, and so is a pending lookup.

While the owner stays away, the operation in flight is to complete, the wait to queue a
callback for the signal, and the callback to run to its end. None of these waits for
anything but the one before it. So they come to rest, the word is `READY` then, and the
next poll returns. -/
namespace Wae.Io
open Transition

namespace IoEvent

/-- The steps that the system takes by itself. -/
def Action.Completes : Action → Prop
  | .complete _ | .fire | .callback _ => True
  | _ => False

instance : (a : Action) → Decidable a.Completes
  | .complete _ | .fire | .callback _ => isTrue trivial
  | .poll .. | .owner | .resetEvent _ | .issue .. | .drop | .next | .release => isFalse id

/-- The steps that a callback has yet to take, at most. -/
def Callback.left : Callback → Nat
  | .queued _ => 5
  | .running _ .callbackPending => 4
  | .running _ .set => 3
  | .running _ .setReady => 2
  | .running _ .wake => 1
  | .absent | .done => 0

/-- An operation is to complete, an armed wait to queue a callback. -/
def stepsLeft (s : IoEvent) : Nat :=
  s.inFlight.toNat + 6 * s.armed.toNat +
    ∑ k ∈ Finset.range (s.fired + 1), (s.callbacks k).left

variable {s s' : IoEvent} {r : History}

/-! ### What is owed -/

/-- What a pending word waits for is in flight, or has been signaled; and `READY` stands
over a cell that says `WAIT_OBJECT_0`. -/
structure Due (s : IoEvent) : Prop where
  due : s.state = .pending ∨ s.owner.begun = true → s.inFlight = true ∨ s.signaled = true
  signaled : ∀ k, Net.Lookup.Signaled (s.callbacks k)
  stored : s.state = .ready ∨ (∃ k result, s.callbacks k = .running result .setReady) →
    s.result = some (.ok 0)

theorem due_init : Due init where
  due := fun h => h.elim nofun nofun
  signaled := fun _ => trivial
  stored := fun h => h.elim nofun fun ⟨_, _, hc⟩ => nomatch hc

theorem due_step {a : Action} (hi : Sole s)
    (h : s.state = .pending ∨ s.owner.begun = true → s.inFlight = true ∨ s.signaled = true)
    (hs : step s a = some s') (hw : s'.state = .pending ∨ s'.owner.begun = true) :
    s'.inFlight = true ∨ s'.signaled = true := by
  have hfits := hi.owner
  cases step_cases hs with
  | poll | setThreadpoolWait | getOverlappedResult | busy | register =>
    exact h (.inl (hw.resolve_right nofun))
  | finish handle =>
    refine h (.inl (hw.resolve_right ?_))
    unfold pollFinish
    split <;> nofun
  | get handle ho =>
    rw [ho] at hfits
    obtain ⟨owner, heq, _⟩ := s.pollGet_eq handle
    rcases hw with hp | hb
    · rw [heq] at hp
      exact nomatch hfits.symm.trans hp
    · rcases begun_step hs hb with ⟨_, ha⟩ | hb'
      · cases ha
      · rw [ho] at hb'
        cases hb'
  | resetEvent handle err ho =>
    rw [ho] at hfits
    cases err <;> exact hw.elim (fun hp => nomatch hfits.symm.trans hp) nofun
  | issue clears answer ho =>
    rw [ho] at hfits
    cases answer with
    | pending => exact .inl rfl
    | accepted | failed => exact hw.elim (fun hp => nomatch hfits.symm.trans hp) nofun
  | schedule | setIdle => exact hw.elim nofun nofun
  | registerPending ho | setPending ho => exact h (.inr (by rw [ho]; rfl))
  | complete => exact .inr rfl
  | callback k hcall =>
    have hk := callback_keeps hcall
    rw [hk.inFlight, hk.signaled]
    rw [hk.owner] at hw
    exact h (hw.imp_left fun hp => callback_word_eq hcall hp nofun nofun)
  | fire | drop | unbusy | closeThreadpoolWait | release => exact h hw

theorem Due.step {a : Action} (hi : Sole s) (h : Due s) (hs : step s a = some s') : Due s' where
  due := due_step hi h.due hs
  signaled := Net.Lookup.signaled_step h.signaled hs
  stored := Net.Lookup.stored_step h.signaled h.stored hs

/-! ### While the owner is away -/

/-- The owner is away, and its latest poll has returned `Pending`. -/
structure Away (s : IoEvent) (r : History) : Prop extends Followed s r, Due s where
  outside : s.owner = .outside
  alive : s.life = .alive
  waiting : s.waiting = true

theorem callback_left {k : Nat} (hs : s.callback k = some s') :
    ∃ c, s'.callbacks = Function.update s.callbacks k c ∧ c.left < (s.callbacks k).left := by
  cases callback_cases hs with
  | begins _ hc | taken _ hc | missed _ hc | set _ hc | setReady _ hc | wake _ hc =>
    exact ⟨_, rfl, by simp [hc, Callback.left]⟩

/-- **The step lemma**: each step of the system is one less to take. -/
theorem away_step {a : Action} (h : Away s r) (ha : a.Completes) (hs : step s a = some s') :
    Away s' r ∧ s'.stepsLeft < s.stepsLeft := by
  have hsee : history.see s a s' r = r := by
    cases a <;> first | rfl | cases ha
  have hfollowed : Followed s' r := by
    have hw : (history.watch machine).step (s, r) a = some (s', history.see s a s' r) := by
      show (step s a).map _ = _
      rw [hs]
      rfl
    have hstop : StopsAtSuccess (s, r) a (s', r) := fun _ _ hissue => by
      subst hissue
      cases ha
    have hreset : PendsReset (s, r) a (s', r) := fun howner => by
      subst howner
      cases ha
    rw [hsee] at hw
    exact followed_step h.toFollowed hstop hreset hw
  have hdue := h.toDue.step h.busy.sole hs
  unfold stepsLeft
  cases step_cases hs with
  | complete status hin =>
    refine ⟨⟨hfollowed, hdue, h.outside, h.alive, h.waiting⟩, ?_⟩
    rw [hin]
    show 0 + 6 * s.armed.toNat + ∑ k ∈ Finset.range (s.fired + 1), (s.callbacks k).left <
      1 + 6 * s.armed.toNat + _
    omega
  | fire harmed =>
    refine ⟨⟨hfollowed, hdue, h.outside, h.alive, h.waiting⟩, ?_⟩
    rw [harmed]
    show s.inFlight.toNat + 0 +
      ∑ k ∈ Finset.range (s.fired + 1 + 1), ((s.setCallback (s.fired + 1) (.queued 0)).callbacks k).left
        < s.inFlight.toNat + 6 + _
    rw [Finset.sum_range_succ, setCallback_same]
    have hsame : ∑ k ∈ Finset.range (s.fired + 1),
        ((s.setCallback (s.fired + 1) (.queued 0)).callbacks k).left =
          ∑ k ∈ Finset.range (s.fired + 1), (s.callbacks k).left := by
      refine Finset.sum_congr rfl fun k hk => ?_
      rw [setCallback_other s _ (Nat.ne_of_lt (Finset.mem_range.mp hk))]
    rw [hsame]
    show _ + (_ + 5) < _
    omega
  | callback k hcall =>
    have hk := callback_keeps hcall
    refine ⟨⟨hfollowed, hdue, hk.owner.trans h.outside, hk.life.trans h.alive,
      hk.waiting.trans h.waiting⟩, ?_⟩
    obtain ⟨c, hc, hlt⟩ := callback_left hcall
    have hsum := Machine.sum_update_lt Callback.left (h.busy.sole.le_fired hcall) hlt
    rw [hk.inFlight, hk.armed, hk.fired, hc]
    omega
  | poll | finish | resetEvent | setThreadpoolWait | get | getOverlappedResult | schedule | busy
  | issue | setIdle | registerPending | setPending | register | drop | unbusy | closeThreadpoolWait
  | release => cases ha

/-- A step that the system can take by itself. -/
def CanStep (s : IoEvent) : Prop := ∃ a : Action, a.Completes ∧ (step s a).isSome = true

theorem canStep_of {a : Action} (ha : a.Completes) (hs : step s a ≠ none) : CanStep s :=
  ⟨a, ha, Option.isSome_iff_ne_none.mpr hs⟩

/-- A callback that is here can go on, unless it spins. -/
theorem callback_here {k : Nat} (hc : (s.callbacks k).Here) (hw : s.state ≠ .scheduling) :
    s.callback k ≠ none := by
  have hspin : s.state.spins = false := Bool.eq_false_iff.mpr (mt s.state.spins_iff.mp hw)
  cases hcall : s.callbacks k with
  | absent | done =>
    rw [hcall] at hc
    exact hc.elim
  | queued result => simp [callback, hcall, hspin]
  | running result pc =>
    cases pc <;> simp only [callback, hcall] <;> first | exact Option.some_ne_none _ |
      (split <;> exact Option.some_ne_none _)

/-- Nothing is in flight, and no callback is on its way. -/
structure Settled (s : IoEvent) : Prop where
  ready : s.state = .ready
  inFlight : s.inFlight = false
  callbacks : ∀ k, s.callbacks k = .absent ∨ s.callbacks k = .done

/-- **Where no step is left**, the event is settled. -/
theorem Away.settled (h : Away s r) (hno : ¬ CanStep s) : Settled s := by
  have hsole := h.busy.sole
  have hword : s.state ≠ .idle ∧ s.state ≠ .scheduling := by
    have hfits := hsole.owner
    rw [h.outside] at hfits
    exact ⟨(hsole.waiting h.waiting).2, hfits⟩
  have hgone : ∀ k, ¬ (s.callbacks k).Here := fun k hc =>
    hno (canStep_of (a := .callback k) trivial (callback_here hc hword.2))
  have hin : s.inFlight = false := by
    by_contra hin
    refine hno (canStep_of (a := .complete 0) trivial ?_)
    simp [step, complete, hin]
  have hpending : s.state ≠ .pending := by
    intro hw
    have hsignaled := (h.due (.inl hw)).resolve_left (by simp [hin])
    rcases h.toFollowed.served hw with harmed | ⟨k, _, hc⟩
    · refine hno (canStep_of (a := .fire) trivial ?_)
      simp [step, fire, harmed, hsignaled]
    · exact hgone k hc
  have hready : s.state = .ready := by
    have huncancelled := hsole.uncancelled
    cases hw : s.state with
    | ready => rfl
    | idle => exact absurd hw hword.1
    | scheduling => exact absurd hw hword.2
    | pending => exact absurd hw hpending
    | callback =>
      have hinside := hsole.inside.mp hw
      refine absurd ?_ (hgone s.fired)
      cases hc : s.callbacks s.fired with
      | running => trivial
      | absent | queued | done =>
        rw [hc] at hinside
        exact hinside.elim
    | cancelledNowait => exact absurd hw huncancelled.1
    | cancelledWait => exact absurd hw huncancelled.2
  refine ⟨hready, hin, fun k => ?_⟩
  have hk := hgone k
  cases hc : s.callbacks k with
  | absent => exact .inl rfl
  | done => exact .inr rfl
  | queued | running =>
    rw [hc] at hk
    exact absurd trivial hk

/-! ### The poll that comes next -/

/-- A poll that finds `READY`, with `ResetEvent` successful. -/
def answering (waker : Nat) (handle : Bool) : List Action :=
  [.poll waker handle, .owner, .resetEvent none, .owner, .owner] ++
    (if handle then [.owner, .owner] else [.owner])

/-- A poll that finds `READY`, with `ResetEvent` failed. -/
def refusing (waker : Nat) (handle : Bool) (err : Int32) : List Action :=
  [.poll waker handle, .owner, .resetEvent (some err), .owner]

/-- What the poll returns: with the handle what became of the operation, and without one
`Ok(())`. -/
def answer (s : IoEvent) (handle : Bool) : Except IoError Unit :=
  if handle then s.overlappedResult else .ok ()

theorem run_answering (hs : Settled s) (ho : s.owner = .outside) (hl : s.life = .alive)
    (hr : s.result = some (.ok 0)) (waker : Nat) (handle : Bool) :
    machine.run s (answering waker handle) = some {s with
      state := .idle
      owner := .outside
      signaled := false
      armed := true
      polled := waker
      woken := false
      waiting := false
      returned := some (s.answer handle) :: s.returned} := by
  have hw := hs.ready
  have hin := hs.inFlight
  cases handle <;>
    simp [answering, answer, Machine.run, machine, step, owned, pollFinish, pollResetEvent,
      pollSetThreadpoolWait, pollGet, pollGetOverlappedResult, pollSetIdle, IoState.finish_iff,
      IoState.setIdle, IoResult.get, overlappedResult, ho, hl, hr, hw, hin]

theorem run_refusing (hs : Settled s) (ho : s.owner = .outside) (hl : s.life = .alive)
    (waker : Nat) (handle : Bool) (err : Int32) :
    machine.run s (refusing waker handle err) = some {s with
      state := .idle
      owner := .outside
      polled := waker
      woken := false
      waiting := false
      returned := some (.error (.rawOsError err)) :: s.returned} := by
  have hw := hs.ready
  simp [refusing, Machine.run, machine, step, owned, pollFinish, pollResetEvent, pollSetIdle,
    IoState.finish_iff, IoState.setIdle, ho, hl, hw]

/-- Nothing is on its way, and a poll is answered. It returns what the operation came to
and leaves the event to the next one, with its wait armed; if its `ResetEvent` fails it
returns that error, and no wait is armed. -/
structure Answers (s : IoEvent) : Prop where
  settled : Settled s
  polled : ∀ waker handle, ∃ t, machine.run s (answering waker handle) = some t ∧
    t.returned = some (s.answer handle) :: s.returned ∧ t.state = .idle ∧ t.owner = .outside ∧ Armed t
  refused : ∀ waker handle err, ∃ t, machine.run s (refusing waker handle err) = some t ∧
    t.returned = some (.error (.rawOsError err)) :: s.returned ∧ t.state = .idle ∧
    t.owner = .outside ∧ t.armed = false

theorem Away.answers (h : Away s r) (hno : ¬ CanStep s) : Answers s := by
  have hsettled := h.settled hno
  have hr := h.stored (.inl hsettled.ready)
  -- The wait that has fired is not armed before the poll arms it anew.
  have harmed : s.armed = false := by
    rcases h.busy.sole.ready hsettled.ready with hrearms | ⟨harmed, _⟩
    · rw [h.outside] at hrearms
      cases hrearms
    · exact harmed
  refine ⟨hsettled, fun waker handle => ?_, fun waker handle err => ?_⟩
  · exact ⟨_, run_answering hsettled h.outside h.alive hr waker handle, rfl, rfl, rfl, rfl, rfl⟩
  · exact ⟨_, run_refusing hsettled h.outside h.alive waker handle err, rfl, rfl, rfl, harmed⟩

/-- **A pending event is answered.** Where no operation is begun after one accepted at once,
or left pending after `ResetEvent` has failed, and the latest poll returned `Pending`, the
system has at most `stepsLeft` steps to take in whatever order; it can come to where none is
left; and wherever none is left, the next poll returns: given the handle what the operation
came to, without it `Ok(())` whatever that was, and when its `ResetEvent` fails that
error. -/
theorem pending_event_answered {as cs : List Action} {t : IoEvent × History}
    (hstop : (history.watch machine).Steps StopsAtSuccess (history.watch machine).init as)
    (hreset : (history.watch machine).Steps PendsReset (history.watch machine).init as)
    (hrun : (history.watch machine).run (history.watch machine).init as = some t)
    (hl : t.1.life = .alive) (hw : t.1.waiting = true) (hcs : ∀ a ∈ cs, a.Completes)
    (hrun' : machine.run t.1 cs = some s) :
    cs.length ≤ t.1.stepsLeft ∧ (CanStep s ∨ Answers s) ∧ machine.Leads Action.Completes Answers s := by
  have hinv : Followed t.1 t.2 ∧ Due t.1 :=
    Machine.run_keeps_of (M := history.watch machine) (I := fun t => Followed t.1 t.2 ∧ Due t.1)
      (fun t a t' h hok hs => ⟨followed_step h.1 hok.1 hok.2 hs,
        h.2.step h.1.busy.sole (Observer.watch_step hs).1⟩)
      ⟨followed_init, due_init⟩ (hstop.and hreset) hrun
  have ho := (hinv.1.busy.sole.waiting hw).1
  have hstep : ∀ u a u', Away u t.2 → Action.Completes a → machine.step u a = some u' →
      Away u' t.2 ∧ u'.stepsLeft < u.stepsLeft := fun u a u' h ha hs => away_step h ha hs
  have hon : ∀ u, Away u t.2 → Answers u ∨ CanStep u := by
    intro u h
    by_cases hc : CanStep u
    · exact .inr hc
    · exact .inl (h.answers hc)
  exact Machine.comes_to_rest (f := stepsLeft) hstep hon ⟨hinv.1, hinv.2, ho, hl, hw⟩ hcs hrun'

/-- An accept that is pending; a client has connected. -/
theorem pending_event_answered_accept :
    [Action.complete 0, .fire].length ≤ 7 ∧ ∃ s, machine.Leads Action.Completes Answers s := by
  have hstop : (history.watch machine).Steps StopsAtSuccess (history.watch machine).init
      [.poll 0 true, .owner, .owner, .issue true .pending, .owner, .owner] := by decide
  have hreset : (history.watch machine).Steps PendsReset (history.watch machine).init
      [.poll 0 true, .owner, .owner, .issue true .pending, .owner, .owner] := by decide
  have hcs : ∀ a ∈ [Action.complete 0, .fire], a.Completes := by decide
  have hleft := pending_event_answered hstop hreset rfl rfl rfl hcs rfl
  exact ⟨hleft.1, _, hleft.2.2⟩

end IoEvent

end Wae.Io

/-! ### Lookups -/

namespace Wae.Net.Lookup
open Transition Io

variable {L : Type} {outcome : Outcome L} {s s' : Lookup L} {a : Action} {c : Course}

/-- The steps that the system takes by itself. -/
def Action.Completes : Action → Prop
  | .complete | .fire | .callback _ => True
  | _ => False

instance : (a : Action) → Decidable a.Completes
  | .complete | .fire | .callback _ => isTrue trivial
  | .poll _ | .issue .. | .owner | .resetEvent _ | .drop | .next | .release => isFalse id

/-- The history of a lookup's event: it has been asked once at most. -/
structure Once (s : Lookup L) (c : Course) (r : IoEvent.History) : Prop where
  followed : IoEvent.Followed s.event r
  accepted : r.accepted = true → c.answered ≠ none
  failed : r.failed = true → c.failed ≠ none

/-- What has come to be known of a lookup, and what is owed to it. -/
structure Asked (outcome : Outcome L) (s : Lookup L) (c : Course) : Prop where
  follows : Follows outcome s c
  once : ∃ r, Once s c r
  due : IoEvent.Due s.event
  unreturned : s.event.waiting = true → s.returned = []

theorem asked_init : Asked outcome (machine outcome).init ⟨none, none⟩ where
  follows := follows_init
  once := ⟨IoEvent.history.init, IoEvent.followed_init, nofun, nofun⟩
  due := IoEvent.due_init
  unreturned := nofun

theorem Once.step {r : IoEvent.History} {act : IoEvent.Action} (h : Once s c r)
    (hf : Follows outcome s c) (hact : s.act outcome a = some act)
    (hs : IoEvent.step s.event act = some s'.event) :
    Once s' (c.see act) (IoEvent.history.see s.event act s'.event r) := by
  have hanswered := hf.answered
  -- The closure runs where nothing has been answered, and leaves it pending where nothing failed.
  have hissue (clears : Bool) (answer : IoEvent.Answer) (ha : act = .issue clears answer) :
      r.accepted = false := by
    subst ha
    have ho := (issue_eq hs).1
    have hread := hanswered.oneShot.unread (by rw [ho]; nofun)
    refine Bool.eq_false_iff.mpr fun hacc => ?_
    exact h.accepted hacc (hanswered.unasked hread (.inr ho))
  have hpend (ho : s.event.owner = .setPending) : r.failed = false := by
    have hread := hanswered.oneShot.unread (by rw [ho]; nofun)
    refine Bool.eq_false_iff.mpr fun hfail => ?_
    exact h.failed hfail (hanswered.unfailed hread (by rw [ho]; nofun))
  refine ⟨?_, fun hacc => ?_, fun hfail => ?_⟩
  · have hw : (IoEvent.history.watch IoEvent.machine).step (s.event, r) act =
        some (s'.event, IoEvent.history.see s.event act s'.event r) := by
      show (IoEvent.step s.event act).map _ = _
      rw [hs]
      rfl
    exact IoEvent.followed_step (show IoEvent.Followed (s.event, r).1 (s.event, r).2 from h.followed)
      (fun clears answer ha => hissue clears answer ha) (fun _ ho => hpend ho) hw
  · rcases (IoEvent.see_accepted act r).mp hacc with hacc | ⟨clears, signals, rfl⟩
    · have hans := h.accepted hacc
      cases act with
      | issue clears answer => nofun
      | resetEvent err => cases err <;> exact hans
      | _ => exact hans
    · nofun
  · rcases (IoEvent.see_failed act r).mp hfail with hfail | ⟨err, rfl⟩
    · have hfails := h.failed hfail
      cases act with
      | resetEvent err =>
        cases err with
        | none => exact hfails
        | some err => nofun
      | _ => exact hfails
    · nofun

/-- Only inside `poll` does an event come to wait. -/
theorem waiting_outside {e e' : IoEvent} {act : IoEvent.Action} (ho : e.owner = .outside)
    (hs : IoEvent.step e act = some e') (hw : e'.waiting = true) : e.waiting = true := by
  cases IoEvent.step_cases hs with
  | poll => cases hw
  | callback k hcall => exact (IoEvent.callback_keeps hcall).waiting ▸ hw
  | complete | fire | drop | unbusy | closeThreadpoolWait | release => exact hw
  | finish _ hi | resetEvent _ _ hi | setThreadpoolWait _ hi | get _ hi | getOverlappedResult hi
  | schedule hi | busy hi | issue _ _ hi | setIdle _ hi | registerPending hi | setPending hi
  | register hi => exact nomatch ho.symm.trans hi

theorem waiting_setIdle {e e' : IoEvent} {reading : IoEvent.Reading}
    (ho : e.owner = .setIdle reading) (hs : IoEvent.step e .owner = some e') :
    e'.waiting = e.waiting := by
  simp only [IoEvent.step, IoEvent.owned, ho, Option.some.injEq] at hs
  rw [← hs]
  rfl

/-- A poll returns `Pending` before the lookup has returned. -/
theorem unreturned_step (h : Asked outcome s c) (hs : step outcome s a = some s')
    (hw : s'.event.waiting = true) : s'.returned = [] := by
  obtain ⟨act, hact, hevent, _, _⟩ := step_eq hs
  have honeShot := h.follows.answered.oneShot
  by_cases ho : s.event.owner = .outside
  · rcases returned_step hs hact hevent with ⟨reading, _, hset, _, _⟩ | ⟨_, hr⟩
    · exact nomatch ho.symm.trans hset
    · rw [hr]
      exact h.unreturned (waiting_outside ho hevent hw)
  · have hread : s.returned = [] := h.follows.unreturned.mpr (honeShot.unread ho)
    rcases returned_step hs hact hevent with ⟨reading, rfl, hset, _, _⟩ | ⟨_, hr⟩
    · -- a poll that returns `Ready` has not returned `Pending`
      rw [waiting_setIdle hset hevent] at hw
      exact absurd hw (honeShot.busy.sole.not_waiting ho)
    · exact hr.trans hread

theorem asked_step (h : Asked outcome s c) (hs : step outcome s a = some s') :
    Asked outcome s' (course.see s a s' c) := by
  obtain ⟨act, hact, hevent, _, _⟩ := step_eq hs
  obtain ⟨r, hr⟩ := h.once
  have hsole := h.follows.answered.oneShot.busy.sole
  refine ⟨follows_step h.follows hs, ⟨IoEvent.history.see s.event act s'.event r, ?_⟩,
    h.due.step hsole hevent, unreturned_step h hs⟩
  rw [see_act hact]
  exact hr.step h.follows hact hevent

/-- The poll that comes next, and what it returns: the list that the resolver has written,
or none; and when `ResetEvent` fails, that error. -/
structure Answers (outcome : Outcome L) (s : Lookup L) : Prop where
  settled : IoEvent.Settled s.event
  polled : ∀ waker, ∃ t, (machine outcome).run s
      [.poll waker, .owner, .resetEvent none, .owner, .owner, .owner] = some t ∧
    t.returned = [some (.ok (written outcome none))] ∧ t.event.owner = .outside
  refused : ∀ waker err, ∃ t, (machine outcome).run s
      [.poll waker, .owner, .resetEvent (some err), .owner] = some t ∧
    t.returned = [some (.error (.rawOsError err))] ∧ t.event.owner = .outside

/-- Some step of the system is left. -/
def CanStep (outcome : Outcome L) (s : Lookup L) : Prop :=
  ∃ a : Action, a.Completes ∧ (step outcome s a).isSome = true

/-- The owner is away, and its latest poll has returned `Pending`. -/
structure Away (outcome : Outcome L) (s : Lookup L) (c : Course) : Prop
    extends Asked outcome s c where
  alive : s.event.life = .alive
  waiting : s.event.waiting = true

theorem Away.event (h : Away outcome s c) : ∃ r, IoEvent.Away s.event r := by
  obtain ⟨r, hr⟩ := h.once
  have ho := (h.follows.answered.oneShot.busy.sole.waiting h.waiting).1
  exact ⟨r, hr.followed, h.due, ho, h.alive, h.waiting⟩

/-- **The step lemma**: as the event's, since the system's steps are the event's. -/
theorem away_step (h : Away outcome s c) (ha : a.Completes) (hs : step outcome s a = some s') :
    Away outcome s' c ∧ s'.event.stepsLeft < s.event.stepsLeft := by
  have hasked := asked_step h.toAsked hs
  obtain ⟨act, hact, hevent, _, _⟩ := step_eq hs
  obtain ⟨r, haway⟩ := h.event
  have hcomplete : act.Completes ∧ course.see s a s' c = c := by
    cases a with
    | complete | fire | callback =>
      cases hact
      exact ⟨trivial, rfl⟩
    | poll | issue | owner | resetEvent | drop | next | release => cases ha
  obtain ⟨haway', hlt⟩ := IoEvent.away_step haway hcomplete.1 hevent
  rw [hcomplete.2] at hasked
  exact ⟨⟨hasked, haway'.alive, haway'.waiting⟩, hlt⟩

/-- A step that the system can take on the event is one that it can take on the lookup. -/
theorem canStep_of_event (h : IoEvent.CanStep s.event) : CanStep outcome s := by
  obtain ⟨act, hact, hsome⟩ := h
  have hstep {a : Action} (ha : a.Completes) {b : IoEvent.Action} (hb : s.act outcome a = some b)
      (hb' : (IoEvent.step s.event b).isSome = true) : CanStep outcome s := by
    refine ⟨a, ha, ?_⟩
    simp [step, hb, hb']
  cases act with
  | complete status' =>
    refine hstep (a := .complete) trivial rfl ?_
    cases hin : s.event.inFlight with
    | true => simp [IoEvent.step, IoEvent.complete, hin]
    | false => simp [IoEvent.step, IoEvent.complete, hin] at hsome
  | fire => exact hstep (a := .fire) trivial rfl hsome
  | callback k => exact hstep (a := .callback k) trivial rfl hsome
  | poll | owner | resetEvent | issue | drop | next | release => cases hact

/-- With the event settled, what the resolver has written is there. -/
theorem Away.result (h : Away outcome s c) (hsettled : IoEvent.Settled s.event) :
    s.result = written outcome none := by
  refine h.follows.filled (.inr ⟨?_, hsettled.inFlight⟩)
  by_contra hc
  rcases h.follows.answered.early hc with hw | hw <;> exact nomatch hw.symm.trans hsettled.ready

theorem Away.answers (h : Away outcome s c) (hno : ¬ CanStep outcome s) : Answers outcome s := by
  obtain ⟨r, haway⟩ := h.event
  have hsettled := haway.settled fun hc => hno (canStep_of_event hc)
  have hread := h.unreturned h.waiting
  have hw := hsettled.ready
  have ho := haway.outside
  have hl := haway.alive
  refine ⟨hsettled, fun waker => ?_, fun waker err => ?_⟩
  · have hstored := h.due.stored (.inl hw)
    have hrun : (machine outcome).run s
        [.poll waker, .owner, .resetEvent none, .owner, .owner, .owner] = some
          ⟨{s.event with
            state := .idle
            owner := .outside
            signaled := false
            armed := true
            polled := waker
            woken := false
            waiting := false
            returned := some (.ok ()) :: s.event.returned}, s.result, [some (.ok s.result)]⟩ := by
      simp [Machine.run, machine, step, act, resultNext, returnedNext, output, hread, IoEvent.step,
        IoEvent.owned, IoEvent.pollFinish, IoEvent.pollResetEvent, IoEvent.pollSetThreadpoolWait,
        IoEvent.pollGet, IoEvent.pollSetIdle, IoState.finish_iff, IoState.setIdle, IoResult.get,
        ho, hl, hstored, hw]
    refine ⟨_, hrun, ?_, rfl⟩
    show [some (Except.ok s.result)] = _
    rw [h.result hsettled]
  · have hrun : (machine outcome).run s
        [.poll waker, .owner, .resetEvent (some err), .owner] = some
          ⟨{s.event with
            state := .idle
            owner := .outside
            polled := waker
            woken := false
            waiting := false
            returned := some (.error (.rawOsError err)) :: s.event.returned}, s.result,
            [some (.error (.rawOsError err))]⟩ := by
      simp [Machine.run, machine, step, act, resultNext, returnedNext, output, hread, IoEvent.step,
        IoEvent.owned, IoEvent.pollFinish, IoEvent.pollResetEvent, IoEvent.pollSetIdle,
        IoState.finish_iff, IoState.setIdle, ho, hl, hw]
    exact ⟨_, hrun, rfl, rfl⟩

/-- **A pending lookup is answered**, in every run: the resolver, the wait and its callback
have so many steps to take and no more, they can come to the end of them, and wherever they
have, the next poll returns the list that the resolver has written, or the error that its
`ResetEvent` fails with. -/
theorem lookup_answered {as cs : List Action} {t : Lookup L × Course}
    (hrun : (course.watch (machine outcome)).run (course.watch (machine outcome)).init as = some t)
    (hl : t.1.event.life = .alive) (hw : t.1.event.waiting = true)
    (hcs : ∀ a ∈ cs, a.Completes) (hrun' : (machine outcome).run t.1 cs = some s) :
    cs.length ≤ t.1.event.stepsLeft ∧ (CanStep outcome s ∨ Answers outcome s) ∧
    (machine outcome).Leads Action.Completes (Answers outcome) s := by
  have hasked : Asked outcome t.1 t.2 :=
    Machine.run_keeps (M := course.watch (machine outcome)) (I := fun t => Asked outcome t.1 t.2)
      (fun t a t' h hs => (Observer.watch_step hs).2 ▸ asked_step h (Observer.watch_step hs).1)
      asked_init hrun
  have hstep : ∀ u a u', Away outcome u t.2 → Action.Completes a →
      (machine outcome).step u a = some u' →
      Away outcome u' t.2 ∧ u'.event.stepsLeft < u.event.stepsLeft :=
    fun u a u' h ha hs => away_step h ha hs
  have hon : ∀ u, Away outcome u t.2 → Answers outcome u ∨ CanStep outcome u := by
    intro u h
    by_cases hc : CanStep outcome u
    · exact .inr hc
    · exact .inl (h.answers hc)
  exact Machine.comes_to_rest (f := fun u => u.event.stepsLeft) hstep hon ⟨hasked, hl, hw⟩ hcs hrun'

/-- The resolver takes its time. -/
theorem lookup_answered_list : [Action.complete, .fire, .callback 1].length ≤ 7 ∧
    ∃ s, (machine (.ok 7 : Outcome Nat)).Leads Action.Completes (Answers (.ok 7)) s := by
  have hrun : (course.watch (machine (.ok 7 : Outcome Nat))).run
      (course.watch (machine (.ok 7 : Outcome Nat))).init
      [.poll 0, .owner, .owner, .issue true false false, .owner, .owner] = some _ := rfl
  have hcs : ∀ a ∈ [Action.complete, .fire, .callback 1], a.Completes := by decide
  have hleft := lookup_answered hrun rfl rfl hcs rfl
  exact ⟨hleft.1, _, hleft.2.2⟩

end Wae.Net.Lookup
