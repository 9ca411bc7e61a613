import Wae.Io.Rearm

/-! `GetAddrInfoFuture`: the result of a lookup that is answered at once, and of one that
is answered through the event.

The resolver writes the list into the future's `result` before it reports success, in
either way. An error it reports by its return value when it answers at once; later, all
that comes is a signal, for which the callback stores `WAIT_OBJECT_0`. The poll has no
handle to ask for more. -/
namespace Wae.Net
open Transition Io

namespace Lookup

/-- An error code of `GetAddrInfoExW`: neither `NO_ERROR` nor `WSA_IO_PENDING`. -/
abbrev Code := {code : Int32 // code ≠ 0 ∧ code ≠ 997}

/-- What the resolver comes to. -/
abbrev Outcome (L : Type) := Except Code L

inductive Action where
  | poll (waker : Nat)
  /-- The call: `clears`, where the system resets the event as it begins; answered at
  once or not; `signals`, where the event is signaled for an answer at once. -/
  | issue (clears atOnce signals : Bool)
  | complete
  /-- Any other step of the event. -/
  | owner
  | resetEvent (err : Option Int32)
  | fire
  | callback (k : Nat)
  | drop
  | next
  | release
  deriving DecidableEq, Repr

end Lookup

/-- A `GetAddrInfoFuture` with its event; `L` are the lists of addresses. -/
structure Lookup (L : Type) where
  event : IoEvent
  /-- `inner.result`. -/
  result : Option L
  /-- What `poll` has returned: the list of the iterator, or an error; nothing, for a
  reading of a cell that nobody has written. -/
  returned : List (Option (Except IoError (Option L)))

namespace Lookup
variable {L : Type} (outcome : Outcome L)

/-- `GetAddrInfoExW` returns it. -/
def ret (atOnce : Bool) : Int32 :=
  if atOnce then
    match outcome with
    | .ok _ => 0
    | .error code => code.val
  else 997

/-- The closure, on what the call has returned. -/
def answer (ret : Int32) (signals : Bool) : IoEvent.Answer :=
  if ret = 0 then .accepted signals
  else if ret = 997 then .pending
  else .failed (.rawOsError ret)

/-- The `result` that the resolver leaves: it writes the list of a success. -/
def written (result : Option L) : Option L :=
  match outcome with
  | .ok list => some list
  | .error _ => result

/-- The status that the resolver leaves in the `OVERLAPPED`. -/
def status : UInt32 :=
  match outcome with
  | .ok _ => 0
  | .error code => code.val.toUInt32

/-- The step of the event. A future that has returned is polled no more. -/
def act (s : Lookup L) : Action → Option IoEvent.Action
  | .poll waker => if s.returned = [] then some (.poll waker false) else none
  | .issue clears atOnce signals => some (.issue clears (answer (ret outcome atOnce) signals))
  | .complete => some (.complete (status outcome))
  | .owner => some .owner
  | .resetEvent err => some (.resetEvent err)
  | .fire => some .fire
  | .callback k => some (.callback k)
  | .drop => some .drop
  | .next => some .next
  | .release => some .release

/-- `inner.result` after a step. -/
def resultNext (s : Lookup L) : Action → Option L
  | .issue _ atOnce _ => if atOnce then written outcome s.result else s.result
  | .complete => written outcome s.result
  | .poll _ | .owner | .resetEvent _ | .fire | .callback _ | .drop | .next | .release => s.result

/-- What `poll` makes of the event's result. -/
def output (s : Lookup L) (reading : IoEvent.Reading) : Option (Except IoError (Option L)) :=
  reading.map fun
    | .ok () => .ok s.result
    | .error err => .error err

/-- The results returned, after a step. -/
def returnedNext (s : Lookup L) (a : Action) : List (Option (Except IoError (Option L))) :=
  match a, s.event.owner with
  | .owner, .setIdle reading => s.output reading :: s.returned
  | _, _ => s.returned

def step (s : Lookup L) (a : Action) : Option (Lookup L) :=
  (s.act outcome a).bind fun act => (IoEvent.step s.event act).map fun event =>
    ⟨event, s.resultNext outcome a, s.returnedNext a⟩

def machine : Machine (Lookup L) Action := ⟨⟨IoEvent.init, none, []⟩, step outcome⟩

/-! ### What is returned -/

/-- What has happened: whether the resolver has answered at once, when it was called, and
what `ResetEvent` has failed with. -/
structure Course where
  answered : Option Bool
  failed : Option Int32
  deriving DecidableEq, Repr

def course : Observer (Lookup L) Action Course where
  init := ⟨none, none⟩
  see _ a _ c :=
    match a with
    | .issue _ atOnce _ => {c with answered := some atOnce}
    | .resetEvent (some err) => {c with failed := some err}
    | _ => c

/-- The result when the resolver answers at once. -/
def prompt : Except IoError (Option L) :=
  match outcome with
  | .ok list => .ok (some list)
  | .error code => .error (.rawOsError code.val)

/-- The result when it answers through the event: an error of `ResetEvent`, or what has
been left in `inner.result`. -/
def late (failed : Option Int32) : Except IoError (Option L) :=
  match failed with
  | some err => .error (.rawOsError err)
  | none => .ok (written outcome none)

/-! ### The event of a lookup -/

/-- The course of the event's own actions. -/
def Course.see (c : Course) : IoEvent.Action → Course
  | .issue _ answer => {c with answered := some (answer ≠ .pending)}
  | .resetEvent (some err) => {c with failed := some err}
  | _ => c

/-- A callback with `WAIT_OBJECT_0`. -/
def Signaled : IoEvent.Callback → Prop
  | .queued result | .running result _ => result = 0
  | .absent | .done => True

/-- The poll has a handle to ask for the outcome. -/
def asks : IoEvent.Owner → Bool
  | .finish handle | .resetEvent handle | .setThreadpoolWait handle | .get handle => handle
  | .getOverlappedResult => true
  | _ => false

/-- What the event of a lookup has come to. -/
structure Answered (e : IoEvent) (c : Course) : Prop where
  oneShot : e.OneShot
  plain : asks e.owner = false
  signaled : ∀ k, Signaled (e.callbacks k)
  stored : e.state = .ready ∨ (∃ k result, e.callbacks k = .running result .setReady) →
    e.result = some (.ok 0)
  unasked : e.returned = [] → e.state = .idle ∨ e.owner = .issue → c.answered = none
  early : c.answered ≠ some false → e.state = .idle ∨ e.state = .scheduling
  begun : e.owner.begun = true → c.answered = some false
  unfailed : e.returned = [] → (∀ reading, e.owner ≠ .setIdle reading) → c.failed = none

variable {e e' : IoEvent} {c : Course} {act : IoEvent.Action}

theorem answered_init : Answered IoEvent.init ⟨none, none⟩ where
  oneShot := IoEvent.oneShot_init
  plain := rfl
  signaled := fun _ => trivial
  stored := fun h => h.elim nofun fun ⟨_, _, hc⟩ => nomatch hc
  unasked := fun _ _ => rfl
  early := fun _ => .inl rfl
  begun := nofun
  unfailed := fun _ _ => rfl

/-- A step that no callback takes: the cell stays, and no word is made `READY`. -/
theorem step_aside (hs : IoEvent.step e act = some e') (hc : ∀ k, act ≠ .callback k) :
    e'.result = e.result ∧ (e'.state = .ready → e.state = .ready) ∧
    (e'.callbacks = e.callbacks ∨
      e'.callbacks = Function.update e.callbacks (e.fired + 1) (.queued 0)) := by
  cases IoEvent.step_cases hs with
  | callback k => exact absurd rfl (hc k)
  | fire => exact ⟨rfl, id, .inr rfl⟩
  | schedule | setIdle | setPending => exact ⟨rfl, nofun, .inl rfl⟩
  | resetEvent handle err => cases err <;> exact ⟨rfl, id, .inl rfl⟩
  | get handle =>
    obtain ⟨owner, heq, _⟩ := e.pollGet_eq handle
    rw [heq]
    exact ⟨rfl, id, .inl rfl⟩
  | issue clears answer => cases answer <;> exact ⟨rfl, id, .inl rfl⟩
  | poll | finish | setThreadpoolWait | getOverlappedResult | busy | registerPending | register
  | complete | drop | unbusy | closeThreadpoolWait | release => exact ⟨rfl, id, .inl rfl⟩

theorem signaled_step (h : ∀ k, Signaled (e.callbacks k)) (hs : IoEvent.step e act = some e') :
    ∀ k, Signaled (e'.callbacks k) := by
  have hupdate {j : Nat} {c : IoEvent.Callback} (hc : Signaled c) :
      ∀ k, Signaled (Function.update e.callbacks j c k) := by
    apply (Function.forall_update_iff e.callbacks fun _ c => Signaled c).mpr
    exact ⟨hc, fun k _ => h k⟩
  by_cases hcall : ∃ j, act = .callback j
  · obtain ⟨j, rfl⟩ := hcall
    have hj := h j
    cases IoEvent.callback_cases hs with
    | begins result hc | taken result hc | set result hc | setReady result hc =>
      rw [hc] at hj
      exact hupdate hj
    | missed | wake => exact hupdate trivial
  · rcases (step_aside hs fun j hj => hcall ⟨j, hj⟩).2.2 with hc | hc
    · rw [hc]
      exact h
    · rw [hc]
      exact hupdate rfl

theorem stored_step (hz : ∀ k, Signaled (e.callbacks k))
    (h : e.state = .ready ∨ (∃ k result, e.callbacks k = .running result .setReady) →
      e.result = some (.ok 0)) (hs : IoEvent.step e act = some e')
    (hr : e'.state = .ready ∨ ∃ k result, e'.callbacks k = .running result .setReady) :
    e'.result = some (.ok 0) := by
  -- A callback at `setReady` was there before, or has just written the cell.
  have hold {j : Nat} {c : IoEvent.Callback} (hc : ∀ result, c ≠ .running result .setReady)
      (hex : ∃ k result, Function.update e.callbacks j c k = .running result .setReady) :
      e.result = some (.ok 0) := by
    rcases (Function.exists_update_iff e.callbacks
      fun _ c => ∃ result, c = .running result .setReady).mp hex with ⟨result, heq⟩ | ⟨k, _, hk⟩
    · exact absurd heq (hc result)
    · exact h (.inr ⟨k, hk⟩)
  by_cases hcall : ∃ j, act = .callback j
  · obtain ⟨j, rfl⟩ := hcall
    have hj := hz j
    cases IoEvent.callback_cases hs with
    | begins | missed | wake =>
      rcases hr with hr | hr
      · exact h (.inl hr)
      · exact hold (fun _ hne => by cases hne) hr
    | taken =>
      rcases hr with hr | hr
      · cases hr
      · exact hold (fun _ hne => by cases hne) hr
    | set result hc =>
      rw [hc] at hj
      obtain rfl : result = 0 := hj
      rfl
    | setReady result hc => exact h (.inr ⟨j, result, hc⟩)
  · obtain ⟨hcell, hword, hcallbacks⟩ := step_aside hs fun j hj => hcall ⟨j, hj⟩
    rw [hcell]
    rcases hr with hr | hr
    · exact h (.inl (hword hr))
    · rcases hcallbacks with hc | hc
      · rw [hc] at hr
        exact h (.inr hr)
      · rw [hc] at hr
        exact hold (fun _ hne => by cases hne) hr

theorem plain_step (h : asks e.owner = false)
    (hp : ∀ waker handle, act = .poll waker handle → handle = false)
    (hs : IoEvent.step e act = some e') : asks e'.owner = false := by
  cases IoEvent.step_cases hs with
  | poll waker handle => exact hp waker handle rfl
  | finish handle ho =>
    rw [ho] at h
    unfold IoEvent.pollFinish
    split
    · exact h
    · rfl
  | resetEvent handle err ho =>
    rw [ho] at h
    cases err with
    | none => exact h
    | some err => rfl
  | setThreadpoolWait handle ho =>
    rw [ho] at h
    exact h
  | get handle ho =>
    rw [ho] at h
    obtain rfl : handle = false := h
    unfold IoEvent.pollGet
    split <;> first | rfl | contradiction
  | issue clears answer => cases answer <;> rfl
  | callback k hcall =>
    rw [(IoEvent.callback_keeps hcall).owner]
    exact h
  | complete | fire | drop | unbusy | closeThreadpoolWait | release => exact h
  | getOverlappedResult | schedule | busy | setIdle | registerPending | setPending | register => rfl

theorem unasked_step (h : Answered e c) (hs : IoEvent.step e act = some e') (hr : e'.returned = [])
    (hw : e'.state = .idle ∨ e'.owner = .issue) : (c.see act).answered = none := by
  have hfits := h.oneShot.busy.sole.owner
  cases IoEvent.step_cases hs with
  | poll | setThreadpoolWait | getOverlappedResult | busy | registerPending | register =>
    exact h.unasked hr (.inl (hw.resolve_right nofun))
  | finish handle ho =>
    refine h.unasked hr (.inl (hw.resolve_right ?_))
    unfold IoEvent.pollFinish
    split <;> nofun
  | get handle ho =>
    obtain ⟨owner, heq, hissue⟩ := e.pollGet_eq handle
    rw [heq] at hr hw
    exact h.unasked hr (.inl (hw.resolve_right hissue))
  | resetEvent handle err =>
    cases err <;> exact h.unasked hr (.inl (hw.resolve_right nofun))
  | schedule ho hidle => exact h.unasked hr (.inl hidle)
  | issue clears answer ho =>
    rw [ho] at hfits
    have hword : e.state = .scheduling := hfits
    cases answer <;> exact hw.elim (fun hi => nomatch hword.symm.trans hi) nofun
  | setIdle => cases hr
  | setPending => exact hw.elim nofun nofun
  | callback k hcall =>
    have hk := IoEvent.callback_keeps hcall
    rw [hk.returned] at hr
    rw [hk.owner] at hw
    exact h.unasked hr (hw.imp_left fun hi => IoEvent.callback_word_eq hcall hi nofun nofun)
  | complete | fire | drop | unbusy | closeThreadpoolWait | release => exact h.unasked hr hw

theorem begun_step (h : Answered e c) (hs : IoEvent.step e act = some e')
    (hb : e'.owner.begun = true) : (c.see act).answered = some false := by
  rcases IoEvent.begun_step hs hb with ⟨clears, rfl⟩ | hb'
  · rfl
  · have hanswered := h.begun hb'
    cases IoEvent.step_cases hs with
    | issue clears answer ho =>
      rw [ho] at hb'
      cases hb'
    | resetEvent handle err => cases err <;> exact hanswered
    | _ => exact hanswered

theorem early_step (h : Answered e c) (hs : IoEvent.step e act = some e')
    (hc : (c.see act).answered ≠ some false) : e'.state = .idle ∨ e'.state = .scheduling := by
  have hi := h.oneShot.busy.sole
  have hfits := hi.owner
  by_cases hissue : ∃ clears answer, act = .issue clears answer
  · obtain ⟨clears, answer, rfl⟩ := hissue
    cases IoEvent.step_cases hs with
    | issue _ _ ho =>
      rw [ho] at hfits
      right
      cases answer <;> exact hfits
  · have hsame : (c.see act).answered = c.answered := by
      cases act with
      | issue clears answer => exact absurd ⟨clears, answer, rfl⟩ hissue
      | resetEvent err => cases err <;> rfl
      | _ => rfl
    rw [hsame] at hc
    have hword := h.early hc
    have hnot : e.state ≠ .ready ∧ e.state ≠ .pending ∧ e.state ≠ .callback := by
      rcases hword with hw | hw <;> rw [hw] <;> exact ⟨nofun, nofun, nofun⟩
    have hparked : e.Parked := hword.imp_right .inl
    have hp : act = .owner → e.owner ≠ .setPending := by
      intro _ ho
      exact hc (h.begun (by rw [ho]; rfl))
    rcases IoEvent.parked_step hi hparked hp hs with hw | hw | ⟨hw, _⟩
    · exact .inl hw
    · exact .inr hw
    · by_cases hcall : ∃ k, act = .callback k
      · obtain ⟨k, rfl⟩ := hcall
        exact absurd ((IoEvent.callback_leaves hi hnot.2.1 hnot.2.2 hs).symm.trans hw) hnot.1
      · exact absurd ((step_aside hs fun k hk => hcall ⟨k, hk⟩).2.1 hw) hnot.1

theorem unfailed_step (h : Answered e c) (hs : IoEvent.step e act = some e') (hr : e'.returned = [])
    (ho' : ∀ reading, e'.owner ≠ .setIdle reading) : (c.see act).failed = none := by
  have hstay (ho : ∀ reading, e.owner ≠ .setIdle reading) (hr : e.returned = []) :
      c.failed = none := h.unfailed hr ho
  cases IoEvent.step_cases hs with
  | setIdle => cases hr
  | resetEvent handle err ho =>
    cases err with
    | none => exact hstay (by rw [ho]; nofun) hr
    | some err => exact absurd rfl (ho' _)
  | get handle ho =>
    obtain ⟨owner, heq, _⟩ := e.pollGet_eq handle
    rw [heq] at hr
    exact hstay (by rw [ho]; nofun) hr
  | issue clears answer ho =>
    refine hstay (by rw [ho]; nofun) ?_
    cases answer <;> exact hr
  | poll _ _ ho | finish _ ho | setThreadpoolWait _ ho | getOverlappedResult ho | schedule ho | busy ho
  | registerPending ho | setPending ho | register ho => exact hstay (by rw [ho]; nofun) hr
  | callback k hcall =>
    have hk := IoEvent.callback_keeps hcall
    rw [hk.returned] at hr
    rw [hk.owner] at ho'
    exact hstay ho' hr
  | complete | fire | drop | unbusy | closeThreadpoolWait | release => exact hstay ho' hr

theorem answered_step (h : Answered e c) (honce : act.Once e)
    (hp : ∀ waker handle, act = .poll waker handle → handle = false)
    (hs : IoEvent.step e act = some e') : Answered e' (c.see act) where
  oneShot := IoEvent.oneShot_step h.oneShot honce hs
  plain := plain_step h.plain hp hs
  signaled := signaled_step h.signaled hs
  stored := stored_step h.signaled h.stored hs
  unasked := unasked_step h hs
  early := early_step h hs
  begun := begun_step h hs
  unfailed := unfailed_step h hs

/-! ### The lookup -/

/-- What is returned after such a course. -/
def returns (outcome : Outcome L) (c : Course) : Except IoError (Option L) :=
  if c.answered = some true then prompt outcome else late outcome c.failed

/-- What a lookup has come to. -/
structure Follows (outcome : Outcome L) (s : Lookup L) (c : Course) : Prop where
  answered : Answered s.event c
  unreturned : s.returned = [] ↔ s.event.returned = []
  result : s.result = none ∨ s.result = written outcome none
  filled : c.answered = some true ∨ c.answered = some false ∧ s.event.inFlight = false →
    s.result = written outcome none
  reading : ∀ reading, s.event.owner = .setIdle reading →
    s.output reading = some (returns outcome c)
  returned : ∀ r ∈ s.returned, r = some (returns outcome c)

variable {outcome : Outcome L} {s s' : Lookup L} {a : Action}

theorem follows_init : Follows outcome (machine outcome).init ⟨none, none⟩ where
  answered := answered_init
  unreturned := iff_of_true rfl rfl
  result := .inl rfl
  filled := fun h => h.elim nofun fun ⟨hc, _⟩ => nomatch hc
  reading := nofun
  returned := nofun

theorem step_eq (hs : step outcome s a = some s') : ∃ act, s.act outcome a = some act ∧
    IoEvent.step s.event act = some s'.event ∧ s'.result = s.resultNext outcome a ∧
    s'.returned = s.returnedNext a := by
  obtain ⟨act, hact, hs⟩ := Option.bind_eq_some_iff.mp hs
  obtain ⟨event, hevent, rfl⟩ := Option.map_eq_some_iff.mp hs
  exact ⟨act, hact, hevent, rfl, rfl⟩

theorem act_poll {waker : Nat} {act : IoEvent.Action}
    (hact : s.act outcome (.poll waker) = some act) :
    s.returned = [] ∧ act = .poll waker false := by
  obtain ⟨hr, heq⟩ := Option.ite_none_right_eq_some.mp hact
  exact ⟨hr, (Option.some.inj heq).symm⟩

theorem answer_prompt (signals : Bool) : answer (ret outcome true) signals =
    match outcome with
    | .ok _ => .accepted signals
    | .error code => .failed (.rawOsError code.val) := by
  cases outcome with
  | ok list => rfl
  | error code =>
    have h0 := code.property.1
    have h997 := code.property.2
    simp [answer, ret, h0, h997]

/-- The event's actions take the same course. -/
theorem see_act {act : IoEvent.Action} (hact : s.act outcome a = some act) (c : Course) :
    course.see s a s' c = c.see act := by
  cases a with
  | poll waker =>
    obtain ⟨_, rfl⟩ := act_poll hact
    rfl
  | issue clears atOnce signals =>
    cases hact
    cases atOnce with
    | false => rfl
    | true =>
      rw [answer_prompt]
      cases outcome <;> rfl
  | resetEvent err =>
    cases hact
    cases err <;> rfl
  | complete | owner | fire | callback | drop | next | release =>
    cases hact
    rfl

/-- What the resolver writes is the same, whenever it does. -/
theorem Follows.written_result {c : Course} (h : Follows outcome s c) :
    written outcome s.result = written outcome none := by
  rcases h.result with hr | hr
  · rw [hr]
  · cases outcome with
    | ok list => rfl
    | error code => exact hr

/-- Only a call that is pending puts an operation in flight. -/
theorem inFlight_step {e e' : IoEvent} {b : IoEvent.Action} (hs : IoEvent.step e b = some e')
    (hi : ∀ clears answer, b ≠ .issue clears answer) (hin : e'.inFlight = false) :
    e.inFlight = false ∨ ∃ status, b = .complete status := by
  cases IoEvent.step_cases hs with
  | complete status => exact .inr ⟨status, rfl⟩
  | issue clears answer => exact absurd rfl (hi clears answer)
  | callback k hcall => exact .inl ((IoEvent.callback_keeps hcall).inFlight ▸ hin)
  | resetEvent handle err => cases err <;> exact .inl hin
  | get handle =>
    obtain ⟨owner, heq, _⟩ := e.pollGet_eq handle
    rw [heq] at hin
    exact .inl hin
  | _ => exact .inl hin

theorem issue_eq {e e' : IoEvent} {clears : Bool} {answer : IoEvent.Answer}
    (hs : IoEvent.step e (.issue clears answer) = some e') :
    e.owner = .issue ∧ e' = e.pollIssue clears answer := by
  cases IoEvent.step_cases hs with
  | issue _ _ ho => exact ⟨ho, rfl⟩

theorem filled_step {c : Course} (h : Follows outcome s c) (hs : step outcome s a = some s')
    (hc : (course.see s a s' c).answered = some true ∨
      (course.see s a s' c).answered = some false ∧ s'.event.inFlight = false) :
    s'.result = written outcome none := by
  obtain ⟨b, hb, hevent, hresult, _⟩ := step_eq hs
  rw [hresult]
  have hstay (hc : c.answered = some true ∨ c.answered = some false ∧ s'.event.inFlight = false)
      (hi : ∀ clears answer, b ≠ .issue clears answer) (hcomplete : ∀ status, b ≠ .complete status) :
      s.result = written outcome none := by
    refine h.filled (hc.imp_right fun ⟨hans, hin⟩ => ⟨hans, ?_⟩)
    exact (inFlight_step hevent hi hin).resolve_right fun ⟨status, hst⟩ => hcomplete status hst
  cases a with
  | issue clears atOnce signals =>
    cases atOnce with
    | true => exact h.written_result
    | false =>
      cases hb
      have hin : s'.event.inFlight = true := by
        rw [(issue_eq hevent).2]
        rfl
      rcases hc with hc | ⟨_, hout⟩
      · cases hc
      · cases hout.symm.trans hin
  | complete => exact h.written_result
  | resetEvent err =>
    cases hb
    refine hstay ?_ (fun _ _ h => by cases h) (fun _ h => by cases h)
    cases err <;> exact hc
  | poll waker =>
    obtain ⟨_, rfl⟩ := act_poll hb
    exact hstay hc (fun _ _ h => by cases h) (fun _ h => by cases h)
  | owner | fire | callback | drop | next | release =>
    cases hb
    exact hstay hc (fun _ _ h => by cases h) (fun _ h => by cases h)

/-- A result on its way out of `poll` is the one of the course so far. -/
theorem reading_event {e e' : IoEvent} {c : Course} {b : IoEvent.Action} (h : Answered e c)
    (hs : IoEvent.step e b = some e') {reading : IoEvent.Reading}
    (ho' : e'.owner = .setIdle reading) :
    e.owner = .setIdle reading ∧ (∀ status, b ≠ .complete status) ∧ c.see b = c ∨
    (∃ clears answer, b = .issue clears answer ∧ e.owner = .issue ∧
      (e.pollIssue clears answer).owner = .setIdle reading) ∨
    (∃ err, b = .resetEvent (some err) ∧ reading = some (.error (.rawOsError err)) ∧
      c.answered = some false) ∨
    (b = .owner ∧ reading = some (.ok ()) ∧ c.answered = some false ∧ c.failed = none ∧
      e.inFlight = false) := by
  have hb := h.oneShot.busy
  have hfits := hb.sole.owner
  have hlate (hw : e.state = .ready) : c.answered = some false := by
    by_contra hc
    rcases h.early hc with hw' | hw' <;> cases hw'.symm.trans hw
  cases IoEvent.step_cases hs with
  | poll | setThreadpoolWait | schedule | busy | setIdle | registerPending | setPending | register =>
    cases ho'
  | finish handle =>
    unfold IoEvent.pollFinish at ho'
    split at ho' <;> cases ho'
  | resetEvent handle err ho =>
    rw [ho] at hfits
    cases err with
    | none => cases ho'
    | some err =>
      cases ho'
      exact .inr (.inr (.inl ⟨err, rfl, rfl, hlate hfits⟩))
  | get handle ho =>
    rw [ho] at hfits
    have hready : e.state = .ready := hfits
    have hplain : handle = false := by
      have hplain := h.plain
      rw [ho] at hplain
      exact hplain
    have hread : e.pollGet handle = {e with owner := .setIdle (some (.ok ()))} := by
      rw [hplain]
      simp only [IoEvent.pollGet, h.stored (.inl hready), Option.map_some, IoResult.get]
    rw [hread] at ho'
    cases ho'
    have hin := hb.free (by simp [hready]) (by simp [ho]) (by simp [ho])
    have hfailed := h.unfailed (h.oneShot.unread (by simp [ho])) (by simp [ho])
    exact .inr (.inr (.inr ⟨rfl, rfl, hlate hready, hfailed, hin⟩))
  | getOverlappedResult ho =>
    have hplain := h.plain
    rw [ho] at hplain
    cases hplain
  | issue clears answer ho => exact .inr (.inl ⟨clears, answer, rfl, ho, ho'⟩)
  | complete status hin =>
    cases (hb.returning ho').symm.trans hin
  | callback k hcall =>
    rw [(IoEvent.callback_keeps hcall).owner] at ho'
    exact .inl ⟨ho', (fun _ h => by cases h), rfl⟩
  | fire | drop | unbusy | closeThreadpoolWait | release =>
    exact .inl ⟨ho', (fun _ h => by cases h), rfl⟩

theorem resultNext_eq {b : IoEvent.Action} (hb : s.act outcome a = some b)
    (hi : ∀ clears answer, b ≠ .issue clears answer) (hc : ∀ status, b ≠ .complete status) :
    s.resultNext outcome a = s.result := by
  cases a with
  | issue =>
    cases hb
    exact absurd rfl (hi _ _)
  | complete =>
    cases hb
    exact absurd rfl (hc _)
  | poll | owner | resetEvent | fire | callback | drop | next | release => rfl

theorem answered_issue {clears : Bool} {answer : IoEvent.Answer}
    (hb : s.act outcome a = some (.issue clears answer)) : ∃ atOnce signals,
      a = .issue clears atOnce signals ∧ answer = Lookup.answer (ret outcome atOnce) signals := by
  cases a with
  | issue clears' atOnce signals =>
    cases hb
    exact ⟨atOnce, signals, rfl, rfl⟩
  | poll waker => exact nomatch (act_poll hb).2
  | complete | owner | resetEvent | fire | callback | drop | next | release => cases hb

theorem reading_step {c : Course} (h : Follows outcome s c) (hs : step outcome s a = some s')
    {reading : IoEvent.Reading} (ho' : s'.event.owner = .setIdle reading) :
    s'.output reading = some (returns outcome (course.see s a s' c)) := by
  obtain ⟨b, hb, hevent, hresult, _⟩ := step_eq hs
  rw [see_act hb]
  rcases reading_event h.answered hevent ho' with
    ⟨ho, hcomplete, hsee⟩ | ⟨clears, answer, rfl, ho, hans⟩ | ⟨err, rfl, rfl, hanswered⟩ |
      ⟨rfl, rfl, hanswered, hfailed, hin⟩
  · have hissue (clears : Bool) (answer : IoEvent.Answer) : b ≠ .issue clears answer := by
      rintro rfl
      cases ho.symm.trans (issue_eq hevent).1
    have hsame : s'.result = s.result := hresult.trans (resultNext_eq hb hissue hcomplete)
    unfold output
    rw [hsame, hsee]
    exact h.reading reading ho
  · have hanswer := answered_issue hb
    obtain ⟨atOnce, signals, rfl, rfl⟩ := hanswer
    cases atOnce with
    | false => cases hans
    | true =>
      rw [answer_prompt] at hans ⊢
      cases outcome with
      | ok list =>
        cases hans
        simp [output, hresult, resultNext, written, returns, Course.see, prompt]
      | error code =>
        cases hans
        simp [output, returns, Course.see, prompt]
  · simp [output, returns, Course.see, hanswered, late]
  · have hsame : s'.result = s.result := by
      apply hresult.trans (resultNext_eq hb _ _)
      · intro _ _ h
        cases h
      · intro _ h
        cases h
    have hfilled : s.result = written outcome none := h.filled (.inr ⟨hanswered, hin⟩)
    simp [output, hsame, hfilled, returns, Course.see, hanswered, hfailed, late]

/-- The poll returns. -/
theorem returned_event {e e' : IoEvent} {b : IoEvent.Action} (hs : IoEvent.step e b = some e') :
    (∃ reading, b = .owner ∧ e.owner = .setIdle reading ∧ e'.returned = reading :: e.returned) ∨
    (b = .owner → ∀ reading, e.owner ≠ .setIdle reading) ∧ e'.returned = e.returned := by
  cases IoEvent.step_cases hs with
  | setIdle reading ho => exact .inl ⟨reading, rfl, ho, rfl⟩
  | resetEvent handle err =>
    refine .inr ⟨nofun, ?_⟩
    cases err <;> rfl
  | get handle ho =>
    refine .inr ⟨fun _ => by rw [ho]; nofun, ?_⟩
    obtain ⟨owner, heq, _⟩ := e.pollGet_eq handle
    rw [heq]
  | issue clears answer =>
    refine .inr ⟨nofun, ?_⟩
    cases answer <;> rfl
  | callback k hcall => exact .inr ⟨nofun, (IoEvent.callback_keeps hcall).returned⟩
  | finish _ ho | setThreadpoolWait _ ho | getOverlappedResult ho | schedule ho | busy ho
  | registerPending ho | setPending ho | register ho => exact .inr ⟨fun _ => by rw [ho]; nofun, rfl⟩
  | poll | complete | fire | drop | unbusy | closeThreadpoolWait | release =>
    exact .inr ⟨nofun, rfl⟩

theorem act_owner (hb : s.act outcome a = some .owner) : a = .owner := by
  cases a with
  | owner => rfl
  | poll waker => exact nomatch (act_poll hb).2
  | issue | complete | resetEvent | fire | callback | drop | next | release => cases hb

/-- So does the lookup's, with what it makes of it. -/
theorem returned_step (hs : step outcome s a = some s') {b : IoEvent.Action}
    (hb : s.act outcome a = some b) (hevent : IoEvent.step s.event b = some s'.event) :
    (∃ reading, b = .owner ∧ s.event.owner = .setIdle reading ∧
      s'.event.returned = reading :: s.event.returned ∧
      s'.returned = s.output reading :: s.returned) ∨
    s'.event.returned = s.event.returned ∧ s'.returned = s.returned := by
  obtain ⟨_, _, _, _, hreturned⟩ := step_eq hs
  rcases returned_event hevent with ⟨reading, rfl, ho, hr⟩ | ⟨hne, hr⟩
  · obtain rfl := act_owner hb
    refine .inl ⟨reading, rfl, ho, hr, ?_⟩
    simp only [hreturned, returnedNext, ho]
  · refine .inr ⟨hr, ?_⟩
    rw [hreturned]
    cases a with
    | owner =>
      have hne := hne (Option.some.inj hb).symm
      cases ho : s.event.owner <;> simp only [returnedNext, ho]
      exact absurd ho (hne _)
    | poll | issue | complete | resetEvent | fire | callback | drop | next | release => rfl

/-- Nothing is answered and nothing fails once the lookup has returned. -/
theorem Follows.see_returned {c : Course} (h : Follows outcome s c) (hr : s.returned ≠ [])
    {b : IoEvent.Action} {e' : IoEvent} (hevent : IoEvent.step s.event b = some e') :
    c.see b = c := by
  have hout : s.event.owner = .outside := by
    by_contra ho
    exact hr (h.unreturned.mpr (h.answered.oneShot.unread ho))
  cases b with
  | issue clears answer => exact nomatch hout.symm.trans (issue_eq hevent).1
  | resetEvent err =>
    cases IoEvent.step_cases hevent with
    | resetEvent handle _ ho => exact nomatch hout.symm.trans ho
  | _ => rfl

theorem act_once {c : Course} (h : Follows outcome s c) {b : IoEvent.Action}
    (hb : s.act outcome a = some b) : b.Once s.event ∧
      ∀ waker handle, b = .poll waker handle → handle = false := by
  cases a with
  | poll waker =>
    obtain ⟨hr, rfl⟩ := act_poll hb
    exact ⟨fun _ _ _ => h.unreturned.mp hr, fun _ _ hpoll => by cases hpoll; rfl⟩
  | issue | complete | owner | resetEvent | fire | callback | drop | next | release =>
    cases hb
    exact ⟨nofun, nofun⟩

/-- **The step lemma**. -/
theorem follows_step {c : Course} (h : Follows outcome s c) (hs : step outcome s a = some s') :
    Follows outcome s' (course.see s a s' c) := by
  obtain ⟨b, hb, hevent, hresult, _⟩ := step_eq hs
  obtain ⟨honce, hplain⟩ := act_once h hb
  have hreturned := returned_step hs hb hevent
  refine ⟨?_, ?_, ?_, filled_step h hs, fun reading => reading_step h hs, ?_⟩
  · rw [see_act hb]
    exact answered_step h.answered honce hplain hevent
  · rcases hreturned with ⟨_, _, _, he, hl⟩ | ⟨he, hl⟩
    · rw [he, hl]
      exact iff_of_false nofun nofun
    · rw [he, hl]
      exact h.unreturned
  · rw [hresult]
    cases a with
    | issue clears atOnce signals =>
      cases atOnce with
      | true => exact .inr h.written_result
      | false => exact h.result
    | complete => exact .inr h.written_result
    | poll | owner | resetEvent | fire | callback | drop | next | release => exact h.result
  · intro r hr
    rw [see_act hb]
    rcases hreturned with ⟨reading, rfl, ho, _, hl⟩ | ⟨_, hl⟩
    · rw [hl] at hr
      rcases List.mem_cons.mp hr with rfl | hr
      · exact h.reading reading ho
      · exact h.returned r hr
    · rw [hl] at hr
      rw [h.see_returned (List.ne_nil_of_mem hr) hevent]
      exact h.returned r hr

theorem follows_run {as : List Action} {t : Lookup L × Course}
    (hrun : (course.watch (machine outcome)).run (course.watch (machine outcome)).init as = some t) :
    Follows outcome t.1 t.2 := by
  apply Machine.run_keeps (M := course.watch (machine outcome))
    (I := fun t => Follows outcome t.1 t.2) _ follows_init hrun
  intro t a t' h hw
  obtain ⟨hs, hc⟩ := Observer.watch_step hw
  rw [hc]
  exact follows_step h hs

/-- A late answer is told as it is: a success, or an error that `ResetEvent` happens to
fail with too. -/
def ToldLate (outcome : Outcome L) (c : Course) : Prop :=
  match c.failed, outcome with
  | none, .ok _ => True
  | none, .error _ => False
  | some _, .ok _ => False
  | some err, .error code => code.val = err

theorem late_eq_prompt (outcome : Outcome L) (c : Course) :
    late outcome c.failed = prompt outcome ↔ ToldLate outcome c := by
  unfold ToldLate
  cases hf : c.failed with
  | none => cases outcome <;> simp [late, prompt, written]
  | some err => cases outcome <;> simp [late, prompt, eq_comm]

/-- **A lookup's result is the same** however fast the resolver answers exactly where it
is a success and `ResetEvent` does not fail. -/
theorem same_result_iff (outcome : Outcome L) (as bs : List Action) {t u : Lookup L × Course}
    (ht : (course.watch (machine outcome)).run (course.watch (machine outcome)).init as = some t)
    (hu : (course.watch (machine outcome)).run (course.watch (machine outcome)).init bs = some u)
    (hprompt : t.2.answered = some true) (hlate : u.2.answered = some false)
    {r q : Option (Except IoError (Option L))} (hr : r ∈ t.1.returned) (hq : q ∈ u.1.returned) :
    r = some (prompt outcome) ∧ (q = r ↔ ToldLate outcome u.2) := by
  have hr : r = some (prompt outcome) := by
    rw [(follows_run ht).returned r hr, returns, if_pos hprompt]
  have hq : q = some (late outcome u.2.failed) := by
    rw [(follows_run hu).returned q hq, returns, if_neg (by rw [hlate]; nofun)]
  refine ⟨hr, ?_⟩
  rw [hr, hq, Option.some_inj]
  exact late_eq_prompt outcome u.2

/-- Answered at once. -/
def promptly : List Action := [.poll 0, .owner, .owner, .issue true true false, .owner]

/-- Answered later, to a future that is polled twice. -/
def lately : List Action :=
  [.poll 0, .owner, .owner, .issue true false false, .owner, .owner, .complete, .fire,
    .callback 1, .callback 1, .callback 1, .callback 1, .callback 1,
    .poll 0, .owner, .resetEvent none, .owner, .owner, .owner]

/-- A list, both ways. -/
theorem same_result_list : ∃ t u : Lookup Nat × Course,
    (course.watch (machine (.ok 7))).run (course.watch (machine (.ok 7))).init promptly = some t ∧
    (course.watch (machine (.ok 7))).run (course.watch (machine (.ok 7))).init lately = some u ∧
    ∃ r ∈ t.1.returned, ∃ q ∈ u.1.returned, q = r := by
  refine ⟨_, _, rfl, rfl, _, List.mem_singleton_self _, _, List.mem_singleton_self _, ?_⟩
  apply (same_result_iff (.ok 7) promptly lately rfl rfl rfl rfl (List.mem_singleton_self _)
    (List.mem_singleton_self _)).2.mpr
  exact trivial

/-- The host is not found. Told at once that is an error, and told later an empty list. -/
theorem late_error_dropped : ¬ ∀ (outcome : Outcome Nat) (as bs : List Action)
    (t u : Lookup Nat × Course),
    (course.watch (machine outcome)).run (course.watch (machine outcome)).init as = some t →
    (course.watch (machine outcome)).run (course.watch (machine outcome)).init bs = some u →
    t.2.answered = some true → u.2.answered = some false →
    ∀ r ∈ t.1.returned, ∀ q ∈ u.1.returned, q = r := by
  intro h
  have hsame := h (.error ⟨11001, by decide⟩) promptly lately _ _ rfl rfl rfl rfl
    (some (.error (.rawOsError 11001))) (List.mem_singleton_self _) (some (.ok none))
    (List.mem_singleton_self _)
  exact absurd hsame nofun

end Lookup

end Wae.Net
