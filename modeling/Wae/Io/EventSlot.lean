import Wae.Io.OneShot
import Wae.Transition.Projection
import Wae.Transition.Slot

/-! An `IoEvent` is a slot, too.

The half's word is here again, but the result of an operation is in the `OVERLAPPED`, and
comes to the caller by way of an event, a wait on it and the wait's callback. With the
handle given to every poll, and as long as no callback takes the word early and
`ResetEvent` does not fail, the caller still has one operation at a time, and takes the
result of each. -/
namespace Wae.Io
open Transition

namespace IoEvent

/-- No callback takes the word while the operation is in flight, the polls are given the
handle, and `ResetEvent` succeeds. -/
def Orderly (s : IoEvent) (a : Action) : Prop :=
  ¬ s.Intrudes a ∧ (∀ waker, a ≠ .poll waker false) ∧ ∀ err, a ≠ .resetEvent (some err)

instance decidableOrderly (s : IoEvent) (a : Action) : Decidable (s.Orderly a) :=
  match a with
  | .poll _ true | .owner | .resetEvent none | .issue .. | .complete _ | .fire | .callback _
  | .drop | .next | .release =>
    decidable_of_iff (¬ s.Intrudes _) ⟨fun h => ⟨h, nofun, nofun⟩, And.left⟩
  | .poll waker false => isFalse fun h => h.2.1 waker rfl
  | .resetEvent (some err) => isFalse fun h => h.2.2 err rfl

/-- The result that the owner is to take: it has it, or will find it in the `OVERLAPPED`. -/
def outcome (s : IoEvent) : Except IoError Unit :=
  match s.owner with
  | .setIdle (some result) => result
  | _ => s.overlappedResult

/-- The slot: `IDLE` is empty. -/
def slot (s : IoEvent) : Slot (Except IoError Unit) :=
  if s.state = .idle then .empty
  else if s.inFlight then .flying
  else if s.owner = .issue then .asked
  else .landed s.outcome

/-- The step of the slot that a step of the event is. -/
def slotPart (s : IoEvent) : Action → Option (Slot.Action (Except IoError Unit))
  | .owner =>
    match s.owner with
    | .schedule => if s.state = .idle then some .ask else none
    | .setIdle reading => reading.map .take
    | _ => none
  | .issue _ answer =>
    match answer with
    | .accepted _ => some (.answer (.ok ()))
    | .failed err => some (.answer (.error err))
    | .pending => some .accept
  | .complete status => some (.land {s with status}.overlappedResult)
  | .poll .. | .resetEvent _ | .fire | .callback _ | .drop | .next | .release => none

/-! ### What the result cell holds

The wait is set without a timeout, so all that a callback is told is `WAIT_OBJECT_0`. -/

/-- What a callback was told. -/
def Callback.told : Callback → Option UInt32
  | .queued result | .running result _ => some result
  | .absent | .done => none

/-- `set` has been called. -/
def Callback.Written : Callback → Prop
  | .running _ .setReady => True
  | _ => False

/-- With the handle, and with something to return. -/
def Owner.Asks : Owner → Prop
  | .finish handle | .resetEvent handle | .setThreadpoolWait handle | .get handle => handle = true
  | .setIdle reading => reading.isSome = true
  | .outside | .getOverlappedResult | .schedule | .issue | .registerPending | .setPending
  | .register => True

structure Told (s : IoEvent) : Prop where
  zero : ∀ k result, (s.callbacks k).told = some result → result = 0
  cell : s.result = none ∨ s.result = some (.ok 0)
  written : ∀ k, (s.callbacks k).Written → s.result ≠ none
  ready : s.state = .ready → s.result ≠ none
  asks : s.owner.Asks

variable {s s' : IoEvent}

theorem told_init : Told init := ⟨nofun, .inl rfl, nofun, nofun, trivial⟩

theorem Told.move (h : Told s) (hc : s'.callbacks = s.callbacks) (hr : s'.result = s.result)
    (hstate : s'.state = .ready → s.state = .ready) (howner : s'.owner.Asks) : Told s' := by
  refine ⟨?_, ?_, ?_, fun hs => ?_, howner⟩
  · rw [hc]
    exact h.zero
  · rw [hr]
    exact h.cell
  · rw [hc, hr]
    exact h.written
  · rw [hr]
    exact h.ready (hstate hs)

/-- One callback changes. -/
theorem Told.callback {k : Nat} {c : Callback} (h : Told s)
    (hc : s'.callbacks = Function.update s.callbacks k c)
    (htold : ∀ result, c.told = some result → result = 0)
    (hr : s'.result = s.result ∨ s'.result = some (.ok 0))
    (hwritten : c.Written → s'.result ≠ none)
    (hready : s'.state = .ready → s'.result ≠ none) (howner : s'.owner = s.owner) : Told s' := by
  have hcell : s.result ≠ none → s'.result ≠ none := by
    intro hne
    rcases hr with hr | hr <;> rw [hr]
    · exact hne
    · nofun
  refine ⟨fun j result hj => ?_, ?_, fun j hj => ?_, hready, by rw [howner]; exact h.asks⟩
  · rw [hc] at hj
    by_cases hjk : j = k
    · subst hjk
      rw [Function.update_self] at hj
      exact htold result hj
    · rw [Function.update_of_ne hjk] at hj
      exact h.zero j result hj
  · rcases hr with hr | hr <;> rw [hr]
    · exact h.cell
    · exact .inr rfl
  · rw [hc] at hj
    by_cases hjk : j = k
    · subst hjk
      rw [Function.update_self] at hj
      exact hwritten hj
    · rw [Function.update_of_ne hjk] at hj
      exact hcell (h.written j hj)

theorem told_callback {k : Nat} (h : Told s) (hs : s.callback k = some s') : Told s' := by
  cases callback_cases hs with
  | begins result hc =>
    have hzero := h.zero k result (by rw [hc]; rfl)
    refine h.callback rfl (fun r hr => ?_) (.inl rfl) False.elim h.ready rfl
    exact (Option.some.inj hr).symm.trans hzero
  | taken result hc =>
    have hzero := h.zero k result (by rw [hc]; rfl)
    refine h.callback rfl (fun r hr => ?_) (.inl rfl) False.elim nofun rfl
    exact (Option.some.inj hr).symm.trans hzero
  | missed => exact h.callback rfl nofun (.inl rfl) False.elim h.ready rfl
  | set result hc =>
    have hzero := h.zero k result (by rw [hc]; rfl)
    subst hzero
    refine h.callback rfl (fun r hr => ?_) (.inr rfl) (fun _ => nofun) (fun _ => nofun) rfl
    exact (Option.some.inj hr).symm
  | setReady result hc =>
    have hzero := h.zero k result (by rw [hc]; rfl)
    have hne := h.written k (by rw [hc]; trivial)
    refine h.callback rfl (fun r hr => ?_) (.inl rfl) False.elim (fun _ => hne) rfl
    exact (Option.some.inj hr).symm.trans hzero
  | wake => exact h.callback rfl nofun (.inl rfl) False.elim h.ready rfl

/-- `GetOverlappedResult` is asked whenever the word is `READY`. -/
theorem Told.pollGet (h : Told s) (hw : s.state = .ready) :
    s.pollGet true = {s with owner := .getOverlappedResult} := by
  have hcell := h.cell.resolve_left (h.ready hw)
  simp [IoEvent.pollGet, hcell, IoResult.get]

theorem told_step {a : Action} (hsole : Sole s) (h : Told s) (ho : s.Orderly a)
    (hs : step s a = some s') : Told s' := by
  have hasks := h.asks
  have hword := hsole.owner
  cases step_cases hs with
  | poll waker handle =>
    cases handle with
    | true => exact h.move rfl rfl id rfl
    | false => exact absurd rfl (ho.2.1 waker)
  | finish handle hf =>
    rw [hf] at hasks
    refine h.move rfl rfl id ?_
    unfold pollFinish
    dsimp only
    split
    · exact hasks
    · trivial
  | resetEvent handle err hr =>
    rw [hr] at hasks
    cases err with
    | none => exact h.move rfl rfl id hasks
    | some err => exact absurd rfl (ho.2.2 err)
  | setThreadpoolWait handle ht =>
    rw [ht] at hasks
    exact h.move rfl rfl id hasks
  | get handle hg =>
    rw [hg] at hasks hword
    obtain rfl : handle = true := hasks
    rw [h.pollGet hword]
    exact h.move rfl rfl id trivial
  | schedule => exact h.move rfl rfl nofun trivial
  | issue clears answer hi =>
    cases answer <;> exact h.move rfl rfl id (by trivial)
  | setIdle | setPending => exact h.move rfl rfl nofun trivial
  | fire =>
    refine h.callback rfl (fun r hr => ?_) (.inl rfl) False.elim h.ready rfl
    exact (Option.some.inj hr).symm
  | callback k hcall => exact told_callback h hcall
  | getOverlappedResult => exact h.move rfl rfl id rfl
  | busy | registerPending | register => exact h.move rfl rfl id trivial
  | complete | drop | unbusy | closeThreadpoolWait | release => exact h.move rfl rfl id hasks

/-! ### The slot -/

structure Serial (s : IoEvent) : Prop where
  busy : Busy s
  told : Told s

theorem serial_init : Serial init := ⟨busy_init, told_init⟩

theorem serial_step {a : Action} (h : Serial s) (ho : s.Orderly a) (hs : step s a = some s') :
    Serial s' :=
  ⟨busy_step h.busy ho.1 hs, told_step h.busy.sole h.told ho hs⟩

/-- What the slot is read from. -/
theorem slot_congr (hidle : s'.state = .idle ↔ s.state = .idle) (hin : s'.inFlight = s.inFlight)
    (hissue : s'.owner = .issue ↔ s.owner = .issue) (ho : s'.outcome = s.outcome) :
    s'.slot = s.slot := by
  simp only [slot, hidle, hin, hissue, ho]

/-- The owner goes from one place to another, neither of which holds a result or is the
closure. -/
def Owner.passes : Owner → Bool
  | .issue | .setIdle _ => false
  | .outside | .finish _ | .resetEvent _ | .setThreadpoolWait _ | .get _ | .getOverlappedResult
  | .schedule | .registerPending | .setPending | .register => true

theorem outcome_passes (ho : s.owner.passes = true) : s.outcome = s.overlappedResult := by
  unfold outcome
  split
  · rename_i heq
    rw [heq] at ho
    cases ho
  · rfl

theorem slot_passes (ho : s.owner.passes = true) (ho' : s'.owner.passes = true)
    (hidle : s'.state = .idle ↔ s.state = .idle) (hin : s'.inFlight = s.inFlight)
    (hstatus : s'.status = s.status) : s'.slot = s.slot := by
  have hne : ∀ {e : IoEvent}, e.owner.passes = true → e.owner ≠ .issue := by
    intro e he hi
    rw [hi] at he
    cases he
  refine slot_congr hidle hin (iff_of_false (hne ho') (hne ho)) ?_
  rw [outcome_passes ho, outcome_passes ho']
  unfold overlappedResult
  rw [hstatus]

/-- Where the closure is about to be called. -/
theorem slot_issue (h : Serial s) (ho : s.owner = .issue) :
    s.state ≠ .idle ∧ s.slot = .asked := by
  have hword := h.busy.sole.owner
  have hin := h.busy.issuing ho
  rw [ho] at hword
  have hidle : s.state ≠ .idle := by
    rw [show s.state = .scheduling from hword]
    nofun
  refine ⟨hidle, ?_⟩
  simp [slot, hidle, hin, ho]

/-- Where a result is about to be returned. -/
theorem slot_setIdle {result : Except IoError Unit} (h : Serial s)
    (ho : s.owner = .setIdle (some result)) : s.slot = .landed result := by
  have hword := h.busy.sole.owner
  have hin := h.busy.returning ho
  rw [ho] at hword
  have hidle : s.state ≠ .idle := by
    rcases hword with hw | hw <;> rw [hw] <;> nofun
  simp [slot, hidle, hin, ho, outcome]

/-- The operation comes to its end: the poll that began it is over, or about to be. -/
theorem slot_complete (status : UInt32) (h : Serial s) (hin : s.inFlight = true) :
    s.slot = .flying ∧ Io.IoEvent.slot {s with inFlight := false, status, signaled := true} =
      .landed {s with status}.overlappedResult := by
  have hword := h.busy.sole.owner
  have hidle : s.state ≠ .idle := by
    rcases h.busy.flying hin with hw | ho | ho
    · rw [hw]
      nofun
    · rw [ho] at hword
      rw [show s.state = .scheduling from hword]
      nofun
    · rw [ho] at hword
      rw [show s.state = .scheduling from hword]
      nofun
  have hissue : s.owner ≠ .issue := fun ho => Bool.false_ne_true ((h.busy.issuing ho).symm.trans hin)
  have hset : ∀ reading, s.owner ≠ .setIdle reading := fun reading ho =>
    Bool.false_ne_true ((h.busy.returning ho).symm.trans hin)
  constructor
  · simp [slot, hidle, hin]
  · simp only [slot, if_neg hidle, Bool.false_eq_true, if_false, if_neg hissue, outcome]
    split
    · rename_i heq
      exact absurd heq (hset _)
    · rfl

/-- The callbacks are nothing to the slot: none leaves `IDLE`, or stores it. -/
theorem slot_callback {k : Nat} (h : Serial s) (hs : s.callback k = some s') :
    s'.slot = s.slot := by
  have hk := callback_keeps hs
  have hstatus : s'.status = s.status := by cases callback_cases hs <;> rfl
  have houtcome : s'.outcome = s.outcome := by
    unfold outcome overlappedResult
    rw [hk.owner, hstatus]
  refine slot_congr ?_ hk.inFlight (by rw [hk.owner]) houtcome
  cases callback_cases hs with
  | begins | missed | set | wake => exact Iff.rfl
  | taken result hc hw =>
    rw [hw]
    exact iff_of_false nofun nofun
  | setReady result hc =>
    have hlatest : k = s.fired := by
      refine Nat.le_antisymm (h.busy.sole.le_fired hs) (Nat.le_of_not_lt fun hlt => ?_)
      have hpast := h.busy.sole.older k hlt
      rw [hc] at hpast
      exact hpast
    subst hlatest
    have hw : s.state = .callback := h.busy.sole.inside.mpr (by rw [hc]; trivial)
    rw [hw]
    exact iff_of_false nofun nofun

/-- A step that is none of the slot's leaves it as it is. -/
theorem slot_still {a : Action} (h : Serial s) (ho : s.Orderly a) (hs : step s a = some s')
    (hp : s.slotPart a = none) : s'.slot = s.slot := by
  have hword := h.busy.sole.owner
  have hasks := h.told.asks
  have hpass : ∀ {owner : Owner}, s.owner = owner → owner.passes = true → s.owner.passes = true :=
    fun he hpasses => by rw [he]; exact hpasses
  cases step_cases hs with
  | poll waker handle hout => exact slot_passes (hpass hout rfl) rfl Iff.rfl rfl rfl
  | finish handle hf =>
    refine slot_passes (hpass hf rfl) ?_ Iff.rfl rfl rfl
    unfold pollFinish
    dsimp only
    split <;> rfl
  | resetEvent handle err hr =>
    cases err with
    | none => exact slot_passes (hpass hr rfl) rfl Iff.rfl rfl rfl
    | some err => exact absurd rfl (ho.2.2 err)
  | setThreadpoolWait handle ht => exact slot_passes (hpass ht rfl) rfl Iff.rfl rfl rfl
  | get handle hg =>
    rw [hg] at hasks hword
    obtain rfl : handle = true := hasks
    rw [h.told.pollGet hword]
    exact slot_passes (hpass hg rfl) rfl Iff.rfl rfl rfl
  | getOverlappedResult hg =>
    have hbefore := outcome_passes (hpass hg rfl)
    refine slot_congr Iff.rfl rfl (iff_of_false nofun (by rw [hg]; nofun)) ?_
    rw [hbefore]
    rfl
  | schedule hsch hidle => simp [slotPart, hsch, hidle] at hp
  | busy hb => exact slot_passes (hpass hb rfl) rfl Iff.rfl rfl rfl
  | issue clears answer => cases answer <;> simp [slotPart] at hp
  | setIdle reading hset =>
    rw [hset] at hasks
    obtain ⟨result, rfl⟩ := Option.isSome_iff_exists.mp hasks
    simp [slotPart, hset] at hp
  | registerPending hr => exact slot_passes (hpass hr rfl) rfl Iff.rfl rfl rfl
  | setPending hset =>
    rw [hset] at hword
    refine slot_passes (hpass hset rfl) rfl (iff_of_false nofun ?_) rfl rfl
    rw [show s.state = .scheduling from hword]
    nofun
  | register hr => exact slot_passes (hpass hr rfl) rfl Iff.rfl rfl rfl
  | complete => simp [slotPart] at hp
  | callback k hcall => exact slot_callback h hcall
  | fire | drop | unbusy | closeThreadpoolWait | release => rfl

/-- A step that is the slot's takes it along. -/
theorem slot_moved {a : Action} {b : Slot.Action (Except IoError Unit)} (h : Serial s)
    (hs : step s a = some s') (hp : s.slotPart a = some b) :
    Slot.step s.slot b = some s'.slot := by
  have hasks := h.told.asks
  cases step_cases hs with
  | schedule hsch hidle =>
    simp only [slotPart, hsch, hidle, if_true, Option.some.injEq] at hp
    subst hp
    have hin := h.busy.free (by rw [hidle]; nofun) (by rw [hsch]; nofun) (by rw [hsch]; nofun)
    simp [slot, hidle, hin, Slot.step]
  | setIdle reading hset =>
    rw [hset] at hasks
    obtain ⟨result, rfl⟩ := Option.isSome_iff_exists.mp hasks
    simp only [slotPart, hset, Option.map_some, Option.some.injEq] at hp
    subst hp
    rw [slot_setIdle h hset]
    simp [Slot.step, slot, pollSetIdle, IoState.setIdle]
  | issue clears answer hi =>
    obtain ⟨hidle, hslot⟩ := slot_issue h hi
    have hin := h.busy.issuing hi
    rw [hslot]
    cases answer <;> simp only [slotPart, Option.some.injEq] at hp <;> subst hp <;>
      simp [slot, pollIssue, hidle, hin, outcome, Slot.step]
  | complete status hin =>
    simp only [slotPart, Option.some.injEq] at hp
    subst hp
    obtain ⟨hbefore, hafter⟩ := slot_complete status h hin
    rw [hbefore, hafter]
    rfl
  | busy hsch hidle => simp [slotPart, hsch, hidle] at hp
  | finish _ hf => simp [slotPart, hf] at hp
  | setThreadpoolWait _ hf => simp [slotPart, hf] at hp
  | get _ hf => simp [slotPart, hf] at hp
  | getOverlappedResult hf => simp [slotPart, hf] at hp
  | registerPending hf => simp [slotPart, hf] at hp
  | setPending hf => simp [slotPart, hf] at hp
  | register hf => simp [slotPart, hf] at hp
  | poll | resetEvent | fire | callback | drop | unbusy | closeThreadpoolWait | release =>
    simp [slotPart] at hp

/-- An event, where it is orderly, projects to a slot. -/
def asSlot : Projection (machine.within Orderly) (Slot.machine (Except IoError Unit)) Serial where
  view := slot
  part := slotPart
  init := rfl
  kept_init := serial_init
  kept h hs :=
    have ⟨ho, hs⟩ := Machine.within_step hs
    serial_step h ho hs
  moved h hs hp := slot_moved h (Machine.within_step hs).2 hp
  still h hs hp :=
    have ⟨ho, hs⟩ := Machine.within_step hs
    slot_still h ho hs hp

/-- Results are returned where they are taken. -/
theorem slot_record {a : Action} (h : Serial s) (hs : step s a = some s') :
    s'.returned = (Slot.takes (s.slotPart a).toList).map some ++ s.returned := by
  have hasks := h.told.asks
  cases step_cases hs with
  | schedule hsch hidle =>
    simp only [slotPart, hsch, hidle, if_true]
    rfl
  | busy hsch hidle =>
    simp only [slotPart, hsch, if_neg hidle]
    rfl
  | setIdle reading hset =>
    rw [hset] at hasks
    obtain ⟨result, rfl⟩ := Option.isSome_iff_exists.mp hasks
    simp only [slotPart, hset, Option.map_some]
    rfl
  | issue clears answer =>
    cases answer <;> rfl
  | resetEvent handle err => cases err <;> rfl
  | get handle hg =>
    obtain ⟨owner, heq, _⟩ := s.pollGet_eq handle
    rw [heq]
    simp only [slotPart, hg]
    rfl
  | callback k hcall => exact (callback_keeps hcall).returned
  | finish _ hf =>
    simp only [slotPart, hf]
    rfl
  | setThreadpoolWait _ hf =>
    simp only [slotPart, hf]
    rfl
  | getOverlappedResult hf =>
    simp only [slotPart, hf]
    rfl
  | registerPending hf =>
    simp only [slotPart, hf]
    rfl
  | setPending hf =>
    simp only [slotPart, hf]
    rfl
  | register hf =>
    simp only [slotPart, hf]
    rfl
  | poll | complete | fire | drop | unbusy | closeThreadpoolWait | release => rfl

theorem run_record {t : IoEvent} {as : List Action} (h : Serial s)
    (hrun : (machine.within Orderly).run s as = some t) :
    t.returned.reverse = s.returned.reverse ++ (Slot.takes (asSlot.parts s as)).map some := by
  induction as generalizing s with
  | nil =>
    cases hrun
    exact (List.append_nil _).symm
  | cons a as ih =>
    obtain ⟨s', hs, hrest⟩ := Machine.run_cons _ hrun
    obtain ⟨ho, hs'⟩ := Machine.within_step hs
    have hreturned := slot_record h hs'
    rw [asSlot.parts_cons hs, Slot.takes_append, ih (serial_step h ho hs') hrest, hreturned]
    show _ = s.returned.reverse ++ (Slot.takes (s.slotPart a).toList ++ _).map some
    cases hp : s.slotPart a with
    | none => rfl
    | some b =>
      cases b <;> simp [Slot.takes]

/-- **An event is a slot** in every orderly run: polls return the result of each
operation, in the order they were begun; at most the latest is still to come. -/
theorem event_is_slot {t : IoEvent} {as : List Action}
    (ho : machine.Steps (fun s a _ => s.Orderly a) init as) (hrun : machine.run init as = some t) :
    (Slot.machine (Except IoError Unit)).run .empty (asSlot.parts init as) = some t.slot ∧
    t.returned.reverse = (Slot.takes (asSlot.parts init as)).map some ∧
    Slot.results (asSlot.parts init as) = Slot.takes (asSlot.parts init as) ++ t.slot.pending := by
  have hwithin := Machine.run_within ho hrun
  have hslot := asSlot.run serial_init hwithin
  exact ⟨hslot, run_record serial_init hwithin, (Slot.run_exchanges hslot).1⟩

/-- An operation that is polled, goes pending, completes, and is polled again. -/
def pendingTrace : List Action :=
  [.poll 0 true, .owner, .owner, .issue true .pending, .owner, .owner, .complete 0, .fire,
   .callback 1, .callback 1, .callback 1, .callback 1, .callback 1,
   .poll 0 true, .owner, .resetEvent none, .owner, .owner, .owner, .owner]

theorem event_is_slot_pending :
    asSlot.parts init pendingTrace = [.ask, .accept, .land (.ok ()), .take (.ok ())] ∧
    ∃ t, machine.run init pendingTrace = some t ∧ t.returned.reverse = [some (.ok ())] := by
  have hparts : asSlot.parts init pendingTrace =
      [.ask, .accept, .land (.ok ()), .take (.ok ())] := by decide
  have hrun : machine.run init pendingTrace = some _ := rfl
  have hslot := event_is_slot (by decide) hrun
  rw [hparts] at hslot
  exact ⟨hparts, _, hrun, hslot.2.1⟩

end IoEvent

end Wae.Io
