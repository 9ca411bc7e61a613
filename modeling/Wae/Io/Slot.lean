import Wae.Io.Attribution
import Wae.Transition.Projection
import Wae.Transition.Slot

/-! A half is a slot.

Seven words, two cells, the owner's place and any number of callbacks part way through:
seen from the caller of `poll` and from the kernel, all of it is one operation at a time,
whose outcome is taken once before the next is scheduled. It is so in every run in which
no callback takes the word for an operation that is not the latest, and no waiting cancel
takes it (`Orderly`). -/
namespace Wae.Io
open Transition Net.Tcp

namespace Half

/-- No callback on an earlier operation's packet takes the word, and no waiting cancel
does. -/
def Orderly (s : Half) (a : Action) : Prop := ¬ s.Intrudes a ∧ ¬ s.WaitTakes a

instance (s : Half) (a : Action) : Decidable (s.WaitTakes a) :=
  inferInstanceAs (Decidable (a = .owner ∧ s.owner = .isCancellable true ∧ s.state = .pending))

instance (s : Half) (a : Action) : Decidable (s.Orderly a) :=
  inferInstanceAs (Decidable (¬ s.Intrudes a ∧ ¬ s.WaitTakes a))

/-- The slot: `IDLE` is empty, and else it is the latest operation's. -/
def slot (s : Half) : Slot (Except IoError Nat) :=
  if s.state = .idle then .empty
  else if s.completion s.latest = .inFlight then .flying
  else if s.owner = .issue then .asked
  else (s.outcome s.latest).elim .asked .landed

/-- The step of the slot that a step of the half is. -/
def slotPart (s : Half) : Action → Option (Slot.Action (Except IoError Nat))
  | .owner =>
    match s.owner with
    | .schedule => if s.state = .idle then some .ask else none
    | .setIdle reading => reading.map fun (_, result) => .take result
    | _ => none
  | .issue answer =>
    match scheduled answer with
    | .ready result => some (.answer result)
    | .pending => some .accept
  | .complete _ packet => some (.land packet.outcome)
  | .poll _ | .offer _ | .cancel _ | .halfCancel _ | .callback _ => none

variable {posts : Bool} {s s' : Half}

/-- What the slot is read from. -/
theorem slot_congr (hidle : s'.state = .idle ↔ s.state = .idle)
    (hflying : s'.completion s'.latest = .inFlight ↔ s.completion s.latest = .inFlight)
    (hissue : s'.owner = .issue ↔ s.owner = .issue)
    (houtcome : s'.outcome s'.latest = s.outcome s.latest) : s'.slot = s.slot := by
  simp only [slot, hidle, hflying, hissue, houtcome]

/-- The owner moves on outside the kernel call, and the word neither comes to `IDLE` nor
leaves it. -/
theorem slot_move (hc : s'.completion = s.completion) (hl : s'.latest = s.latest)
    (ho : s'.outcome = s.outcome) (hidle : s'.state = .idle ↔ s.state = .idle)
    (hissue : s'.owner = .issue ↔ s.owner = .issue) : s'.slot = s.slot := by
  refine slot_congr hidle ?_ hissue ?_
  · rw [hc, hl]
  · rw [ho, hl]

theorem Coherent.not_inFlight_idle (h : Coherent posts s)
    (hc : s.completion s.latest = .inFlight) : s.state ≠ .idle := by
  have hword := h.word
  intro hidle
  rw [hidle, hc] at hword
  exact hword

/-- The slot of a half that holds a reading is the reading's. -/
theorem slot_setIdle {op : Nat} {result : Except IoError Nat} (hc : Coherent posts s)
    (hf : Faithful s) (ho : s.owner = .setIdle (some (op, result))) :
    op = s.latest ∧ s.slot = .landed result := by
  have howner := hc.owner
  have hword := hc.word
  rw [ho] at howner
  obtain ⟨val, houtcome, hr⟩ := hf.held _ (.inl ho)
  cases hr
  have hidle : s.state ≠ .idle := by
    rcases howner with hw | ⟨hw, _⟩ <;> rw [hw] <;> nofun
  have hflying : s.completion s.latest ≠ .inFlight := by
    intro hi
    rw [hi] at hword howner
    rcases howner with hw | ⟨_, hrest⟩
    · rw [hw] at hword
      exact hword
    · exact hrest
  have hissue : s.owner ≠ .issue := by
    rw [ho]
    nofun
  simp only [slot, if_neg hidle, if_neg hflying, if_neg hissue, houtcome, Option.elim, and_self]

theorem slot_issue (hc : Coherent posts s) (ho : s.owner = .issue) :
    s.state ≠ .idle ∧ s.slot = .asked := by
  have howner := hc.owner
  rw [ho] at howner
  obtain ⟨hw, habsent⟩ := howner
  have hidle : s.state ≠ .idle := by
    rw [hw]
    nofun
  have hflying : s.completion s.latest ≠ .inFlight := by
    rw [habsent]
    nofun
  refine ⟨hidle, ?_⟩
  simp only [slot, if_neg hidle, if_neg hflying, if_pos ho]

theorem answered_not_inFlight (posts : Bool) (answer : Answer) :
    answered posts answer ≠ .inFlight := by
  unfold answered
  split
  · split <;> nofun
  · nofun

/-- `StartThreadpoolIo` and the half's `schedule`: an answer, or the operation is on its
way. -/
theorem slot_pollIssue (hc : Coherent posts s) (ho : s.owner = .issue) (answer : Answer) :
    (s.pollIssue posts answer).slot =
      match scheduled answer with
      | .ready result => .landed result
      | .pending => .flying := by
  obtain ⟨hidle, _⟩ := slot_issue hc ho
  unfold pollIssue
  cases scheduled answer with
  | ready result =>
    have hflying := answered_not_inFlight posts answer
    simp [slot, hidle, hflying]
  | pending => simp [slot, hidle]

theorem slot_complete {op : Nat} (packet : Packet) (hc : Coherent posts s)
    (hcomp : s.completion op = .inFlight) :
    s.slot = .flying ∧ Half.slot {s.setCompletion op (.queued packet) with
      outcome := Function.update s.outcome op (some packet.outcome)} =
        .landed packet.outcome := by
  obtain rfl := hc.inFlight_latest hcomp
  have hidle := hc.not_inFlight_idle hcomp
  have howner := hc.owner
  have hissue : s.owner ≠ .issue := by
    intro ho
    rw [ho, hcomp] at howner
    exact nomatch howner.2
  constructor
  · simp only [slot, if_neg hidle, if_pos hcomp]
  · simp [slot, setCompletion, hidle, hissue]

/-- The callbacks are nothing to the slot. -/
theorem slot_callback {op : Nat} (hc : Coherent posts s) (ha : ¬ s.Intrudes (.callback op))
    (hs : s.callback op = some s') : s'.slot = s.slot := by
  have hk := callback_kept hs
  obtain ⟨c, hcomp, hmoved⟩ := callback_completion hs
  have hissue : s'.owner = .issue ↔ s.owner = .issue := by rw [hk.owner]
  have houtcome : s'.outcome s'.latest = s.outcome s.latest := by rw [hk.outcome, hk.latest]
  by_cases hop : op = s.latest
  case neg =>
    obtain ⟨hstate, _⟩ := callback_other hc hop (not_takes ha hop) hs
    refine slot_congr (by rw [hstate]) ?_ hissue houtcome
    rw [hk.latest, hcomp, Function.update_of_ne (Ne.symm hop)]
  subst hop
  have hbefore : s.completion s.latest ≠ .inFlight := by
    intro hi
    simp only [callback, hi] at hs
    cases hs
  have hafter : s'.completion s'.latest ≠ .inFlight := by
    rw [hk.latest, hcomp, Function.update_self]
    rcases hmoved with rfl | ⟨p, pc, rfl, _⟩ <;> nofun
  refine slot_congr ⟨fun hidle => ?_, fun hidle => callback_idle hc hidle hs⟩
    (iff_of_false hafter hbefore) hissue houtcome
  -- no store of a callback is `IDLE`
  cases callback_cases hs with
  | begins | pendingMissed | nowaitMissed | waitMissed | set | wake => exact hidle
  | pendingTaken | nowaitTaken | waitTaken | setReady | setReadyOnly => cases hidle

/-- What holds of a half in every orderly run. -/
structure Serial (posts : Bool) (s : Half) : Prop where
  coherent : Coherent posts s
  faithful : Faithful s

theorem serial_step {a : Action} (h : Serial posts s) (hq : s.Orderly a)
    (hs : step posts s a = some s') : Serial posts s' :=
  ⟨coherent_step h.coherent hq.1 hs, faithful_step h.coherent h.faithful hq.1 hq.2 hs⟩

/-- A step that is none of the slot's leaves it as it is. -/
theorem slot_still {a : Action} (h : Serial posts s) (hq : s.Orderly a)
    (hs : step posts s a = some s') (hp : s.slotPart a = none) : s'.slot = s.slot := by
  have hc := h.coherent
  have howner := hc.owner
  have hne : ∀ {owner : Owner}, s.owner = owner → owner ≠ .issue → s.owner ≠ .issue :=
    fun ho hne hi => hne (ho.symm.trans hi)
  cases step_cases hs with
  | poll waker ho | cancel wait ho =>
    exact slot_move rfl rfl rfl Iff.rfl (iff_of_false nofun (hne ho nofun))
  | offer => exact slot_move rfl rfl rfl Iff.rfl Iff.rfl
  | finish ho =>
    refine slot_move rfl rfl rfl Iff.rfl (iff_of_false ?_ (hne ho nofun))
    unfold pollFinish
    split <;> nofun
  | get ho | busy ho | registerReady _ ho | register ho =>
    exact slot_move rfl rfl rfl Iff.rfl (iff_of_false nofun (hne ho nofun))
  | schedule ho hidle => simp [slotPart, ho, hidle] at hp
  | issue answer ho =>
    simp only [slotPart] at hp
    split at hp <;> cases hp
  | setIdle reading ho =>
    obtain ⟨val, _, rfl⟩ := h.faithful.held reading (.inl ho)
    simp [slotPart, ho] at hp
  | setPending ho =>
    rw [ho] at howner
    refine slot_move rfl rfl rfl (iff_of_false nofun ?_) (iff_of_false nofun (hne ho nofun))
    rw [howner.1]
    nofun
  | cancellable wait ho | uncancellable wait ho | unbusy ret ho =>
    exact slot_move rfl rfl rfl Iff.rfl (iff_of_false nofun (hne ho nofun))
  | swap wait ho =>
    have hidle := hc.not_idle ho
    obtain ⟨owner, _, _, _, heq⟩ := s.cancelSwap_eq wait
    have hissue : (s.cancelSwap wait).owner ≠ .issue := by
      unfold cancelSwap cancelWait cancelReturn
      dsimp only
      split
      · nofun
      · split <;> nofun
    have hword : (s.state.cancel wait).2 ≠ .idle := by
      cases wait <;> nofun
    refine slot_move ?_ ?_ ?_ (iff_of_false ?_ hidle) (iff_of_false hissue (hne ho nofun)) <;>
      rw [heq]
    exact hword
  | halfCancel wait err ho =>
    obtain ⟨owner, _, _, _, heq⟩ := s.cancelWait_eq wait err
    have hissue : (s.cancelWait wait err).owner ≠ .issue := by
      unfold cancelWait cancelReturn
      split <;> nofun
    refine slot_move ?_ ?_ ?_ ?_ (iff_of_false hissue (hne ho nofun)) <;> rw [heq]
  | complete => simp [slotPart] at hp
  | callback op hcall => exact slot_callback hc hq.1 hcall

/-- A step that is the slot's takes it along. -/
theorem slot_moved {a : Action} {b : Slot.Action (Except IoError Nat)} (h : Serial posts s)
    (hs : step posts s a = some s') (hp : s.slotPart a = some b) :
    Slot.step s.slot b = some s'.slot := by
  have hc := h.coherent
  cases step_cases hs with
  | schedule ho hidle =>
    simp only [slotPart, ho, hidle, if_true, Option.some.injEq] at hp
    subst hp
    have habsent : s.completion (s.latest + 1) = .absent := hc.fresh _ (Nat.lt_succ_self _)
    simp [slot, hidle, habsent, Slot.step]
  | setIdle reading ho =>
    obtain ⟨val, _, hr⟩ := h.faithful.held reading (.inl ho)
    subst hr
    simp only [slotPart, ho, Option.map_some, Option.some.injEq] at hp
    subst hp
    rw [(slot_setIdle hc h.faithful ho).2]
    simp [Slot.step, slot, pollSetIdle, IoState.setIdle]
  | issue answer ho =>
    have hafter := slot_pollIssue hc ho answer
    rw [(slot_issue hc ho).2, hafter]
    simp only [slotPart] at hp
    split at hp <;> cases hp <;> rfl
  | complete op packet hcomp =>
    cases hp
    obtain ⟨hbefore, hafter⟩ := slot_complete packet hc hcomp
    rw [hbefore]
    exact congrArg some hafter.symm
  | busy ho hidle => simp [slotPart, ho, hidle] at hp
  | finish ho | get ho | registerReady _ ho | setPending ho | register ho | cancellable _ ho
  | uncancellable _ ho | swap _ ho | unbusy _ ho => simp [slotPart, ho] at hp
  | poll | offer | cancel | halfCancel | callback => simp [slotPart] at hp

/-- A half, where it is orderly, projects to a slot. -/
def asSlot (posts : Bool) :
    Projection ((machine posts).within Orderly) (Slot.machine (Except IoError Nat)) (Serial posts) where
  view := slot
  part := slotPart
  init := rfl
  kept_init := ⟨coherent_init, faithful_init⟩
  kept h hs :=
    have ⟨hq, hs⟩ := Machine.within_step hs
    serial_step h hq hs
  moved h hs hp := slot_moved h (Machine.within_step hs).2 hp
  still h hs hp :=
    have ⟨hq, hs⟩ := Machine.within_step hs
    slot_still h hq hs hp

/-! ### What polls return -/

/-- Operations are counted where they are asked for, and results are returned where they
are taken. -/
theorem slot_record {a : Action} (h : Serial posts s) (hs : step posts s a = some s') :
    s'.latest = s.latest + Slot.asks (s.slotPart a).toList ∧
    s'.returned = (Slot.takes (s.slotPart a).toList).map (fun r => some (s.latest, r)) ++
      s.returned := by
  cases step_cases hs with
  | schedule ho hidle =>
    simp only [slotPart, ho, hidle, if_true]
    exact ⟨rfl, rfl⟩
  | setIdle reading ho =>
    obtain ⟨val, _, rfl⟩ := h.faithful.held reading (.inl ho)
    simp only [slotPart, ho, Option.map_some]
    exact ⟨rfl, rfl⟩
  | issue answer =>
    obtain ⟨_, _, _, heq⟩ := s.pollIssue_eq posts answer
    rw [heq]
    simp only [slotPart]
    split <;> exact ⟨rfl, rfl⟩
  | swap wait ho =>
    obtain ⟨_, _, _, _, heq⟩ := s.cancelSwap_eq wait
    rw [heq]
    simp only [slotPart, ho]
    exact ⟨rfl, rfl⟩
  | halfCancel wait err =>
    obtain ⟨_, _, _, _, heq⟩ := s.cancelWait_eq wait err
    rw [heq]
    exact ⟨rfl, rfl⟩
  | callback op hcall =>
    have hk := callback_kept hcall
    exact ⟨hk.latest, hk.returned⟩
  | busy ho hidle =>
    simp only [slotPart, ho, if_neg hidle]
    exact ⟨rfl, rfl⟩
  | finish ho | get ho | registerReady _ ho | setPending ho | register ho | cancellable _ ho
  | uncancellable _ ho | unbusy _ ho =>
    simp only [slotPart, ho]
    exact ⟨rfl, rfl⟩
  | poll | offer | cancel | complete => exact ⟨rfl, rfl⟩

/-- Each operation has been returned, but for the one in the slot. -/
def Returned (s : Half) : Prop := s.returned.length + s.slot.occupied = s.latest

theorem returned_step {a : Action} (h : Serial posts s) (hr : Returned s) (hq : s.Orderly a)
    (hs : step posts s a = some s') : Returned s' := by
  obtain ⟨hlatest, hreturned⟩ := slot_record h hs
  unfold Returned at hr ⊢
  rw [hlatest, hreturned, List.length_append, List.length_map]
  cases hp : s.slotPart a with
  | none =>
    rw [slot_still h hq hs hp]
    simpa [Slot.asks, Slot.takes] using hr
  | some b =>
    have hrun : (Slot.machine (Except IoError Nat)).run s.slot [b] = some s'.slot := by
      show (Slot.step s.slot b).bind _ = _
      rw [slot_moved h hs hp]
      rfl
    have hoccupied := Slot.run_occupied hrun
    show (Slot.takes [b]).length + s.returned.length + s'.slot.occupied = s.latest + Slot.asks [b]
    omega

/-- Results, numbered from `n` on as the readings of the operations they are of. -/
def readings (n : Nat) (results : List (Except IoError Nat)) : List Reading :=
  (results.zipIdx n).map fun (result, op) => some (op, result)

theorem run_record {t : Half} {as : List Action} (h : Serial posts s) (hr : Returned s)
    (hrun : ((machine posts).within Orderly).run s as = some t) :
    t.latest = s.latest + Slot.asks ((asSlot posts).parts s as) ∧
    t.returned.reverse = s.returned.reverse ++
      readings (s.returned.length + 1) (Slot.takes ((asSlot posts).parts s as)) := by
  induction as generalizing s with
  | nil =>
    cases hrun
    exact ⟨rfl, (List.append_nil _).symm⟩
  | cons a as ih =>
    obtain ⟨s', hs, hrest⟩ := Machine.run_cons _ hrun
    obtain ⟨hq, hs'⟩ := Machine.within_step hs
    obtain ⟨hlatest, hreturned⟩ := slot_record h hs'
    have hr' := returned_step h hr hq hs'
    obtain ⟨hl, hrev⟩ := ih (serial_step h hq hs') hr' hrest
    rw [(asSlot posts).parts_cons hs, Slot.asks_append, Slot.takes_append]
    refine ⟨by rw [hl, hlatest, Nat.add_assoc]; rfl, ?_⟩
    rw [hrev, hreturned]
    show _ = s.returned.reverse ++ readings _ (Slot.takes (s.slotPart a).toList ++ _)
    cases hp : s.slotPart a with
    | none => rfl
    | some b =>
      cases b with
      | ask | answer | accept | land => rfl
      | take result =>
        have hslot := Slot.step_take (slot_moved h hs' hp)
        have hn : s.latest = s.returned.length + 1 := by
          unfold Returned at hr
          rw [← hr, hslot]
          rfl
        simp [Slot.takes, readings, hn]

/-- **A half is a slot** in every orderly run: what the caller, the kernel and the
callbacks do is one operation at a time. So polls return the results of all operations
in the order they were scheduled, the `n`-th reading being the `n`-th operation's; at
most the latest is still to come. -/
theorem half_is_slot {t : Half} {as : List Action}
    (ho : (machine posts).Steps (fun s a _ => s.Orderly a) init as)
    (hrun : (machine posts).run init as = some t) :
    (Slot.machine (Except IoError Nat)).run .empty ((asSlot posts).parts init as) = some t.slot ∧
    Slot.asks ((asSlot posts).parts init as) = t.latest ∧
    t.returned.reverse = readings 1 (Slot.takes ((asSlot posts).parts init as)) ∧
    Slot.results ((asSlot posts).parts init as) =
      Slot.takes ((asSlot posts).parts init as) ++ t.slot.pending := by
  have hwithin := Machine.run_within ho hrun
  have hslot := (asSlot posts).run ⟨coherent_init, faithful_init⟩ hwithin
  obtain ⟨hlatest, hreturned⟩ := run_record ⟨coherent_init, faithful_init⟩ rfl hwithin
  exact ⟨hslot, by rw [hlatest]; exact (Nat.zero_add _).symm, hreturned,
    (Slot.run_exchanges hslot).1⟩

/-- An operation that goes pending and completes, and one that is answered at once. -/
def servedTrace : List Action :=
  [.poll 0, .owner, .owner, .issue (.failed 997), .owner, .complete 1 ⟨0, 7⟩, .callback 1,
   .callback 1, .callback 1, .callback 1, .poll 0, .owner, .owner, .owner,
   .poll 0, .owner, .owner, .issue (.failed 10054), .owner, .owner]

theorem half_is_slot_served :
    (asSlot true).parts init servedTrace = [.ask, .accept, .land (.ok 7), .take (.ok 7),
      .ask, .answer (.error (.rawOsError 10054)), .take (.error (.rawOsError 10054))] ∧
    ∃ t, (machine true).run init servedTrace = some t ∧
      t.returned.reverse = [some (1, .ok 7), some (2, .error (.rawOsError 10054))] := by
  have hparts : (asSlot true).parts init servedTrace = [.ask, .accept, .land (.ok 7),
      .take (.ok 7), .ask, .answer (.error (.rawOsError 10054)),
      .take (.error (.rawOsError 10054))] := by decide
  have hrun : (machine true).run init servedTrace = some _ := rfl
  have hslot := half_is_slot (by decide) hrun
  rw [hparts] at hslot
  exact ⟨hparts, _, hrun, hslot.2.2.1⟩

end Half

end Wae.Io
