import Wae.Io.Apart
import Wae.Transition.Observer
import Wae.Transition.Tally

/-! What is announced to the thread pool, and what comes of it.

Each `StartThreadpoolIo` announces one completion: the kernel owes it, or its callback has
been run, or the announcement has to be withdrawn. An operation that the kernel refuses
has no completion, and `poll` returns its error without withdrawing anything. -/
namespace Wae.Io
open Transition Net.Tcp

/-- A completion still to be delivered. -/
def Completion.owed : Completion → Nat
  | .inFlight | .queued _ => 1
  | .absent | .running .. | .done => 0

/-- The kernel owes a completion for a call that it answered so. -/
def owes (posts : Bool) : Answer → Bool
  | .accepted _ => posts
  -- WSA_IO_PENDING
  | .failed err => err == 997

namespace Half

/-- What the code of a half asks of the system. -/
inductive Call where
  | startThreadpoolIo
  | cancelThreadpoolIo
  /-- The half's own: `WSARecv` or `WSASend`. -/
  | schedule
  /-- `CancelIoEx`. -/
  | cancel
  deriving DecidableEq, Repr

/-- The calls that a step makes. -/
def calls : Action → List Call
  | .issue _ => [.startThreadpoolIo, .schedule]
  | .halfCancel _ => [.cancel]
  | .poll _ | .offer _ | .cancel _ | .owner | .complete .. | .callback _ => []

/-- The completions that the kernel still owes. -/
def owed (s : Half) : Nat :=
  tally (fun op => (s.completion op).owed) (List.range (s.latest + 1))

/-- A step delivers a completion: its callback begins. -/
def delivers (s : Half) : Action → Nat
  | .callback op =>
    match s.completion op with
    | .queued _ => 1
    | _ => 0
  | _ => 0

/-- A step is a schedule call that the kernel owes nothing for. -/
def refused (posts : Bool) : Action → Nat
  | .issue answer => if owes posts answer then 0 else 1
  | _ => 0

/-- Operations are numbered as they are scheduled, and have no completion before. -/
structure Numbered (s : Half) : Prop where
  fresh : Fresh s
  unissued : s.owner = .issue → s.completion s.latest = .absent

variable {posts : Bool} {s s' : Half}

theorem numbered_init : Numbered init := ⟨fresh_init, nofun⟩

theorem numbered_step {a : Action} (h : Numbered s) (hs : step posts s a = some s') :
    Numbered s' := by
  refine ⟨fresh_step h.fresh hs, ?_⟩
  cases step_cases hs with
  | schedule => exact fun _ => h.fresh _ (Nat.lt_succ_self _)
  | offer => exact h.unissued
  | complete op packet hc =>
    intro ho
    have habsent := h.unissued ho
    have hop : s.latest ≠ op := by
      rintro rfl
      cases habsent.symm.trans hc
    exact (setCompletion_other s _ hop).trans habsent
  | callback op hcall =>
    rw [(callback_kept hcall).owner, (callback_kept hcall).latest]
    intro ho
    have habsent := h.unissued ho
    obtain ⟨c, hcomp, _⟩ := callback_completion hcall
    have hop : s.latest ≠ op := by
      rintro rfl
      simp [Half.callback, habsent] at hcall
    rw [hcomp, Function.update_of_ne hop]
    exact habsent
  | finish =>
    intro ho
    unfold pollFinish at ho
    split at ho <;> cases ho
  | issue answer =>
    intro ho
    unfold pollIssue at ho
    split at ho <;> cases ho
  | swap wait =>
    intro ho
    unfold cancelSwap cancelWait at ho
    dsimp only at ho
    split at ho
    · cases ho
    · split at ho <;> cases ho
  | halfCancel wait =>
    intro ho
    unfold cancelWait at ho
    split at ho <;> cases ho
  | poll | cancel | get | busy | registerReady | setIdle | setPending | register | cancellable
  | uncancellable | unbusy =>
    intro ho
    cases ho

/-- One completion changes. -/
theorem owed_update {op : Nat} {c : Completion} (hop : op ≤ s.latest)
    (hc : s'.completion = Function.update s.completion op c) (hl : s'.latest = s.latest) :
    s'.owed + (s.completion op).owed = s.owed + c.owed := by
  unfold owed
  rw [hc, hl]
  exact tally_update Completion.owed s.completion (Nat.lt_succ_of_le hop) c

theorem owed_moved {op : Nat} {c : Completion} (hop : op ≤ s.latest)
    (hc : s'.completion = Function.update s.completion op c) (hl : s'.latest = s.latest)
    (hsame : (s.completion op).owed = c.owed) : s'.owed = s.owed := by
  have hupdate := owed_update hop hc hl
  omega

theorem owed_same (hc : s'.completion = s.completion) (hl : s'.latest = s.latest) :
    s'.owed = s.owed := by
  unfold owed
  rw [hc, hl]

theorem owed_schedule (h : Fresh s) (hc : s'.completion = s.completion)
    (hl : s'.latest = s.latest + 1) : s'.owed = s.owed := by
  unfold owed
  rw [hc, hl, List.range_succ, tally_append, tally_cons, h _ (Nat.lt_succ_self _)]
  rfl

/-- An operation answered at once owes its packet or was refused. -/
theorem answered_owed {answer : Answer} {result : Except IoError Nat}
    (h : scheduled answer = .ready result) :
    (answered posts answer).owed + (if owes posts answer then 0 else 1) = 1 := by
  cases answer with
  | accepted packet => cases posts <;> rfl
  | failed err =>
    have herr : err ≠ 997 := by
      rintro rfl
      cases h
    simp [answered, Completion.owed, owes, herr]

theorem pending_owed {answer : Answer} (h : scheduled answer = .pending) :
    owes posts answer = true := by
  cases answer with
  | accepted packet => exact nomatch (scheduled_accepted packet).symm.trans h
  | failed err =>
    by_contra herr
    have hne : err ≠ 997 := by simpa [owes] using herr
    simp [scheduled, hne] at h

/-- What is announced is owed or was refused. -/
theorem issued (posts : Bool) (answer : Answer) (s : Half) :
    ∃ c, (s.pollIssue posts answer).completion = Function.update s.completion s.latest c ∧
      c.owed + (if owes posts answer then 0 else 1) = 1 := by
  unfold pollIssue
  cases hanswer : scheduled answer with
  | ready result => exact ⟨_, rfl, answered_owed hanswer⟩
  | pending =>
    refine ⟨_, rfl, ?_⟩
    rw [if_pos (pending_owed hanswer)]
    rfl

theorem owed_issue (h : Numbered s) (ho : s.owner = .issue) (answer : Answer) :
    (s.pollIssue posts answer).owed + (if owes posts answer then 0 else 1) = s.owed + 1 := by
  have hlatest : (s.completion s.latest).owed = 0 := by
    rw [h.unissued ho]
    rfl
  obtain ⟨c, hcomp, howed⟩ := s.issued posts answer
  obtain ⟨_, _, _, heq⟩ := s.pollIssue_eq posts answer
  have hupdate := owed_update (Nat.le_refl _) hcomp (by rw [heq])
  omega

theorem owed_callback {op : Nat} (h : Numbered s) (hs : s.callback op = some s') :
    s'.owed + s.delivers (.callback op) = s.owed := by
  have hop : op ≤ s.latest := h.fresh.le fun hc => by simp [Half.callback, hc] at hs
  obtain ⟨c, hcomp, hc⟩ := callback_completion hs
  have hupdate := owed_update hop hcomp (callback_kept hs).latest
  have hdelivered : c.owed = 0 := by
    rcases hc with rfl | ⟨_, _, rfl, _⟩ <;> rfl
  have hbefore : s.delivers (.callback op) = (s.completion op).owed := by
    unfold delivers
    cases callback_cases hs with
    | begins p hc | pendingTaken p hc | pendingMissed p hc | nowaitTaken p hc | nowaitMissed p hc
    | waitTaken p hc | waitMissed p hc | set p hc | setReady p hc | wake p hc
    | setReadyOnly p hc =>
      simp only [hc]
      rfl
  omega

/-- **The step lemma**: what a step announces is owed, unless the kernel refused it, until
it is delivered. -/
theorem owed_step {a : Action} (h : Numbered s) (hs : step posts s a = some s') :
    s'.owed + s.delivers a + refused posts a = s.owed + (calls a).count .startThreadpoolIo := by
  cases step_cases hs with
  | issue answer ho => exact owed_issue h ho answer
  | callback op hcall => exact owed_callback h hcall
  | complete op packet hc =>
    have hop : op ≤ s.latest := h.fresh.le (by rw [hc]; nofun)
    refine owed_moved (c := .queued packet) hop rfl rfl ?_
    rw [hc]
    rfl
  | schedule => exact owed_schedule h.fresh rfl rfl
  | swap wait =>
    obtain ⟨_, _, _, _, heq⟩ := s.cancelSwap_eq wait
    rw [heq]
    exact owed_same rfl rfl
  | halfCancel wait err =>
    obtain ⟨_, _, _, _, heq⟩ := s.cancelWait_eq wait err
    rw [heq]
    exact owed_same rfl rfl
  | _ => exact owed_same rfl rfl

end Half

namespace IoHandle

/-- What the code of a handle asks of the system, by a step. -/
def calls : Action → List Half.Call
  | .read action | .write action => Half.calls action
  | .drop | .next | .release => []

def owed (s : IoHandle) : Nat := s.read.owed + s.write.owed

def delivers (s : IoHandle) : Action → Nat
  | .read action => s.read.delivers action
  | .write action => s.write.delivers action
  | .drop | .next | .release => 0

def refused (posts : Bool) : Action → Nat
  | .read action | .write action => Half.refused posts action
  | .drop | .next | .release => 0

/-- What has come to pass between a handle and the thread pool. -/
structure Ledger where
  started : Nat
  delivered : Nat
  withdrawn : Nat
  deriving DecidableEq

def ledger : Observer IoHandle Action Ledger where
  init := ⟨0, 0, 0⟩
  see s a _ l :=
    ⟨l.started + (calls a).count .startThreadpoolIo, l.delivered + s.delivers a,
      l.withdrawn + (calls a).count .cancelThreadpoolIo⟩

/-- What the announcements have come to. -/
def settled (s : IoHandle × Ledger) : Nat := s.2.delivered + s.1.owed + s.2.withdrawn

def Balanced (s : IoHandle × Ledger) : Prop := s.2.started = settled s

/-- The condition on a step: a schedule call is not refused. -/
def Accepted (posts : Bool) (_ : IoHandle) (a : Action) (_ : IoHandle) : Prop :=
  refused posts a = 0

instance (t : IoHandle × Ledger) : Decidable (Balanced t) :=
  inferInstanceAs (Decidable (t.2.started = settled t))

instance (posts : Bool) (s : IoHandle) (a : Action) (s' : IoHandle) :
    Decidable (Accepted posts s a s') := inferInstanceAs (Decidable (refused posts a = 0))

variable {posts : Bool} {s s' : IoHandle}

structure Numbered (s : IoHandle) : Prop where
  left : Left s
  read : s.read.Numbered
  write : s.write.Numbered

theorem numbered_init : Numbered init := ⟨left_init, Half.numbered_init, Half.numbered_init⟩

theorem numbered_step {a : Action} (h : Numbered s) (hs : step posts s a = some s') :
    Numbered s' where
  left := left_step h.left hs
  read := (readHalf posts).keeps h.left h.read (fun _ _ => Half.numbered_step h.read) hs
  write := (writeHalf posts).keeps h.left h.write (fun _ _ => Half.numbered_step h.write) hs

theorem owed_step {a : Action} (h : Numbered s) (hs : step posts s a = some s') :
    s'.owed + s.delivers a + refused posts a = s.owed + (calls a).count .startThreadpoolIo := by
  cases step_cases hs with
  | read action half hhalf =>
    have hread := Half.owed_step h.read hhalf
    simp only [owed, delivers, refused, calls]
    omega
  | write action half hhalf =>
    have hwrite := Half.owed_step h.write hhalf
    simp only [owed, delivers, refused, calls]
    omega
  | _ => rfl

/-- Nothing is ever withdrawn. -/
theorem calls_withdrawn (a : Action) : (calls a).count .cancelThreadpoolIo = 0 := by
  cases a with
  | read action | write action => cases action <;> rfl
  | _ => rfl

/-- What a step announces is settled with it, unless it is refused. -/
theorem settled_step {t t' : IoHandle × Ledger} {a : Action} (h : Numbered t.1)
    (hs : (ledger.watch (machine posts)).step t a = some t') :
    settled t' + t.2.started + refused posts a = settled t + t'.2.started := by
  obtain ⟨hs, hledger⟩ := Observer.watch_step hs
  have howed := owed_step h hs
  have hnone := calls_withdrawn a
  simp only [settled, hledger, ledger]
  omega

/-- No more is settled than was announced. -/
structure Owing (t : IoHandle × Ledger) : Prop where
  numbered : Numbered t.1
  settled : settled t ≤ t.2.started

theorem owing_init : Owing (init, ledger.init) := ⟨numbered_init, by decide⟩

theorem owing_step {t t' : IoHandle × Ledger} {a : Action} (h : Owing t)
    (hs : (ledger.watch (machine posts)).step t a = some t') : Owing t' := by
  have hsettled := settled_step h.numbered hs
  have hle := h.settled
  exact ⟨numbered_step h.numbered (Observer.watch_step hs).1, by omega⟩

/-- **The announcements of a handle balance** exactly as long as the kernel refuses no
operation. -/
theorem announcements_balance (posts : Bool) (as : List Action) (t : IoHandle × Ledger)
    (hrun : (ledger.watch (machine posts)).run (init, ledger.init) as = some t) :
    Balanced t ↔ (machine posts).Steps (Accepted posts) init as := by
  have howing := Machine.run_keeps (fun _ _ _ => owing_step) owing_init hrun
  have hmeasure := Machine.run_measure (f := fun t => t.2.started - settled t)
    (P := fun t a t' => Accepted posts t.1 a t'.1) (fun t a t' h hs => ?_) owing_init hrun
  · have hzero : ledger.init.started - settled (init, ledger.init) = 0 := by decide
    have hle := howing.settled
    rw [Observer.steps_watch] at hmeasure
    rw [← hmeasure.2, hzero]
    unfold Balanced
    omega
  · have hsettled := settled_step h.numbered hs
    have h' := owing_step h hs
    have hle := h.settled
    have hle' := h'.settled
    refine ⟨h', by omega, ?_⟩
    unfold Accepted
    omega

/-- A read that the kernel takes up, one that is complete at once, and their callbacks. -/
def acceptedReads : List Action :=
  [.read (.poll 0), .read .owner, .read .owner, .read (.issue (.failed 997)), .read .owner,
   .write (.poll 1), .write .owner, .write .owner, .write (.issue (.accepted ⟨0, 5⟩)),
   .write .owner, .write .owner, .read (.complete 1 ⟨0, 7⟩), .read (.callback 1)]

theorem announcements_balance_accepted : ∃ t,
    (ledger.watch (machine true)).run (init, ledger.init) acceptedReads = some t ∧ Balanced t := by
  have hrun : ((ledger.watch (machine true)).run (init, ledger.init) acceptedReads).isSome = true := by
    decide
  obtain ⟨t, ht⟩ := Option.isSome_iff_exists.mp hrun
  exact ⟨t, ht, (announcements_balance true acceptedReads t ht).mpr (by decide)⟩

/-- A read that the kernel refuses: the poll has returned its error, and the announcement
stands. -/
theorem refused_read_unbalanced : ¬ ∀ as t,
    (ledger.watch (machine true)).run (init, ledger.init) as = some t →
    t.1.read.owner.polling = false → t.1.write.owner.polling = false → Balanced t := by
  intro h
  have hrun := h [.read (.poll 0), .read .owner, .read .owner, .read (.issue (.failed 10054)),
    .read .owner, .read .owner] _ rfl rfl rfl
  exact absurd hrun (by decide)

end IoHandle

end Wae.Io
