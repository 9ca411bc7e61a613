import Wae.Io.Coherent
import Wae.Transition.Observer

/-! What `IoResult` asks of its users: that a `get` comes after a `set`, and that neither
is made while another is going on.

Nothing but the word keeps the accesses apart. A callback that has taken it is alone in
the cell until it stores `READY`, and a poll reads only where it has found `READY`. The
branch that takes `CANCELLED_WAIT` stores `READY` too, without having written anything. -/
namespace Wae.Io
open Transition Net.Tcp

/-- What the owner knows of the word, whichever callbacks are about. -/
def Owner.Knows : Owner → IoState → Prop
  | .get, word => word = .ready
  | .setIdle _, word => word = .ready ∨ word = .scheduling
  | .issue, word | .registerReady _, word | .setPending, word => word = .scheduling
  | _, _ => True

/-- The words under which a callback may hold the cell. -/
def IoState.Held (word : IoState) : Prop :=
  word = .callback ∨ word = .cancelledNowait ∨ word = .cancelledWait

theorem IoState.Held.not_idle {word : IoState} (h : word.Held) : word ≠ .idle := by
  rintro rfl
  exact h.elim nofun fun h => h.elim nofun nofun

theorem IoState.Held.not_ready {word : IoState} (h : word.Held) : word ≠ .ready := by
  rintro rfl
  exact h.elim nofun fun h => h.elim nofun nofun

theorem IoState.Held.not_scheduling {word : IoState} (h : word.Held) : word ≠ .scheduling := by
  rintro rfl
  exact h.elim nofun fun h => h.elim nofun nofun

theorem Owner.Knows.free {owner : Owner} {word : IoState} (h : owner.Knows word)
    (hready : word ≠ .ready) (hsched : word ≠ .scheduling) (word' : IoState) :
    owner.Knows word' := by
  cases owner with
  | get => exact absurd h hready
  | setIdle reading => exact (h.elim hready hsched).elim
  | issue | registerReady reading | setPending => exact absurd h hsched
  | _ => trivial

/-- The callback has been through `set`. -/
def Completion.Written : Completion → Prop
  | .running _ .setReady | .running _ .wake | .done => True
  | _ => False

instance : DecidablePred Completion.Inside := fun c =>
  match c with
  | .running _ .set | .running _ .setReady | .running _ .setReadyOnly => isTrue trivial
  | .absent | .inFlight | .queued _ | .done | .running _ .callbackPending
  | .running _ .callbackCancelledNowait | .running _ .callbackCancelledWait
  | .running _ .wake => isFalse id

namespace Half

/-- What has been done to the result cell since the word last left `IDLE`. -/
structure Cell where
  written : Bool
  /-- The latest `READY` was stored by the branch that took `CANCELLED_WAIT`. -/
  kept : Bool
  deriving DecidableEq

namespace Cell

def left (cell : Cell) (word word' : IoState) : Cell :=
  if word = .idle ∧ word' ≠ .idle then ⟨false, false⟩ else cell

/-- What the callback does to the cell from where it stands. -/
def called (cell : Cell) : Completion → Cell
  | .running _ .set => {cell with written := true}
  | .running _ .setReady => {cell with kept := false}
  | .running _ .setReadyOnly => {cell with kept := true}
  | _ => cell

theorem left_of_ne {cell : Cell} {word word' : IoState} (h : word ≠ .idle) :
    cell.left word word' = cell := if_neg fun hw => h hw.1

@[simp] theorem left_self (cell : Cell) (word : IoState) : cell.left word word = cell :=
  if_neg fun hw => hw.2 hw.1

end Cell

def results : Observer Half Action Cell where
  init := ⟨false, false⟩
  see s a s' cell :=
    match a with
    | .callback op => (cell.left s.state s'.state).called (s.completion op)
    | _ => cell.left s.state s'.state

/-- The callback on `op` is about to write the cell. -/
def Sets (s : Half) (op : Nat) : Prop := ∃ p, s.completion op = .running p .set

/-- At most one access to the cell is going on. -/
def Exclusive (s : Half) : Prop :=
  ∀ op, s.Sets op → s.owner ≠ .get ∧ ∀ k, s.Sets k → k = op

/-- What the safety comments of `IoResult` ask for. -/
structure Contract (s : Half × Cell) (a : Action) (s' : Half × Cell) : Prop where
  get : a = .owner → s.1.owner = .get → s.2.written = true
  exclusive : s'.1.Exclusive

/-- The condition on a step: the `READY` under which a poll is about to read was not stored
by the branch that took `CANCELLED_WAIT`. -/
def ReadsSet (s : Half × Cell) (a : Action) (_ : Half × Cell) : Prop :=
  a = .owner → s.1.owner = .get → s.2.kept = false

/-- The condition on a step where synchronously accepted operations post packets: no
callback takes the word while another, having taken it, has yet to store `READY`. -/
def TakesAlone (s : Half) (a : Action) (_ : Half) : Prop :=
  ∀ op, a = .callback op → s.takes op = true → ∀ k, ¬ (s.completion k).Inside

variable {posts : Bool} {s s' : Half} {cell : Cell}

/-! ### Who is in the cell -/

/-- A callback in the cell is there alone and under a word that keeps the owner out. -/
structure Guarded (s : Half) (cell : Cell) : Prop where
  alone : ∀ j k, (s.completion j).Inside → (s.completion k).Inside → j = k
  held : ∀ k, (s.completion k).Inside → s.state.Held
  written : ∀ k p, s.completion k = .running p .setReady → cell.written = true
  ready : s.state = .ready → cell.written = true ∨ cell.kept = true
  owner : s.owner.Knows s.state

theorem guarded_init : Guarded init results.init where
  alone := fun _ _ h => h.elim
  held := fun _ h => h.elim
  written := nofun
  ready := nofun
  owner := trivial

/-- A step by which no callback comes into the cell. -/
theorem Guarded.move (h : Guarded s cell)
    (hc : ∀ k, (s'.completion k).Inside → s'.completion k = s.completion k)
    (hword : s'.state = s.state ∨ s'.state ≠ .ready ∧ (s'.state.Held ∨ ¬ s.state.Held))
    (howner : s'.owner.Knows s'.state) : Guarded s' (cell.left s.state s'.state) := by
  have hin : ∀ k, (s'.completion k).Inside → (s.completion k).Inside := fun k hk => hc k hk ▸ hk
  refine ⟨fun j k hj hk => h.alone j k (hin j hj) (hin k hk), fun k hk => ?_, fun k p hk => ?_,
    fun hr => ?_, howner⟩
  · have hheld := h.held k (hin k hk)
    rcases hword with hw | ⟨_, hw | hw⟩
    · rw [hw]
      exact hheld
    · exact hw
    · exact absurd hheld hw
  · have hk' : (s'.completion k).Inside := by
      rw [hk]
      trivial
    rw [Cell.left_of_ne (h.held k (hin k hk')).not_idle]
    exact h.written k p ((hc k hk').symm.trans hk)
  · rcases hword with hw | ⟨hne, _⟩
    · rw [hw, Cell.left_self]
      exact h.ready (hw ▸ hr)
    · exact absurd hr hne

/-- A step of the owner's that leaves the word alone. -/
theorem Guarded.proceed (h : Guarded s cell) (hc : s'.completion = s.completion)
    (hword : s'.state = s.state) (howner : s'.owner.Knows s.state) :
    Guarded s' (cell.left s.state s'.state) := by
  apply h.move (fun k _ => congrFun hc k) (.inl hword)
  rw [hword]
  exact howner

/-! ### The callbacks' steps -/

theorem inside_setCompletion {op k : Nat} {c : Completion} (hc : ¬ c.Inside)
    (hk : ((s.setCompletion op c).completion k).Inside) : k ≠ op := by
  rintro rfl
  rw [setCompletion_same] at hk
  exact hc hk

/-- A callback that has not got into the cell, or has left it. -/
theorem Guarded.outside {op : Nat} {c : Completion} (h : Guarded s cell) (hc : ¬ c.Inside)
    (hcomp : s'.completion = (s.setCompletion op c).completion) (hword : s'.state = s.state)
    (howner : s'.owner = s.owner) : Guarded s' cell := by
  have hmoved : Guarded s' (cell.left s.state s'.state) := by
    refine h.move (fun k hk => ?_) (.inl hword) ?_
    · rw [hcomp] at hk ⊢
      exact setCompletion_other s c (inside_setCompletion hc hk)
    · rw [howner, hword]
      exact h.owner
  rwa [hword, Cell.left_self] at hmoved

theorem Guarded.takes {op : Nat} {c : Completion} (h : Guarded s cell)
    (halone : ∀ k, ¬ (s.completion k).Inside) (hset : ∀ p, c ≠ .running p .setReady)
    (hready : s.state ≠ .ready) (hsched : s.state ≠ .scheduling) :
    Guarded {s.setCompletion op c with state := .callback} cell := by
  have hin : ∀ k, ((s.setCompletion op c).completion k).Inside → k = op := fun k hk => by
    by_contra hne
    rw [setCompletion_other s c hne] at hk
    exact halone k hk
  refine ⟨fun j k hj hk => (hin j hj).trans (hin k hk).symm, fun _ _ => .inl rfl, fun k p hk => ?_,
    nofun, h.owner.free hready hsched _⟩
  have hk : (s.setCompletion op c).completion k = .running p .setReady := hk
  obtain rfl := hin k (by
    rw [hk]
    trivial)
  rw [setCompletion_same] at hk
  exact absurd hk (hset p)

theorem Guarded.sets {op : Nat} {p : Packet} (h : Guarded s cell)
    (hc : s.completion op = .running p .set) (result : Option (Nat × IoResult)) :
    Guarded {s.setCompletion op (.running p .setReady) with result}
      {cell with written := true} := by
  have hin : ∀ k, ((s.setCompletion op (.running p .setReady)).completion k).Inside →
      (s.completion k).Inside := fun k hk => by
    by_cases hop : k = op
    · rw [hop, hc]
      trivial
    · rwa [setCompletion_other s _ hop] at hk
  exact ⟨fun j k hj hk => h.alone j k (hin j hj) (hin k hk), fun k hk => h.held k (hin k hk),
    fun _ _ _ => rfl, fun _ => .inl rfl, h.owner⟩

/-- A callback stores `READY` and leaves the cell to the owner. -/
theorem Guarded.stores {op : Nat} {c : Completion} (h : Guarded s cell)
    (hin : (s.completion op).Inside) (hc : ¬ c.Inside) {cell' : Cell}
    (hcell : cell'.written = true ∨ cell'.kept = true) :
    Guarded {s.setCompletion op c with state := .ready} cell' := by
  have hnone : ∀ k, ¬ ((s.setCompletion op c).completion k).Inside := fun k hk => by
    have hop := inside_setCompletion hc hk
    rw [setCompletion_other s c hop] at hk
    exact hop (h.alone k op hk hin)
  have hheld := h.held op hin
  refine ⟨fun j _ hj => absurd hj (hnone j), fun k hk => absurd hk (hnone k), fun k p hk => ?_,
    fun _ => hcell, h.owner.free hheld.not_ready hheld.not_scheduling _⟩
  refine absurd ?_ (hnone k)
  rw [show (s.setCompletion op c).completion k = _ from hk]
  trivial

/-- What a callback does to the record is told by where it stands: it does not move the
word from `IDLE`. -/
theorem Guarded.see_callback {op : Nat} (h : Guarded s cell) (hs : s.callback op = some s') :
    results.see s (.callback op) s' cell = cell.called (s.completion op) := by
  suffices hleft : cell.left s.state s'.state = cell by
    show (cell.left s.state s'.state).called _ = _
    rw [hleft]
  cases callback_cases hs with
  | begins | pendingMissed | nowaitMissed | waitMissed | set | wake => exact cell.left_self s.state
  | pendingTaken p hc hw | nowaitTaken p hc hw | waitTaken p hc hw =>
    apply Cell.left_of_ne
    rw [hw]
    nofun
  | setReady p hc | setReadyOnly p hc =>
    apply Cell.left_of_ne
    apply (h.held op _).not_idle
    rw [hc]
    trivial

theorem guarded_callback {op : Nat} (h : Guarded s cell) (ht : TakesAlone s (.callback op) s')
    (hs : s.callback op = some s') : Guarded s' (results.see s (.callback op) s' cell) := by
  have htakes := ht op rfl
  unfold takes at htakes
  rw [h.see_callback hs]
  cases callback_cases hs with
  | begins p hc | pendingMissed p hc | nowaitMissed p hc | waitMissed p hc | wake p hc =>
    rw [hc]
    exact h.outside id rfl rfl rfl
  | pendingTaken p hc hw | nowaitTaken p hc hw | waitTaken p hc hw =>
    rw [hc, hw] at htakes
    rw [hc]
    exact h.takes (htakes rfl) nofun (by rw [hw]; nofun) (by rw [hw]; nofun)
  | set p hc =>
    rw [hc]
    exact h.sets hc _
  | setReady p hc =>
    have hin : (s.completion op).Inside := by
      rw [hc]
      trivial
    rw [hc]
    exact h.stores hin id (.inl (h.written op p hc))
  | setReadyOnly p hc =>
    have hin : (s.completion op).Inside := by
      rw [hc]
      trivial
    rw [hc]
    exact h.stores hin id (.inr rfl)

/-! ### Every step -/

theorem answered_not_inside (posts : Bool) (answer : Answer) :
    ¬ (answered posts answer).Inside := by
  cases answer with
  | accepted packet => cases posts <;> exact id
  | failed err => exact id

theorem Guarded.issue (h : Guarded s cell) (ho : s.owner = .issue) (answer : Answer) :
    Guarded (s.pollIssue posts answer) (cell.left s.state (s.pollIssue posts answer).state) := by
  have hword := h.owner
  rw [ho] at hword
  unfold pollIssue
  cases scheduled answer with
  | ready result =>
    refine h.move (fun k hk => ?_) (.inl rfl) hword
    exact setCompletion_other s _ (inside_setCompletion (answered_not_inside posts answer) hk)
  | pending =>
    refine h.move (fun k hk => ?_) (.inl rfl) hword
    exact setCompletion_other s _ (inside_setCompletion (c := .inFlight) id hk)

theorem Guarded.cancelWait (h : Guarded s cell) (wait : Bool) (ret : Option Int32) :
    Guarded (s.cancelWait wait ret) (cell.left s.state (s.cancelWait wait ret).state) := by
  unfold Half.cancelWait
  split
  · exact h.proceed rfl rfl trivial
  · exact h.proceed rfl rfl trivial

theorem Guarded.swap (h : Guarded s cell) (wait : Bool) :
    Guarded (s.cancelSwap wait) (cell.left s.state (s.cancelSwap wait).state) := by
  have hheld : (s.state.cancel wait).2.Held := by
    cases wait
    · exact .inr (.inl rfl)
    · exact .inr (.inr rfl)
  have hswapped (owner cancelled future waiting) (ho : owner.Knows (s.state.cancel wait).2) :
      Guarded {s with state := (s.state.cancel wait).2, owner, cancelled, future, waiting}
        (cell.left s.state (s.state.cancel wait).2) :=
    h.move (fun _ _ => rfl) (.inr ⟨hheld.not_ready, .inl hheld⟩) ho
  unfold Half.cancelSwap Half.cancelWait
  dsimp only
  split
  · exact hswapped _ _ _ _ trivial
  · split
    · exact hswapped _ _ _ _ trivial
    · exact hswapped _ _ _ _ trivial

/-- **The step lemma**: while callbacks take the word only when alone, whoever is in the
cell is guarded. -/
theorem guarded_step {a : Action} (h : Guarded s cell) (ht : TakesAlone s a s')
    (hs : step posts s a = some s') : Guarded s' (results.see s a s' cell) := by
  have howner := h.owner
  cases step_cases hs with
  | callback op hcall => exact guarded_callback h ht hcall
  | poll | cancel | busy | register | cancellable | uncancellable | unbusy =>
    exact h.proceed rfl rfl trivial
  | offer => exact h.proceed rfl rfl howner
  | finish =>
    refine h.proceed rfl rfl ?_
    show Owner.Knows (if s.state.finish then .get else .schedule) s.state
    split
    · rename_i hr
      exact s.state.finish_iff.mp hr
    · trivial
  | get ho =>
    rw [ho] at howner
    exact h.proceed rfl rfl (.inl howner)
  | schedule _ hidle =>
    refine h.move (fun _ _ => rfl) (.inr ⟨nofun, .inr fun hheld => ?_⟩) rfl
    exact hheld.not_idle hidle
  | issue answer ho => exact h.issue ho answer
  | registerReady reading ho =>
    rw [ho] at howner
    exact h.proceed rfl rfl (.inr howner)
  | setIdle reading ho =>
    rw [ho] at howner
    refine h.move (fun _ _ => rfl) (.inr ⟨nofun, .inr fun hheld => ?_⟩) trivial
    exact howner.elim hheld.not_ready hheld.not_scheduling
  | setPending ho =>
    rw [ho] at howner
    refine h.move (fun _ _ => rfl) (.inr ⟨nofun, .inr fun hheld => ?_⟩) trivial
    exact hheld.not_scheduling howner
  | swap wait ho => exact h.swap wait
  | halfCancel wait err => exact h.cancelWait wait err
  | complete op packet =>
    refine h.move (fun k hk => ?_) (.inl rfl) howner
    exact setCompletion_other s _ (inside_setCompletion (c := .queued packet) id hk)

/-- Whoever is guarded is alone in the cell. -/
theorem Guarded.exclusive (h : Guarded s cell) : s.Exclusive := by
  rintro op ⟨p, hp⟩
  have hin : (s.completion op).Inside := by
    rw [hp]
    trivial
  refine ⟨fun ho => ?_, fun k ⟨q, hq⟩ => ?_⟩
  · have howner := h.owner
    rw [ho] at howner
    exact (h.held op hin).not_ready howner
  · refine h.alone k op ?_ hin
    rw [hq]
    trivial

/-! ### Where only operations that went pending post packets -/

/-- The record of the operation the word is about: its callback writes the cell once or
not at all. -/
structure Recorded (s : Half) (cell : Cell) : Prop where
  written : s.state ≠ .idle → cell.written = true → (s.completion s.latest).Written
  kept : s.state ≠ .idle → cell.kept = true →
    cell.written = false ∧ s.completion s.latest = .done

theorem recorded_init : Recorded init results.init := ⟨nofun, nofun⟩

/-- Before its callback has been through `set`, nothing is recorded. -/
theorem Recorded.blank (h : Recorded s cell) (hw : s.state ≠ .idle)
    (hc : ¬ (s.completion s.latest).Written) : cell = ⟨false, false⟩ := by
  obtain ⟨written, kept⟩ := cell
  cases written with
  | true => exact absurd (h.written hw rfl) hc
  | false =>
    cases kept with
    | true =>
      rw [(h.kept hw rfl).2] at hc
      exact absurd trivial hc
    | false => rfl

theorem recorded_blank (s : Half) : Recorded s ⟨false, false⟩ := ⟨nofun, nofun⟩

/-- A step that leaves alone the completion of an operation whose callback has been
through `set`. -/
theorem Recorded.move (h : Recorded s cell) (hc : s.state ≠ .idle →
      s'.completion s'.latest = s.completion s.latest ∨ ¬ (s.completion s.latest).Written) :
    Recorded s' (cell.left s.state s'.state) := by
  by_cases hidle : s.state = .idle
  · by_cases hidle' : s'.state = .idle
    · exact ⟨fun hne => absurd hidle' hne, fun hne => absurd hidle' hne⟩
    · rw [show cell.left s.state s'.state = ⟨false, false⟩ from if_pos ⟨hidle, hidle'⟩]
      exact recorded_blank s'
  · rw [Cell.left_of_ne hidle]
    rcases hc hidle with hc | hc
    · refine ⟨fun _ hw => ?_, fun _ hk => ?_⟩
      · rw [hc]
        exact h.written hidle hw
      · rw [hc]
        exact h.kept hidle hk
    · rw [h.blank hidle hc]
      exact recorded_blank s'

theorem called_rest {c : Completion} (h : c.Rest posts) (cell : Cell) :
    cell.called c = cell := by
  cases c with
  | running packet pc => cases pc <;> first | rfl | exact h.elim
  | _ => rfl

/-- A callback that has not been through `set` changes nothing by an exchange. -/
theorem Recorded.unwritten (h : Recorded s cell) (hc : ¬ (s.completion s.latest).Written)
    (hword : s'.state = s.state ∨ s.state ≠ .idle) : Recorded s' cell := by
  by_cases hidle : s.state = .idle
  · have hidle' : s'.state = .idle := (hword.resolve_right fun hne => hne hidle).trans hidle
    exact ⟨fun hne => absurd hidle' hne, fun hne => absurd hidle' hne⟩
  · rw [h.blank hidle hc]
    exact recorded_blank s'

/-- The callback of the operation the word is about moves on. -/
theorem recorded_latest (hg : Guarded s cell) (h : Recorded s cell)
    (hs : s.callback s.latest = some s') :
    Recorded s' (cell.called (s.completion s.latest)) := by
  cases callback_cases hs with
  | begins p hc | pendingMissed p hc | nowaitMissed p hc | waitMissed p hc =>
    rw [hc]
    refine h.unwritten ?_ (.inl rfl)
    rw [hc]
    exact id
  | pendingTaken p hc hw | nowaitTaken p hc hw | waitTaken p hc hw =>
    rw [hc]
    refine h.unwritten ?_ (.inr ?_)
    · rw [hc]
      exact id
    · rw [hw]
      nofun
  | set p hc =>
    have hin : (s.completion s.latest).Inside := by
      rw [hc]
      trivial
    have hblank := h.blank (hg.held _ hin).not_idle (by
      rw [hc]
      exact id)
    rw [hc, hblank]
    refine ⟨fun _ _ => ?_, nofun⟩
    show ((s.setCompletion s.latest _).completion s.latest).Written
    rw [setCompletion_same]
    trivial
  | setReady p hc =>
    rw [hc]
    refine ⟨fun _ _ => ?_, nofun⟩
    show ((s.setCompletion s.latest _).completion s.latest).Written
    rw [setCompletion_same]
    trivial
  | wake p hc =>
    rw [hc]
    refine ⟨fun _ _ => ?_, fun hne hk => ?_⟩
    · show ((s.setCompletion s.latest _).completion s.latest).Written
      rw [setCompletion_same]
      trivial
    · exact nomatch hc.symm.trans (h.kept hne hk).2
  | setReadyOnly p hc =>
    have hin : (s.completion s.latest).Inside := by
      rw [hc]
      trivial
    have hblank := h.blank (hg.held _ hin).not_idle (by
      rw [hc]
      exact id)
    rw [hc, hblank]
    refine ⟨nofun, fun _ _ => ⟨rfl, ?_⟩⟩
    show (s.setCompletion s.latest _).completion s.latest = .done
    exact setCompletion_same ..

theorem recorded_callback {op : Nat} (hc : Coherent false s) (hg : Guarded s cell)
    (h : Recorded s cell) (hs : s.callback op = some s') :
    Recorded s' (results.see s (.callback op) s' cell) := by
  rw [hg.see_callback hs]
  by_cases hop : op = s.latest
  · subst hop
    exact recorded_latest hg h hs
  · have hrest := hc.older op hop
    have ht := not_takes (hc.not_intrudes _) hop
    obtain ⟨hword, _⟩ := callback_other hc hop ht hs
    obtain ⟨c, hcomp, _⟩ := callback_completion hs
    have hmoved : Recorded s' (cell.left s.state s'.state) := by
      refine h.move fun _ => .inl ?_
      rw [(callback_kept hs).latest, hcomp, Function.update_of_ne (Ne.symm hop)]
    rwa [hword, Cell.left_self, ← called_rest hrest cell] at hmoved

theorem recorded_step {a : Action} (hc : Coherent false s) (hg : Guarded s cell)
    (h : Recorded s cell) (hs : step false s a = some s') :
    Recorded s' (results.see s a s' cell) := by
  have howner := hc.owner
  cases step_cases hs with
  | callback op hcall => exact recorded_callback hc hg h hcall
  | schedule _ hidle => exact h.move fun hne => absurd hidle hne
  | issue answer ho =>
    rw [ho] at howner
    refine h.move fun _ => .inr ?_
    rw [howner.2]
    exact id
  | complete op packet hcomp =>
    obtain rfl := hc.inFlight_latest hcomp
    refine h.move fun _ => .inr ?_
    rw [hcomp]
    exact id
  | swap wait =>
    obtain ⟨_, _, _, _, heq⟩ := s.cancelSwap_eq wait
    refine h.move fun _ => .inl ?_
    rw [heq]
  | halfCancel wait err =>
    obtain ⟨_, _, _, _, heq⟩ := s.cancelWait_eq wait err
    refine h.move fun _ => .inl ?_
    rw [heq]
  | _ => exact h.move fun _ => .inl rfl

/-! ### Runs -/

/-- Where nothing intrudes, whoever takes the word is alone. -/
theorem Coherent.takesAlone {a : Action} (h : Coherent posts s) (ha : ¬ s.Intrudes a) :
    TakesAlone s a s' := by
  rintro op rfl ht k hk
  have hop : op = s.latest := by
    by_contra hne
    exact ha ⟨hne, ht⟩
  have hlatest : k = s.latest := by
    by_contra hne
    have hrest := h.older k hne
    cases hc : s.completion k with
    | running p pc =>
      rw [hc] at hk hrest
      cases pc <;> first | exact hk.elim | exact hrest.elim
    | _ =>
      rw [hc] at hk
      exact hk
  subst hop hlatest
  unfold takes at ht
  split at ht <;> rename_i hc <;> first | rw [hc] at hk; exact hk | exact nomatch ht

/-- What a guarded poll is about to read has been written, or comes from the branch that
took `CANCELLED_WAIT`. -/
theorem Guarded.reads (h : Guarded s cell) (ho : s.owner = .get) (hk : cell.kept = false) :
    cell.written = true := by
  have howner := h.owner
  rw [ho] at howner
  refine (h.ready howner).resolve_right fun hkept => ?_
  rw [hk] at hkept
  exact Bool.false_ne_true hkept

theorem Recorded.unkept (h : Recorded s cell) (hg : Guarded s cell) (ho : s.owner = .get)
    (hw : cell.written = true) : cell.kept = false := by
  have howner := hg.owner
  rw [ho] at howner
  by_contra hkept
  have hunwritten := (h.kept (by rw [howner]; nofun) (by simpa using hkept)).1
  rw [hw] at hunwritten
  exact Bool.false_ne_true hunwritten.symm

/-- **The contract of the result cell** is kept exactly when no poll reads under a `READY`
that the branch for `CANCELLED_WAIT` has stored; where synchronously accepted operations
post packets too, as long as no callback takes the word from one still in the cell. -/
theorem results_kept (as : List Action) :
    ((results.watch (machine false)).Steps Contract (init, results.init) as ↔
      (results.watch (machine false)).Steps ReadsSet (init, results.init) as) ∧
    ((results.watch (machine true)).Steps
        (fun t a t' => TakesAlone t.1 a t'.1 ∧ ReadsSet t a t') (init, results.init) as →
      (results.watch (machine true)).Steps Contract (init, results.init) as) := by
  refine ⟨⟨?_, ?_⟩, ?_⟩
  · refine Machine.Steps.of_invariant (I := fun t => Coherent false t.1 ∧ Guarded t.1 t.2 ∧
      Recorded t.1 t.2) ?_ ⟨coherent_init, guarded_init, recorded_init⟩
    intro t a t' ⟨hc, hg, hr⟩ hcontract hs
    obtain ⟨hs, hcell⟩ := Observer.watch_step hs
    have hg' := guarded_step hg (hc.takesAlone (hc.not_intrudes a)) hs
    have hr' := recorded_step hc hg hr hs
    rw [← hcell] at hg' hr'
    refine ⟨⟨coherent_step hc (hc.not_intrudes a) hs, hg', hr'⟩, fun ha ho => ?_⟩
    exact hr.unkept hg ho (hcontract.get ha ho)
  · refine Machine.Steps.of_invariant (I := fun t => Coherent false t.1 ∧ Guarded t.1 t.2) ?_
      ⟨coherent_init, guarded_init⟩
    intro t a t' ⟨hc, hg⟩ hreads hs
    obtain ⟨hs, hcell⟩ := Observer.watch_step hs
    have hg' := guarded_step hg (hc.takesAlone (hc.not_intrudes a)) hs
    rw [← hcell] at hg'
    exact ⟨⟨coherent_step hc (hc.not_intrudes a) hs, hg'⟩,
      fun ha ho => hg.reads ho (hreads ha ho), hg'.exclusive⟩
  · refine Machine.Steps.of_invariant (I := fun t => Guarded t.1 t.2) ?_ guarded_init
    intro t a t' hg ⟨ht, hreads⟩ hs
    obtain ⟨hs, hcell⟩ := Observer.watch_step hs
    have hg' := guarded_step hg ht hs
    rw [← hcell] at hg'
    exact ⟨hg', fun ha ho => hg.reads ho (hreads ha ho), hg'.exclusive⟩

instance (s : Half × Cell) (a : Action) (s' : Half × Cell) : Decidable (ReadsSet s a s') :=
  inferInstanceAs (Decidable (a = .owner → s.1.owner = .get → s.2.kept = false))

/-- An operation goes pending, completes and is read. -/
def readTrace : List Action :=
  [.poll 0, .owner, .owner, .issue (.failed 997), .owner, .complete 1 ⟨0, 7⟩,
   .callback 1, .callback 1, .callback 1, .callback 1, .callback 1,
   .poll 0, .owner, .owner, .owner]

theorem results_kept_taken :
    (results.watch (machine false)).Steps Contract (init, results.init) readTrace ∧
    (results.watch (machine true)).Steps Contract (init, results.init) readTrace := by
  refine ⟨(results_kept _).1.mpr (by decide), (results_kept _).2 (.and ?_ (by decide))⟩
  have hown : (machine true).Steps (fun s a _ => ¬ s.Intrudes a) init readTrace := by decide
  refine Observer.steps_watch.mpr (.of_invariant (I := Coherent true) ?_ coherent_init hown)
  exact fun s a s' hc ha hs => ⟨coherent_step hc ha hs, hc.takesAlone ha⟩

/-- A future with an operation in flight is dropped; the next one is polled. -/
theorem dropped_read_unset : ¬ ∀ as : List Action,
    (results.watch (machine false)).Steps Contract (init, results.init) as := by
  intro h
  have hget := (h [.poll 0, .owner, .owner, .issue (.failed 997), .owner,
    .cancel true, .owner, .owner, .halfCancel none, .complete 1 ⟨995, 0⟩,
    .callback 1, .callback 1, .callback 1, .callback 1, .callback 1, .owner,
    .poll 0, .owner, .owner]).mono
    (Q := fun t a _ => a = .owner → t.1.owner = .get → t.2.written = true)
    fun _ _ _ _ hc => hc.get
  exact absurd hget (by decide)

end Half

end Wae.Io
