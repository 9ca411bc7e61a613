import Wae.Io.Coherent

/-! Whose outcome a poll returns.

While no earlier operation's callback takes the word and no waiting cancel does,
the result cell holds the outcome of the latest operation whenever the word is
`READY` (`Faithful`), so a poll that returns `Ready` returns that outcome, and
returns it once. -/
namespace Wae.Io
open Transition Net.Tcp

/-- Inside a waiting cancel, past its test of the word. -/
def Owner.waits : Owner → Bool
  | .cancel wait | .halfCancel wait => wait
  | .isBusy _ => true
  | _ => false

namespace Half

/-- What `get` would read now. -/
def reading (s : Half) : Reading := s.result.map fun (op, val) => (op, val.get)

/-- This is the outcome of the latest operation. -/
def Delivers (s : Half) (r : Reading) : Prop :=
  ∃ val, s.outcome s.latest = some val ∧ r = some (s.latest, val)

/-- A waiting cancel finds the word `PENDING` and goes on to take it. -/
def WaitTakes (s : Half) (a : Action) : Prop :=
  a = .owner ∧ s.owner = .isCancellable true ∧ s.state = .pending

structure Faithful (s : Half) : Prop where
  packet : ∀ op p, (s.completion op).Carries p → s.outcome op = some p.outcome
  written : ∀ p, s.completion s.latest = .running p .setReady → s.Delivers s.reading
  ready : s.state = .ready → s.Delivers s.reading
  held : ∀ r, s.owner = .setIdle r ∨ s.owner = .registerReady r → s.Delivers r
  unwaited : s.owner.waits = false ∧ s.state ≠ .cancelledWait
  kept : ∀ p, s.completion s.latest ≠ .running p .setReadyOnly

variable {posts : Bool} {s s' : Half}

theorem faithful_init : Faithful init where
  packet := fun _ _ h => h.elim nofun (fun ⟨_, h⟩ => nomatch h)
  written := nofun
  ready := nofun
  held := fun _ h => h.elim nofun nofun
  unwaited := ⟨rfl, nofun⟩
  kept := nofun

/-- A step that leaves the cells, the outcomes and the completions alone: the word
must not become `READY` or `CANCELLED_WAIT`, and a reading taken up must deliver. -/
theorem Faithful.move (h : Faithful s) (hr : s'.result = s.result) (hl : s'.latest = s.latest)
    (hc : s'.completion = s.completion) (ho : s'.outcome = s.outcome)
    (hstate : s'.state = s.state ∨ s'.state ≠ .ready ∧ s'.state ≠ .cancelledWait)
    (hheld : ∀ r, s'.owner = .setIdle r ∨ s'.owner = .registerReady r → s.Delivers r)
    (hwaits : s'.owner.waits = false) : Faithful s' := by
  have hdel : ∀ r, s.Delivers r → s'.Delivers r := fun r hd => by
    unfold Delivers
    rw [hl, ho]
    exact hd
  have hreading : s'.reading = s.reading := by
    unfold reading
    rw [hr]
  refine ⟨fun op p => ?_, fun p hp => ?_, fun hs => ?_, fun r hr' => hdel r (hheld r hr'),
    ⟨hwaits, ?_⟩, fun p => ?_⟩
  · rw [hc, ho]
    exact h.packet op p
  · rw [hc, hl] at hp
    rw [hreading]
    exact hdel _ (h.written p hp)
  · rw [hreading]
    rcases hstate with he | ⟨hne, _⟩
    · exact hdel _ (h.ready (he ▸ hs))
    · exact absurd hs hne
  · rcases hstate with he | ⟨_, hne⟩
    · rw [he]
      exact h.unwaited.2
    · exact hne
  · rw [hc, hl]
    exact h.kept p

/-- A step that only moves the owner, to where it holds no reading. -/
theorem Faithful.proceed (h : Faithful s) {owner : Owner} (hwaits : owner.waits = false)
    (hheld : ∀ r, owner ≠ .setIdle r ∧ owner ≠ .registerReady r) :
    Faithful {s with owner := owner} :=
  h.move rfl rfl rfl rfl (.inl rfl)
    (fun r hr => hr.elim (fun hr => absurd hr (hheld r).1) (fun hr => absurd hr (hheld r).2)) hwaits

theorem faithful_schedule (hc : Coherent posts s) (h : Faithful s) : Faithful
    {s with
      state := .scheduling
      owner := .issue
      latest := s.latest + 1
      operation := Function.update s.operation (s.latest + 1) ⟨s.future, s.buffer⟩} := by
  have habsent : s.completion (s.latest + 1) = .absent := hc.fresh _ (Nat.lt_succ_self _)
  refine ⟨h.packet, fun p hp => ?_, nofun, fun r hr => hr.elim nofun nofun, ⟨rfl, nofun⟩,
    fun p hp => ?_⟩
  · exact nomatch habsent.symm.trans hp
  · exact nomatch habsent.symm.trans hp

theorem faithful_cancelReturn (h : Faithful s) (wait : Bool) (ret : Option Int32) :
    Faithful (s.cancelReturn wait ret) :=
  h.move rfl rfl rfl rfl (.inl rfl) (fun _ hr => hr.elim nofun nofun) rfl

theorem faithful_swap (h : Faithful s) : Faithful (s.cancelSwap false) := by
  rcases cancelSwap_nowait s with hs | hs <;> rw [hs]
  · exact h.move rfl rfl rfl rfl (.inr ⟨nofun, nofun⟩) (fun _ hr => hr.elim nofun nofun) rfl
  · exact h.move rfl rfl rfl rfl (.inr ⟨nofun, nofun⟩) (fun _ hr => hr.elim nofun nofun) rfl

/-- The latest operation comes to a completion whose callback has not begun. -/
theorem Faithful.unstarted (h : Faithful s) {c : Completion} (hc : c.Unstarted)
    (hcomp : s'.completion = Function.update s.completion s.latest c) (hl : s'.latest = s.latest)
    (hstate : s'.state = s.state) (hready : s.state ≠ .ready)
    (hother : ∀ op, op ≠ s.latest → s'.outcome op = s.outcome op)
    (hcarries : ∀ p, c.Carries p → s'.outcome s.latest = some p.outcome)
    (hheld : ∀ r, s'.owner = .setIdle r ∨ s'.owner = .registerReady r → s'.Delivers r)
    (hwaits : s'.owner.waits = false) : Faithful s' := by
  have hself : s'.completion s'.latest = c := by rw [hcomp, hl, Function.update_self]
  have hrunning : ∀ p pc, c ≠ .running p pc := by
    rintro p pc rfl
    exact hc
  refine ⟨fun op p hp => ?_, fun p hp => ?_, fun hs => ?_, hheld, ⟨hwaits, ?_⟩, fun p hp => ?_⟩
  · by_cases hop : op = s.latest
    · subst hop
      rw [hcomp, Function.update_self] at hp
      exact hcarries p hp
    · rw [hcomp, Function.update_of_ne hop] at hp
      rw [hother op hop]
      exact h.packet op p hp
  · exact (hrunning _ _ (hself.symm.trans hp)).elim
  · exact absurd (hstate.symm.trans hs) hready
  · rw [hstate]
    exact h.unwaited.2
  · exact (hrunning _ _ (hself.symm.trans hp)).elim

/-- A packet posted for a call answered at once is what the call returned. -/
theorem answered_carries {answer : Answer} {p : Packet} (h : (answered posts answer).Carries p) :
    scheduled answer = .ready p.outcome := by
  cases answer with
  | accepted packet =>
    cases posts with
    | true => rw [scheduled_accepted, Completion.carries_queued h]
    | false => exact h.elim nofun fun ⟨_, hp⟩ => nomatch hp
  | failed err => exact h.elim nofun fun ⟨_, hp⟩ => nomatch hp

theorem faithful_issue (hc : Coherent posts s) (h : Faithful s) (ho : s.owner = .issue)
    (answer : Answer) : Faithful (s.pollIssue posts answer) := by
  have howner := hc.owner
  rw [ho] at howner
  have hstate : s.state ≠ .ready := by
    rw [howner.1]
    nofun
  unfold pollIssue
  cases hr : scheduled answer with
  | ready result =>
    refine h.unstarted (answered_unstarted posts answer) rfl rfl rfl hstate
      (fun op hop => Function.update_of_ne hop ..) (fun p hp => ?_) (fun r hr' => ?_) rfl
    · obtain rfl := Poll.ready.inj (hr.symm.trans (answered_carries hp))
      exact Function.update_self ..
    · obtain rfl := hr'.elim nofun Owner.registerReady.inj
      exact ⟨result, Function.update_self .., rfl⟩
  | pending =>
    exact h.unstarted (c := .inFlight) trivial rfl rfl rfl hstate (fun _ _ => rfl)
      (fun p hp => hp.elim nofun fun ⟨_, hp⟩ => nomatch hp) (fun r hr' => hr'.elim nofun nofun) rfl

theorem faithful_complete {op : Nat} (packet : Packet) (hc : Coherent posts s) (h : Faithful s)
    (hcomp : s.completion op = .inFlight) : Faithful
      {s.setCompletion op (.queued packet) with
        outcome := Function.update s.outcome op (some packet.outcome)} := by
  obtain rfl := hc.inFlight_latest hcomp
  have hword := hc.word
  have howner := hc.owner
  rw [hcomp] at hword howner
  have hready : s.state ≠ .ready := fun hr => by
    rw [hr] at hword
    exact hword
  refine h.unstarted (c := .queued packet) trivial rfl rfl rfl hready
    (fun k hk => Function.update_of_ne hk ..) (fun p hp => ?_) (fun r hr => ?_) h.unwaited.1
  · rw [← Completion.carries_queued hp]
    exact Function.update_self ..
  · -- nothing is on its way to the caller while an operation is in flight
    exfalso
    rcases hr with hr | hr <;> rw [show s.owner = _ from hr] at howner
    · exact howner.elim hready fun hf => hf.2
    · exact howner.2

/-- Every callback's packet is its operation's outcome, whatever the callback does. -/
theorem callback_packet {op : Nat} (h : Faithful s) (hs : s.callback op = some s') (k : Nat)
    (p : Packet) (hp : (s'.completion k).Carries p) : s'.outcome k = some p.outcome := by
  obtain ⟨c, hcomp, hc⟩ := callback_completion hs
  rw [(callback_kept hs).outcome]
  rw [hcomp] at hp
  by_cases hk : k = op
  · subst hk
    rw [Function.update_self] at hp
    rcases hc with rfl | ⟨q, pc, rfl, hq⟩
    · exact hp.elim nofun fun ⟨_, hp⟩ => nomatch hp
    · rw [← Completion.carries_running hp]
      exact h.packet k q hq
  · rw [Function.update_of_ne hk] at hp
    exact h.packet k p hp

theorem Faithful.callback {op : Nat} (h : Faithful s) (hs : s.callback op = some s')
    (hwritten : ∀ p, s'.completion s.latest = .running p .setReady → s.Delivers s'.reading)
    (hready : s'.state = .ready → s.Delivers s'.reading) (hstate : s'.state ≠ .cancelledWait)
    (hkept : ∀ p, s'.completion s.latest ≠ .running p .setReadyOnly) : Faithful s' := by
  have hk := callback_kept hs
  have hdel : ∀ r, s.Delivers r → s'.Delivers r := fun r hd => by
    unfold Delivers
    rw [hk.latest, hk.outcome]
    exact hd
  refine ⟨callback_packet h hs, fun p hp => hdel _ (hwritten p ?_), fun hr => hdel _ (hready hr),
    fun r hr => hdel _ (h.held r ?_), ⟨?_, hstate⟩, fun p => ?_⟩
  · rw [← hk.latest]
    exact hp
  · rw [← hk.owner]
    exact hr
  · rw [hk.owner]
    exact h.unwaited.1
  · rw [hk.latest]
    exact hkept p

theorem faithful_callback {op : Nat} (hc : Coherent posts s) (h : Faithful s)
    (ha : ¬ s.Intrudes (.callback op)) (hs : s.callback op = some s') : Faithful s' := by
  by_cases hop : op = s.latest
  case neg =>
    have ht := not_takes ha hop
    obtain ⟨hstate, hresult⟩ := callback_other hc hop ht hs
    have hreading : s'.reading = s.reading := by
      unfold reading
      rw [hresult]
    have hlatest : s'.completion s.latest = s.completion s.latest := by
      obtain ⟨c, hcomp, _⟩ := callback_completion hs
      rw [hcomp, Function.update_of_ne (Ne.symm hop)]
    refine h.callback hs (fun p hp => ?_) (fun hr => ?_) ?_ fun p => ?_
    · rw [hreading]
      exact h.written p (hlatest ▸ hp)
    · rw [hreading]
      exact h.ready (hstate ▸ hr)
    · rw [hstate]
      exact h.unwaited.2
    · rw [hlatest]
      exact h.kept p
  subst hop
  -- where the completion of the latest operation stands after a step
  have hself : ∀ c, (s.setCompletion s.latest c).completion s.latest = c :=
    setCompletion_same s s.latest
  have hcall := hs
  cases callback_cases hs with
  | begins | pendingMissed | nowaitMissed | waitMissed | wake =>
    exact h.callback hcall (fun p hp => nomatch (hself _).symm.trans hp) h.ready h.unwaited.2
      (fun p hp => nomatch (hself _).symm.trans hp)
  | pendingTaken | nowaitTaken =>
    exact h.callback hcall (fun p hp => nomatch (hself _).symm.trans hp) nofun nofun
      (fun p hp => nomatch (hself _).symm.trans hp)
  | waitTaken _ _ hw => exact absurd hw h.unwaited.2
  | set packet hcomp =>
    have hdel : s.Delivers (some (s.latest, packet.outcome)) :=
      ⟨_, h.packet s.latest packet (.inr ⟨_, hcomp⟩), rfl⟩
    exact h.callback hcall (fun _ _ => hdel) (fun _ => hdel) h.unwaited.2
      (fun p hp => nomatch (hself _).symm.trans hp)
  | setReady packet hcomp =>
    exact h.callback hcall (fun p hp => nomatch (hself _).symm.trans hp)
      (fun _ => h.written packet hcomp) nofun (fun p hp => nomatch (hself _).symm.trans hp)
  | setReadyOnly packet hcomp => exact absurd hcomp (h.kept packet)

/-- **The step lemma**: no intruding callback, and no waiting cancel that takes the
word. -/
theorem faithful_step {a : Action} (hc : Coherent posts s) (h : Faithful s) (ha : ¬ s.Intrudes a)
    (hw : ¬ s.WaitTakes a) (hs : step posts s a = some s') : Faithful s' := by
  have howner := hc.owner
  have hwaits := h.unwaited.1
  cases step_cases hs with
  | poll | cancel => exact h.move rfl rfl rfl rfl (.inl rfl) (fun _ hr => hr.elim nofun nofun) rfl
  | offer => exact h.move rfl rfl rfl rfl (.inl rfl) h.held hwaits
  | finish =>
    unfold pollFinish
    split
    · exact h.proceed rfl fun _ => ⟨nofun, nofun⟩
    · exact h.proceed rfl fun _ => ⟨nofun, nofun⟩
  | get ho =>
    rw [ho] at howner
    refine h.move rfl rfl rfl rfl (.inl rfl) (fun r hr => ?_) rfl
    obtain rfl := hr.elim Owner.setIdle.inj nofun
    exact h.ready howner
  | schedule => exact faithful_schedule hc h
  | busy => exact h.proceed rfl fun _ => ⟨nofun, nofun⟩
  | issue answer ho => exact faithful_issue hc h ho answer
  | registerReady reading ho =>
    refine h.move rfl rfl rfl rfl (.inl rfl) (fun r hr => ?_) rfl
    obtain rfl := hr.elim Owner.setIdle.inj nofun
    exact h.held _ (.inr ho)
  | setIdle | setPending =>
    exact h.move rfl rfl rfl rfl (.inr ⟨nofun, nofun⟩) (fun _ hr => hr.elim nofun nofun) rfl
  | register => exact h.move rfl rfl rfl rfl (.inl rfl) (fun _ hr => hr.elim nofun nofun) rfl
  | cancellable wait ho hp =>
    cases wait with
    | true => exact absurd ⟨rfl, ho, hp⟩ hw
    | false => exact h.proceed rfl fun _ => ⟨nofun, nofun⟩
  | uncancellable wait => exact faithful_cancelReturn h wait none
  | swap wait ho =>
    rw [ho] at hwaits
    obtain rfl : wait = false := hwaits
    exact faithful_swap h
  | halfCancel wait err ho =>
    rw [ho] at hwaits
    obtain rfl : wait = false := hwaits
    exact faithful_cancelReturn h false err
  | unbusy ret => exact faithful_cancelReturn h true ret
  | complete op packet hcomp => exact faithful_complete packet hc h hcomp
  | callback op hcall => exact faithful_callback hc h ha hcall

/-! ### Once each -/

/-- The operations whose outcomes polls have returned, newest first. -/
def returnedOps (s : Half) : List Nat := s.returned.filterMap fun r => r.map Prod.fst

/-- An outcome that was returned is past: the next one is a later operation's. -/
structure Once (s : Half) : Prop where
  nodup : s.returnedOps.Nodup
  past : ∀ op ∈ s.returnedOps, op ≤ s.latest
  spent : s.latest ∈ s.returnedOps → s.state = .idle

theorem once_init : Once init := ⟨List.nodup_nil, nofun, nofun⟩

theorem Once.move (h : Once s) (hr : s'.returned = s.returned) (hl : s'.latest = s.latest)
    (hstate : s.state = .idle → s'.state = .idle) : Once s' := by
  have hops : s'.returnedOps = s.returnedOps := by
    unfold returnedOps
    rw [hr]
  refine ⟨hops ▸ h.nodup, fun op hop => ?_, fun hop => ?_⟩
  · rw [hl]
    exact h.past op (hops ▸ hop)
  · rw [hl, hops] at hop
    exact hstate (h.spent hop)

/-- No callback leaves `IDLE`. -/
theorem callback_idle {op : Nat} (hc : Coherent posts s) (hidle : s.state = .idle)
    (hs : s.callback op = some s') : s'.state = .idle := by
  have hrest : (s.completion op).Rest posts := by
    by_cases hop : op = s.latest
    · have hword := hc.word
      rw [hidle] at hword
      exact hop ▸ hword
    · exact hc.older op hop
  have ht : s.takes op = false := by
    unfold takes
    rw [hidle]
    split <;> rfl
  obtain ⟨c, _, rfl | rfl⟩ := callback_rest hrest ht hs <;> exact hidle

/-- The returned outcome is one that no poll has returned before. -/
theorem once_setIdle {reading : Reading} (hc : Coherent posts s) (hf : Faithful s) (h : Once s)
    (ho : s.owner = .setIdle reading) : Once (s.pollSetIdle reading) := by
  have howner := hc.owner
  rw [ho] at howner
  obtain ⟨val, _, rfl⟩ := hf.held reading (.inl ho)
  have hbusy : s.state ≠ .idle := by
    rcases howner with hw | ⟨hw, _⟩ <;> rw [hw] <;> nofun
  have hnew : s.latest ∉ s.returnedOps := fun hop => hbusy (h.spent hop)
  refine ⟨List.nodup_cons.mpr ⟨hnew, h.nodup⟩, fun op hop => ?_, fun _ => rfl⟩
  rcases List.mem_cons.mp hop with rfl | hop
  · exact Nat.le_refl _
  · exact h.past op hop

theorem once_step {a : Action} (hc : Coherent posts s) (hf : Faithful s) (h : Once s)
    (hs : step posts s a = some s') : Once s' := by
  have howner := hc.owner
  cases step_cases hs with
  | setIdle reading ho => exact once_setIdle hc hf h ho
  | schedule =>
    -- the new operation is one nobody has returned
    refine ⟨h.nodup, fun op hop => Nat.le_succ_of_le (h.past op hop), fun hop => ?_⟩
    exact absurd (h.past _ hop) (Nat.not_succ_le_self _)
  | setPending ho =>
    rw [ho] at howner
    exact h.move rfl rfl fun hidle => nomatch howner.1.symm.trans hidle
  | swap wait ho =>
    obtain ⟨_, _, _, _, heq⟩ := s.cancelSwap_eq wait
    rw [heq]
    exact h.move rfl rfl fun hidle => absurd hidle (hc.not_idle ho)
  | issue answer =>
    obtain ⟨_, _, _, heq⟩ := s.pollIssue_eq posts answer
    rw [heq]
    exact h.move rfl rfl id
  | halfCancel wait err =>
    obtain ⟨_, _, _, _, heq⟩ := s.cancelWait_eq wait err
    rw [heq]
    exact h.move rfl rfl id
  | callback op hcall =>
    have hk := callback_kept hcall
    exact h.move hk.returned hk.latest fun hidle => callback_idle hc hidle hcall
  | _ => exact h.move rfl rfl id

/-! ### Attribution -/

/-- A step by which no poll returns an outcome that is not the latest operation's,
or one that was returned before, and by which no callback on an earlier
operation's packet moves the word or writes the result. -/
structure Attributed (s : Half) (a : Action) (s' : Half) : Prop where
  latest : ∀ r, s'.returned = r :: s.returned → s.Delivers r
  once : s'.returnedOps.Nodup
  stale : ∀ op, a = .callback op → op < s.latest → s'.state = s.state ∧ s'.result = s.result

/-- Polls return by storing `IDLE` over the reading they hold. -/
theorem returns_held {a : Action} {r : Reading} (hs : step posts s a = some s')
    (hr : s'.returned = r :: s.returned) : a = .owner ∧ s.owner = .setIdle r ∧
      s' = s.pollSetIdle r := by
  have hkeep : s'.returned ≠ s.returned := fun hk => List.cons_ne_self r _ (hr.symm.trans hk)
  cases step_cases hs with
  | setIdle reading ho =>
    obtain rfl := (List.cons.inj hr).1
    exact ⟨rfl, ho, rfl⟩
  | swap wait =>
    obtain ⟨_, _, _, _, heq⟩ := s.cancelSwap_eq wait
    rw [heq] at hkeep
    exact absurd rfl hkeep
  | issue answer =>
    obtain ⟨_, _, _, heq⟩ := s.pollIssue_eq posts answer
    rw [heq] at hkeep
    exact absurd rfl hkeep
  | halfCancel wait err =>
    obtain ⟨_, _, _, _, heq⟩ := s.cancelWait_eq wait err
    rw [heq] at hkeep
    exact absurd rfl hkeep
  | callback op hcall => exact absurd (callback_kept hcall).returned hkeep
  | _ => exact absurd rfl hkeep

/-- The condition on a step: no earlier operation's callback takes the word. -/
def OwnCallback (s : Half) (a : Action) (_ : Half) : Prop := ¬ s.Intrudes a

/-- The invariant of an owner that only polls. -/
structure Polled (posts : Bool) (s : Half) : Prop where
  coherent : Coherent posts s
  faithful : Faithful s
  once : Once s
  uncancelled : s.owner.cancelling = false

theorem polled_init : Polled posts init := ⟨coherent_init, faithful_init, once_init, rfl⟩

theorem polled_step {a : Action} (h : Polled posts s) (ha : ¬ s.Intrudes a) (hp : a.Polls)
    (hs : step posts s a = some s') : Polled posts s' ∧ Attributed s a s' := by
  have hw : ¬ s.WaitTakes a := fun ⟨_, ho, _⟩ => by
    have hu := h.uncancelled
    rw [ho] at hu
    exact nomatch hu
  have honce := once_step h.coherent h.faithful h.once hs
  refine ⟨⟨coherent_step h.coherent ha hs, faithful_step h.coherent h.faithful ha hw hs, honce,
    uncancelled_step h.uncancelled hp hs⟩, fun r hr => ?_, honce.nodup, fun op he hop => ?_⟩
  · exact h.faithful.held r (.inl (returns_held hs hr).2.1)
  · subst he
    have hne := Nat.ne_of_lt hop
    exact callback_other h.coherent hne (not_takes ha hne) hs

/-- A callback that takes the word moves it. -/
theorem takes_moves {op : Nat} (ht : s.takes op = true) (hs : s.callback op = some s') :
    s'.state = .callback ∧ s.state ≠ .callback := by
  unfold takes at ht
  cases callback_cases hs with
  | pendingTaken _ _ hw | nowaitTaken _ _ hw | waitTaken _ _ hw => exact ⟨rfl, by rw [hw]; nofun⟩
  | begins _ hc | set _ hc | setReady _ hc | wake _ hc | setReadyOnly _ hc =>
    rw [hc] at ht
    exact absurd ht Bool.false_ne_true
  | pendingMissed _ hc hw | nowaitMissed _ hc hw | waitMissed _ hc hw =>
    rw [hc] at ht
    exact absurd (IoState.compareExchange_eq_none.mpr hw) (Option.isSome_iff_ne_none.mp ht)

/-- An attributed step is no intrusion. -/
theorem Attributed.ownCallback {a : Action} (h : Attributed s a s') (hc : Coherent posts s)
    (hs : step posts s a = some s') : OwnCallback s a s' := by
  intro hi
  cases a with
  | callback op =>
    obtain ⟨hop, ht⟩ := hi
    have hlt : op < s.latest := by
      by_contra hge
      have habsent := hc.fresh op (by omega)
      unfold takes at ht
      rw [habsent] at ht
      exact Bool.false_ne_true ht
    obtain ⟨hcall, hne⟩ := takes_moves ht hs
    exact hne ((h.stale op rfl hlt).1.symm.trans hcall)
  | _ => exact hi

/-- **Attribution.** A run of polls and completions returns each outcome once, to the
poll that follows its own `IDLE → SCHEDULING` step, exactly when no callback on
the packet of an earlier operation finds the word where it can take it. -/
theorem polls_attributed (as : List Action) (has : ∀ a ∈ as, a.Polls) :
    (machine true).Steps Attributed init as ↔ (machine true).Steps OwnCallback init as := by
  have hpolls := Machine.Steps.of_actions (M := machine true) (s := init) has
  constructor
  · intro h
    refine Machine.Steps.of_invariant (I := Polled true) (fun s a s' hI hok hs => ?_) polled_init
      (h.and hpolls)
    have hown := hok.1.ownCallback hI.coherent hs
    exact ⟨(polled_step hI hown hok.2 hs).1, hown⟩
  · intro h
    exact Machine.Steps.of_invariant (I := Polled true)
      (fun s a s' hI hok hs => polled_step hI hok.1 hok.2 hs) polled_init (h.and hpolls)

/-- An operation that completes at once, and its packet that arrives after the next
operation has gone pending. -/
def lateTrace : List Action :=
  [.poll 0, .owner, .owner, .issue (.accepted ⟨0, 5⟩), .owner, .owner,
   .poll 0, .owner, .owner, .issue (.failed 997), .owner,
   .callback 1, .callback 1, .callback 1, .callback 1, .callback 1,
   .poll 0, .owner, .owner, .owner]

instance (a : Action) : Decidable a.Polls := decidable_of_iff _ a.polls_iff.symm

/-- A poll returns something else than the latest operation's outcome. -/
def returnsOther (s s' : Half) : Bool :=
  match s'.returned with
  | r :: rest => rest == s.returned && r != (s.outcome s.latest).map fun val => (s.latest, val)
  | [] => false

theorem Attributed.not_returnsOther {a : Action} (h : Attributed s a s') :
    returnsOther s s' = false := by
  unfold returnsOther
  split
  · rename_i r rest hr
    by_cases hrest : rest = s.returned
    · obtain ⟨val, hval, rfl⟩ := h.latest r (by rw [hr, hrest])
      simp [hval]
    · simp [hrest]
  · rfl

/-- The second operation's poll returns the first one's five bytes again, while its
own operation is still in flight. -/
theorem late_packet_misattributed : ¬ ∀ as : List Action, (∀ a ∈ as, a.Polls) →
    (machine true).Steps Attributed init as := by
  intro h
  have hlast := (h lateTrace (by decide)).mono (Q := fun s _ s' => returnsOther s s' = false)
    fun _ _ _ _ ha => ha.not_returnsOther
  exact absurd hlast (by decide)

/-- Two operations that complete at once, their callbacks run before the next. -/
theorem polls_attributed_prompt : (machine true).Steps Attributed init
    [.poll 0, .owner, .owner, .issue (.accepted ⟨0, 5⟩), .owner, .owner,
     .callback 1, .callback 1, .callback 1, .callback 1,
     .poll 0, .owner, .owner, .issue (.failed 997), .owner, .complete 2 ⟨0, 7⟩,
     .callback 2, .callback 2, .callback 2, .callback 2, .callback 2,
     .poll 0, .owner, .owner, .owner] :=
  (polls_attributed _ (by decide)).mpr (by unfold OwnCallback; decide)

end Half

end Wae.Io
