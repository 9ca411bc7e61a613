import Wae.Task.Waiting
import Wae.Transition.Observer

/-! How often `block_on` polls.

A poll comes first, and then one after each return of `wait`. The word is never put back,
so the first return is the only one that waits for a wake: from then on the test of `wait`
finds the word set at once. That does no harm where the poll after it is the last; where
that is pending again, nothing holds the thread back any more. -/
namespace Wae.Task.Waiting
open Transition

/-- What has happened so far. -/
structure Count where
  /-- Polls of the future. -/
  polls : Nat
  /-- Returns of `wait`. -/
  returns : Nat
  /-- Calls of `wake` on the waker. -/
  wakes : Nat
  deriving DecidableEq, Repr

def count : Observer Waiting Action Count where
  init := ⟨0, 0, 0⟩
  see s a _ c :=
    match a with
    | .poll _ => {c with polls := c.polls + 1}
    | .load => if InlineWaker.woken s.state then {c with returns := c.returns + 1} else c
    | .wake _ => {c with wakes := c.wakes + 1}
    | .waitOnAddress | .spurious | .exchange _ | .wakeByAddressAll _ => c

/-- One poll, and one more for each wake; each return of `wait` has a wake of its own. -/
def Paid (_ : Waiting × Count) (_ : Action) (t : Waiting × Count) : Prop :=
  t.2.polls ≤ 1 + t.2.wakes ∧ t.2.returns ≤ t.2.wakes

/-- The condition on a step: once `wait` has returned, no poll is pending again. -/
def EndsWoken (s : Waiting × Count) (a : Action) (_ : Waiting × Count) : Prop :=
  a = .poll true → s.2.returns = 0

/-- Polls and returns of `wait` take turns, and the word is set from the first one on. -/
structure Counted (s : Waiting) (c : Count) : Prop where
  exchanging : ∀ thread, s.caller thread = .exchange → 0 < c.wakes
  word : s.state = 0 ∨ s.state = 1 ∧ 0 < c.wakes
  returned : 0 < c.returns → s.state = 1
  polls : c.polls = c.returns + if s.waiter = .poll then 0 else 1

theorem counted_init : Counted init count.init where
  exchanging := nofun
  word := .inl rfl
  returned := nofun
  polls := rfl

/-- A step of the waiting thread that neither polls nor returns from `wait`. -/
theorem Counted.move {s : Waiting} {c : Count} (h : Counted s c) (hfrom : s.waiter ≠ .poll)
    {waiter : Waiter} (hto : waiter ≠ .poll) : Counted {s with waiter := waiter} c where
  exchanging := h.exchanging
  word := h.word
  returned := h.returned
  polls := by
    have hpolls := h.polls
    rw [if_neg hfrom] at hpolls
    rw [if_neg hto, hpolls]

/-- A caller moves on, and is not at the exchange then. -/
theorem Counted.setCaller {s : Waiting} {c : Count} (h : Counted s c) (thread : Nat)
    {caller : Caller} (hto : caller ≠ .exchange) : Counted (s.setCaller thread caller) c where
  exchanging i hi := by
    by_cases hit : i = thread
    · subst hit
      rw [setCaller_same] at hi
      exact absurd hi hto
    · rw [setCaller_other s hit] at hi
      exact h.exchanging i hi
  word := h.word
  returned := h.returned
  polls := h.polls

theorem counted_step {s s' : Waiting} {a : Action} {c : Count} (h : Counted s c)
    (hs : step s a = some s') : Counted s' (count.see s a s' c) := by
  cases step_cases hs with
  | poll pending hw =>
    refine ⟨h.exchanging, h.word, h.returned, ?_⟩
    have hpolls := h.polls
    rw [if_pos hw] at hpolls
    cases pending <;> simp [count, hpolls]
  | load hw =>
    have hpolls := h.polls
    rw [if_neg (by rw [hw]; decide)] at hpolls
    rcases h.word with h0 | ⟨h1, hwakes⟩
    · have hwoken : InlineWaker.woken s.state = false := by
        rw [h0]
        decide
      simp only [count, hwoken, Bool.false_eq_true, if_false]
      apply h.move
      · rw [hw]
        decide
      · decide
    · have hwoken : InlineWaker.woken s.state = true := by
        rw [h1]
        decide
      simp only [count, hwoken, if_true]
      exact ⟨h.exchanging, .inr ⟨h1, hwakes⟩, fun _ => h1, by simpa using hpolls⟩
  | waitOnAddress hw =>
    apply h.move
    · rw [hw]
      decide
    · split <;> decide
  | spurious hw =>
    apply h.move
    · rw [hw]
      decide
    · decide
  | wake thread hc =>
    refine ⟨fun _ _ => Nat.succ_pos _, ?_, h.returned, h.polls⟩
    exact h.word.imp_right fun ⟨h1, _⟩ => ⟨h1, Nat.succ_pos _⟩
  | won thread hc h0 =>
    have hwakes := h.exchanging thread hc
    have hnext := h.setCaller thread (show Caller.wakeByAddressAll ≠ .exchange by decide)
    exact ⟨hnext.exchanging, .inr ⟨rfl, hwakes⟩, fun _ => rfl, hnext.polls⟩
  | lost thread hc h0 =>
    have hnext := h.setCaller thread (show Caller.idle ≠ .exchange by decide)
    exact ⟨hnext.exchanging, hnext.word, hnext.returned, hnext.polls⟩
  | wakeByAddressAll thread hc =>
    have hnext := h.setCaller thread (show Caller.idle ≠ .exchange by decide)
    refine ⟨hnext.exchanging, hnext.word, hnext.returned, ?_⟩
    have hpolls := h.polls
    by_cases hw : s.waiter = .asleep
    · simpa [count, hw] using hpolls
    · simpa [count, hw] using hpolls

theorem watched_step {s t : Waiting × Count} {a : Action} (h : Counted s.1 s.2)
    (hw : (count.watch machine).step s a = some t) : Counted t.1 t.2 := by
  obtain ⟨hs, hc⟩ := Observer.watch_step hw
  exact hc ▸ counted_step h hs

/-- `wait` returns once, and the poll after that is the last. -/
structure Once (s : Waiting × Count) : Prop where
  counted : Counted s.1 s.2
  last : 0 < s.2.returns → s.2.returns = 1 ∧ (s.1.waiter = .poll ∨ s.1.waiter = .returned)

theorem once_init : Once (count.watch machine).init := ⟨counted_init, nofun⟩

/-- The one return is paid for by the wake that has set the word. -/
theorem Once.paid {s : Waiting × Count} {a : Action} {t : Waiting × Count} (h : Once t) :
    Paid s a t := by
  have hle : t.2.returns ≤ t.2.wakes := by
    rcases Nat.eq_zero_or_pos t.2.returns with hzero | hpos
    · omega
    · have hset := h.counted.returned hpos
      have hone := (h.last hpos).1
      rcases h.counted.word with h0 | ⟨_, hwakes⟩
      · rw [h0] at hset
        exact absurd hset (by decide)
      · omega
  have hpolls := h.counted.polls
  refine ⟨?_, hle⟩
  split at hpolls <;> omega

theorem once_step {s t : Waiting × Count} {a : Action} (h : Once s) (hok : EndsWoken s a t)
    (hw : (count.watch machine).step s a = some t) : Once t := by
  refine ⟨watched_step h.counted hw, fun hpos => ?_⟩
  obtain ⟨s, c⟩ := s
  obtain ⟨t, d⟩ := t
  obtain ⟨hs, hc⟩ := Observer.watch_step hw
  have hs : step s a = some t := hs
  obtain rfl : d = count.see s a t c := hc
  have hlast : 0 < c.returns → c.returns = 1 ∧ (s.waiter = .poll ∨ s.waiter = .returned) := h.last
  have hpast {waiter : Waiter} (hat : s.waiter = waiter)
      (hne : waiter ≠ .poll ∧ waiter ≠ .returned) : c.returns = 0 := by
    by_contra hreturns
    rcases (hlast (Nat.pos_of_ne_zero hreturns)).2 with hp | hp
    · exact hne.1 (hat.symm.trans hp)
    · exact hne.2 (hat.symm.trans hp)
  cases step_cases hs with
  | poll pending hwaiter =>
    cases pending with
    | false => exact ⟨(hlast hpos).1, .inr rfl⟩
    | true =>
      have hzero : c.returns = 0 := hok rfl
      exact absurd hpos (Nat.not_lt.mpr (Nat.le_of_eq hzero))
  | load hwaiter =>
    -- the thread is at the test, so `wait` has not returned before
    have hzero := hpast hwaiter (by decide)
    cases hwoken : InlineWaker.woken s.state with
    | true => simp [count, hwoken, hzero]
    | false =>
      simp only [count, hwoken, Bool.false_eq_true, if_false] at hpos
      omega
  | waitOnAddress hwaiter =>
    have hzero := hpast hwaiter (by decide)
    exact absurd hpos (Nat.not_lt.mpr (Nat.le_of_eq hzero))
  | spurious hwaiter =>
    have hzero := hpast hwaiter (by decide)
    exact absurd hpos (Nat.not_lt.mpr (Nat.le_of_eq hzero))
  | wake thread | won thread | lost thread => exact hlast hpos
  | wakeByAddressAll thread =>
    obtain ⟨hone, hplace⟩ := hlast hpos
    refine ⟨hone, ?_⟩
    rcases hplace with hp | hp <;> simp [hp]

/-! ### Where a poll is pending again -/

/-- The tests and the pending polls of the waiting thread. -/
def rounds : Nat → List Action
  | 0 => []
  | n + 1 => rounds n ++ [.load, .poll true]

theorem mem_rounds {n : Nat} {b : Action} (hb : b ∈ rounds n) : b = .load ∨ b = .poll true := by
  induction n with
  | zero => cases hb
  | succ n ih =>
    rcases List.mem_append.mp hb with hb | hb
    · exact ih hb
    · simpa using hb

/-- While the word is set, nothing holds the waiting thread back. -/
theorem rounds_run {s : Waiting × Count} (hw : s.1.waiter = .load) (hset : s.1.state = 1)
    (n : Nat) : ∃ t, (count.watch machine).run s (rounds n) = some t ∧ t.1.waiter = .load ∧
      t.1.state = 1 ∧ t.2 = ⟨s.2.polls + n, s.2.returns + n, s.2.wakes⟩ := by
  induction n with
  | zero => exact ⟨s, rfl, hw, hset, rfl⟩
  | succ n ih =>
    obtain ⟨⟨u, c⟩, hrun, hw', hset', rfl⟩ := ih
    obtain ⟨waiter, caller, state, completed⟩ := u
    obtain rfl : waiter = .load := hw'
    obtain rfl : state = 1 := hset'
    refine ⟨(⟨.load, caller, 1, completed⟩, ⟨s.2.polls + n + 1, s.2.returns + n + 1, s.2.wakes⟩),
      ?_, rfl, rfl, rfl⟩
    rw [rounds, Machine.run_append, hrun]
    rfl

/-- There the thread polls on until no wake is left to pay for it. -/
theorem rounds_unpaid {s : Waiting × Count} (hw : s.1.waiter = .load) (hset : s.1.state = 1) :
    ¬ (count.watch machine).Steps Paid s (rounds (s.2.wakes + 1)) := by
  intro hpaid
  obtain ⟨t, hrun, _, _, ht⟩ := rounds_run hw hset (s.2.wakes + 1)
  have hlast := Machine.run_keeps_of (M := count.watch machine)
    (I := fun u => u = s ∨ u.2.returns ≤ u.2.wakes)
    (fun _ _ _ _ hok _ => .inr hok.2) (.inl rfl) hpaid hrun
  have hreturns := congrArg Count.returns ht
  have hwakes := congrArg Count.wakes ht
  simp only at hreturns hwakes
  rcases hlast with rfl | hle <;> omega

/-- **`block_on` polls once and once for each wake** in every run where no poll is pending
once `wait` has returned. From any poll that is, the waiting thread alone, with no wake and
no return of `WaitOnAddress`, comes to where it has polled more often. -/
theorem polls_paid (as : List Action) :
    ((count.watch machine).Steps EndsWoken (count.watch machine).init as →
      (count.watch machine).Steps Paid (count.watch machine).init as) ∧
    ∀ s a t, (count.watch machine).run (count.watch machine).init as = some s →
      (count.watch machine).step s a = some t → ¬ EndsWoken s a t →
      ∃ bs, (∀ b ∈ bs, b = .load ∨ b = .poll true) ∧ ¬ (count.watch machine).Steps Paid t bs := by
  refine ⟨fun h => ?_, fun s a t hrun hw hagain => ?_⟩
  · apply Machine.Steps.of_invariant (I := Once) _ once_init h
    intro s a t hi hok hw
    have ht := once_step hi hok hw
    exact ⟨ht, ht.paid⟩
  · have hcounted := Machine.run_keeps (M := count.watch machine)
      (I := fun s => Counted s.1 s.2) (fun _ _ _ h hs => watched_step h hs) counted_init hrun
    unfold EndsWoken at hagain
    obtain ⟨rfl, hne⟩ := Classical.not_imp.mp hagain
    have hword := hcounted.returned (Nat.pos_of_ne_zero hne)
    obtain ⟨s, c⟩ := s
    obtain ⟨t, d⟩ := t
    have hs : step s (.poll true) = some t := (Observer.watch_step hw).1
    cases step_cases hs with
    | poll _ hwaiter => exact ⟨_, fun b hb => mem_rounds hb, rounds_unpaid rfl hword⟩

instance (s : Waiting × Count) (a : Action) (t : Waiting × Count) : Decidable (Paid s a t) :=
  inferInstanceAs (Decidable (t.2.polls ≤ 1 + t.2.wakes ∧ t.2.returns ≤ t.2.wakes))

instance (s : Waiting × Count) (a : Action) (t : Waiting × Count) : Decidable (EndsWoken s a t) :=
  inferInstanceAs (Decidable (a = .poll true → s.2.returns = 0))

/-- A wait that returns for no reason once, and then for the wake. -/
def wokenOnce : List Action :=
  [.poll true, .load, .waitOnAddress, .spurious, .load, .wake 0, .exchange 0, .wakeByAddressAll 0,
    .waitOnAddress, .load]

/-- The poll after it is the last; or it is pending again. -/
theorem polls_paid_woken : (count.watch machine).Steps Paid (count.watch machine).init
    (wokenOnce ++ [.poll false]) ∧ ∃ s t, (count.watch machine).run (count.watch machine).init
      wokenOnce = some s ∧ (count.watch machine).step s (.poll true) = some t ∧
      ∃ bs, (∀ b ∈ bs, b = .load ∨ b = .poll true) ∧ ¬ (count.watch machine).Steps Paid t bs := by
  refine ⟨(polls_paid (wokenOnce ++ [.poll false])).1 (by decide), _, _, rfl, rfl, ?_⟩
  exact (polls_paid wokenOnce).2 _ (.poll true) _ rfl rfl (by decide)

/-- The wake of the first wait, and then the word stays set. -/
def busy (n : Nat) : List Action :=
  [.poll true, .wake 0, .exchange 0, .wakeByAddressAll 0] ++ rounds n

/-- **After one wake nothing holds `block_on` back**: it can poll any number of times. -/
theorem busy_polls (n : Nat) : ∃ t, (count.watch machine).run (count.watch machine).init (busy n) =
    some t ∧ t.2 = ⟨n + 1, n, 1⟩ := by
  obtain ⟨s, hrun, hw, hset, hs⟩ : ∃ s, (count.watch machine).run (count.watch machine).init
      [.poll true, .wake 0, .exchange 0, .wakeByAddressAll 0] = some s ∧ s.1.waiter = .load ∧
        s.1.state = 1 ∧ s.2 = ⟨1, 0, 1⟩ := ⟨_, rfl, rfl, rfl, rfl⟩
  obtain ⟨t, hrun', _, _, ht⟩ := rounds_run hw hset n
  refine ⟨t, ?_, ?_⟩
  · rw [busy, Machine.run_append, hrun]
    exact hrun'
  · rw [ht, hs, Nat.add_comm 1 n, Nat.zero_add]

/-- The second poll is pending too, and there has been one wake. -/
theorem polls_unpaid : ¬ ∀ as : List Action,
    (count.watch machine).Steps Paid (count.watch machine).init as := by
  intro h
  exact absurd (h (busy 2)) (by decide)

end Wae.Task.Waiting
