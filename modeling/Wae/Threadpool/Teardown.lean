import Wae.Threadpool.Count

/-! Who tears the pool down.

The drop that takes the reference count to zero closes the cleanup group, and that
waits for every running callback. A callback holds two handles while it runs tasks'
code, so nothing that code drops is the last; but its own handle is dropped after the
context's, inside the callback, and may be. -/
namespace Wae.Threadpool
open Transition

namespace Pool

variable {s s' : Pool}

/-- Where the count goes to zero, no callback's thread takes it there. -/
def TornOutside (s : Pool) (a : Action) (s' : Pool) : Prop :=
  s.strong ≠ 0 → s'.strong = 0 → a.thread = none

/-- There is a handle besides the ones of the `k`-th callback. -/
def Other (s : Pool) (k : Nat) : Prop :=
  0 < s.users ∨ (∃ task ∈ s.tasks, task.closure = true) ∨ (∃ p, s.queue p ≠ []) ∨
    ∃ j c, j ≠ k ∧ s.callbacks[j]? = some c ∧ 0 < c.held

/-- The condition on a step: a callback that drops its own handle leaves another. -/
def LeavesOther (s : Pool) (a : Action) (_ : Pool) : Prop :=
  ∀ k p e, a = .callback k → s.callbacks[k]? = some ⟨p, .drop e⟩ → s.Other k

/-- There is a handle, and so the count is not zero. -/
theorem Other.handles_pos {k : Nat} (h : Other s k) : 0 < s.handles := by
  unfold handles
  rcases h with hu | ⟨task, ht, hc⟩ | ⟨p, hp⟩ | ⟨j, c, _, hj, hc⟩
  · omega
  · have hpos : 0 < tally Task.held s.tasks :=
      tally_pos.mpr ⟨task, ht, by simp [Task.held, hc]⟩
    omega
  · have hle := le_total (fun p => (s.queue p).length) p
    have hpos := List.length_pos_iff.mpr hp
    omega
  · have hle := le_tally Callback.held hj
    omega

theorem not_other {k : Nat} (hr : ∀ c, s.callbacks[k]? = some c → c.held = 0)
    (h : ¬ Other s k) : s.handles = 0 := by
  unfold Other at h
  simp only [not_or, not_exists, not_and, Nat.not_lt, Nat.le_zero] at h
  obtain ⟨hu, ht, hq, hc⟩ := h
  have htasks : ¬ 0 < tally Task.held s.tasks := fun hpos => by
    obtain ⟨task, hmem, hheld⟩ := tally_pos.mp hpos
    simp [Task.held, ht task hmem] at hheld
  have hcallbacks : ¬ 0 < tally Callback.held s.callbacks := fun hpos => by
    obtain ⟨c, hmem, hheld⟩ := tally_pos.mp hpos
    obtain ⟨j, hj⟩ := List.mem_iff_getElem?.mp hmem
    by_cases hjk : j = k
    · subst hjk
      exact Nat.ne_of_gt hheld (hr c hj)
    · exact Nat.ne_of_gt hheld (hc j c hjk hj)
  have hqueues : total (fun p => (s.queue p).length) = 0 := by
    simp [total, not_not.mp (hq _)]
  unfold handles
  omega

/-- What is not the `k`-th callback's stays when only that callback changes. -/
theorem other_drop (s : Pool) (k strong : Nat) (c : Callback) :
    Other {s with callbacks := s.callbacks.set k c, strong := strong} k ↔ Other s k := by
  have hsame : ∀ j, j ≠ k → (s.callbacks.set k c)[j]? = s.callbacks[j]? := fun j hj =>
    List.getElem?_set_ne (Ne.symm hj)
  refine or_congr_right (or_congr_right (or_congr_right ?_))
  refine exists_congr fun j => exists_congr fun c => and_congr_right fun hj => ?_
  simp only [hsame j hj]

/-- Code that runs in a callback stands on two handles. -/
theorem Counted.running (h : Counted s) {k : Nat} (hk : s.running k = true) :
    s.users + 2 ≤ s.strong := by
  unfold Pool.running at hk
  split at hk
  · rename_i hc
    exact h.le hc
  · exact absurd hk Bool.false_ne_true

/-- The last handle is not dropped by code that runs in a callback. -/
theorem Counted.outside (h : Counted s) {thread : Option Nat} (hi : s.inside thread = true)
    (hzero : s.strong - 1 = 0) : thread = none := by
  cases thread with
  | none => rfl
  | some k =>
    have hle := h.running (k := k) hi
    omega

/-- **The step lemma**: of all that is dropped in a callback, only the callback's own
handle can be the last. -/
theorem torn_step {a : Action} (h : Counted s) (hl : LeavesOther s a s')
    (hs : step s a = some s') : TornOutside s a s' := by
  intro hne hzero
  have h' := counted_step h hs
  cases step_cases hs with
  | clone => exact absurd hzero (Nat.succ_ne_zero _)
  | spawn => exact absurd hzero (Nat.succ_ne_zero _)
  | push | submit | start => rfl
  | dropHandle thread hu hi => exact h.outside hi hzero
  | dropClosure t task thread ht hc hi => exact h.outside hi hzero
  | callback k hcall =>
    cases callback_cases hcall with
    | panics | pops | runs => exact absurd hzero hne
    | enters => exact absurd hzero (Nat.succ_ne_zero _)
    | leaves p e hk =>
      have hle := h.le hk
      have hzero : s.strong - 1 = 0 := hzero
      simp only [Callback.held] at hle
      omega
    | drops p e hk =>
      have hother := (other_drop s k (s.strong - 1) ⟨p, s.afterDrop e⟩).mpr (hl k p e rfl hk)
      exact absurd (h'.strong.symm.trans hzero) (Nat.ne_of_gt hother.handles_pos)

/-- A callback that is not to tear the pool down leaves another handle. -/
theorem TornOutside.leavesOther {a : Action} (h : TornOutside s a s') (hc : Counted s)
    (hs : step s a = some s') : LeavesOther s a s' := by
  rintro k p e rfl hk
  by_contra hother
  have hc' := counted_step hc hs
  have hs' : s.callback k = some s' := hs
  simp only [callback, hk, Option.some.injEq] at hs'
  subst hs'
  have hlt : k < s.callbacks.length := (List.getElem?_eq_some_iff.mp hk).1
  have hheld : ∀ c, (s.callbacks.set k ⟨p, s.afterDrop e⟩)[k]? = some c → c.held = 0 := by
    intro c hcb
    rw [List.getElem?_set_self hlt] at hcb
    cases hcb
    exact s.held_afterDrop p e
  have hnone := not_other (s := {s.setPhase k p (s.afterDrop e) with strong := s.strong - 1})
    (k := k) hheld (mt (other_drop s k (s.strong - 1) ⟨p, s.afterDrop e⟩).mp hother)
  have hle := hc.le hk
  simp only [Callback.held] at hle
  rw [← hc'.strong] at hnone
  cases h (by omega) hnone

/-- **The pool is never torn down from inside its own callback** exactly when each
callback's drop of its own handle leaves another: one of the users', one in a task's
schedule closure, one in a queued entry, or another callback's. -/
theorem pool_torn_outside (as : List Action) :
    machine.Steps TornOutside init as ↔ machine.Steps LeavesOther init as :=
  ⟨Machine.Steps.of_invariant (I := Counted) (fun _ _ _ hc ht hs =>
      ⟨counted_step hc hs, ht.leavesOther hc hs⟩) counted_init,
    Machine.Steps.of_invariant (I := Counted) (fun _ _ _ hc hl hs =>
      ⟨counted_step hc hs, torn_step hc hl hs⟩) counted_init⟩

/-- The user drops the pool while a callback finishes the last task. -/
def lastTrace : List Action :=
  [.spawn .normal none, .push 0, .submit 0, .start .normal, .callback 0, .callback 0,
   .dropClosure 0 (some 0), .callback 0, .dropHandle none, .callback 0, .callback 0]

theorem last_callback_tears_down : ¬ ∀ as : List Action, machine.Steps TornOutside init as := by
  intro h
  have hlast := h lastTrace
  unfold TornOutside at hlast
  exact absurd hlast (by decide)

end Pool

end Wae.Threadpool
