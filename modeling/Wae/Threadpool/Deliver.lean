import Wae.Threadpool.Count
import Wae.Transition.Countdown

/-! Every submitted task runs exactly once.

What a queue's entries are waiting for is a number of steps: the submission of each that
is not submitted, the beginning of a callback, and its pop. A push is three more, each of
these steps is one less, and no other step changes it (`owed_step`); and as long as the
queue is not empty there is such a step to take. The entries go to callbacks in the order
they came in (`queue_run`), so whatever else goes on a runnable's turn comes. -/
namespace Wae.Threadpool
open Transition

namespace Pool

variable {s s' t : Pool}

/-- The queue that the step pops from. -/
def pops (s : Pool) : Action → Option Priority
  | .callback k =>
    match s.callbacks[k]? with
    | some ⟨p, .pop⟩ => some p
    | _ => none
  | _ => none

/-- The queue whose entries the step brings to callbacks: it submits one, begins a callback
for one, or pops one. -/
def delivers (s : Pool) : Action → Option Priority
  | .submit t => s.priorityOf t
  | .start p => some p
  | a => s.pops a

def pushesTo (s : Pool) : Action → Option Priority
  | .push t => s.priorityOf t
  | _ => none

/-- The steps a queue's entries are waiting for. -/
def owed (s : Pool) (p : Priority) : Nat :=
  3 * tally (Task.unsubmitted p) s.tasks + 2 * s.submitted p +
    tally (Callback.unpopped p) s.callbacks

/-! ### What is left to do -/

theorem Counted.owed_eq_zero (h : Counted s) (p : Priority) : s.owed p = 0 ↔ s.queue p = [] := by
  have hlength := h.queued p
  rw [← List.length_eq_zero_iff]
  unfold owed
  omega

theorem pops_pop {k : Nat} {p : Priority} (hk : s.callbacks[k]? = some ⟨p, .pop⟩) :
    s.pops (.callback k) = some p := by
  simp only [pops, hk]

theorem pops_past {k : Nat} {p : Priority} {phase : Phase}
    (hk : s.callbacks[k]? = some ⟨p, phase⟩) (hphase : phase ≠ .pop) :
    s.pops (.callback k) = none := by
  cases phase with
  | pop => exact absurd rfl hphase
  | _ => simp only [pops, hk]

/-- Past its pop, a callback owes its queue nothing. -/
theorem owed_past {k strong : Nat} {p : Priority} {phase phase' : Phase}
    (hk : s.callbacks[k]? = some ⟨p, phase⟩) (hp : phase ≠ .pop) (hp' : phase' ≠ .pop)
    (q : Priority) : owed {s.setPhase k p phase' with strong} q = s.owed q := by
  have hun := tally_set (Callback.unpopped q) hk ⟨p, phase'⟩
  simp only [Callback.unpopped, Callback.mk.injEq, hp, hp', and_false, if_false] at hun
  simp only [owed, setPhase]
  omega

theorem owed_pops {k : Nat} {p : Priority} {entry : Entry} (queue : Priority → List Entry)
    (hk : s.callbacks[k]? = some ⟨p, .pop⟩) (q : Priority) :
    owed {s.setPhase k p (.enter entry) with queue} q + (some p == some q).toNat = s.owed q := by
  have hun := tally_set (Callback.unpopped q) hk ⟨p, .enter entry⟩
  simp only [owed, setPhase]
  by_cases hq : p = q
  · subst hq
    simp [Callback.unpopped] at hun ⊢
    omega
  · have hne : (p == q) = false := beq_eq_false_iff_ne.mpr hq
    simp [Callback.unpopped, hq] at hun
    simp [hne, hun]

theorem owed_callback {k : Nat} (h : Counted s) (hs : s.callback k = some s') (q : Priority) :
    s'.owed q + (s.delivers (.callback k) == some q).toNat = s.owed q := by
  have hpast {p : Priority} {phase : Phase} (hk : s.callbacks[k]? = some ⟨p, phase⟩)
      (hp : phase ≠ .pop) : (s.delivers (.callback k) == some q).toNat = 0 := by
    rw [show s.delivers (.callback k) = s.pops (.callback k) from rfl, pops_past hk hp]
    rfl
  cases callback_cases hs with
  | panics p hk hq => exact absurd hq (h.not_empty hk)
  | pops p entry rest hk hq =>
    rw [show s.delivers (.callback k) = s.pops (.callback k) from rfl, pops_pop hk]
    exact owed_pops _ hk q
  | enters p entry hk =>
    rw [hpast hk (by simp)]
    exact owed_past hk (by simp) (by simp) q
  | runs p entry hk =>
    rw [hpast hk (by simp)]
    exact owed_past hk (by simp) (by simp) q
  | leaves p entry hk =>
    rw [hpast hk (by simp)]
    exact owed_past hk (by simp) (by simp) q
  | drops p entry hk =>
    rw [hpast hk (by simp)]
    exact owed_past hk (by simp) (s.afterDrop_ne_pop entry) q

/-- **The step lemma**: a push is three steps more, and each step that delivers is one less. -/
theorem owed_step {a : Action} (h : Counted s) (hs : step s a = some s') (q : Priority) :
    s'.owed q + (s.delivers a == some q).toNat = s.owed q + 3 * (s.pushesTo a == some q).toNat := by
  cases step_cases hs with
  | clone | dropHandle => rfl
  | spawn priority =>
    have hun : Task.unsubmitted q ⟨priority, true, 0⟩ = 0 := by simp [Task.unsubmitted]
    simp only [owed, tally_append, tally_cons, tally_nil, hun]
    rfl
  | push t task ht =>
    have hun := tally_set (Task.unsubmitted q) ht {task with pushing := task.pushing + 1}
    have hto : s.pushesTo (.push t) = some task.priority := by simp [pushesTo, priorityOf, ht]
    rw [hto, show s.delivers (.push t) = none from rfl]
    simp only [owed, pushTask, setTask]
    by_cases hq : task.priority = q
    · subst hq
      simp [Task.unsubmitted] at hun ⊢
      omega
    · have hne : (task.priority == q) = false := beq_eq_false_iff_ne.mpr hq
      simp [Task.unsubmitted, hq] at hun
      simp [hne, hun]
  | submit t task pushing ht hp =>
    have hun := tally_set (Task.unsubmitted q) ht {task with pushing}
    have hto : s.delivers (.submit t) = some task.priority := by simp [delivers, priorityOf, ht]
    rw [hto, show s.pushesTo (.submit t) = none from rfl]
    simp only [owed, submitWork, setTask]
    by_cases hq : task.priority = q
    · subst hq
      simp [Task.unsubmitted, hp] at hun ⊢
      omega
    · have hne : (task.priority == q) = false := beq_eq_false_iff_ne.mpr hq
      simp [Task.unsubmitted, hq] at hun
      simp [hne, hun, Ne.symm hq]
  | dropClosure t task _ ht =>
    have hun := tally_set (Task.unsubmitted q) ht {task with closure := false}
    simp only [Task.unsubmitted] at hun
    have hsame : tally (Task.unsubmitted q) (s.tasks.set t {task with closure := false}) =
        tally (Task.unsubmitted q) s.tasks := Nat.add_right_cancel hun
    simp only [owed, setTask, hsame]
    rfl
  | start p submitted hp =>
    rw [show s.delivers (.start p) = some p from rfl, show s.pushesTo (.start p) = none from rfl]
    simp only [owed, tally_append, tally_cons, tally_nil, Callback.unpopped, Callback.mk.injEq,
      and_true]
    by_cases hq : p = q
    · subst hq
      simp [hp]
      omega
    · have hne : (p == q) = false := beq_eq_false_iff_ne.mpr hq
      simp [hne, hq, Ne.symm hq]
  | callback k hcall =>
    have hcall := owed_callback h hcall q
    exact hcall

theorem owed_run {as : List Action} (h : Counted s) (hrun : machine.run s as = some t)
    (p : Priority) : t.owed p + machine.times (fun s a => s.delivers a == some p) s as =
      s.owed p + 3 * machine.times (fun s a => s.pushesTo a == some p) s as :=
  Machine.run_balance (M := machine) (I := Counted) (f := (owed · p))
    (fun _ _ _ h hs => ⟨counted_step h hs, owed_step h hs p⟩) h hrun

/-- As long as a queue is not empty, there is a step that delivers from it. -/
theorem Counted.progress (h : Counted s) {p : Priority} (hq : s.queue p ≠ []) :
    ∃ a, s.delivers a = some p ∧ (step s a).isSome = true := by
  have howed := mt (h.owed_eq_zero p).mp hq
  unfold owed at howed
  by_cases hs : s.submitted p = 0
  · by_cases ht : 0 < tally (Task.unsubmitted p) s.tasks
    · obtain ⟨task, hmem, hun⟩ := tally_pos.mp ht
      obtain ⟨t, htask⟩ := List.mem_iff_getElem?.mp hmem
      unfold Task.unsubmitted at hun
      split at hun
      · rename_i hp
        obtain ⟨n, hn⟩ := Nat.exists_eq_succ_of_ne_zero (Nat.ne_of_gt hun)
        refine ⟨.submit t, ?_, by simp [step, htask, hn]⟩
        simp [delivers, priorityOf, htask, hp]
      · exact absurd hun (Nat.lt_irrefl 0)
    · have hpos : 0 < tally (Callback.unpopped p) s.callbacks := by omega
      obtain ⟨c, hc, hun⟩ := tally_pos.mp hpos
      obtain ⟨k, hk⟩ := List.mem_iff_getElem?.mp hc
      unfold Callback.unpopped at hun
      split at hun
      · rename_i hpop
        subst hpop
        refine ⟨.callback k, pops_pop hk, ?_⟩
        simp only [step, Pool.callback, hk]
        split <;> rfl
      · exact absurd hun (Nat.lt_irrefl 0)
  · obtain ⟨n, hn⟩ := Nat.exists_eq_succ_of_ne_zero hs
    exact ⟨.start p, rfl, by simp [step, hn]⟩

/-! ### In which order -/

/-- What a callback has popped, it has popped for good. -/
theorem popped_step {a : Action} (hs : s.step a = some s') (n : Nat) :
    s.poppedTimes n ≤ s'.poppedTimes n := by
  have hset : ∀ {k c}, s.callbacks[k]? = some c → ∀ c', Callback.took n c ≤ Callback.took n c' →
      tally (Callback.took n) s.callbacks ≤ tally (Callback.took n) (s.callbacks.set k c') := by
    intro k c hk c' hle
    have htook := tally_set (Callback.took n) hk c'
    omega
  cases step_cases hs with
  | start =>
    simp only [poppedTimes, tally_append]
    exact Nat.le_add_right ..
  | callback k hcall =>
    cases callback_cases hcall with
    | pops p entry rest hk => exact hset hk _ (Nat.zero_le _)
    | panics p hk => exact hset hk _ (Nat.le_refl _)
    | enters p entry hk => exact hset hk _ (Nat.le_refl _)
    | runs p entry hk => exact hset hk _ (Nat.le_refl _)
    | leaves p entry hk => exact hset hk _ (Nat.le_refl _)
    | drops p entry hk =>
      refine hset hk _ (Nat.le_of_eq ?_)
      unfold Callback.took
      rw [s.entry_afterDrop p entry]
      rfl
  | clone | dropHandle | spawn | push | submit | dropClosure => exact Nat.le_refl _

theorem popped_run {as : List Action} (hrun : machine.run s as = some t) (n : Nat) :
    s.poppedTimes n ≤ t.poppedTimes n :=
  Machine.run_keeps (M := machine) (I := fun u => s.poppedTimes n ≤ u.poppedTimes n)
    (fun _ _ _ hle hs => Nat.le_trans hle (popped_step hs n)) (Nat.le_refl _) hrun

/-- What a step does to a queue: it may add one at the end, or hand the first to a callback. -/
theorem queue_step {a : Action} (h : Counted s) (hs : s.step a = some s') (p : Priority) :
    ∃ new taken, s.queue p ++ new = taken ++ s'.queue p ∧
      taken.length = (s.pops a == some p).toNat ∧ ∀ e ∈ taken, 0 < s'.poppedTimes e.runnable := by
  have hsame : ∀ {q : List Entry}, q = s.queue p → s.pops a ≠ some p →
      ∃ new taken, s.queue p ++ new = taken ++ q ∧
        taken.length = (s.pops a == some p).toNat ∧
          ∀ e ∈ taken, 0 < s'.poppedTimes e.runnable := fun hq hpops => by
    refine ⟨[], [], by simp [hq], ?_, fun e he => by cases he⟩
    rw [beq_eq_false_iff_ne.mpr hpops]
    rfl
  cases step_cases hs with
  | push t task =>
    by_cases hp : task.priority = p
    · subst hp
      exact ⟨[⟨s.pushes, t⟩], [], by simp [pushTask, setTask], rfl, fun e he => by cases he⟩
    · exact hsame (Function.update_of_ne (Ne.symm hp) ..) (by simp [pops])
  | callback k hcall =>
    have hpast {q : Priority} {phase : Phase} (hk : s.callbacks[k]? = some ⟨q, phase⟩)
        (hphase : phase ≠ .pop) : s.pops (.callback k) ≠ some p := by
      rw [pops_past hk hphase]
      simp
    cases callback_cases hcall with
    | panics q hk hq => exact absurd hq (h.not_empty hk)
    | pops q entry rest hk hq =>
      by_cases hp : q = p
      · subst hp
        refine ⟨[], [entry], by simp [hq], by rw [pops_pop hk]; simp, fun e he => ?_⟩
        obtain rfl := List.mem_singleton.mp he
        have htook := tally_set (Callback.took e.runnable) hk ⟨q, .enter e⟩
        have hone : Callback.took e.runnable ⟨q, .enter e⟩ = 1 := by
          simp [Callback.took, Callback.entry]
        have hzero : Callback.took e.runnable ⟨q, .pop⟩ = 0 := rfl
        show 0 < tally (Callback.took e.runnable) (s.callbacks.set k ⟨q, .enter e⟩)
        omega
      · refine hsame (Function.update_of_ne (Ne.symm hp) ..) ?_
        rw [pops_pop hk]
        simpa using hp
    | enters _ _ hk | runs _ _ hk | leaves _ _ hk | drops _ _ hk =>
      exact hsame rfl (hpast hk (by simp))
  | clone | dropHandle | spawn | submit | dropClosure | start => exact hsame rfl (by simp [pops])

/-- A queue is served in its order: a run hands its entries to callbacks from the front, one
with each pop, and what comes goes to the end. -/
theorem queue_run {as : List Action} (h : Counted s) (hrun : machine.run s as = some t)
    (p : Priority) : ∃ new taken, s.queue p ++ new = taken ++ t.queue p ∧
      taken.length = machine.times (fun s a => s.pops a == some p) s as ∧
        ∀ e ∈ taken, 0 < t.poppedTimes e.runnable := by
  induction as generalizing s with
  | nil =>
    cases hrun
    exact ⟨[], [], by simp, rfl, fun e he => by cases he⟩
  | cons a as ih =>
    obtain ⟨s', hs, hrest⟩ := Machine.run_cons _ hrun
    obtain ⟨new, taken, heq, hlength, htaken⟩ := queue_step h hs p
    obtain ⟨new', taken', heq', hlength', htaken'⟩ := ih (counted_step h hs) hrest
    refine ⟨new ++ new', taken ++ taken', ?_, ?_, fun e he => ?_⟩
    · rw [← List.append_assoc, heq, List.append_assoc, heq', List.append_assoc]
    · rw [List.length_append, hlength, hlength', Machine.times_cons as hs]
    · rcases List.mem_append.mp he with he | he
      · exact Nat.lt_of_lt_of_le (htaken e he) (popped_run hrest _)
      · exact htaken' e he

/-- Popped at all is popped by one callback, and queued no more. -/
theorem Once.popped (h : Once s) {n : Nat} (hn : 0 < s.poppedTimes n) :
    s.poppedTimes n = 1 ∧ s.queuedTimes n = 0 := by
  have hlt : n < s.pushes := by
    by_contra hle
    have := h.fresh n (Nat.le_of_not_lt hle)
    omega
  have := h.pushed n hlt
  omega

/-! ### Delivery -/

/-- What is known of a pool wherever a run has come to. -/
structure Sound (s : Pool) : Prop where
  counted : Counted s
  unpanicked : Unpanicked s
  once : Once s
  own : Own s
  closed : Closed s

theorem sound_init : Sound init :=
  ⟨counted_init, fun _ hc => (by cases hc), once_init, own_init, fun _ hc => (by cases hc)⟩

theorem sound_step {a : Action} (h : Sound s) (hs : step s a = some s') : Sound s' where
  counted := counted_step h.counted hs
  unpanicked := unpanicked_step h.counted h.unpanicked hs
  once := once_step h.once hs
  own := own_step h.own hs
  closed := closed_step h.counted h.closed hs

theorem sound_run {as : List Action} (h : Sound s) (hrun : machine.run s as = some t) : Sound t :=
  Machine.run_keeps (M := machine) (fun _ _ _ h hs => sound_step h hs) h hrun

/-- Where every queue is empty, every runnable has been popped by one callback. -/
theorem Once.settled (h : Once s) (hq : ∀ p, s.queue p = []) {n : Nat} (hn : n < s.pushes) :
    s.poppedTimes n = 1 := by
  have honce := h.pushed n hn
  have hzero : s.queuedTimes n = 0 := by simp [queuedTimes, total, hq]
  omega

/-- The step that delivers is no push. -/
theorem delivers_pushes {a : Action} {p : Priority} (ha : s.delivers a = some p)
    (hs : step s a = some s') : s'.pushes = s.pushes ∧ s.pushesTo a = none := by
  cases step_cases hs with
  | push => cases ha
  | callback k hcall =>
    refine ⟨?_, rfl⟩
    cases callback_cases hcall <;> rfl
  | clone | dropHandle | spawn | submit | dropClosure | start => exact ⟨rfl, rfl⟩

theorem total_less {f g : Priority → Nat} {p : Priority}
    (h : ∀ q, g q + (some p == some q).toNat = f q) : total g + 1 = total f := by
  have hsame : g p + 1 = f p := by simpa using h p
  have hother : ∀ q, p ≠ q → g q = f q := fun q hq => by
    simpa [beq_eq_false_iff_ne.mpr hq] using h q
  unfold total
  cases p with
  | high =>
    rw [hother .normal (by decide), hother .low (by decide)]
    omega
  | normal =>
    rw [hother .high (by decide), hother .low (by decide)]
    omega
  | low =>
    rw [hother .high (by decide), hother .normal (by decide)]
    omega

/-- By as many steps as are owed, every runnable pushed so far is popped. -/
theorem Sound.served (h : Sound s) : ∃ as t, machine.run s as = some t ∧
    as.length = total s.owed ∧ t.pushes = s.pushes ∧ ∀ p, t.queue p = [] := by
  induction hn : total s.owed generalizing s with
  | zero =>
    refine ⟨[], s, rfl, rfl, rfl, fun p => (h.counted.owed_eq_zero p).mp ?_⟩
    have hle := le_total s.owed p
    omega
  | succ n ih =>
    have hsome : ∃ p, s.queue p ≠ [] := by
      by_contra hnone
      have hzero : ∀ p, s.owed p = 0 := fun p =>
        (h.counted.owed_eq_zero p).mpr (not_not.mp fun hq => hnone ⟨p, hq⟩)
      simp [total, hzero] at hn
    obtain ⟨p, hq⟩ := hsome
    obtain ⟨a, ha, hstep⟩ := h.counted.progress hq
    obtain ⟨s', hs⟩ := Option.isSome_iff_exists.mp hstep
    obtain ⟨hpushes, hto⟩ := delivers_pushes ha hs
    have howed (q : Priority) : s'.owed q + (s.delivers a == some q).toNat = s.owed q := by
      have hstep := owed_step h.counted hs q
      rw [hto] at hstep
      exact hstep
    have hless : total s'.owed = n := by
      rw [ha] at howed
      have hone := total_less howed
      omega
    obtain ⟨as, t, hrun, hlength, hpushes', hempty⟩ := ih (sound_step h hs) hless
    refine ⟨a :: as, t, ?_, by rw [List.length_cons, hlength], hpushes'.trans hpushes, hempty⟩
    show (step s a).bind _ = _
    rw [hs]
    exact hrun

/-- What the queues and callbacks have done with the runnables pushed so far, and what they
will do. -/
structure Delivered (s : Pool) : Prop where
  /-- No `pop` met an empty queue. -/
  unpanicked : s.Unpanicked
  /-- Each runnable is still queued, or some callback popped it; once in all. -/
  once : ∀ n, n < s.pushes → s.queuedTimes n + s.poppedTimes n = 1
  /-- In the queue of the priority its task was spawned with. -/
  own : s.Own
  /-- As long as a queue is not empty, there is a step to take that delivers from it. -/
  progress : ∀ p, s.queue p ≠ [] → ∃ a, s.delivers a = some p ∧ (step s a).isSome = true
  /-- However the run goes on, each such step is one less to take, and only a push is more. -/
  countdown : ∀ bs t, machine.run s bs = some t → ∀ p,
    t.owed p + machine.times (fun s a => s.delivers a == some p) s bs =
      s.owed p + 3 * machine.times (fun s a => s.pushesTo a == some p) s bs
  /-- Once none is owed, a queue is empty. -/
  owed : ∀ p, s.owed p = 0 ↔ s.queue p = []
  /-- However the run goes on, each pop takes the next entry of its queue, and the runnables
  it has taken have been popped by one callback. -/
  order : ∀ bs t, machine.run s bs = some t → ∀ p, ∃ new taken,
    s.queue p ++ new = taken ++ t.queue p ∧
      taken.length = machine.times (fun s a => s.pops a == some p) s bs ∧
        ∀ e ∈ taken, t.poppedTimes e.runnable = 1
  /-- By as many steps as are owed, every runnable has been popped by one callback. -/
  served : ∃ bs t, machine.run s bs = some t ∧ bs.length = total s.owed ∧
    ∀ n, n < s.pushes → t.poppedTimes n = 1
  /-- Where the queues are empty, every runnable has been. -/
  settled : (∀ p, s.queue p = []) → ∀ n, n < s.pushes → s.poppedTimes n = 1
  /-- With the last handle gone there is nothing left to cancel. -/
  empty : s.strong = 0 → ∀ p, s.queue p = [] ∧ s.submitted p = 0

theorem Sound.delivered (h : Sound s) : Delivered s where
  unpanicked := h.unpanicked
  once := h.once.pushed
  own := h.own
  progress := fun _ hq => h.counted.progress hq
  countdown := fun _ _ hrun p => owed_run h.counted hrun p
  owed := h.counted.owed_eq_zero
  order := fun _ _ hrun p => by
    obtain ⟨new, taken, heq, hlength, htaken⟩ := queue_run h.counted hrun p
    have honce := (sound_run h hrun).once
    exact ⟨new, taken, heq, hlength, fun e he => (honce.popped (htaken e he)).1⟩
  served := by
    obtain ⟨as, t, hrun, hlength, hpushes, hempty⟩ := h.served
    have honce := (sound_run h hrun).once
    exact ⟨as, t, hrun, hlength, fun n hn => honce.settled hempty (hpushes ▸ hn)⟩
  settled := fun hq _ hn => h.once.settled hq hn
  empty := fun hzero p => by
    have hstrong := h.counted.strong
    have hlength := h.counted.queued p
    have hle := le_total (fun p => (s.queue p).length) p
    simp only [handles] at hstrong hle
    exact ⟨List.eq_nil_of_length_eq_zero (by omega), by omega⟩

/-- **Every submitted task runs exactly once**: in every state a run of spawns, pushes,
submissions, callbacks and drops comes to, each runnable pushed is queued or popped, once,
and a queue is served until it is empty. -/
theorem tasks_delivered (as : List Action) :
    machine.Steps (fun _ _ s' => Delivered s') init as := by
  refine Machine.Steps.of_kept (I := Sound) (fun s a s' h hs => ?_) sound_init as
  have h' := sound_step h hs
  exact ⟨h', h'.delivered⟩

end Pool

end Wae.Threadpool
