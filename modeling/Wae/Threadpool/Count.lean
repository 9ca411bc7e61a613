import Wae.Threadpool.Pool
import Wae.Transition.Tally

/-! What is counted in a pool.

Queue by queue, the entries are as many as the submissions not yet begun, the pushes not
yet submitted and the callbacks begun that have not popped (`Counted.queued`): so a
callback that is about to pop never finds its queue empty. The reference count is the
number of handles there are, those in queued entries among them (`Counted.strong`): so no
entry is left when the last handle is gone, and nothing moves any more. And each runnable
is in a queue or popped, once, in the queue of its task's priority. -/
namespace Wae.Threadpool
open Transition

/-- A push not yet submitted, of a task that belongs to the queue. -/
def Task.unsubmitted (p : Priority) (t : Task) : Nat := if t.priority = p then t.pushing else 0

/-- The handle in the schedule closure. -/
def Task.held (t : Task) : Nat := if t.closure then 1 else 0

/-- A callback of the queue that has begun and not popped. -/
def Callback.unpopped (p : Priority) (c : Callback) : Nat :=
  if c = ⟨p, .pop⟩ then 1 else 0

/-- The handles of a callback: its own, and the one in its thread's context. -/
def Callback.held (c : Callback) : Nat :=
  match c.phase with
  | .run _ | .leave _ => 2
  | .enter _ | .drop _ => 1
  | .pop | .closing _ | .returned _ | .panicked => 0

/-- What a callback has popped. -/
def Callback.entry (c : Callback) : Option Entry :=
  match c.phase with
  | .enter entry | .run entry | .leave entry | .drop entry | .closing entry | .returned entry =>
    some entry
  | .pop | .panicked => none

/-- The callback has popped the `n`-th runnable. -/
def Callback.took (n : Nat) (c : Callback) : Nat :=
  if c.entry.any (·.runnable == n) then 1 else 0

/-- Over the three queues. -/
def total (f : Priority → Nat) : Nat := f .high + f .normal + f .low

theorem total_update {α : Type} (g : α → Nat) (f : Priority → α) (p : Priority) (v : α) :
    total (fun q => g (Function.update f p v q)) + g (f p) = total (fun q => g (f q)) + g v := by
  cases p <;> simp [total, Function.update] <;> omega

theorem le_total (f : Priority → Nat) (p : Priority) : f p ≤ total f := by
  cases p <;> simp only [total] <;> omega

namespace Pool

variable {s s' : Pool}

theorem afterDrop_cases (s : Pool) (entry : Entry) :
    s.afterDrop entry = .closing entry ∨ s.afterDrop entry = .returned entry := by
  unfold afterDrop
  split
  · exact .inl rfl
  · exact .inr rfl

theorem afterDrop_ne_pop (s : Pool) (entry : Entry) : s.afterDrop entry ≠ .pop := by
  rcases s.afterDrop_cases entry with h | h <;> rw [h] <;> nofun

theorem afterDrop_ne_panicked (s : Pool) (entry : Entry) : s.afterDrop entry ≠ .panicked := by
  rcases s.afterDrop_cases entry with h | h <;> rw [h] <;> nofun

/-- A callback that has dropped its own handle holds none. -/
theorem held_afterDrop (s : Pool) (p : Priority) (entry : Entry) :
    Callback.held ⟨p, s.afterDrop entry⟩ = 0 := by
  rcases s.afterDrop_cases entry with h | h <;> rw [h] <;> rfl

theorem entry_afterDrop (s : Pool) (p : Priority) (entry : Entry) :
    Callback.entry ⟨p, s.afterDrop entry⟩ = some entry := by
  rcases s.afterDrop_cases entry with h | h <;> rw [h] <;> rfl

/-- The handles there are. -/
def handles (s : Pool) : Nat :=
  s.users + tally Task.held s.tasks + total (fun p => (s.queue p).length) +
    tally Callback.held s.callbacks

structure Counted (s : Pool) : Prop where
  strong : s.strong = s.handles
  queued : ∀ p, (s.queue p).length = s.submitted p + tally (Task.unsubmitted p) s.tasks +
    tally (Callback.unpopped p) s.callbacks

theorem counted_init : Counted init := ⟨rfl, fun _ => rfl⟩

/-- The count does not reach what the code that runs inside a callback stands on. -/
theorem Counted.le {k : Nat} {c : Callback} (h : Counted s) (hk : s.callbacks[k]? = some c) :
    s.users + c.held ≤ s.strong := by
  have hle := le_tally Callback.held hk
  rw [h.strong]
  unfold handles
  omega

/-- A callback that is about to pop is one of the things its queue's length counts. -/
theorem Counted.not_empty {k : Nat} {p : Priority} (h : Counted s)
    (hk : s.callbacks[k]? = some ⟨p, .pop⟩) : s.queue p ≠ [] := by
  intro hq
  have hone := le_tally (Callback.unpopped p) hk
  have hlength := h.queued p
  simp only [Callback.unpopped, if_true] at hone
  rw [hq, List.length_nil] at hlength
  omega

/-- Past its pop, a callback takes and drops handles. -/
theorem Counted.proceed {k strong : Nat} {p : Priority} {phase phase' : Phase} (h : Counted s)
    (hk : s.callbacks[k]? = some ⟨p, phase⟩) (hp : phase ≠ .pop) (hp' : phase' ≠ .pop)
    (hstrong : strong + Callback.held ⟨p, phase⟩ = s.strong + Callback.held ⟨p, phase'⟩) :
    Counted {s.setPhase k p phase' with strong} := by
  have hcount := h.strong
  have hheld := tally_set Callback.held hk ⟨p, phase'⟩
  refine ⟨?_, fun q => ?_⟩
  · simp only [handles, setPhase] at hcount ⊢
    omega
  · have hun := tally_set (Callback.unpopped q) hk ⟨p, phase'⟩
    have hlength := h.queued q
    simp only [Callback.unpopped, Callback.mk.injEq, hp, hp', and_false, if_false] at hun
    simp only [setPhase]
    omega

/-- The entry, handle and all, moves from the queue to the callback. -/
theorem counted_pops {k : Nat} {p : Priority} {entry : Entry} {rest : List Entry} (h : Counted s)
    (hk : s.callbacks[k]? = some ⟨p, .pop⟩) (hq : s.queue p = entry :: rest) : Counted
      {s.setPhase k p (.enter entry) with queue := Function.update s.queue p rest} := by
  have hcount := h.strong
  have hheld := tally_set Callback.held hk ⟨p, .enter entry⟩
  have htotal := total_update List.length s.queue p rest
  rw [hq, List.length_cons] at htotal
  refine ⟨?_, fun q => ?_⟩
  · simp only [handles, setPhase, Callback.held] at hcount hheld ⊢
    omega
  · have hun := tally_set (Callback.unpopped q) hk ⟨p, .enter entry⟩
    have hlength := h.queued q
    simp only [setPhase]
    by_cases hqp : q = p
    · subst hqp
      rw [Function.update_self]
      rw [hq, List.length_cons] at hlength
      simp [Callback.unpopped] at hun
      omega
    · rw [Function.update_of_ne hqp]
      simp [Callback.unpopped, Ne.symm hqp] at hun
      omega

theorem counted_callback {k : Nat} (h : Counted s) (hs : s.callback k = some s') : Counted s' := by
  cases callback_cases hs with
  | panics p hk hq => exact absurd hq (h.not_empty hk)
  | pops p entry rest hk hq => exact counted_pops h hk hq
  | enters p entry hk => exact h.proceed hk nofun nofun rfl
  | runs p entry hk => exact h.proceed hk nofun nofun rfl
  | leaves p entry hk =>
    have hle := h.le hk
    refine h.proceed hk nofun nofun ?_
    simp only [Callback.held] at hle ⊢
    omega
  | drops p entry hk =>
    have hle := h.le hk
    refine h.proceed hk nofun (s.afterDrop_ne_pop entry) ?_
    rw [held_afterDrop]
    simp only [Callback.held] at hle ⊢
    omega

theorem counted_push {t : Nat} {task : Task} (h : Counted s) (ht : s.tasks[t]? = some task) :
    Counted (s.pushTask t task) := by
  have hcount := h.strong
  have hheld := tally_set Task.held ht {task with pushing := task.pushing + 1}
  have htotal := total_update List.length s.queue task.priority
    (s.queue task.priority ++ [⟨s.pushes, t⟩])
  rw [List.length_append, List.length_singleton] at htotal
  refine ⟨?_, fun q => ?_⟩
  · simp only [handles, pushTask, setTask, Task.held] at hcount hheld ⊢
    omega
  · have hun := tally_set (Task.unsubmitted q) ht {task with pushing := task.pushing + 1}
    have hlength := h.queued q
    simp only [pushTask, setTask, Task.unsubmitted] at hun ⊢
    by_cases hq : task.priority = q
    · subst hq
      rw [Function.update_self, List.length_append, List.length_singleton]
      simp only [if_true] at hun
      omega
    · rw [Function.update_of_ne (Ne.symm hq)]
      simp only [hq, if_false] at hun
      omega

theorem counted_submit {t pushing : Nat} {task : Task} (h : Counted s)
    (ht : s.tasks[t]? = some task) (hp : task.pushing = pushing + 1) :
    Counted (s.submitWork t task pushing) := by
  have hcount := h.strong
  have hheld := tally_set Task.held ht {task with pushing}
  refine ⟨?_, fun q => ?_⟩
  · simp only [handles, submitWork, setTask, Task.held] at hcount hheld ⊢
    omega
  · have hun := tally_set (Task.unsubmitted q) ht {task with pushing}
    have hlength := h.queued q
    simp only [submitWork, setTask, Task.unsubmitted] at hun ⊢
    by_cases hq : task.priority = q
    · subst hq
      rw [Function.update_self]
      simp only [if_true] at hun
      omega
    · rw [Function.update_of_ne (Ne.symm hq)]
      simp only [hq, if_false] at hun
      omega

theorem counted_dropClosure {t : Nat} {task : Task} (h : Counted s)
    (ht : s.tasks[t]? = some task) (hc : task.closure = true) :
    Counted {s.setTask t {task with closure := false} with strong := s.strong - 1} := by
  have hcount := h.strong
  have hheld := tally_set Task.held ht {task with closure := false}
  refine ⟨?_, fun q => ?_⟩
  · simp only [handles, setTask, Task.held, hc, if_true, Bool.false_eq_true, if_false]
      at hcount hheld ⊢
    omega
  · have hun := tally_set (Task.unsubmitted q) ht {task with closure := false}
    have hlength := h.queued q
    simp only [setTask, Task.unsubmitted] at hun ⊢
    omega

theorem counted_start {p : Priority} {submitted : Nat} (h : Counted s)
    (hp : s.submitted p = submitted + 1) : Counted
      {s with
        submitted := Function.update s.submitted p submitted
        callbacks := s.callbacks ++ [⟨p, .pop⟩]} := by
  refine ⟨by simpa [handles, Callback.held] using h.strong, fun q => ?_⟩
  have hlength := h.queued q
  simp only [tally_append, tally_cons, tally_nil, Callback.unpopped, Callback.mk.injEq, and_true]
  by_cases hq : p = q
  · subst hq
    rw [Function.update_self]
    simp only [if_true]
    omega
  · rw [Function.update_of_ne (Ne.symm hq)]
    simp only [hq, if_false]
    omega

/-- **The step lemma** of the two counts. -/
theorem counted_step {a : Action} (h : Counted s) (hs : step s a = some s') : Counted s' := by
  have hcount := h.strong
  cases step_cases hs with
  | clone =>
    refine ⟨?_, h.queued⟩
    simp only [handles] at hcount ⊢
    omega
  | dropHandle _ hu =>
    refine ⟨?_, h.queued⟩
    simp only [handles] at hcount ⊢
    omega
  | spawn =>
    refine ⟨?_, fun q => ?_⟩
    · simp only [handles, tally_append, tally_cons, tally_nil, Task.held, if_true] at hcount ⊢
      omega
    · simpa [Task.unsubmitted] using h.queued q
  | push t task ht => exact counted_push h ht
  | submit t task pushing ht hp => exact counted_submit h ht hp
  | dropClosure t task _ ht hc => exact counted_dropClosure h ht hc
  | start p submitted hp => exact counted_start h hp
  | callback k hcall => exact counted_callback h hcall

/-- When the last handle is gone, nothing is left that could move. -/
theorem Counted.still (h : Counted s) (hzero : s.strong = 0) (a : Action) : step s a = none := by
  have hcount := h.strong
  rw [hzero] at hcount
  unfold handles at hcount
  have htasks {t : Nat} {task : Task} (ht : s.tasks[t]? = some task) : task.closure = false := by
    have hle := le_tally Task.held ht
    refine Bool.eq_false_iff.mpr fun hc => ?_
    simp only [Task.held, hc, if_true] at hle
    omega
  have hqueue (p : Priority) : (s.queue p).length = 0 := by
    have hle := le_total (fun p => (s.queue p).length) p
    omega
  have hcalls {k : Nat} {c : Callback} (hk : s.callbacks[k]? = some c) : c.held = 0 := by
    have hle := le_tally Callback.held hk
    omega
  refine Option.eq_none_iff_forall_ne_some.mpr fun s' hs => ?_
  cases step_cases hs with
  | clone thread hr | spawn _ thread hr =>
    cases thread with
    | none =>
      have hu : 0 < s.users := of_decide_eq_true hr
      omega
    | some k =>
      change s.running k = true at hr
      unfold running at hr
      split at hr
      · rename_i hk
        cases hcalls hk
      · cases hr
  | dropHandle _ hu => omega
  | push t task ht hc | dropClosure t task _ ht hc =>
    exact Bool.false_ne_true ((htasks ht).symm.trans hc)
  | submit t task pushing ht hp =>
    have hle := le_tally (Task.unsubmitted task.priority) ht
    have hlength := h.queued task.priority
    rw [hqueue] at hlength
    simp only [Task.unsubmitted, if_true] at hle
    omega
  | start p submitted hp =>
    have hlength := h.queued p
    rw [hqueue] at hlength
    omega
  | callback k hcall =>
    cases callback_cases hcall with
    | panics p hk hq => exact h.not_empty hk hq
    | pops p entry rest hk hq =>
      have hlength := hqueue p
      rw [hq] at hlength
      cases hlength
    | enters _ _ hk | runs _ _ hk | leaves _ _ hk | drops _ _ hk =>
      exact absurd (hcalls hk) (by simp [Callback.held])

/-- A callback that stays in the destructor has dropped the last handle. -/
def Closed (s : Pool) : Prop := ∀ c ∈ s.callbacks, ∀ entry, c.phase = .closing entry → s.strong = 0

theorem closed_step {a : Action} (hcount : Counted s) (h : Closed s) (hs : step s a = some s') :
    Closed s' := by
  have hlive : s.strong ≠ 0 := fun hzero => nomatch (hcount.still hzero a).symm.trans hs
  have hopen : ∀ c ∈ s.callbacks, ∀ entry, c.phase ≠ .closing entry :=
    fun c hc entry hphase => hlive (h c hc entry hphase)
  have hset : ∀ {k p phase}, (∀ entry, phase ≠ .closing entry) →
      ∀ c ∈ s.callbacks.set k ⟨p, phase⟩, ∀ entry, c.phase ≠ .closing entry := fun hp c hc => by
    rcases List.mem_or_eq_of_mem_set hc with hc | rfl
    · exact hopen c hc
    · exact hp
  cases step_cases hs with
  | start p submitted =>
    intro c hc entry hphase
    rcases List.mem_append.mp hc with hc | hc
    · exact absurd hphase (hopen c hc entry)
    · obtain rfl := List.mem_singleton.mp hc
      cases hphase
  | callback k hcall =>
    cases callback_cases hcall with
    | panics | pops | enters | runs | leaves =>
      exact fun c hc entry hphase => absurd hphase (hset (fun _ he => by cases he) c hc entry)
    | drops p e hk =>
      intro c hc entry hphase
      rcases List.mem_or_eq_of_mem_set hc with hc | rfl
      · exact absurd hphase (hopen c hc entry)
      · -- the last handle, or there would have been no `closing`
        have hphase : s.afterDrop e = .closing entry := hphase
        unfold afterDrop at hphase
        split at hphase
        · rename_i hlast
          show s.strong - 1 = 0
          omega
        · cases hphase
  | clone | dropHandle | spawn | push | submit | dropClosure =>
    exact fun c hc entry hphase => absurd hphase (hopen c hc entry)

/-! ### Each runnable -/

/-- How often the `n`-th runnable is queued. -/
def queuedTimes (s : Pool) (n : Nat) : Nat :=
  total fun p => (s.queue p).countP (·.runnable == n)

/-- How many callbacks have popped it. -/
def poppedTimes (s : Pool) (n : Nat) : Nat := tally (Callback.took n) s.callbacks

/-- A pushed runnable is queued or popped, once; the others are nowhere. -/
structure Once (s : Pool) : Prop where
  pushed : ∀ n, n < s.pushes → s.queuedTimes n + s.poppedTimes n = 1
  fresh : ∀ n, s.pushes ≤ n → s.queuedTimes n + s.poppedTimes n = 0

theorem once_init : Once init := ⟨nofun, fun _ _ => rfl⟩

/-- Runnables move, and none comes or goes. -/
theorem Once.move (h : Once s) (hp : s'.pushes = s.pushes)
    (hn : ∀ n, s'.queuedTimes n + s'.poppedTimes n = s.queuedTimes n + s.poppedTimes n) :
    Once s' := by
  refine ⟨fun n hlt => ?_, fun n hle => ?_⟩
  · rw [hn]
    exact h.pushed n (hp ▸ hlt)
  · rw [hn]
    exact h.fresh n (hp ▸ hle)

/-- A callback moves on with what it has popped. -/
theorem Once.proceed {k strong : Nat} {p : Priority} {phase phase' : Phase} (h : Once s)
    (hk : s.callbacks[k]? = some ⟨p, phase⟩)
    (he : Callback.entry ⟨p, phase'⟩ = Callback.entry ⟨p, phase⟩) :
    Once {s.setPhase k p phase' with strong} := by
  refine h.move rfl fun n => ?_
  have htook := tally_set (Callback.took n) hk ⟨p, phase'⟩
  have hsame : Callback.took n ⟨p, phase'⟩ = Callback.took n ⟨p, phase⟩ := by
    unfold Callback.took
    rw [he]
  simp only [queuedTimes, poppedTimes, setPhase]
  omega

/-- The head of the queue is the callback's now. -/
theorem once_pops {k : Nat} {p : Priority} {entry : Entry} {rest : List Entry} (h : Once s)
    (hk : s.callbacks[k]? = some ⟨p, .pop⟩) (hq : s.queue p = entry :: rest) : Once
      {s.setPhase k p (.enter entry) with queue := Function.update s.queue p rest} := by
  refine h.move rfl fun n => ?_
  have htook := tally_set (Callback.took n) hk ⟨p, .enter entry⟩
  have htotal := total_update (List.countP (·.runnable == n)) s.queue p rest
  rw [hq, List.countP_cons] at htotal
  simp only [queuedTimes, poppedTimes, setPhase]
  by_cases he : entry.runnable = n <;>
    simp [Callback.took, Callback.entry, he] at htook htotal ⊢ <;> omega

theorem once_callback {k : Nat} (h : Once s) (hs : s.callback k = some s') : Once s' := by
  cases callback_cases hs with
  | panics p hk => exact h.proceed hk rfl
  | pops p entry rest hk hq => exact once_pops h hk hq
  | enters p entry hk => exact h.proceed hk rfl
  | runs p entry hk => exact h.proceed hk rfl
  | leaves p entry hk => exact h.proceed hk rfl
  | drops p entry hk => exact h.proceed hk (s.entry_afterDrop p entry)

theorem once_push {t : Nat} {task : Task} (h : Once s) : Once (s.pushTask t task) := by
  have hqueued : ∀ n, (s.pushTask t task).queuedTimes n =
      s.queuedTimes n + if s.pushes = n then 1 else 0 := fun n => by
    have htotal := total_update (List.countP (·.runnable == n)) s.queue task.priority
      (s.queue task.priority ++ [⟨s.pushes, t⟩])
    rw [List.countP_append, List.countP_singleton] at htotal
    simp only [queuedTimes, pushTask, setTask]
    by_cases hn : s.pushes = n <;> simp [hn] at htotal ⊢ <;> omega
  have hpopped : ∀ n, (s.pushTask t task).poppedTimes n = s.poppedTimes n := fun _ => rfl
  refine ⟨fun n hlt => ?_, fun n hle => ?_⟩
  · rw [hqueued, hpopped]
    by_cases hn : s.pushes = n
    · have := h.fresh n (Nat.le_of_eq hn)
      simp only [hn, if_true]
      omega
    · have := h.pushed n (Nat.lt_of_le_of_ne (Nat.le_of_lt_succ hlt) (Ne.symm hn))
      simp only [hn, if_false]
      omega
  · have hlt : s.pushes < n := hle
    have := h.fresh n (Nat.le_of_lt hlt)
    rw [hqueued, hpopped, if_neg (Nat.ne_of_lt hlt)]
    exact this

theorem once_step {a : Action} (h : Once s) (hs : step s a = some s') : Once s' := by
  cases step_cases hs with
  | push t task => exact once_push h
  | start p submitted =>
    refine h.move rfl fun n => ?_
    simp [queuedTimes, poppedTimes, Callback.took, Callback.entry]
  | callback k hcall => exact once_callback h hcall
  | clone | dropHandle | spawn | submit | dropClosure => exact ⟨h.pushed, h.fresh⟩

/-! ### Each queue -/

/-- The priority of the handle a task was spawned with. -/
def priorityOf (s : Pool) (t : Nat) : Option Priority := s.tasks[t]?.map (·.priority)

/-- An entry is in, or came from, the queue of its task's priority. -/
structure Own (s : Pool) : Prop where
  queued : ∀ p, ∀ e ∈ s.queue p, s.priorityOf e.task = some p
  popped : ∀ c ∈ s.callbacks, ∀ e, c.entry = some e → s.priorityOf e.task = some c.queue

theorem own_init : Own init := ⟨nofun, nofun⟩

/-- A task keeps the priority it was spawned with. -/
theorem priorityOf_set {t : Nat} {task : Task} (ht : s.tasks[t]? = some task) (task' : Task)
    (hp : task'.priority = task.priority) (t' : Nat) :
    (s.tasks.set t task')[t']?.map (·.priority) = s.priorityOf t' := by
  unfold priorityOf
  rw [List.getElem?_set]
  by_cases h : t = t'
  · subst h
    obtain ⟨hlt, rfl⟩ := List.getElem?_eq_some_iff.mp ht
    simp [hlt, hp]
  · simp [h]

theorem step_priorityOf {a : Action} {t : Nat} {p : Priority} (hs : step s a = some s')
    (h : s.priorityOf t = some p) : s'.priorityOf t = some p := by
  cases step_cases hs with
  | spawn priority =>
    unfold priorityOf at h ⊢
    obtain ⟨task, ht, hp⟩ := Option.map_eq_some_iff.mp h
    rw [List.getElem?_append_left (List.getElem?_eq_some_iff.mp ht).1, ht]
    exact congrArg some hp
  | push _ task ht =>
    exact (priorityOf_set ht {task with pushing := task.pushing + 1} rfl t).trans h
  | submit _ task pushing ht => exact (priorityOf_set ht {task with pushing} rfl t).trans h
  | dropClosure _ task _ ht =>
    exact (priorityOf_set ht {task with closure := false} rfl t).trans h
  | callback k hcall => cases callback_cases hcall <;> exact h
  | clone | dropHandle | start => exact h

/-- Entries and callbacks that were there are where they belong; so must the new ones be. -/
theorem Own.move {a : Action} (h : Own s) (hs : step s a = some s')
    (hq : ∀ p, ∀ e ∈ s'.queue p, e ∈ s.queue p ∨ s'.priorityOf e.task = some p)
    (hc : ∀ c ∈ s'.callbacks, ∀ e, c.entry = some e →
      (∃ d ∈ s.callbacks, d.entry = some e ∧ d.queue = c.queue) ∨ e ∈ s.queue c.queue) :
    Own s' := by
  refine ⟨fun p e he => ?_, fun c hmem e he => ?_⟩
  · rcases hq p e he with hold | hnew
    · exact step_priorityOf hs (h.queued p e hold)
    · exact hnew
  · rcases hc c hmem e he with ⟨d, hd, hde, hdq⟩ | hold
    · rw [← hdq]
      exact step_priorityOf hs (h.popped d hd e hde)
    · exact step_priorityOf hs (h.queued _ e hold)

/-- A callback's phase changes: what it has popped it had, or has from its queue. -/
theorem mem_setPhase {k : Nat} {p : Priority} {phase phase' : Phase} {c : Callback} {e : Entry}
    (hk : s.callbacks[k]? = some ⟨p, phase⟩)
    (hphase : Callback.entry ⟨p, phase'⟩ = Callback.entry ⟨p, phase⟩ ∨
      ∀ e, Callback.entry ⟨p, phase'⟩ = some e → e ∈ s.queue p)
    (hc : c ∈ s.callbacks.set k ⟨p, phase'⟩) (he : c.entry = some e) :
    (∃ d ∈ s.callbacks, d.entry = some e ∧ d.queue = c.queue) ∨ e ∈ s.queue c.queue := by
  rcases List.mem_or_eq_of_mem_set hc with hc | rfl
  · exact .inl ⟨c, hc, he, rfl⟩
  · rcases hphase with hsame | hqueue
    · exact .inl ⟨_, List.mem_of_getElem? hk, hsame.symm.trans he, rfl⟩
    · exact .inr (hqueue e he)

theorem own_callback {k : Nat} (h : Own s) (hs : step s (.callback k) = some s') : Own s' := by
  have hcall : s.callback k = some s' := hs
  cases callback_cases hcall with
  | pops p entry rest hk hq =>
    refine h.move hs (fun q e he => .inl ?_) fun c hc e he => mem_setPhase hk (.inr ?_) hc he
    · by_cases hqp : q = p
      · subst hqp
        have he : e ∈ rest := by simpa using he
        rw [hq]
        exact List.mem_cons_of_mem _ he
      · simpa [hqp] using he
    · intro e he
      obtain rfl : entry = e := Option.some.inj he
      rw [hq]
      exact List.mem_cons_self ..
  | panics p hk | enters p _ hk | runs p _ hk | leaves p _ hk =>
    refine h.move hs (fun _ _ he => .inl he) fun c hc e he => mem_setPhase hk ?_ hc he
    exact .inl rfl
  | drops p entry hk =>
    refine h.move hs (fun _ _ he => .inl he) fun c hc e he => mem_setPhase hk ?_ hc he
    exact .inl (s.entry_afterDrop p entry)

theorem own_step {a : Action} (h : Own s) (hs : step s a = some s') : Own s' := by
  have hkeep : ∀ c ∈ s.callbacks, ∀ e, c.entry = some e →
      (∃ d ∈ s.callbacks, d.entry = some e ∧ d.queue = c.queue) ∨ e ∈ s.queue c.queue :=
    fun c hc e he => .inl ⟨c, hc, he, rfl⟩
  cases step_cases hs with
  | push t task ht =>
    refine h.move hs (fun p e he => ?_) hkeep
    have hown : (s.pushTask t task).priorityOf t = some task.priority :=
      step_priorityOf hs (by simp [priorityOf, ht])
    by_cases hp : p = task.priority
    · subst hp
      have he : e ∈ s.queue task.priority ∨ e = ⟨s.pushes, t⟩ := by
        simpa [pushTask, setTask] using he
      rcases he with he | rfl
      · exact .inl he
      · exact .inr hown
    · have he : e ∈ s.queue p := by simpa [pushTask, setTask, hp] using he
      exact .inl he
  | start p submitted =>
    refine h.move hs (fun _ _ he => .inl he) fun c hc e he => ?_
    rcases List.mem_append.mp hc with hc | hc
    · exact hkeep c hc e he
    · obtain rfl := List.mem_singleton.mp hc
      cases he
  | callback k => exact own_callback h hs
  | clone | dropHandle | spawn | submit | dropClosure =>
    exact h.move hs (fun _ _ he => .inl he) hkeep

/-! ### No pop of an empty queue -/

/-- No callback has met an empty queue. -/
def Unpanicked (s : Pool) : Prop := ∀ c ∈ s.callbacks, c.phase ≠ .panicked

theorem unpanicked_step {a : Action} (hcount : Counted s) (h : Unpanicked s)
    (hs : step s a = some s') : Unpanicked s' := by
  have hset : ∀ {k p phase}, phase ≠ .panicked → ∀ c ∈ s.callbacks.set k ⟨p, phase⟩,
      c.phase ≠ .panicked := fun hp c hc => by
    rcases List.mem_or_eq_of_mem_set hc with hc | rfl
    · exact h c hc
    · exact hp
  cases step_cases hs with
  | start p submitted =>
    intro c hc
    rcases List.mem_append.mp hc with hc | hc
    · exact h c hc
    · obtain rfl := List.mem_singleton.mp hc
      nofun
  | callback k hcall =>
    cases callback_cases hcall with
    | panics p hk hq => exact absurd hq (hcount.not_empty hk)
    | pops | enters | runs | leaves => exact hset nofun
    | drops p entry => exact hset (s.afterDrop_ne_panicked entry)
  | clone | dropHandle | spawn | push | submit | dropClosure => exact h

end Pool

end Wae.Threadpool
