import Mathlib.Data.List.Forall2
import Mathlib.Logic.Relation
import Wae.Context.Guards

/-! What a task hands down.

The free `spawn` spawns on the handle that is current. In a callback that is the handle with
which the callback's task was queued, so a task's children go to its own pool, and to the
queue of its own priority, and so do theirs. Only a guard that is made or dropped on the
callback's thread can put another handle there. -/
namespace Wae.Context

/-- The queue that `push_task` pushes to. -/
def Handle.queue (h : Handle) : Queue := (h.inner, h.priority)

namespace System
open Transition

/-- The queue that the task's schedule closure pushes to. -/
def queueOf (s : System) (task : Nat) : Option Queue := (s.tasks[task]?).map (·.queue)

structure Lineage where
  /-- The tasks of the queued entries. -/
  queued : Queue → List Nat
  /-- The task that each callback runs. -/
  ran : List Nat
  /-- On the thread, a guard was made or dropped since its callback began. -/
  moved : Nat → Bool
  /-- For each kept handle, the callback that found it current, before any guard. -/
  taken : List (Option Nat)
  /-- For each task, the one whose callback spawned it on such a handle. -/
  parent : List (Option Nat)

namespace Lineage

/-- The task that hands this kept handle down. -/
def giver (r : Lineage) (handle : Nat) : Option Nat :=
  (r.taken[handle]?).join.bind fun n => r.ran[n]?

def push (r : Lineage) (q : Queue) (task : Nat) : Lineage :=
  {r with queued := Function.update r.queued q (r.queued q ++ [task])}

/-- The task was spawned by the other, or by one that was, and so on. -/
def Descends (r : Lineage) : Nat → Nat → Prop :=
  Relation.ReflTransGen fun task parent => r.parent[task]? = some (some parent)

end Lineage

def lineage : Observer System Action Lineage where
  init := ⟨fun _ => [], [], fun _ => false, [], []⟩
  see s a _ r :=
    match a with
    | .build _ | .setPriority _ _ => {r with taken := r.taken ++ [none]}
    | .current t => {r with taken := r.taken ++ [if r.moved t then none else s.running t]}
    | .spawn i =>
      match s.handles[i]? with
      | some kept => {r with parent := r.parent ++ [r.giver i]}.push kept.value.queue s.tasks.length
      | none => r
    | .schedule task =>
      match s.tasks[task]? with
      | some h => r.push h.queue task
      | none => r
    | .start t q =>
      match r.queued q with
      | task :: rest =>
        {r with
          queued := Function.update r.queued q rest
          ran := r.ran ++ [task]
          moved := Function.update r.moved t false}
      | [] => r
    | .enter t _ | .dropGuard t _ => {r with moved := Function.update r.moved t true}
    | .finish _ | .mayBlock _ _ | .mayBlockCurrent _ => r

/-- The handle is the task's own, in the callback of this number. -/
def Own (s : System) (r : Lineage) (n : Nat) (h : Handle) : Prop :=
  ∃ task own, r.ran[n]? = some task ∧ s.tasks[task]? = some own ∧
    h = {own with callbackInstance := some n}

/-- The record fits the system. -/
structure Traced (s : System) (r : Lineage) : Prop where
  queued : ∀ q, List.Forall₂ (fun task h => s.tasks[task]? = some h ∧ h.queue = q)
    (r.queued q) (s.queue q)
  ran : r.ran.length = s.callbacks
  running : ∀ t callback, (s.thread t).callback = some callback →
    callback.callbackInstance < s.callbacks ∧
    (r.moved t = false → ∃ h, s.tryCurrent t = some h ∧ Own s r callback.callbackInstance h)
  handles : r.taken.length = s.handles.length
  taken : ∀ i n : Nat, r.taken[i]? = some (some n) →
    ∃ kept : Within Handle, s.handles[i]? = some kept ∧ Own s r n kept.value
  tasks : r.parent.length = s.tasks.length
  parent : ∀ task p : Nat, r.parent[task]? = some (some p) → s.queueOf task = s.queueOf p

theorem getElem?_of_begins {α : Type} {l l' : List α} (h : l <+: l') {i : Nat} {a : α}
    (hi : l[i]? = some a) : l'[i]? = some a := by
  obtain ⟨_, rfl⟩ := h
  obtain ⟨hlt, _⟩ := List.getElem?_eq_some_iff.mp hi
  exact (List.getElem?_append_left hlt).trans hi

section Steps

variable {s s' : System} {r r' : Lineage} {n : Nat} {h : Handle} {t : Nat}

/-- Later callbacks and tasks leave whose handle it is. -/
theorem Own.mono (hown : Own s r n h) (hran : r.ran <+: r'.ran) (htasks : s.tasks <+: s'.tasks) :
    Own s' r' n h := by
  obtain ⟨task, own, hrun, htask, heq⟩ := hown
  exact ⟨task, own, getElem?_of_begins hran hrun, getElem?_of_begins htasks htask, heq⟩

theorem queueOf_mono (s' : System) (htasks : s.tasks <+: s'.tasks) {task : Nat} {q : Queue}
    (hq : s.queueOf task = some q) : s'.queueOf task = some q := by
  obtain ⟨own, htask, rfl⟩ := Option.map_eq_some_iff.mp hq
  simp [queueOf, getElem?_of_begins htasks htask]

/-- An own handle is of its task's queue. -/
theorem Own.queue (hown : Own s r n h) : ∃ task, r.ran[n]? = some task ∧
    s.queueOf task = some h.queue := by
  obtain ⟨task, own, hrun, htask, rfl⟩ := hown
  exact ⟨task, hrun, by simp [queueOf, htask, Handle.queue]⟩

namespace Traced

theorem init : Traced System.init lineage.init :=
  ⟨fun _ => .nil, rfl, by simp [System.init], rfl, by simp [lineage], rfl, by simp [lineage]⟩

theorem keep (hr : Traced s r) (callback : Option Nat) {finder : Option Nat}
    (hfinder : ∀ n, finder = some n → Own s r n h) :
    Traced (s.keep h callback) {r with taken := r.taken ++ [finder]} := by
  have hlength := hr.handles
  refine ⟨hr.queued, hr.ran, hr.running, ?_, fun i n hi => ?_, hr.tasks, hr.parent⟩
  · simp [System.keep, hlength]
  · rcases Nat.lt_or_ge i r.taken.length with hlt | hge
    · obtain ⟨kept, hkept, hown⟩ := hr.taken i n ((List.getElem?_append_left hlt).symm.trans hi)
      exact ⟨kept, (List.getElem?_append_left (hlength ▸ hlt)).trans hkept, hown⟩
    · rw [List.getElem?_append_right hge, List.getElem?_singleton] at hi
      split at hi
      · rename_i hzero
        obtain rfl : i = s.handles.length := by omega
        exact ⟨⟨h, callback⟩, by simp [System.keep], hfinder n (Option.some.inj hi)⟩
      · cases hi

theorem push (hr : Traced s r) {task : Nat} (htask : s.tasks[task]? = some h) :
    Traced (s.pushTask h) (r.push h.queue task) := by
  refine ⟨fun q => ?_, hr.ran, hr.running, hr.handles, hr.taken, hr.tasks, hr.parent⟩
  show List.Forall₂ _ (Function.update r.queued h.queue _ q) (Function.update s.queue h.queue _ q)
  by_cases hq : q = h.queue
  · subst hq
    rw [Function.update_self, Function.update_self]
    exact List.rel_append (hr.queued _) (.cons ⟨htask, rfl⟩ .nil)
  · rw [Function.update_of_ne hq, Function.update_of_ne hq]
    exact hr.queued q

/-- A new task, whose parent's handles push where its own does. -/
theorem spawn (hr : Traced s r) {parent : Option Nat}
    (hparent : ∀ p, parent = some p → s.queueOf p = some h.queue) :
    Traced {s with tasks := s.tasks ++ [h]} {r with parent := r.parent ++ [parent]} := by
  have hbegins : s.tasks <+: s.tasks ++ [h] := List.prefix_append ..
  have hlength := hr.tasks
  refine ⟨fun q => ?_, hr.ran, fun t callback ht => ?_, hr.handles, fun i n hi => ?_, ?_,
    fun task p hp => ?_⟩
  · exact (hr.queued q).imp fun _ _ hboth => ⟨getElem?_of_begins hbegins hboth.1, hboth.2⟩
  · obtain ⟨hlt, hcurrent⟩ := hr.running t callback ht
    refine ⟨hlt, fun hmoved => ?_⟩
    obtain ⟨current, htry, hown⟩ := hcurrent hmoved
    exact ⟨current, htry, hown.mono (List.prefix_refl _) hbegins⟩
  · obtain ⟨kept, hkept, hown⟩ := hr.taken i n hi
    exact ⟨kept, hkept, hown.mono (List.prefix_refl _) hbegins⟩
  · simp [hlength]
  · rcases Nat.lt_or_ge task r.parent.length with hlt | hge
    · have hold := hr.parent task p ((List.getElem?_append_left hlt).symm.trans hp)
      have htask : s.queueOf task = some (s.tasks.get ⟨task, hlength ▸ hlt⟩).queue := by
        simp [queueOf, hlength ▸ hlt]
      rw [queueOf_mono {s with tasks := s.tasks ++ [h]} hbegins htask]
      rw [queueOf_mono {s with tasks := s.tasks ++ [h]} hbegins (hold.symm.trans htask)]
    · rw [List.getElem?_append_right hge, List.getElem?_singleton] at hp
      split at hp
      · rename_i hzero
        obtain rfl : task = s.tasks.length := by omega
        have hp := hparent p (Option.some.inj hp)
        rw [queueOf_mono {s with tasks := s.tasks ++ [h]} hbegins hp]
        simp [queueOf]
      · cases hp

theorem start (hr : Traced s r) {q : Queue} {rest : List Handle} {task : Nat}
    {queued : List Nat} (hq : s.queue q = h :: rest) (htask : r.queued q = task :: queued) :
    Traced ({s with queue := Function.update s.queue q rest}.start t h)
      {r with
        queued := Function.update r.queued q queued
        ran := r.ran ++ [task]
        moved := Function.update r.moved t false} := by
  have hhead := hr.queued q
  rw [hq, htask] at hhead
  cases hhead with
  | cons hown hrest =>
  have hbegins : r.ran <+: r.ran ++ [task] := List.prefix_append ..
  have hlength := hr.ran
  refine ⟨fun q' => ?_, ?_, fun t' callback ht => ?_, hr.handles, fun i n hi => ?_, hr.tasks,
    hr.parent⟩
  · show List.Forall₂ _ (Function.update r.queued q queued q') (Function.update s.queue q rest q')
    by_cases hqs : q' = q
    · subst hqs
      rw [Function.update_self, Function.update_self]
      exact hrest
    · rw [Function.update_of_ne hqs, Function.update_of_ne hqs]
      exact hr.queued q'
  · simp [System.start, hlength]
  · by_cases hts : t' = t
    · subst hts
      obtain rfl : callback = ⟨s.callbacks, ⟨(s.thread t').handle⟩⟩ := by
        simpa [System.start] using ht.symm
      refine ⟨Nat.lt_succ_self _, fun _ => ⟨{h with callbackInstance := some s.callbacks}, ?_, ?_⟩⟩
      · simp [System.start, tryCurrent]
      · exact ⟨task, h, by simp [← hlength], hown.1, rfl⟩
    · have ht : (s.thread t').callback = some callback := by
        simpa [System.start, Function.update_of_ne hts] using ht
      obtain ⟨hlt, hcurrent⟩ := hr.running t' callback ht
      refine ⟨Nat.lt_succ_of_lt hlt, fun hmoved => ?_⟩
      have hmoved : r.moved t' = false := by simpa [Function.update_of_ne hts] using hmoved
      obtain ⟨current, htry, hown⟩ := hcurrent hmoved
      refine ⟨current, ?_, hown.mono hbegins (List.prefix_refl _)⟩
      simpa [System.start, tryCurrent, Function.update_of_ne hts] using htry
  · obtain ⟨kept, hkept, hown⟩ := hr.taken i n hi
    exact ⟨kept, hkept, hown.mono hbegins (List.prefix_refl _)⟩

/-- A guard is made or dropped on the thread. -/
theorem guard (hr : Traced s r) (t : Nat) (handle : Option Handle)
    (guards : List (Option (Within ContextGuard))) :
    Traced {s.setThread t {s.thread t with handle} with guards}
      {r with moved := Function.update r.moved t true} := by
  refine ⟨hr.queued, hr.ran, fun t' callback ht => ?_, hr.handles, hr.taken, hr.tasks, hr.parent⟩
  by_cases hts : t' = t
  · subst hts
    have ht : (s.thread t').callback = some callback := by simpa using ht
    refine ⟨(hr.running t' callback ht).1, fun hmoved => ?_⟩
    simp at hmoved
  · have ht : (s.thread t').callback = some callback := by
      simpa [setThread, Function.update_of_ne hts] using ht
    obtain ⟨hlt, hcurrent⟩ := hr.running t' callback ht
    refine ⟨hlt, fun hmoved => ?_⟩
    have hmoved : r.moved t' = false := by simpa [Function.update_of_ne hts] using hmoved
    obtain ⟨current, htry, hown⟩ := hcurrent hmoved
    refine ⟨current, ?_, hown⟩
    simpa [setThread, tryCurrent, Function.update_of_ne hts] using htry

theorem finish (hr : Traced s r) (t : Nat) (handle : Option Handle) :
    Traced (s.setThread t ⟨handle, none⟩) r := by
  refine ⟨hr.queued, hr.ran, fun t' callback ht => ?_, hr.handles, hr.taken, hr.tasks, hr.parent⟩
  by_cases hts : t' = t
  · subst hts
    simp at ht
  · have ht : (s.thread t').callback = some callback := by
      simpa [setThread, Function.update_of_ne hts] using ht
    obtain ⟨hlt, hcurrent⟩ := hr.running t' callback ht
    refine ⟨hlt, fun hmoved => ?_⟩
    obtain ⟨current, htry, hown⟩ := hcurrent hmoved
    refine ⟨current, ?_, hown⟩
    simpa [setThread, tryCurrent, Function.update_of_ne hts] using htry

end Traced

/-- What a step finds current on a thread that has moved no guard is its callback's own. -/
theorem own_current (hr : Traced s r) {t : Nat} (ht : (s.thread t).handle = some h) (n : Nat)
    (hn : (if r.moved t then none else s.running t) = some n) : Own s r n h := by
  split at hn
  · cases hn
  · rename_i hmoved
    obtain ⟨callback, hcallback, rfl⟩ := Option.map_eq_some_iff.mp hn
    obtain ⟨_, hcurrent⟩ := hr.running t callback hcallback
    obtain ⟨current, htry, hown⟩ := hcurrent (Bool.eq_false_iff.mpr hmoved)
    obtain rfl : current = h := Option.some.inj (htry.symm.trans ht)
    exact hown

/-- Who hands a handle down pushes where it does. -/
theorem queueOf_giver (hr : Traced s r) {i p : Nat} {kept : Within Handle}
    (hi : s.handles[i]? = some kept) (hp : r.giver i = some p) :
    s.queueOf p = some kept.value.queue := by
  obtain ⟨n, htaken, hran⟩ := Option.bind_eq_some_iff.mp hp
  obtain ⟨kept', hkept, hown⟩ := hr.taken i n (Option.join_eq_some_iff.mp htaken)
  obtain rfl : kept = kept' := Option.some.inj (hi.symm.trans hkept)
  obtain ⟨task, htask, hqueue⟩ := hown.queue
  obtain rfl : task = p := Option.some.inj (htask.symm.trans hran)
  exact hqueue

theorem traced_step {a : Action} (hr : Traced s r) (hs : step s a = some s') :
    Traced s' (lineage.see s a s' r) := by
  cases step_cases hs with
  | build t =>
    have hkeep : Traced (s.keep ⟨s.pools, .normal, none⟩ (s.running t))
        {r with taken := r.taken ++ [none]} := hr.keep _ (by simp)
    exact ⟨hkeep.queued, hkeep.ran, hkeep.running, hkeep.handles, hkeep.taken, hkeep.tasks,
      hkeep.parent⟩
  | current t h ht => exact hr.keep _ (own_current hr ht)
  | setPriority i priority kept hi => exact hr.keep _ (by simp)
  | spawn i kept hi =>
    have hsee : lineage.see s (.spawn i) ({s with tasks := s.tasks ++ [kept.value]}.pushTask kept.value) r =
        {r with parent := r.parent ++ [r.giver i]}.push kept.value.queue s.tasks.length := by
      simp [lineage, hi]
    rw [hsee]
    have hspawn : Traced {s with tasks := s.tasks ++ [kept.value]}
        {r with parent := r.parent ++ [r.giver i]} := hr.spawn fun p hp => queueOf_giver hr hi hp
    exact hspawn.push (by simp)
  | schedule task h ht =>
    have hsee : lineage.see s (.schedule task) (s.pushTask h) r = r.push h.queue task := by
      simp [lineage, ht]
    rw [hsee]
    exact hr.push ht
  | start t q h rest ht hq =>
    cases htask : r.queued q with
    | nil =>
      have hqueued := hr.queued q
      rw [htask, hq] at hqueued
      cases hqueued
    | cons task queued =>
      have hstart := hr.start (t := t) hq htask
      simpa only [lineage, htask] using hstart
  | finish t callback ht => exact hr.finish t _
  | enter t i kept hi => exact hr.guard t _ _
  | dropGuard t g made hg => exact hr.guard t _ _
  | mayBlock | mayBlockCurrent => exact hr

/-- All descendants of a task push where it does. -/
theorem Traced.descends (hr : Traced s r) {task ancestor : Nat} (h : r.Descends task ancestor) :
    s.queueOf task = s.queueOf ancestor := by
  induction h with
  | refl => rfl
  | tail _ hp ih => exact ih.trans (hr.parent _ _ hp)

end Steps

/-- **A task's descendants stay in its queue.** In every run, a task that was spawned on the
handle found current in the callback of another, and every task spawned so from it, pushes
to the queue of the first; in each queue are the tasks that push there, each with the handle
of its schedule closure; and while a callback has neither made nor dropped a guard on its
thread, current there is its task's own handle with the callback's own instance. -/
theorem descendants_stay (as : List Action) : (lineage.watch machine).Steps (fun _ _ u =>
    (∀ task ancestor, u.2.Descends task ancestor →
      u.1.queueOf task = u.1.queueOf ancestor) ∧
    (∀ q, List.Forall₂ (fun task h => u.1.tasks[task]? = some h ∧ h.queue = q)
      (u.2.queued q) (u.1.queue q)) ∧
    ∀ t callback, (u.1.thread t).callback = some callback → u.2.moved t = false →
      ∃ h, u.1.tryCurrent t = some h ∧ Own u.1 u.2 callback.callbackInstance h)
    (lineage.watch machine).init as := by
  apply Machine.Steps.of_kept (I := fun u => Traced u.1 u.2) _ Traced.init
  intro u a u' hr hw
  obtain ⟨hs, hsee⟩ := Observer.watch_step hw
  have hr' : Traced u'.1 u'.2 := by
    rw [hsee]
    exact traced_step hr hs
  exact ⟨hr', fun _ _ h => hr'.descends h, hr'.queued, fun t callback ht hmoved =>
    (hr'.running t callback ht).2 hmoved⟩

/-- A task's child and its child's child, on two threads. -/
example : (((lineage.watch machine).run (lineage.watch machine).init
    [.build 0, .setPriority 0 .high, .spawn 1, .start 1 (0, .high), .current 1, .spawn 2,
      .start 2 (0, .high), .finish 1, .current 2, .spawn 3]).map (·.2.parent)) =
    some [none, some 0, some 1] := by decide

end System
end Wae.Context
