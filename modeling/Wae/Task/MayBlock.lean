import Wae.Context

/-! Which callback `may_block` asks about.

A handle obtained in a callback carries its instance wherever it goes, so the question is
where handles and guards are used, not where they are kept. The invariant is that each has
the instance of the callback in which it came about, or none, and that every thread's context
has that of the callback that the thread runs. -/
namespace Wae.Context
open Transition

/-- It carries an instance, so that it matters where it is used. -/
def Handle.bound (h : Handle) : Bool := h.callbackInstance.isSome

/-- The instance is this callback's, if it carries one. -/
def Handle.Of (h : Handle) (callback : Option Nat) : Prop :=
  h.bound = true → h.callbackInstance = callback

/-- The handle it puts back carries an instance. -/
def ContextGuard.bound (guard : ContextGuard) : Bool := guard.previous.any (·.bound)

def ContextGuard.Of (guard : ContextGuard) (callback : Option Nat) : Prop :=
  ∀ h, guard.previous = some h → h.Of callback

theorem Handle.Of.mono {h : Handle} {callback callback' : Option Nat} (hof : h.Of callback)
    (hc : h.bound = true → callback = callback') : h.Of callback' :=
  fun hb => (hof hb).trans (hc hb)

theorem ContextGuard.Of.mono {guard : ContextGuard} {callback callback' : Option Nat}
    (hof : guard.Of callback) (hc : guard.bound = true → callback = callback') :
    guard.Of callback' := by
  intro h hp
  refine (hof h hp).mono fun hb => hc ?_
  rw [bound, hp]
  exact hb

namespace System

variable {s s' : System}

/-- What a call passes to `CallbackMayRunLong` is the instance of the callback that its thread
runs. -/
def AsksRunning (s : System) (a : Action) : Prop :=
  ∀ t n, s.callbackMayRunLong a = some (t, n) → s.running t = some n

/-- So it is in this step, and would be next if any thread's context were asked. -/
def Timely (s : System) (a : Action) (s' : System) : Prop :=
  s.AsksRunning a ∧ ∀ t, s'.AsksRunning (.mayBlockCurrent t)

/-- The condition on a step: a handle that carries an instance is asked or entered only in the
callback in which it was obtained, and a guard that puts one back is dropped only in the
callback in which it was made. -/
def Stays (s : System) (a : Action) (_ : System) : Prop :=
  (∀ t i kept, a = .mayBlock t i ∨ a = .enter t i → s.handles[i]? = some kept →
    kept.value.bound = true → kept.callback = s.running t) ∧
  ∀ t g made, a = .dropGuard t g → s.guards[g]? = some (some made) →
    made.value.bound = true → made.callback = s.running t

/-! ### Every step -/

structure Proper (s : System) : Prop where
  context : ∀ t, ContextGuard.Of ⟨(s.thread t).handle⟩ (s.running t)
  /-- A callback begins on a thread whose context carries no instance. -/
  previous : ∀ t callback, (s.thread t).callback = some callback → callback.context.Of none
  handles : ∀ kept ∈ s.handles, kept.value.Of kept.callback
  guards : ∀ made, some made ∈ s.guards → made.value.Of made.callback

theorem proper_init : Proper init where
  context := nofun
  previous := nofun
  handles := nofun
  guards := nofun

/-- Another handle is kept. -/
theorem Proper.keep (h : Proper s) {handle : Handle} {callback : Option Nat}
    (hof : handle.Of callback) : Proper (s.keep handle callback) where
  context := h.context
  previous := h.previous
  handles kept hk := by
    rcases List.mem_append.mp hk with hk | hk
    · exact h.handles kept hk
    · rw [List.mem_singleton.mp hk]
      exact hof
  guards := h.guards

/-- A thread changes, and with it at most the guards. -/
theorem Proper.setThread (h : Proper s) (t : Nat) (thread : Thread)
    (guards : List (Option (Within ContextGuard)))
    (hcontext : ContextGuard.Of ⟨thread.handle⟩ (thread.callback.map (·.callbackInstance)))
    (hprevious : ∀ callback, thread.callback = some callback → callback.context.Of none)
    (hguards : ∀ made, some made ∈ guards → made.value.Of made.callback) :
    Proper {s.setThread t thread with guards} where
  context u := by
    show ContextGuard.Of ⟨(Function.update s.thread t thread u).handle⟩
      ((Function.update s.thread t thread u).callback.map (·.callbackInstance))
    by_cases hu : u = t
    · subst hu
      rw [Function.update_self]
      exact hcontext
    · rw [Function.update_of_ne hu]
      exact h.context u
  previous u callback hc := by
    change (Function.update s.thread t thread u).callback = some callback at hc
    by_cases hu : u = t
    · subst hu
      rw [Function.update_self] at hc
      exact hprevious callback hc
    · rw [Function.update_of_ne hu] at hc
      exact h.previous u callback hc
  handles := h.handles
  guards := hguards

/-- **The step lemma**. -/
theorem proper_step {a : Action} (h : Proper s) (ha : Stays s a s') (hs : step s a = some s') :
    Proper s' := by
  cases step_cases hs with
  | build t =>
    have hkeep := h.keep (show Handle.Of ⟨s.pools, .normal, none⟩ (s.running t) from nofun)
    exact ⟨hkeep.context, hkeep.previous, hkeep.handles, hkeep.guards⟩
  | current t handle ht => exact h.keep (h.context t handle ht)
  | setPriority i priority kept hi =>
    exact h.keep (h.handles kept (List.mem_of_getElem? hi))
  | spawn | schedule | mayBlock | mayBlockCurrent =>
    exact ⟨h.context, h.previous, h.handles, h.guards⟩
  | start t q handle rest ht hq =>
    have hidle : s.running t = none := by
      rw [running, ht]
      rfl
    have hstart := h.setThread t ⟨some {handle with callbackInstance := some s.callbacks},
      some ⟨s.callbacks, ⟨(s.thread t).handle⟩⟩⟩ s.guards ?_ ?_ h.guards
    · exact ⟨hstart.context, hstart.previous, hstart.handles, hstart.guards⟩
    · rintro _ ⟨⟩ _
      rfl
    · rintro _ ⟨⟩
      rw [← hidle]
      exact h.context t
  | finish t callback ht =>
    exact h.setThread t _ _ (h.previous t callback ht) nofun h.guards
  | enter t i kept hi =>
    have hof := h.handles kept (List.mem_of_getElem? hi)
    refine h.setThread t _ _ ?_ (h.previous t) fun made hm => ?_
    · rintro _ ⟨⟩
      exact hof.mono (ha.1 t i kept (.inr rfl) hi)
    · rcases List.mem_append.mp hm with hm | hm
      · exact h.guards made hm
      · cases List.mem_singleton.mp hm
        exact h.context t
  | dropGuard t g made hg =>
    have hof := h.guards made (List.mem_of_getElem? hg)
    refine h.setThread t _ _ ?_ (h.previous t) fun made' hm => ?_
    · exact hof.mono (ha.2 t g made rfl hg)
    · rcases List.mem_or_eq_of_mem_set hm with hm | hm
      · exact h.guards made' hm
      · cases hm

/-- A handle asked on a thread whose callback's instance it has, if any. -/
theorem asks_of {h : Handle} {t u n : Nat} (hof : h.Of (s.running t))
    (hasks : (h.mayBlock.map fun n => (t, n)) = some (u, n)) : s.running u = some n := by
  obtain ⟨m, hm, heq⟩ := Option.map_eq_some_iff.mp hasks
  cases heq
  have hb : h.bound = true := Option.isSome_iff_exists.mpr ⟨n, hm⟩
  exact (hof hb).symm.trans hm

theorem Proper.asksRunning (h : Proper s) (t : Nat) : s.AsksRunning (.mayBlockCurrent t) := by
  intro u n hasks
  obtain ⟨handle, ht, hasks⟩ := Option.bind_eq_some_iff.mp hasks
  exact asks_of (h.context t handle ht) hasks

theorem Proper.timely {a : Action} (h : Proper s) (h' : Proper s') (ha : Stays s a s') :
    Timely s a s' := by
  refine ⟨?_, h'.asksRunning⟩
  cases a with
  | mayBlock t i =>
    intro u n hasks
    obtain ⟨kept, hi, hasks⟩ := Option.bind_eq_some_iff.mp hasks
    have hof := h.handles kept (List.mem_of_getElem? hi)
    exact asks_of (hof.mono (ha.1 t i kept (.inl rfl) hi)) hasks
  | mayBlockCurrent t => exact h.asksRunning t
  | _ => exact nofun

/-- If a handle is asked about the running callback, it is a handle of that. -/
theorem AsksRunning.running {a : Action} {h : Handle} {t : Nat} {callback : Option Nat}
    (hasks : s.AsksRunning a)
    (hcall : s.callbackMayRunLong a = h.mayBlock.map fun n => (t, n))
    (hof : h.Of callback) (hb : h.bound = true) : callback = s.running t := by
  obtain ⟨n, hn⟩ := Option.isSome_iff_exists.mp hb
  have hrunning : s.running t = some n := by
    apply hasks t n
    rw [hcall, Handle.mayBlock, hn]
    rfl
  rw [hrunning, ← hof hb, hn]

/-- What is put in a thread's context for its callback to ask is a handle of that. -/
theorem Timely.of_context {a : Action} {thread : Thread} {h : Handle} {t : Nat}
    {callback : Option Nat} (ht : Timely s a s') (hthread : s'.thread t = thread)
    (hcallback : thread.callback = (s.thread t).callback) (hhandle : thread.handle = some h)
    (hof : h.Of callback) (hb : h.bound = true) : callback = s.running t := by
  subst hthread
  have hcontext : callback = s'.running t := by
    apply (ht.2 t).running _ hof hb
    rw [callbackMayRunLong, hhandle]
    rfl
  rw [hcontext, System.running, System.running, hcallback]

theorem Timely.stays {a : Action} (ht : Timely s a s') (h : Proper s)
    (hs : step s a = some s') : Stays s a s' := by
  refine ⟨?_, ?_⟩
  · rintro t i kept (rfl | rfl) hi hb
    · have hof := h.handles kept (List.mem_of_getElem? hi)
      apply ht.1.running _ hof hb
      rw [callbackMayRunLong, hi]
      rfl
    · cases step_cases hs with
      | enter _ _ kept' hi' =>
        obtain rfl : kept = kept' := Option.some.inj (hi.symm.trans hi')
        have hof := h.handles kept (List.mem_of_getElem? hi)
        exact ht.of_context (s.setThread_self t _) rfl rfl hof hb
  · rintro t g made rfl hg hb
    cases step_cases hs with
    | dropGuard _ _ made' hg' =>
      obtain rfl : made = made' := Option.some.inj (Option.some.inj (hg.symm.trans hg'))
      have hof := h.guards made (List.mem_of_getElem? hg)
      obtain ⟨handle, hprevious, hb⟩ := (Option.any_eq_true _ _).mp hb
      exact ht.of_context (s.setThread_self t _) rfl hprevious (hof handle hprevious) hb

/-- **`CallbackMayRunLong` is asked about the callback that runs**, and would be wherever a
thread's context is asked next, exactly when no handle that carries an instance is asked or
entered outside the callback in which it was obtained, and no guard that puts one back is
dropped outside the callback in which it was made. -/
theorem asks_running (as : List Action) :
    machine.Steps Timely init as ↔ machine.Steps Stays init as :=
  ⟨Machine.Steps.of_invariant (I := Proper) (fun _ _ _ h ht hs =>
      ⟨proper_step h (ht.stays h hs) hs, ht.stays h hs⟩) proper_init,
    Machine.Steps.of_invariant (I := Proper) (fun _ _ _ h ha hs =>
      ⟨proper_step h ha hs, h.timely (proper_step h ha hs) ha⟩) proper_init⟩

/-- A task sends its handle to another thread, which asks it when the callback is over. -/
theorem kept_handle_asks_ended : ¬ ∀ as : List Action,
    machine.Steps (fun s a _ => AsksRunning s a) init as := by
  intro h
  have hkept := h [.build 0, .spawn 0, .start 1 (0, .normal), .current 1, .finish 1,
    .mayBlock 0 1]
  obtain ⟨-, hkept⟩ := hkept _ rfl
  obtain ⟨-, hkept⟩ := hkept _ rfl
  obtain ⟨-, hkept⟩ := hkept _ rfl
  obtain ⟨-, hkept⟩ := hkept _ rfl
  obtain ⟨-, hkept⟩ := hkept _ rfl
  obtain ⟨hasks, -⟩ := hkept _ rfl
  cases hasks 0 0 rfl

end System

end Wae.Context
