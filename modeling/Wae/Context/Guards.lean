import Wae.Context
import Wae.Transition.Observer

/-! What the guards of `enter` leave as the context.

A guard has the handle that was current when it was made, and its drop makes that current
again. It knows nothing of the guards that were made after it, or that have been dropped
since: it is right where those do not matter, and in particular where guards are dropped
in the reverse of the order they were made in. -/
namespace Wae.Context.System
open Transition

/-- `Handle::try_current`. -/
def tryCurrent (s : System) (t : Nat) : Option Handle := (s.thread t).handle

/-- A guard that has not been dropped. -/
structure Entered where
  guard : Nat
  handle : Handle
  /-- What was to be current before. -/
  base : Option Handle
  deriving DecidableEq, Repr

/-- What is to be current: the handle of the guard entered latest, or what was there before
all of them. -/
def wanted (before : Option Handle) : List Entered → Option Handle
  | [] => before
  | latest :: _ => some latest.handle

/-- The guards that are left without this one. -/
def without (g : Nat) (alive : List Entered) : List Entered := alive.filter fun x => x.guard ≠ g

/-- The guards that are alive, the latest first. -/
def entered (before : Option Handle) : Observer System Action (List Entered) where
  init := []
  see s a _ alive :=
    match a with
    | .enter _ i =>
      match s.handles[i]? with
      | some kept => ⟨s.guards.length, kept.value, wanted before alive⟩ :: alive
      | none => alive
    | .dropGuard _ g => without g alive
    | _ => alive

/-- Calls of `enter` on the thread, and drops, anywhere, of guards from the number `n` on. -/
def Enters (t n : Nat) : Action → Prop
  | .enter t' _ => t' = t
  | .dropGuard _ g => n ≤ g
  | _ => False

/-- What is current on the thread is what is to be. -/
def Restores (t : Nat) (before : Option Handle) (_ : System × List Entered) (_ : Action)
    (s' : System × List Entered) : Prop :=
  s'.1.tryCurrent t = wanted before s'.2

/-- The condition on a step: when a guard is dropped on the thread, what is to be current then
is what was to be when it was entered; when it is dropped elsewhere, what is to be current
stays the same. -/
def DropsInPlace (t : Nat) (before : Option Handle) (s : System × List Entered) (a : Action)
    (_ : System × List Entered) : Prop :=
  match a with
  | .dropGuard t' g => ∀ x ∈ s.2, x.guard = g →
    wanted before (without g s.2) = if t' = t then x.base else wanted before s.2
  | _ => True

/-- The guards are those that are alive, and what each has saved is its base. -/
structure Saved (n : Nat) (s : System) (alive : List Entered) : Prop where
  within : n ≤ s.guards.length
  base : ∀ x ∈ alive, ∃ made, s.guards[x.guard]? = some (some made) ∧ made.value.previous = x.base
  alive : ∀ g made, n ≤ g → s.guards[g]? = some (some made) → ∃ x ∈ alive, x.guard = g

section Steps

variable {t n : Nat} {before : Option Handle} {s s' : System} {a : Action} {alive : List Entered}

theorem saved_step (h : Saved n s alive) (hcurrent : s.tryCurrent t = wanted before alive)
    (ha : Enters t n a) (hs : step s a = some s') :
    Saved n s' ((entered before).see s a s' alive) := by
  cases step_cases hs with
  | enter t' i kept hi =>
    obtain rfl : t' = t := ha
    have hsee : (entered before).see s (.enter t' i) {s.enter t' kept.value with guards :=
        s.guards ++ [some ⟨⟨(s.thread t').handle⟩, s.running t'⟩]} alive =
        ⟨s.guards.length, kept.value, wanted before alive⟩ :: alive := by
      simp [entered, hi]
    rw [hsee]
    refine ⟨?_, fun x hx => ?_, fun g made hn hg => ?_⟩
    · exact Nat.le_trans h.within (by simp)
    · rcases List.mem_cons.mp hx with rfl | hx
      · exact ⟨⟨⟨(s.thread t').handle⟩, s.running t'⟩, by simp, hcurrent⟩
      · obtain ⟨made, hmade, hbase⟩ := h.base x hx
        obtain ⟨hlt, _⟩ := List.getElem?_eq_some_iff.mp hmade
        exact ⟨made, (List.getElem?_append_left hlt).trans hmade, hbase⟩
    · by_cases hlt : g < s.guards.length
      · obtain ⟨x, hx, hguard⟩ := h.alive g made hn ((List.getElem?_append_left hlt).symm.trans hg)
        exact ⟨x, .tail _ hx, hguard⟩
      · obtain ⟨hlt', _⟩ := List.getElem?_eq_some_iff.mp hg
        have hle : g ≤ s.guards.length := by simpa [Nat.lt_succ_iff] using hlt'
        exact ⟨_, List.mem_cons_self .., Nat.le_antisymm (Nat.le_of_not_lt hlt) hle⟩
  | dropGuard t' g made hg =>
    refine ⟨?_, fun x hx => ?_, fun g' made' hn hg' => ?_⟩
    · exact Nat.le_trans h.within (by simp)
    · obtain ⟨hx, hne⟩ := List.mem_filter.mp hx
      obtain ⟨made', hmade, hbase⟩ := h.base x hx
      have hne : g ≠ x.guard := fun heq => of_decide_eq_true hne heq.symm
      exact ⟨made', (List.getElem?_set_ne hne).trans hmade, hbase⟩
    · by_cases hne : g = g'
      · subst hne
        simp [List.getElem?_set] at hg'
      · obtain ⟨x, hx, hguard⟩ := h.alive g' made' hn ((List.getElem?_set_ne hne).symm.trans hg')
        refine ⟨x, List.mem_filter.mpr ⟨hx, ?_⟩, hguard⟩
        simpa [hguard] using Ne.symm hne
  | build | current | setPriority | spawn | schedule | start | finish | mayBlock
  | mayBlockCurrent => cases ha

/-- A step leaves what is to be current exactly under the condition. -/
theorem restores_step (h : Saved n s alive) (hcurrent : s.tryCurrent t = wanted before alive)
    (ha : Enters t n a) (hs : step s a = some s') :
    s'.tryCurrent t = wanted before ((entered before).see s a s' alive) ↔
      DropsInPlace t before (s, alive) a (s', (entered before).see s a s' alive) := by
  cases step_cases hs with
  | enter t' i kept hi =>
    obtain rfl : t' = t := ha
    refine iff_of_true ?_ trivial
    simp [entered, hi, wanted, tryCurrent, System.enter]
  | dropGuard t' g made hg =>
    obtain ⟨x, hx, rfl⟩ := h.alive g made ha hg
    have hbase {y : Entered} (hy : y ∈ alive) (hguard : y.guard = x.guard) :
        made.value.previous = y.base := by
      obtain ⟨made', hmade, hbase⟩ := h.base y hy
      rw [hguard, hg] at hmade
      cases hmade
      exact hbase
    have hnew : ({s.restore t' made.value with guards := s.guards.set x.guard none} : System).tryCurrent t =
        if t' = t then x.base else wanted before alive := by
      by_cases ht : t' = t
      · subst ht
        simp [tryCurrent, restore, hbase hx rfl]
      · rw [if_neg ht, ← hcurrent]
        simp [tryCurrent, restore, setThread, Function.update_of_ne (Ne.symm ht)]
    rw [hnew]
    constructor
    · intro heq y hy hguard
      have hsame : x.base = y.base := (hbase hx rfl).symm.trans (hbase hy hguard)
      rw [← hsame]
      exact heq.symm
    · intro hplace
      exact (hplace x hx rfl).symm
  | build | current | setPriority | spawn | schedule | start | finish | mayBlock
  | mayBlockCurrent => cases ha

/-- The guards and the context are as they are to be. -/
def Stands (t n : Nat) (before : Option Handle) (u : System × List Entered) : Prop :=
  Saved n u.1 u.2 ∧ u.1.tryCurrent t = wanted before u.2

theorem stands_step {u u' : System × List Entered} (h : Stands t n before u) (ha : Enters t n a)
    (hw : ((entered before).watch machine).step u a = some u') :
    Saved n u'.1 u'.2 ∧ (Restores t before u a u' ↔ DropsInPlace t before u a u') := by
  obtain ⟨hs, hsee⟩ := Observer.watch_step hw
  obtain ⟨hsaved, hcurrent⟩ := h
  refine ⟨?_, ?_⟩
  · rw [hsee]
    exact saved_step hsaved hcurrent ha hs
  · rw [Restores, hsee]
    exact restores_step hsaved hcurrent ha hs

end Steps

section Runs

variable {t : Nat} {s : System} {as : List Action}

theorem stands_init (t : Nat) (s : System) :
    Stands t s.guards.length (s.tryCurrent t) (s, []) := by
  refine ⟨⟨Nat.le_refl _, by simp, fun g made hn hg => ?_⟩, rfl⟩
  obtain ⟨hlt, _⟩ := List.getElem?_eq_some_iff.mp hg
  exact absurd hn (Nat.not_le_of_lt hlt)

theorem dropsInPlace_of_restores (hactions : ∀ a ∈ as, Enters t s.guards.length a)
    (h : ((entered (s.tryCurrent t)).watch machine).Steps (Restores t (s.tryCurrent t))
      (s, []) as) :
    ((entered (s.tryCurrent t)).watch machine).Steps (DropsInPlace t (s.tryCurrent t))
      (s, []) as := by
  apply Machine.Steps.of_invariant _ (stands_init t s) ((Machine.Steps.of_actions hactions).and h)
  intro u a u' hstands ⟨ha, hrestores⟩ hw
  obtain ⟨hsaved, hiff⟩ := stands_step hstands ha hw
  exact ⟨⟨hsaved, hrestores⟩, hiff.mp hrestores⟩

theorem restores_of_dropsInPlace (hactions : ∀ a ∈ as, Enters t s.guards.length a)
    (h : ((entered (s.tryCurrent t)).watch machine).Steps (DropsInPlace t (s.tryCurrent t))
      (s, []) as) :
    ((entered (s.tryCurrent t)).watch machine).Steps (Restores t (s.tryCurrent t))
      (s, []) as := by
  apply Machine.Steps.of_invariant _ (stands_init t s) ((Machine.Steps.of_actions hactions).and h)
  intro u a u' hstands ⟨ha, hplace⟩ hw
  obtain ⟨hsaved, hiff⟩ := stands_step hstands ha hw
  exact ⟨⟨hsaved, hiff.mpr hplace⟩, hiff.mpr hplace⟩

/-- **The guards restore the context** exactly where each is dropped when what is to be
current then is what was to be when it was entered. -/
theorem guards_restore_iff (t : Nat) (s : System) (as : List Action)
    (hactions : ∀ a ∈ as, Enters t s.guards.length a) :
    ((entered (s.tryCurrent t)).watch machine).Steps (Restores t (s.tryCurrent t)) (s, []) as ↔
      ((entered (s.tryCurrent t)).watch machine).Steps (DropsInPlace t (s.tryCurrent t))
        (s, []) as :=
  ⟨dropsInPlace_of_restores hactions, restores_of_dropsInPlace hactions⟩

end Runs

instance (t n : Nat) : DecidablePred (Enters t n)
  | .enter t' _ => inferInstanceAs (Decidable (t' = t))
  | .dropGuard _ g => inferInstanceAs (Decidable (n ≤ g))
  | .build _ | .current _ | .setPriority .. | .spawn _ | .schedule _ | .start .. | .finish _
  | .mayBlock .. | .mayBlockCurrent _ => isFalse id

instance (t : Nat) (before : Option Handle) (s s' : System × List Entered) (a : Action) :
    Decidable (Restores t before s a s') :=
  inferInstanceAs (Decidable (s'.1.tryCurrent t = wanted before s'.2))

instance (t : Nat) (before : Option Handle) (s s' : System × List Entered) :
    (a : Action) → Decidable (DropsInPlace t before s a s')
  | .dropGuard t' g => inferInstanceAs (Decidable (∀ x ∈ s.2, x.guard = g →
      wanted before (without g s.2) = if t' = t then x.base else wanted before s.2))
  | .build _ | .current _ | .setPriority .. | .spawn _ | .schedule _ | .start .. | .finish _
  | .enter .. | .mayBlock .. | .mayBlockCurrent _ => isTrue trivial

/-- With a handle of each of two pools. -/
def twoPools : System :=
  {init with handles := [⟨⟨0, .normal, none⟩, none⟩, ⟨⟨1, .normal, none⟩, none⟩], pools := 2}

theorem guards_restore_nested :
    ((entered (twoPools.tryCurrent 0)).watch machine).Steps (Restores 0 (twoPools.tryCurrent 0))
      (twoPools, [])
      [.enter 0 0, .enter 0 1, .dropGuard 0 1, .enter 0 1, .dropGuard 0 2, .dropGuard 0 0] :=
  (guards_restore_iff 0 twoPools _ (by decide)).mpr (by decide)

/-- The guard of the first pool is dropped first: that of the second puts the first one back. -/
theorem first_guard_dropped_first : ¬ ∀ (t : Nat) (s : System) (as : List Action),
    (∀ a ∈ as, Enters t s.guards.length a) →
    ((entered (s.tryCurrent t)).watch machine).Steps (Restores t (s.tryCurrent t)) (s, []) as := by
  intro h
  have hsteps := h 0 twoPools [.enter 0 0, .enter 0 1, .dropGuard 0 0, .dropGuard 0 1] (by decide)
  revert hsteps
  decide

/-! ### Guards that are dropped latest first -/

/-- A drop is on the thread, and of the guard that was entered latest. -/
def DropsLatest (t : Nat) (s : System × List Entered) (a : Action)
    (_ : System × List Entered) : Prop :=
  match a with
  | .dropGuard t' g => t' = t ∧ s.2.head?.map (·.guard) = some g
  | _ => True

/-- Each guard was entered upon those that are below it. -/
def Stacked (before : Option Handle) : List Entered → Prop
  | [] => True
  | x :: rest =>
    x.base = wanted before rest ∧ (∀ y ∈ rest, y.guard < x.guard) ∧ Stacked before rest

theorem Stacked.without {before : Option Handle} {x : Entered} {rest : List Entered}
    (h : Stacked before (x :: rest)) : System.without x.guard (x :: rest) = rest := by
  obtain ⟨_, hlt, _⟩ := h
  have hrest : rest.filter (fun y => y.guard ≠ x.guard) = rest := by
    apply List.filter_eq_self.mpr
    intro y hy
    simpa using Nat.ne_of_lt (hlt y hy)
  simp only [System.without, List.filter_cons, ne_eq, not_true_eq_false, decide_false,
    Bool.false_eq_true, if_false]
  exact hrest

theorem stacked_step {t n : Nat} {before : Option Handle} {s s' : System} {a : Action}
    {alive : List Entered} (h : Stacked before alive)
    (hlt : ∀ x ∈ alive, x.guard < s.guards.length) (ha : Enters t n a)
    (hlatest : DropsLatest t (s, alive) a (s', alive)) (hs : step s a = some s') :
    Stacked before ((entered before).see s a s' alive) ∧
      ∀ x ∈ (entered before).see s a s' alive, x.guard < s'.guards.length := by
  cases step_cases hs with
  | enter t' i kept hi =>
    simp only [entered, hi]
    refine ⟨⟨rfl, hlt, h⟩, fun x hx => ?_⟩
    rcases List.mem_cons.mp hx with rfl | hx
    · simp
    · simpa using Nat.lt_succ_of_lt (hlt x hx)
  | dropGuard t' g made hg =>
    obtain ⟨_, hhead⟩ := hlatest
    cases alive with
    | nil => cases hhead
    | cons x rest =>
      obtain rfl : x.guard = g := Option.some.inj hhead
      simp only [entered, h.without]
      refine ⟨h.2.2, fun y hy => ?_⟩
      simpa using hlt y (.tail _ hy)
  | build | current | setPriority | spawn | schedule | start | finish | mayBlock
  | mayBlockCurrent => cases ha

theorem dropsInPlace_of_stacked {t : Nat} {before : Option Handle} {s s' : System} {a : Action}
    {alive alive' : List Entered} (h : Stacked before alive)
    (hlatest : DropsLatest t (s, alive) a (s', alive')) :
    DropsInPlace t before (s, alive) a (s', alive') := by
  cases a with
  | dropGuard t' g =>
    obtain ⟨rfl, hhead⟩ := hlatest
    cases alive with
    | nil => cases hhead
    | cons x rest =>
      obtain rfl : x.guard = g := Option.some.inj hhead
      intro y hy hguard
      rw [if_pos rfl, h.without]
      rcases List.mem_cons.mp hy with rfl | hy
      · exact h.1.symm
      · exact absurd hguard (Nat.ne_of_lt (h.2.1 y hy))
  | _ => trivial

/-- **Guards that are dropped latest first restore the context.** -/
theorem nested_guards_restore {t : Nat} {s : System} {as : List Action}
    (hactions : ∀ a ∈ as, Enters t s.guards.length a)
    (h : ((entered (s.tryCurrent t)).watch machine).Steps (DropsLatest t) (s, []) as) :
    ((entered (s.tryCurrent t)).watch machine).Steps (Restores t (s.tryCurrent t))
      (s, []) as := by
  apply restores_of_dropsInPlace hactions
  have hinit : Stacked (s.tryCurrent t) [] ∧ ∀ x ∈ ([] : List Entered), x.guard < s.guards.length :=
    ⟨trivial, by simp⟩
  apply Machine.Steps.of_invariant
    (I := fun u => Stacked (s.tryCurrent t) u.2 ∧ ∀ x ∈ u.2, x.guard < u.1.guards.length)
    _ hinit ((Machine.Steps.of_actions hactions).and h)
  intro u a u' ⟨hstacked, hlt⟩ ⟨ha, hlatest⟩ hw
  obtain ⟨hs, hsee⟩ := Observer.watch_step hw
  refine ⟨?_, dropsInPlace_of_stacked hstacked hlatest⟩
  rw [hsee]
  exact stacked_step hstacked hlt ha hlatest hs

end Wae.Context.System
