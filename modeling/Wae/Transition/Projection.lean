import Wae.Transition.Machine

/-! One machine as a part of another.

A projection shows a machine `N` inside a machine `M`: what part of `M`'s state is `N`'s,
and which of `M`'s steps are steps of `N` there. Every other step leaves the part alone.
So a run of `M` contains a run of `N`, and what is proved of the steps of `N` by itself is
proved of them inside `M`. The part may rest on an invariant of `M`. -/
namespace Wae.Transition

structure Projection {S A T B : Type} (M : Machine S A) (N : Machine T B) (I : S → Prop) where
  view : S → T
  /-- The step of `N` that a step of `M` is, if it is one. -/
  part : S → A → Option B
  init : view M.init = N.init
  kept_init : I M.init
  kept : ∀ {s a s'}, I s → M.step s a = some s' → I s'
  moved : ∀ {s a s' b}, I s → M.step s a = some s' → part s a = some b →
    N.step (view s) b = some (view s')
  still : ∀ {s a s'}, I s → M.step s a = some s' → part s a = none → view s' = view s

namespace Projection
variable {S A T B : Type} {M : Machine S A} {N : Machine T B} {I : S → Prop}
  (p : Projection M N I)

/-- The steps of `N` that the run of `M` from `s` takes. -/
def parts (s : S) : List A → List B
  | [] => []
  | a :: as =>
    match M.step s a with
    | none => []
    | some s' => (p.part s a).toList ++ parts s' as

theorem parts_cons {s s' : S} {a : A} (hs : M.step s a = some s') (as : List A) :
    p.parts s (a :: as) = (p.part s a).toList ++ p.parts s' as := by
  rw [parts, hs]

variable {p} {s t : S} {as : List A}

/-- **A run of `M` is a run of `N`**, seen from there. -/
theorem run (hI : I s) (hrun : M.run s as = some t) :
    N.run (p.view s) (p.parts s as) = some (p.view t) := by
  induction as generalizing s with
  | nil =>
    cases hrun
    rfl
  | cons a as ih =>
    obtain ⟨s', hs, hrest⟩ := M.run_cons hrun
    have hrun' := ih (p.kept hI hs) hrest
    rw [p.parts_cons hs]
    cases hb : p.part s a with
    | none =>
      rw [p.still hI hs hb] at hrun'
      exact hrun'
    | some b =>
      show (N.step (p.view s) b).bind _ = _
      rw [p.moved hI hs hb]
      exact hrun'

/-- A step of `M` keeps what the steps of `N` keep. -/
theorem keeps {J : T → Prop} {a : A} {s' : S} (hI : I s) (hJ : J (p.view s))
    (hstep : ∀ b, p.part s a = some b → N.step (p.view s) b = some (p.view s') → J (p.view s'))
    (hs : M.step s a = some s') : J (p.view s') := by
  cases hb : p.part s a with
  | none =>
    rw [p.still hI hs hb]
    exact hJ
  | some b => exact hstep b hb (p.moved hI hs hb)

/-- A part of a part. -/
def comp {U C : Type} {K : Machine U C} {J : T → Prop} (p : Projection M N I)
    (q : Projection N K J) : Projection M K fun s => I s ∧ J (p.view s) where
  view s := q.view (p.view s)
  part s a := (p.part s a).bind (q.part (p.view s))
  init := (congrArg q.view p.init).trans q.init
  kept_init := ⟨p.kept_init, by
    rw [p.init]
    exact q.kept_init⟩
  kept := fun ⟨hI, hJ⟩ hs => ⟨p.kept hI hs, p.keeps hI hJ (fun _ _ ht => q.kept hJ ht) hs⟩
  moved := by
    intro s a s' c ⟨hI, hJ⟩ hs hc
    obtain ⟨b, hb, hc⟩ := Option.bind_eq_some_iff.mp hc
    exact q.moved hJ (p.moved hI hs hb) hc
  still := by
    intro s a s' ⟨hI, hJ⟩ hs hc
    cases hb : p.part s a with
    | none => rw [p.still hI hs hb]
    | some b =>
      rw [hb] at hc
      exact q.still hJ (p.moved hI hs hb) hc

end Projection

/-! ### Where not every step is taken -/

namespace Machine
variable {S A : Type}

/-- The machine that takes only the steps with `P`. What it projects to, the whole
machine does too, as long as its steps are such. -/
def within (M : Machine S A) (P : S → A → Prop) [∀ s a, Decidable (P s a)] : Machine S A where
  init := M.init
  step s a := if P s a then M.step s a else none

variable {M : Machine S A} {P : S → A → Prop} [∀ s a, Decidable (P s a)]

theorem within_step {s s' : S} {a : A} (h : (M.within P).step s a = some s') :
    P s a ∧ M.step s a = some s' := by
  simpa only [within, Option.ite_none_right_eq_some] using h

theorem run_within {s t : S} {as : List A} (hP : M.Steps (fun s a _ => P s a) s as)
    (hrun : M.run s as = some t) : (M.within P).run s as = some t := by
  induction as generalizing s with
  | nil => exact hrun
  | cons a as ih =>
    obtain ⟨s', hs, hrest⟩ := M.run_cons hrun
    obtain ⟨ha, has⟩ := hP s' hs
    have hstep : (M.within P).step s a = some s' := by
      simp only [within, if_pos ha]
      exact hs
    show ((M.within P).step s a).bind _ = _
    rw [hstep]
    exact ih has hrest

end Machine

end Wae.Transition
