import Wae.Transition.Machine

/-! Machines that are watched.

A statement about what has happened so far needs a record of it, which the machine itself
may not keep. An observer sees each step and keeps the record beside the state. No step
reads the record, so the watched machine runs just as the machine does, and what is
proved of the steps of one holds of the steps of the other. -/
namespace Wae.Transition

/-- What is recorded at first, and what a step adds. -/
structure Observer (S A R : Type) where
  init : R
  see : S → A → S → R → R

namespace Observer
variable {S A R : Type} (O : Observer S A R) (M : Machine S A)

def watch : Machine (S × R) A where
  init := (M.init, O.init)
  step s a := (M.step s.1 a).map fun s' => (s', O.see s.1 a s' s.2)

variable {O M} {s t : S × R} {a : A} {as : List A}

theorem watch_step (h : (O.watch M).step s a = some t) :
    M.step s.1 a = some t.1 ∧ t.2 = O.see s.1 a t.1 s.2 := by
  obtain ⟨s', hs, rfl⟩ := Option.map_eq_some_iff.mp h
  exact ⟨hs, rfl⟩

/-- Watching changes no step. -/
theorem steps_watch {P : S → A → S → Prop} :
    (O.watch M).Steps (fun s a s' => P s.1 a s'.1) s as ↔ M.Steps P s.1 as := by
  induction as generalizing s with
  | nil => exact Iff.rfl
  | cons a as ih =>
    constructor
    · intro h s' hs
      have hw : (O.watch M).step s a = some (s', O.see s.1 a s' s.2) := by simp [watch, hs]
      obtain ⟨hp, hrest⟩ := h _ hw
      exact ⟨hp, ih.mp hrest⟩
    · intro h s' hw
      obtain ⟨hp, hrest⟩ := h s'.1 (watch_step hw).1
      exact ⟨hp, ih.mpr hrest⟩

end Observer

end Wae.Transition
