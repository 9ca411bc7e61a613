import Wae.Transition.Machine

/-! Objects, their release, and accesses that may come after it.

Some actions access an object and one releases it. That no access follows a release is
a statement about everything the machine may still do, `Never`; to know it at the
release it is enough to know what the machine may still do there, and then it is known
of whole runs (`Steps.within`). -/
namespace Wae.Transition.Machine

variable {S A : Type} {M : Machine S A}

/-- No run from `s` ever takes a step by an action of the kind `P`. -/
def Never (M : Machine S A) (P : A → Prop) (s : S) : Prop :=
  ∀ as t a, M.run s as = some t → P a → M.step t a = none

/-- An invariant under which no such action is enabled. -/
theorem Never.of_invariant {P : A → Prop} {I : S → Prop}
    (hstep : ∀ s a s', I s → M.step s a = some s' → I s')
    (hnone : ∀ s a, I s → P a → M.step s a = none) {s : S} (hs : I s) : M.Never P s :=
  fun _ t a hrun ha => hnone t a (run_keeps hstep hs hrun) ha

/-- Where nothing is enabled at all. -/
theorem Never.of_stuck {P : A → Prop} {s : S} (h : ∀ a, M.step s a = none) : M.Never P s := by
  refine Never.of_invariant (I := (· = s)) (fun t a t' ht hs => ?_) (fun t a ht _ => ?_) rfl
  · subst ht
    cases (h a).symm.trans hs
  · subst ht
    exact h a

/-- Nothing that is enabled at once. -/
theorem Never.disabled {P : A → Prop} {s : S} (h : M.Never P s) (a : A) (ha : P a) :
    M.step s a = none :=
  h [] s a rfl ha

theorem Never.step {P : A → Prop} {s s' : S} {a : A} (h : M.Never P s)
    (hs : M.step s a = some s') : M.Never P s' := by
  intro as t b hrun hb
  refine h (a :: as) t b ?_ hb
  rw [run, hs]
  exact hrun

/-- Where each step into `gone` leads to where there is never an access again, nothing
gone is accessed. -/
theorem Steps.within {accesses : A → Prop} {gone : S → Prop} {s : S} {as : List A}
    (hin : M.Steps (fun s _ s' => gone s' → gone s ∨ M.Never accesses s') s as) (hs : ¬ gone s) :
    M.Steps (fun s a _ => gone s → ¬ accesses a) s as := by
  refine Steps.of_invariant (I := fun s => gone s → M.Never accesses s)
    (fun s a s' hI hd ha => ?_) (fun h => absurd h hs) hin
  refine ⟨fun hs' => (hd hs').elim (fun h => (hI h).step ha) id, fun h hp => ?_⟩
  cases ((hI h).disabled a hp).symm.trans ha

/-- An object whose release is decided where it happens. Under the invariant `I`, a step that
is a `release` leads to where there is never an access again if and only if it finds the
machine `quiet`. -/
structure Lifetime (M : Machine S A) (I : S → Prop) (release : S → A → Prop)
    (accesses : A → Prop) (gone quiet : S → Prop) : Prop where
  init : I M.init
  step : ∀ s a s', I s → M.step s a = some s' → I s'
  alive : ¬ gone M.init
  only : ∀ s a s', M.step s a = some s' → gone s' → gone s ∨ release s a
  decided : ∀ s a s', I s → M.step s a = some s' → release s a →
    (M.Never accesses s' ↔ quiet s)

namespace Lifetime
variable {I : S → Prop} {release : S → A → Prop} {accesses : A → Prop} {gone quiet : S → Prop}

/-- Every release of a run is for good exactly when every release finds the machine
quiet. -/
theorem forGood_iff (L : M.Lifetime I release accesses gone quiet) (as : List A) :
    M.Steps (fun s a s' => release s a → M.Never accesses s') M.init as ↔
      M.Steps (fun s a _ => release s a → quiet s) M.init as := by
  have hI : M.Steps (fun s _ _ => I s) M.init as :=
    Steps.of_kept (I := I) (fun s a s' h hs => ⟨L.step s a s' h hs, h⟩) L.init as
  constructor
  · intro h
    exact (h.and hI).mono fun s a s' hs ⟨hn, hi⟩ ha => (L.decided s a s' hi hs ha).mp (hn ha)
  · intro h
    exact (h.and hI).mono fun s a s' hs ⟨hq, hi⟩ ha => (L.decided s a s' hi hs ha).mpr (hq ha)

/-- A run whose releases find the machine quiet accesses nothing that is gone. -/
theorem within (L : M.Lifetime I release accesses gone quiet) (as : List A)
    (h : M.Steps (fun s a _ => release s a → quiet s) M.init as) :
    M.Steps (fun s a _ => gone s → ¬ accesses a) M.init as :=
  Steps.within (((L.forGood_iff as).mpr h).mono fun s a s' hs hn hg =>
    (L.only s a s' hs hg).imp_right hn) L.alive

end Lifetime

end Wae.Transition.Machine
