import Mathlib.Algebra.Order.BigOperators.Group.Finset
import Wae.Transition.Machine

/-! Work that comes to an end.

Where each step of a kind takes one off a number, every run of such steps is as long as
the number has gone down, and no longer where it takes off more; and where there is such a
step as long as it has not come to the end, any run of them goes on to it, by whichever
steps. -/
namespace Wae.Transition.Machine

variable {S A : Type} {M : Machine S A} {I : S → Prop} {P : A → Prop} {f : S → Nat}

/-- Where each step takes something off the number, its value bounds the run. -/
theorem run_descends (hstep : ∀ s a s', I s → P a → M.step s a = some s' → I s' ∧ f s' < f s)
    {s t : S} {as : List A} (hI : I s) (has : ∀ a ∈ as, P a) (hrun : M.run s as = some t) :
    I t ∧ f t + as.length ≤ f s := by
  induction as generalizing s with
  | nil =>
    cases hrun
    exact ⟨hI, Nat.le_refl _⟩
  | cons a as ih =>
    obtain ⟨s', hs, hrest⟩ := M.run_cons hrun
    obtain ⟨hI', hf⟩ := hstep s a s' hI (has a (List.mem_cons_self ..)) hs
    obtain ⟨hIt, hft⟩ := ih hI' (fun b hb => has b (List.mem_cons_of_mem a hb)) hrest
    refine ⟨hIt, ?_⟩
    rw [List.length_cons]
    omega

/-- How many of a run's steps are of the kind `P`. -/
def times (M : Machine S A) (P : S → A → Bool) (s : S) : List A → Nat
  | [] => 0
  | a :: as =>
    match M.step s a with
    | some s' => (P s a).toNat + M.times P s' as
    | none => 0

theorem times_cons {P : S → A → Bool} {s s' : S} {a : A} (as : List A)
    (hs : M.step s a = some s') : M.times P s (a :: as) = (P s a).toNat + M.times P s' as := by
  simp only [times, hs]

/-- Where the steps of one kind take one off a number, those of another add `n` to it and the
others leave it as it is, it is at the end of a run what these have made of it. -/
theorem run_balance {P Q : S → A → Bool} {n : Nat}
    (hstep : ∀ s a s', I s → M.step s a = some s' →
      I s' ∧ f s' + (P s a).toNat = f s + n * (Q s a).toNat)
    {s t : S} {as : List A} (hI : I s) (hrun : M.run s as = some t) :
    f t + M.times P s as = f s + n * M.times Q s as := by
  induction as generalizing s with
  | nil =>
    cases hrun
    rfl
  | cons a as ih =>
    obtain ⟨s', hs, hrest⟩ := M.run_cons hrun
    obtain ⟨hI', hf⟩ := hstep s a s' hI hs
    have hft := ih hI' hrest
    rw [times_cons as hs, times_cons as hs, Nat.mul_add]
    omega

theorem leads_descends {Q : S → Prop}
    (hstep : ∀ s a s', I s → P a → M.step s a = some s' → I s' ∧ f s' < f s)
    (hon : ∀ s, I s → Q s ∨ ∃ a, P a ∧ (M.step s a).isSome = true) {s : S} (hI : I s) :
    M.Leads P (fun t => I t ∧ Q t) s := by
  induction hn : f s using Nat.strongRecOn generalizing s with
  | _ n ih =>
    rcases hon s hI with hQ | ⟨a, ha, hsome⟩
    · exact .here ⟨hI, hQ⟩
    · obtain ⟨s', hs⟩ := Option.isSome_iff_exists.mp hsome
      obtain ⟨hI', hf⟩ := hstep s a s' hI ha hs
      exact .step ha hs (ih (f s') (hn ▸ hf) hI' rfl)

/-- **Such steps come to rest.** However far a run of them has got, it is no longer than the
number was; a step is left or it has come to the end, and to that it can go on. -/
theorem comes_to_rest {Q : S → Prop}
    (hstep : ∀ s a s', I s → P a → M.step s a = some s' → I s' ∧ f s' < f s)
    (hon : ∀ s, I s → Q s ∨ ∃ a, P a ∧ (M.step s a).isSome = true) {s t : S} {as : List A}
    (hI : I s) (has : ∀ a ∈ as, P a) (hrun : M.run s as = some t) :
    as.length ≤ f s ∧ ((∃ a, P a ∧ (M.step t a).isSome = true) ∨ Q t) ∧ M.Leads P Q t := by
  obtain ⟨hIt, hlen⟩ := run_descends hstep hI has hrun
  refine ⟨by omega, (hon t hIt).symm, ?_⟩
  exact (leads_descends hstep hon hIt).mono (fun _ => id) fun _ h => h.2

/-- Of numbers counted together one goes down, and the others stay. -/
theorem sum_update_lt {C : Type} (left : C → Nat) {cs : Nat → C} {k n : Nat} {c : C}
    (hk : k ≤ n) (hlt : left c < left (cs k)) :
    ∑ j ∈ Finset.range (n + 1), left (Function.update cs k c j) <
      ∑ j ∈ Finset.range (n + 1), left (cs j) := by
  apply Finset.sum_lt_sum
  · intro j _
    by_cases hj : j = k
    · subst hj
      rw [Function.update_self]
      exact Nat.le_of_lt hlt
    · rw [Function.update_of_ne hj]
  · refine ⟨k, Finset.mem_range.mpr (Nat.lt_succ_of_le hk), ?_⟩
    rw [Function.update_self]
    exact hlt

end Wae.Transition.Machine
