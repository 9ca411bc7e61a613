import Mathlib.Logic.Relation

/-! Loops that may not end.

A loop is what one turn of it does: go round again, or leave with a result. How many
turns it takes is not said in advance, so it is executed with fuel, and it ends from a
state when some fuel is enough. `ends_iff` says when it does, given a measure that no turn
raises: unless it comes to turn for ever with the measure standing still. -/
namespace Wae.Transition

structure Loop (S ρ : Type) where
  turn : S → S ⊕ ρ

namespace Loop
variable {S ρ : Type} (L : Loop S ρ)

/-- What it leaves with, if that many turns are enough. -/
def exec : Nat → S → Option ρ
  | 0, _ => none
  | fuel + 1, s =>
    match L.turn s with
    | .inl s' => exec fuel s'
    | .inr r => some r

def Ends (s : S) : Prop := ∃ fuel r, L.exec fuel s = some r

/-- It comes from one state to the other going round. -/
def Comes : S → S → Prop := Relation.ReflTransGen fun s s' => L.turn s = .inl s'

/-- It goes round for ever, and the measure stays the same. -/
def Stalls (f : S → Nat) (s : S) : Prop :=
  ∀ t, L.Comes s t → ∃ t', L.turn t = .inl t' ∧ f t' = f t

variable {L} {s s' t : S}

theorem exec_inl (h : L.turn s = .inl s') (fuel : Nat) : L.exec (fuel + 1) s = L.exec fuel s' := by
  simp only [exec, h]

theorem exec_inr {r : ρ} (h : L.turn s = .inr r) (fuel : Nat) : L.exec (fuel + 1) s = some r := by
  simp only [exec, h]

theorem ends_inr {r : ρ} (h : L.turn s = .inr r) : L.Ends s := ⟨1, r, exec_inr h 0⟩

/-- Going round once decides nothing. -/
theorem ends_inl (h : L.turn s = .inl s') : L.Ends s ↔ L.Ends s' := by
  constructor
  · rintro ⟨fuel, r, hexec⟩
    cases fuel with
    | zero => cases hexec
    | succ fuel => exact ⟨fuel, r, exec_inl h fuel ▸ hexec⟩
  · rintro ⟨fuel, r, hexec⟩
    exact ⟨fuel + 1, r, exec_inl h fuel ▸ hexec⟩

theorem Comes.ends_iff (h : L.Comes s t) : L.Ends s ↔ L.Ends t := by
  induction h with
  | refl => exact Iff.rfl
  | tail _ hturn ih => exact ih.trans (ends_inl hturn)

/-- It leaves from some state it comes to. -/
theorem exec_eq_some {r : ρ} {fuel : Nat} (h : L.exec fuel s = some r) :
    ∃ t, L.Comes s t ∧ L.turn t = .inr r := by
  induction fuel generalizing s with
  | zero => cases h
  | succ fuel ih =>
    cases hturn : L.turn s with
    | inr r' =>
      rw [exec_inr hturn] at h
      cases h
      exact ⟨s, .refl, hturn⟩
    | inl s' =>
      rw [exec_inl hturn] at h
      obtain ⟨t, hc, ht⟩ := ih h
      exact ⟨t, .head hturn hc, ht⟩

/-- What each turn keeps holds wherever the loop comes. -/
theorem Comes.keeps {I : S → Prop} (hturn : ∀ s s', I s → L.turn s = .inl s' → I s')
    (h : L.Comes s t) (hs : I s) : I t := by
  induction h with
  | refl => exact hs
  | tail _ ht ih => exact hturn _ _ ih ht

/-- What holds at every turn that goes round keeps it going. -/
theorem not_ends {J : S → Prop} (hturn : ∀ s, J s → ∃ s', L.turn s = .inl s' ∧ J s')
    (hs : J s) : ¬ L.Ends s := by
  rintro ⟨fuel, r, hexec⟩
  induction fuel generalizing s with
  | zero => cases hexec
  | succ fuel ih =>
    obtain ⟨s', ht, hJ⟩ := hturn s hs
    exact ih hJ (exec_inl ht fuel ▸ hexec)

theorem Stalls.not_ends {f : S → Nat} (h : L.Stalls f s) : ¬ L.Ends s := by
  apply Loop.not_ends (J := L.Stalls f) _ h
  intro s hs
  obtain ⟨s', ht, _⟩ := hs s .refl
  exact ⟨s', ht, fun t hc => hs t (.head ht hc)⟩

/-- **A loop whose turns never raise a measure ends, or comes to stall.** -/
theorem ends_iff {I : S → Prop} {f : S → Nat}
    (hturn : ∀ s s', I s → L.turn s = .inl s' → I s' ∧ f s' ≤ f s) (hs : I s) :
    L.Ends s ↔ ¬ ∃ t, L.Comes s t ∧ L.Stalls f t := by
  constructor
  · rintro hends ⟨t, hc, hstall⟩
    exact hstall.not_ends (hc.ends_iff.mp hends)
  · intro hno
    induction hf : f s using Nat.strongRecOn generalizing s with
    | ind n ih =>
      -- It does not stall here: somewhere it leaves, or the measure has been lowered.
      have hstall : ¬ L.Stalls f s := fun h => hno ⟨s, .refl, h⟩
      obtain ⟨t, ht⟩ := Classical.not_forall.mp hstall
      obtain ⟨hc, hmove⟩ := Classical.not_imp.mp ht
      have ht : I t ∧ f t ≤ f s := hc.keeps (I := fun t => I t ∧ f t ≤ f s)
        (fun u u' hu hturn' => by
          obtain ⟨hI, hle⟩ := hturn u u' hu.1 hturn'
          exact ⟨hI, Nat.le_trans hle hu.2⟩)
        ⟨hs, Nat.le_refl _⟩
      rw [hc.ends_iff]
      cases hturn' : L.turn t with
      | inr r => exact ends_inr hturn'
      | inl t' =>
        obtain ⟨hI, hle⟩ := hturn t t' ht.1 hturn'
        have hne : f t' ≠ f t := fun heq => hmove ⟨t', hturn', heq⟩
        rw [ends_inl hturn']
        refine ih (f t') (by omega) hI ?_ rfl
        rintro ⟨u, hu, hstall'⟩
        exact hno ⟨u, (hc.tail hturn').trans hu, hstall'⟩

end Loop

end Wae.Transition
