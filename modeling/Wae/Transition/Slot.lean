import Wae.Transition.Machine

/-! One operation at a time.

A slot is what an asynchronous call is for, with nothing said of how: an operation is
asked for; the other side answers it at once, or accepts it and lands its result later;
the result is taken, and only then is the next operation asked for. A slot keeps no
record of what went through it. The record is the list of what happened. -/
namespace Wae.Transition

inductive Slot (R : Type) where
  | empty
  | asked
  | flying
  | landed (result : R)
  deriving DecidableEq, Repr

namespace Slot
variable {R : Type}

inductive Action (R : Type) where
  | ask
  /-- The result is there at once. -/
  | answer (result : R)
  | accept
  | land (result : R)
  | take (result : R)
  deriving DecidableEq, Repr

def step [DecidableEq R] : Slot R → Action R → Option (Slot R)
  | .empty, .ask => some .asked
  | .asked, .answer r => some (.landed r)
  | .asked, .accept => some .flying
  | .flying, .land r => some (.landed r)
  | .landed r, .take r' => if r = r' then some .empty else none
  | _, _ => none

def machine (R : Type) [DecidableEq R] : Machine (Slot R) (Action R) := ⟨.empty, step⟩

/-! ### What went through -/

/-- How many operations were asked for. -/
def asks : List (Action R) → Nat
  | [] => 0
  | .ask :: as => asks as + 1
  | _ :: as => asks as

/-- The results that came, in order. -/
def results : List (Action R) → List R
  | [] => []
  | .answer r :: as | .land r :: as => r :: results as
  | _ :: as => results as

/-- The results that were taken. -/
def takes : List (Action R) → List R
  | [] => []
  | .take r :: as => r :: takes as
  | _ :: as => takes as

theorem asks_append (as bs : List (Action R)) : asks (as ++ bs) = asks as + asks bs := by
  induction as with
  | nil => exact (Nat.zero_add _).symm
  | cons a as ih => cases a <;> simp only [List.cons_append, asks, ih, Nat.add_right_comm]

theorem takes_append (as bs : List (Action R)) : takes (as ++ bs) = takes as ++ takes bs := by
  induction as with
  | nil => rfl
  | cons a as ih => cases a <;> simp [takes, ih]

/-- The result that waits to be taken. -/
def pending : Slot R → List R
  | .landed r => [r]
  | .empty | .asked | .flying => []

/-- Operations asked for whose result is still to come. -/
def awaited : Slot R → Nat
  | .asked | .flying => 1
  | .empty | .landed _ => 0

variable [DecidableEq R] {s t : Slot R} {as : List (Action R)}

/-- **The results are taken in the order they come, none twice and none skipped**; and
one comes for each operation before the next is asked for. -/
theorem run_exchanges (h : (machine R).run s as = some t) :
    s.pending ++ results as = takes as ++ t.pending ∧
      s.awaited + asks as = (results as).length + t.awaited := by
  induction as generalizing s with
  | nil =>
    cases h
    exact ⟨List.append_nil _, Nat.add_comm ..⟩
  | cons a as ih =>
    obtain ⟨s', hs, hrest⟩ := (machine R).run_cons h
    obtain ⟨hr, ha⟩ := ih hrest
    have hs : step s a = some s' := hs
    unfold step at hs
    split at hs
    · cases hs
      refine ⟨hr, ?_⟩
      have ha : 1 + asks as = (results as).length + t.awaited := ha
      show 0 + (asks as + 1) = (results as).length + t.awaited
      omega
    · cases hs
      refine ⟨hr, ?_⟩
      have ha : 0 + asks as = (results as).length + t.awaited := ha
      show 1 + asks as = (results as).length + 1 + t.awaited
      omega
    · cases hs
      exact ⟨hr, ha⟩
    · cases hs
      refine ⟨hr, ?_⟩
      have ha : 0 + asks as = (results as).length + t.awaited := ha
      show 1 + asks as = (results as).length + 1 + t.awaited
      omega
    · split at hs <;> cases hs
      rename_i heq
      subst heq
      exact ⟨congrArg _ hr, ha⟩
    · cases hs

/-- Whether an operation is anywhere in the slot. -/
def occupied (s : Slot R) : Nat := s.pending.length + s.awaited

/-- What was asked for was taken, or is in the slot. -/
theorem run_occupied (h : (machine R).run s as = some t) :
    s.occupied + asks as = (takes as).length + t.occupied := by
  obtain ⟨hr, ha⟩ := run_exchanges h
  have hlength := congrArg List.length hr
  rw [List.length_append, List.length_append] at hlength
  unfold occupied
  omega

theorem step_take {r : R} (h : step s (.take r) = some t) : s = .landed r := by
  cases s with
  | landed r' =>
    simp only [step, Option.ite_none_right_eq_some] at h
    rw [h.1]
  | empty | asked | flying => cases h

end Slot

end Wae.Transition
