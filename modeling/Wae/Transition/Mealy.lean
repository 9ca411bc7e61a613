import Mathlib.Data.List.Basic

/-! Machines that answer.

A machine of this kind takes each input there is, answers it and goes on. Two of them
answer alike from states that a simulation relates: it relates them still after each
input, and the answers are the same. -/
namespace Wae.Transition

/-- To each input an answer, and where it leads. -/
structure Mealy (S I O : Type) where
  step : S → I → O × S

namespace Mealy
variable {S T I O : Type}

/-- The answers to a list of inputs. -/
def trace (M : Mealy S I O) (s : S) : List I → List O
  | [] => []
  | i :: is => (M.step s i).1 :: trace M (M.step s i).2 is

/-- Where they lead. -/
def after (M : Mealy S I O) (s : S) : List I → S
  | [] => s
  | i :: is => after M (M.step s i).2 is

variable {M : Mealy S I O} {N : Mealy T I O}

/-- A relation that inputs with `P` keep, and by which their answers are the same. -/
structure Simulation (M : Mealy S I O) (N : Mealy T I O) (P : I → Prop) where
  Rel : S → T → Prop
  step : ∀ s t i, Rel s t → P i → Rel (M.step s i).2 (N.step t i).2
  answer : ∀ s t i, Rel s t → P i → (M.step s i).1 = (N.step t i).1

namespace Simulation
variable {P : I → Prop} (R : Simulation M N P) {s : S} {t : T} {is : List I}

theorem after_rel (h : R.Rel s t) (his : ∀ i ∈ is, P i) : R.Rel (M.after s is) (N.after t is) := by
  induction is generalizing s t with
  | nil => exact h
  | cons i is ih =>
    have hi := his i (List.mem_cons_self ..)
    exact ih (R.step s t i h hi) fun j hj => his j (List.mem_cons_of_mem i hj)

theorem trace_eq (h : R.Rel s t) (his : ∀ i ∈ is, P i) : M.trace s is = N.trace t is := by
  induction is generalizing s t with
  | nil => rfl
  | cons i is ih =>
    have hi := his i (List.mem_cons_self ..)
    have hrest := ih (R.step s t i h hi) fun j hj => his j (List.mem_cons_of_mem i hj)
    show (M.step s i).1 :: _ = (N.step t i).1 :: _
    rw [R.answer s t i h hi, hrest]

end Simulation

end Mealy

end Wae.Transition
