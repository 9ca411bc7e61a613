import Mathlib.Data.List.Basic
import Mathlib.Logic.Function.Basic

/-! Counting what the members of a list hold.

Where a counter is kept for things that many parties hold, the counter's invariant is
that it equals the parties' holdings summed. A step changes one party, or adds one,
and these lemmas say what that does to the sum. -/
namespace Wae.Transition

variable {α : Type}

/-- What the members of a list hold between them. -/
def tally (weight : α → Nat) : List α → Nat
  | [] => 0
  | x :: l => weight x + tally weight l

variable {weight : α → Nat} {l : List α}

@[simp] theorem tally_nil : tally weight [] = 0 := rfl

@[simp] theorem tally_cons (x : α) : tally weight (x :: l) = weight x + tally weight l := rfl

@[simp] theorem tally_append (r : List α) :
    tally weight (l ++ r) = tally weight l + tally weight r := by
  induction l with
  | nil => simp
  | cons x l ih => rw [List.cons_append, tally_cons, ih, tally_cons, Nat.add_assoc]

theorem tally_congr {weight' : α → Nat} (h : ∀ x ∈ l, weight x = weight' x) :
    tally weight l = tally weight' l := by
  induction l with
  | nil => rfl
  | cons x l ih =>
    rw [tally_cons, tally_cons, h x (List.mem_cons_self ..),
      ih fun y hy => h y (List.mem_cons_of_mem x hy)]

/-- One member changes: the sum changes by what it held and holds. -/
theorem tally_set (weight : α → Nat) {i : Nat} {x : α} (h : l[i]? = some x) (y : α) :
    tally weight (l.set i y) + weight x = tally weight l + weight y := by
  induction l generalizing i with
  | nil => cases h
  | cons z l ih =>
    cases i with
    | zero =>
      cases h
      simp only [List.set_cons_zero, tally_cons]
      omega
    | succ i =>
      have := ih (i := i) h
      simp only [List.set_cons_succ, tally_cons]
      omega

theorem le_tally (weight : α → Nat) {i : Nat} {x : α} (h : l[i]? = some x) :
    weight x ≤ tally weight l := by
  induction l generalizing i with
  | nil => cases h
  | cons z l ih =>
    cases i with
    | zero =>
      cases h
      exact Nat.le_add_right ..
    | succ i => exact Nat.le_add_left_of_le (ih h)

theorem tally_pos : 0 < tally weight l ↔ ∃ x ∈ l, 0 < weight x := by
  induction l with
  | nil => simp
  | cons z l ih =>
    rw [tally_cons, Nat.add_pos_iff_pos_or_pos, ih]
    simp

/-! ### What the values of a function hold, up to a bound -/

/-- One value changes: the sum changes by what it held and holds. -/
theorem tally_update (weight : α → Nat) (f : Nat → α) {i n : Nat} (h : i < n) (x : α) :
    tally (fun k => weight (Function.update f i x k)) (List.range n) + weight (f i) =
      tally (fun k => weight (f k)) (List.range n) + weight x := by
  induction n with
  | zero => exact absurd h (Nat.not_lt_zero i)
  | succ n ih =>
    simp only [List.range_succ, tally_append, tally_cons, tally_nil]
    by_cases hi : i = n
    · subst hi
      have hbelow : tally (fun k => weight (Function.update f i x k)) (List.range i) =
          tally (fun k => weight (f k)) (List.range i) := by
        apply tally_congr
        intro k hk
        rw [Function.update_of_ne (Nat.ne_of_lt (List.mem_range.mp hk))]
      rw [hbelow, Function.update_self]
      omega
    · have hlt := ih (by omega)
      rw [Function.update_of_ne (Ne.symm hi)]
      omega

end Wae.Transition
