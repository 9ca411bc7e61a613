import Mathlib.Data.List.Basic

/-! Bytes: of numbers, and behind pointers. -/
namespace Wae

/-- The `n` lowest bytes of a number, the lowest first. -/
def leBytes : Nat → Nat → List UInt8
  | 0, _ => []
  | n + 1, x => .ofNat x :: leBytes n (x / 256)

/-- The highest first. -/
def beBytes (n x : Nat) : List UInt8 := (leBytes n x).reverse

@[simp] theorem length_leBytes (n x : Nat) : (leBytes n x).length = n := by
  induction n generalizing x with
  | zero => rfl
  | succ n ih => simp [leBytes, ih]

@[simp] theorem length_beBytes (n x : Nat) : (beBytes n x).length = n := by
  simp [beBytes]

/-- What there is from a pointer on, by the distance from it. -/
abbrev Memory := Nat → UInt8

namespace Memory

/-- A value at the pointer, and what is `behind` it. -/
def place (bytes : List UInt8) (behind : Memory) : Memory :=
  fun i => if h : i < bytes.length then bytes[i] else behind (i - bytes.length)

/-- The first `len` bytes. -/
def fetch (memory : Memory) (len : Nat) : List UInt8 := (List.range len).map memory

@[simp] theorem length_fetch (memory : Memory) (len : Nat) : (fetch memory len).length = len := by
  simp [fetch]

/-- As many bytes as the value has, or fewer, are the value's. -/
theorem fetch_place (bytes : List UInt8) (behind : Memory) {len : Nat} (h : len ≤ bytes.length) :
    fetch (place bytes behind) len = bytes.take len := by
  apply List.ext_getElem
  · rw [length_fetch, List.length_take, Nat.min_eq_left h]
  · intro i hi _
    rw [length_fetch] at hi
    simp [fetch, place, Nat.lt_of_lt_of_le hi h]

/-- The bytes past it are those behind. -/
theorem fetch_place_add (bytes : List UInt8) (behind : Memory) (n : Nat) :
    fetch (place bytes behind) (bytes.length + n) = bytes ++ fetch behind n := by
  have hplace := fetch_place bytes behind (Nat.le_refl _)
  rw [List.take_length] at hplace
  unfold fetch at hplace ⊢
  rw [List.range_add, List.map_append, hplace, List.map_map]
  congr 1
  apply List.map_congr_left
  intro i _
  have hpast : ¬ bytes.length + i < bytes.length := by omega
  simp [place, hpast]

/-- Bytes written from a position on. -/
def store (memory : Memory) (pos : Nat) (bytes : List UInt8) : Memory :=
  fun i => if h : pos ≤ i ∧ i - pos < bytes.length then bytes[i - pos] else memory i

/-- What was written is there. -/
theorem map_store (memory : Memory) (pos : Nat) (bytes : List UInt8) :
    (List.range' pos bytes.length).map (store memory pos bytes) = bytes := by
  apply List.ext_getElem
  · simp
  · intro i hi _
    rw [List.length_map, List.length_range'] at hi
    simp [store, hi]

/-- What comes before is as it was. -/
theorem map_store_before (memory : Memory) (pos n : Nat) (bytes : List UInt8) :
    (List.range' pos n).map (store memory (pos + n) bytes) = (List.range' pos n).map memory := by
  apply List.map_congr_left
  intro i hi
  have hlt : ¬ pos + n ≤ i := by
    rw [List.mem_range'_1] at hi
    omega
  simp [store, hlt]

theorem store_nil (memory : Memory) (pos : Nat) : store memory pos [] = memory := by
  funext i
  simp [store]

/-- What is stored behind other bytes makes one stretch with them. -/
theorem store_append (memory : Memory) (pos : Nat) (xs ys : List UInt8) :
    store memory pos (xs ++ ys) = store (store memory pos xs) (pos + xs.length) ys := by
  funext i
  unfold store
  by_cases hys : pos + xs.length ≤ i ∧ i - (pos + xs.length) < ys.length
  · have hboth : pos ≤ i ∧ i - pos < (xs ++ ys).length := by
      rw [List.length_append]
      omega
    have hpast : xs.length ≤ i - pos := by omega
    rw [dif_pos hboth, dif_pos hys, List.getElem_append_right hpast]
    congr 1
    omega
  · rw [dif_neg hys]
    by_cases hxs : pos ≤ i ∧ i - pos < xs.length
    · have hboth : pos ≤ i ∧ i - pos < (xs ++ ys).length := by
        rw [List.length_append]
        omega
      rw [dif_pos hboth, dif_pos hxs, List.getElem_append_left hxs.2]
    · have hboth : ¬ (pos ≤ i ∧ i - pos < (xs ++ ys).length) := by
        rw [List.length_append]
        omega
      rw [dif_neg hboth, dif_neg hxs]

end Memory

end Wae
