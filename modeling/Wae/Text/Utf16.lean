import Mathlib.Data.List.TakeWhile

/-! UTF-16, and strings that end at their first zero. -/
namespace Wae.Text

/-! ### Terminated strings -/

namespace Terminated

variable {α : Type} [DecidableEq α] (z : α)

/-- A string with the terminator behind it. -/
def close (xs : List α) : List α := xs ++ [z]

/-- What is read of it: all before the first terminator. -/
def read (xs : List α) : List α := xs.takeWhile (· ≠ z)

theorem read_eq_self_iff {xs : List α} : read z xs = xs ↔ z ∉ xs := by
  rw [read, List.takeWhile_eq_self_iff]
  constructor
  · intro h hz
    exact of_decide_eq_true (h z hz) rfl
  · intro h x hx
    exact decide_eq_true (ne_of_mem_of_not_mem hx h)

@[simp] theorem read_cons_self (xs : List α) : read z (z :: xs) = [] := by
  simp [read]

theorem read_cons {x : α} (hx : x ≠ z) (xs : List α) : read z (x :: xs) = x :: read z xs :=
  List.takeWhile_cons_of_pos (decide_eq_true hx)

theorem read_append {xs : List α} (hz : z ∉ xs) (ys : List α) :
    read z (xs ++ ys) = xs ++ read z ys :=
  List.takeWhile_append_of_pos fun _ hx => decide_eq_true (ne_of_mem_of_not_mem hx hz)

theorem read_append_of_mem {xs : List α} (hz : z ∈ xs) (ys : List α) :
    read z (xs ++ ys) = read z xs := by
  induction xs with
  | nil => cases hz
  | cons x xs ih =>
    by_cases hx : x = z
    · subst hx
      rw [List.cons_append, read_cons_self, read_cons_self]
    · have hmem : z ∈ xs := (List.mem_cons.mp hz).resolve_left (Ne.symm hx)
      rw [List.cons_append, read_cons z hx, read_cons z hx, ih hmem]

/-- The terminator that closes a string ends it, where none of its own does. -/
theorem read_close (xs : List α) : read z (close z xs) = read z xs := by
  unfold close
  by_cases hz : z ∈ xs
  · exact read_append_of_mem z hz [z]
  · rw [read_append z hz, read_cons_self, List.append_nil, (read_eq_self_iff z).mpr hz]

theorem read_prefix (xs : List α) : read z xs <+: xs :=
  List.takeWhile_prefix _

end Terminated

/-! ### UTF-16 -/

namespace Utf16

/-- The code units of a character: its code point, or the two surrogates of one above
U+FFFF. -/
def units (c : Char) : List UInt16 :=
  if c.toNat < 0x10000 then [.ofNat c.toNat]
  else
    [.ofNat (0xD800 + (c.toNat - 0x10000) / 0x400), .ofNat (0xDC00 + (c.toNat - 0x10000) % 0x400)]

def encode (cs : List Char) : List UInt16 := cs.flatMap units

/-- A surrogate that opens a pair. -/
def High (u : UInt16) : Prop := 0xD800 ≤ u.toNat ∧ u.toNat < 0xDC00

/-- A surrogate that ends a pair. -/
def Low (u : UInt16) : Prop := 0xDC00 ≤ u.toNat ∧ u.toNat < 0xE000

instance (u : UInt16) : Decidable (High u) := inferInstanceAs (Decidable (_ ∧ _))
instance (u : UInt16) : Decidable (Low u) := inferInstanceAs (Decidable (_ ∧ _))

/-- The character of a pair of surrogates. -/
def pair (u v : UInt16) : Char :=
  .ofNat (0x10000 + (u.toNat - 0xD800) * 0x400 + (v.toNat - 0xDC00))

/-- The characters of a sequence of units, unless a surrogate in it is alone. -/
def decode : List UInt16 → Option (List Char)
  | [] => some []
  | u :: us =>
    if Low u then none
    else if High u then
      match us with
      | [] => none
      | v :: vs => if Low v then (decode vs).map (pair u v :: ·) else none
    else (decode us).map (.ofNat u.toNat :: ·)

@[simp] theorem encode_cons (c : Char) (cs : List Char) :
    encode (c :: cs) = units c ++ encode cs := by
  simp [encode]

/-- A code point is no surrogate. -/
theorem valid (c : Char) : c.toNat < 0xD800 ∨ 0xDFFF < c.toNat ∧ c.toNat < 0x110000 :=
  c.valid

/-- A unit that is no surrogate is a character by itself. -/
theorem decode_single {u : UInt16} (hlow : ¬ Low u) (hhigh : ¬ High u) (us : List UInt16) :
    decode (u :: us) = (decode us).map (.ofNat u.toNat :: ·) := by
  rw [decode.eq_def]
  simp only [if_neg hlow, if_neg hhigh]

theorem decode_pair {u v : UInt16} (hu : High u) (hv : Low v) (us : List UInt16) :
    decode (u :: v :: us) = (decode us).map (pair u v :: ·) := by
  have hlow : ¬ Low u := by
    intro h
    exact absurd h.1 (Nat.not_le_of_lt hu.2)
  rw [decode.eq_def]
  simp only [if_neg hlow, if_pos hu, if_pos hv]

/-- The surrogates of the `n`th code point above U+FFFF. -/
theorem surrogates {n : Nat} (hn : n < 0x100000) :
    High (.ofNat (0xD800 + n / 0x400)) ∧ Low (.ofNat (0xDC00 + n % 0x400)) ∧
      pair (.ofNat (0xD800 + n / 0x400)) (.ofNat (0xDC00 + n % 0x400)) = .ofNat (0x10000 + n) := by
  have hu : (UInt16.ofNat (0xD800 + n / 0x400)).toNat = 0xD800 + n / 0x400 :=
    UInt16.toNat_ofNat_of_lt' (by simp only [UInt16.size]; omega)
  have hv : (UInt16.ofNat (0xDC00 + n % 0x400)).toNat = 0xDC00 + n % 0x400 :=
    UInt16.toNat_ofNat_of_lt' (by simp only [UInt16.size]; omega)
  have hcode : 0x10000 + (0xD800 + n / 0x400 - 0xD800) * 0x400 +
      (0xDC00 + n % 0x400 - 0xDC00) = 0x10000 + n := by omega
  unfold High Low pair
  rw [hu, hv, hcode]
  exact ⟨by omega, by omega, rfl⟩

/-- What is decoded of a character's units is that character. -/
theorem decode_units (c : Char) (us : List UInt16) :
    decode (units c ++ us) = (decode us).map (c :: ·) := by
  have hvalid := valid c
  by_cases hc : c.toNat < 0x10000
  · have hu : (UInt16.ofNat c.toNat).toNat = c.toNat := UInt16.toNat_ofNat_of_lt' hc
    have hlow : ¬ Low (.ofNat c.toNat) := by
      unfold Low
      omega
    have hhigh : ¬ High (.ofNat c.toNat) := by
      unfold High
      omega
    rw [units, if_pos hc, List.singleton_append, decode_single hlow hhigh, hu, Char.ofNat_toNat]
  · have hcode : 0x10000 + (c.toNat - 0x10000) = c.toNat := by omega
    obtain ⟨hu, hv, hpair⟩ := surrogates (n := c.toNat - 0x10000) (by omega)
    rw [hcode, Char.ofNat_toNat] at hpair
    rw [units, if_neg hc, List.cons_append, List.singleton_append, decode_pair hu hv, hpair]

/-- **The round trip**. -/
theorem decode_encode (cs : List Char) : decode (encode cs) = some cs := by
  induction cs with
  | nil => rfl
  | cons c cs ih => rw [encode_cons, decode_units, ih, Option.map_some]

theorem encode_injective : Function.Injective encode := by
  intro cs ds h
  have hdecode : some cs = some ds := by rw [← decode_encode, h, decode_encode]
  exact Option.some.inj hdecode

/-- Only the null character has a zero unit. -/
theorem zero_mem_units (c : Char) : 0 ∈ units c ↔ c = '\x00' := by
  have hvalid := valid c
  have hnull : c = '\x00' ↔ c.toNat = 0 := by
    rw [← Char.toNat_inj]
    rfl
  rw [hnull, units]
  split <;> simp only [List.mem_cons, List.not_mem_nil, or_false, ← UInt16.toNat_inj,
    UInt16.toNat_ofNat', UInt16.toNat_ofNat] <;> omega

/-- What is read of an encoded string is what encodes its characters up to the first null. -/
theorem read_encode (cs : List Char) :
    Terminated.read 0 (encode cs) = encode (Terminated.read '\x00' cs) := by
  induction cs with
  | nil => rfl
  | cons c cs ih =>
    by_cases hc : c = '\x00'
    · subst hc
      rfl
    · have hunits : 0 ∉ units c := mt (zero_mem_units c).mp hc
      rw [encode_cons, Terminated.read_append 0 hunits, ih, Terminated.read_cons _ hc, encode_cons]

/-- A closed wide string read back. -/
def text (us : List UInt16) : Option (List Char) := decode (Terminated.read 0 us)

theorem text_close (cs : List Char) :
    text (Terminated.close 0 (encode cs)) = some (Terminated.read '\x00' cs) := by
  rw [text, Terminated.read_close, read_encode, decode_encode]

end Utf16

end Wae.Text
