import Wae.Io.Result
import Wae.Io.Slice
import Wae.Transition.Machine

/-! `WriteAll` and `ReadExact`: whether they cover the slice they were given.

Both keep the whole buffer beside a `Write` or `Read` on what is left of it, and go on
until as many bytes have passed as the buffer has. The buffer is what the conversion
made of the caller's slice. -/
namespace Wae.Io
open Transition

/-- The fields of `WriteAll` and of `ReadExact`. -/
structure Whole where
  /-- The buffer of the `Write` or `Read` inside. -/
  inner : WSABUF
  buf : WSABUF
  n : UInt64
  deriving DecidableEq, Repr

/-- `write_all`. -/
def WriteAll.new (buf : IoSlice) : Whole := ⟨buf, buf, 0⟩

/-- `read_exact`. -/
def ReadExact.new (buf : IoSliceMut) : Whole := ⟨buf, buf, 0⟩

namespace Whole

/-- The inner buffer past the bytes that went through. -/
def advance (s : Whole) (n : UInt64) : Whole :=
  {s with inner := ⟨s.inner.len - n.toUInt32, s.inner.buf + n.toNat⟩}

/-- `poll` on what the inner poll returned: the result, if it is ready. Else it polls
the inner future again, at once or when it is polled itself. -/
def poll (s : Whole) : Poll (Except IoError UInt64) → Whole × Option (Except IoError Unit)
  | .ready (.ok n) =>
    let s := {s with n := s.n + n}
    if s.n = s.buf.len.toUInt64 then (s, some (.ok ())) else (s.advance n, none)
  | .ready (.error err) => (s, some (.error err))
  | .pending => (s, none)

end Whole

/-- A `WriteAll` or `ReadExact`, what it has returned, and the bytes that the writer has
taken or the reader has filled, in order. -/
structure Transfer where
  whole : Whole
  returned : Option (Except IoError Unit)
  handed : List Nat

namespace Transfer

/-- The bytes that an inner result speaks for. -/
def taken (s : Transfer) : Poll (Except IoError UInt64) → List Nat
  | .ready (.ok n) => List.range' s.whole.inner.buf n.toNat
  | .ready (.error _) | .pending => []

def step (s : Transfer) (result : Poll (Except IoError UInt64)) : Option Transfer :=
  if s.returned = none then
    let (whole, returned) := s.whole.poll result
    some ⟨whole, returned, s.handed ++ s.taken result⟩
  else none

def machine (whole : Whole) : Machine Transfer (Poll (Except IoError UInt64)) :=
  ⟨⟨whole, none, []⟩, step⟩

/-- A byte count is at least 1 and at most the length offered. -/
def Offered (s : Transfer) (result : Poll (Except IoError UInt64)) (_ : Transfer) : Prop :=
  ∀ n, result = .ready (.ok n) → 1 ≤ n.toNat ∧ n.toNat ≤ s.whole.inner.len.toNat

/-- Whatever the inner results: once it has returned `Ok`, these bytes have been handed
over, in order and once each. -/
def Covers (whole : Whole) (bytes : List Nat) : Prop :=
  ∀ results t, (machine whole).Steps Offered (machine whole).init results →
    (machine whole).run (machine whole).init results = some t →
    t.returned = some (.ok ()) → t.handed = bytes

/-! ### The loop -/

/-- What has been handed over is a prefix of the buffer, and the inner buffer is the rest. -/
structure Prefix (buf : WSABUF) (s : Transfer) : Prop where
  whole : s.whole.buf = buf
  handed : s.handed = List.range' buf.buf s.whole.n.toNat
  rest : s.returned = none → s.whole.inner.buf = buf.buf + s.whole.n.toNat ∧
    s.whole.n.toNat + s.whole.inner.len.toNat = buf.len.toNat
  full : s.returned = some (.ok ()) → s.whole.n.toNat = buf.len.toNat ∧ 0 < buf.len.toNat

variable {buf : WSABUF} {s s' : Transfer}

theorem prefix_init (buf : WSABUF) : Prefix buf ⟨⟨buf, buf, 0⟩, none, []⟩ where
  whole := rfl
  handed := rfl
  rest := fun _ => ⟨rfl, Nat.zero_add _⟩
  full := nofun

/-- The count does not overflow while it stays within the buffer. -/
theorem Prefix.toNat_add (h : Prefix buf s) (hr : s.returned = none) {n : UInt64}
    (hn : n.toNat ≤ s.whole.inner.len.toNat) :
    (s.whole.n + n).toNat = s.whole.n.toNat + n.toNat := by
  have hrest := (h.rest hr).2
  have hlen := buf.len.toNat_lt
  rw [UInt64.toNat_add, Nat.mod_eq_of_lt (by omega)]

/-- Taking what is offered leaves the rest of the buffer. -/
theorem toNat_sub {len : UInt32} {n : UInt64} (hn : n.toNat ≤ len.toNat) :
    (len - n.toUInt32).toNat = len.toNat - n.toNat := by
  have hlen := len.toNat_lt
  have hcast : n.toUInt32.toNat = n.toNat := by
    rw [UInt64.toNat_toUInt32, Nat.mod_eq_of_lt (by omega)]
  rw [UInt32.toNat_sub_of_le len n.toUInt32 (UInt32.le_iff_toNat_le.mpr (hcast ▸ hn)), hcast]

theorem prefix_step {result : Poll (Except IoError UInt64)} (h : Prefix buf s)
    (ho : Offered s result s') (hs : s.step result = some s') : Prefix buf s' := by
  simp only [step, Option.ite_none_right_eq_some, Option.some.injEq] at hs
  obtain ⟨hr, rfl⟩ := hs
  cases result with
  | pending => exact ⟨h.whole, by simpa [taken, Whole.poll] using h.handed, fun _ => h.rest hr, nofun⟩
  | ready result =>
    cases result with
    | error err => exact ⟨h.whole, by simpa [taken, Whole.poll] using h.handed, nofun, nofun⟩
    | ok n =>
      obtain ⟨hpos, hle⟩ := ho n rfl
      obtain ⟨hbuf, hlen⟩ := h.rest hr
      have hn := h.toNat_add hr hle
      have hhanded : s.handed ++ List.range' s.whole.inner.buf n.toNat =
          List.range' buf.buf (s.whole.n + n).toNat := by
        rw [h.handed, hbuf, hn, List.range'_append_1]
      simp only [Whole.poll, taken]
      split <;> rename_i hfull
      · refine ⟨h.whole, hhanded, nofun, fun _ => ?_⟩
        have hfull := congrArg UInt64.toNat hfull
        rw [h.whole, UInt32.toNat_toUInt64] at hfull
        dsimp only at hfull ⊢
        omega
      · refine ⟨h.whole, hhanded, fun _ => ⟨?_, ?_⟩, nofun⟩
        · show s.whole.inner.buf + n.toNat = buf.buf + (s.whole.n + n).toNat
          omega
        · show (s.whole.n + n).toNat + (s.whole.inner.len - n.toUInt32).toNat = buf.len.toNat
          rw [toNat_sub hle]
          omega

/-- **Returned `Ok`, the whole buffer has been handed over**, in order and once each. It
is not returned for an empty buffer, of which there is nothing to take. -/
theorem covers_buf {results : List (Poll (Except IoError UInt64))} {t : Transfer}
    (ho : (machine ⟨buf, buf, 0⟩).Steps Offered (machine ⟨buf, buf, 0⟩).init results)
    (hrun : (machine ⟨buf, buf, 0⟩).run (machine ⟨buf, buf, 0⟩).init results = some t)
    (ht : t.returned = some (.ok ())) : t.handed = buf.bytes ∧ 0 < buf.len.toNat := by
  have h := Machine.run_keeps_of (M := machine ⟨buf, buf, 0⟩) (I := Prefix buf)
    (fun s a s' hp ha hs => prefix_step hp ha hs) (prefix_init buf) ho hrun
  obtain ⟨hn, hpos⟩ := h.full ht
  refine ⟨?_, hpos⟩
  rw [h.handed, hn]
  rfl

/-- All that is offered at once. -/
theorem poll_all (buf : WSABUF) :
    (⟨buf, buf, 0⟩ : Whole).poll (.ready (.ok buf.len.toUInt64)) =
      (⟨buf, buf, buf.len.toUInt64⟩, some (.ok ())) := by
  have hn : (0 : UInt64) + buf.len.toUInt64 = buf.len.toUInt64 := UInt64.zero_add _
  simp only [Whole.poll, hn, if_true]

/-- A buffer that is not empty may be taken at once, and then `Ok` is returned. -/
theorem run_all (hpos : 0 < buf.len.toNat) : ∃ results t,
    (machine ⟨buf, buf, 0⟩).Steps Offered (machine ⟨buf, buf, 0⟩).init results ∧
    (machine ⟨buf, buf, 0⟩).run (machine ⟨buf, buf, 0⟩).init results = some t ∧
    t.returned = some (.ok ()) := by
  refine ⟨[.ready (.ok buf.len.toUInt64)], ⟨⟨buf, buf, buf.len.toUInt64⟩, some (.ok ()),
    [] ++ List.range' buf.buf buf.len.toUInt64.toNat⟩, fun s' _ => ⟨fun n hn => ?_, trivial⟩, ?_, rfl⟩
  · obtain rfl := Except.ok.inj (Poll.ready.inj hn)
    rw [UInt32.toNat_toUInt64]
    exact ⟨hpos, Nat.le_refl _⟩
  · simp only [machine, Machine.run, step, if_true, poll_all, taken]
    rfl

/-- So it covers just these bytes, unless there is nothing to take. -/
theorem covers_iff (buf : WSABUF) (bytes : List Nat) :
    Covers ⟨buf, buf, 0⟩ bytes ↔ buf.bytes = bytes ∨ buf.len.toNat = 0 := by
  constructor
  · intro h
    by_cases hpos : 0 < buf.len.toNat
    · obtain ⟨results, t, ho, hrun, ht⟩ := run_all hpos
      have hbuf := (covers_buf ho hrun ht).1
      have hbytes := h results t ho hrun ht
      exact .inl (hbuf.symm.trans hbytes)
    · exact .inr (Nat.eq_zero_of_not_pos hpos)
  · intro h results t ho hrun ht
    obtain ⟨hhanded, hpos⟩ := covers_buf ho hrun ht
    rw [hhanded]
    exact h.resolve_right (Nat.ne_of_gt hpos)

theorem covers_narrowed (slice : Slice) :
    Covers ⟨narrowed slice, narrowed slice, 0⟩ slice.bytes ↔
      slice.len.toNat < 2 ^ 32 ∨ 2 ^ 32 ∣ slice.len.toNat := by
  rw [covers_iff, narrowed_bytes_iff, narrowed_len, Nat.dvd_iff_mod_eq_zero]

/-- **The whole slice is covered** exactly when its length fits in 32 bits, or is such
that nothing is left of it in 32 bits and `Ok` is never returned. By way of the standard
library's slices, which are never that long, it always is. -/
theorem slices_covered (slice : Slice) :
    (Covers (WriteAll.new (.fromSlice slice)) slice.bytes ↔
      slice.len.toNat < 2 ^ 32 ∨ 2 ^ 32 ∣ slice.len.toNat) ∧
    (Covers (ReadExact.new (.fromSlice slice)) slice.bytes ↔
      slice.len.toNat < 2 ^ 32 ∨ 2 ^ 32 ∣ slice.len.toNat) ∧
    (Covers (ReadExact.new (.fromUninit slice)) slice.bytes ↔
      slice.len.toNat < 2 ^ 32 ∨ 2 ^ 32 ∣ slice.len.toNat) ∧
    ∀ std, StdIoSlice.new slice = some std →
      Covers (WriteAll.new (.fromStd std)) slice.bytes ∧
      Covers (ReadExact.new (.fromStd std)) slice.bytes := by
  refine ⟨covers_narrowed slice, covers_narrowed slice, covers_narrowed slice, fun std hstd => ?_⟩
  obtain ⟨hvec, hlt⟩ := StdIoSlice.new_eq_some hstd
  have h := (covers_narrowed slice).mpr (.inl hlt)
  rw [← hvec] at h
  exact ⟨h, h⟩

/-- A slice of five bytes, also by way of the standard library's. -/
theorem slices_covered_short :
    Covers (WriteAll.new (.fromSlice ⟨0, 5⟩)) [0, 1, 2, 3, 4] ∧
    Covers (ReadExact.new (.fromStd ⟨5, 0⟩)) [0, 1, 2, 3, 4] :=
  have h := slices_covered ⟨0, 5⟩
  ⟨h.1.mpr (by decide), (h.2.2.2 ⟨5, 0⟩ (by decide)).2⟩

/-- Of four gigabytes and five bytes, five bytes are handed over. -/
theorem long_slice_uncovered :
    ¬ ∀ slice, Covers (WriteAll.new (.fromSlice slice)) slice.bytes ∧
      Covers (ReadExact.new (.fromSlice slice)) slice.bytes := by
  intro h
  have hlong := (covers_narrowed ⟨0, 0x100000005⟩).mp (h _).1
  revert hlong
  decide

end Transfer

end Wae.Io
