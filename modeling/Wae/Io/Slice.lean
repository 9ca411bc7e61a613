import Mathlib.Algebra.Ring.Nat

/-! The buffers given to reads and writes: `IoSlice` and `IoSliceMut`.

Both are a `WSABUF` under another name. Its length has 32 bits where a slice's has 64,
and the conversions from slices narrow it. -/
namespace Wae.Io

/-- A slice of the caller's memory. -/
structure Slice where
  ptr : Nat
  len : UInt64
  deriving DecidableEq, Repr

structure WSABUF where
  len : UInt32
  buf : Nat
  deriving DecidableEq, Repr

/-- The addresses of a slice's bytes, in order. -/
def Slice.bytes (slice : Slice) : List Nat := List.range' slice.ptr slice.len.toNat

def WSABUF.bytes (buf : WSABUF) : List Nat := List.range' buf.buf buf.len.toNat

abbrev IoSlice := WSABUF

abbrev IoSliceMut := WSABUF

/-- `buf.len() as u32`. -/
def narrowed (slice : Slice) : WSABUF := ⟨slice.len.toUInt32, slice.ptr⟩

/-- The standard library's own slice for I/O, the same in memory. -/
structure StdIoSlice where
  vec : WSABUF
  deriving DecidableEq, Repr

/-- It is not made of a slice whose length does not fit: `new` panics. -/
def StdIoSlice.new (slice : Slice) : Option StdIoSlice :=
  if slice.len ≤ UInt32.toUInt64 0xFFFFFFFF then some ⟨narrowed slice⟩ else none

namespace IoSlice

/-- `From<&[u8]>`; `From<&T>` is this on what `T` dereferences to. -/
def fromSlice (buf : Slice) : IoSlice := narrowed buf

/-- `From<std::io::IoSlice>`, a `transmute`. -/
def fromStd (buf : StdIoSlice) : IoSlice := buf.vec

end IoSlice

namespace IoSliceMut

/-- `From<&mut [u8]>`; `From<&mut T>` is this on what `T` dereferences to. -/
def fromSlice (buf : Slice) : IoSliceMut := narrowed buf

/-- `From<&mut [MaybeUninit<u8>]>`. -/
def fromUninit (buf : Slice) : IoSliceMut := narrowed buf

/-- `From<std::io::IoSliceMut>`, a `transmute`. -/
def fromStd (buf : StdIoSlice) : IoSliceMut := buf.vec

end IoSliceMut

@[simp] theorem narrowed_len (slice : Slice) :
    (narrowed slice).len.toNat = slice.len.toNat % 2 ^ 32 :=
  UInt64.toNat_toUInt32 slice.len

@[simp] theorem narrowed_buf (slice : Slice) : (narrowed slice).buf = slice.ptr := rfl

/-- Narrowing drops no byte exactly where the length fits. -/
theorem narrowed_bytes_iff (slice : Slice) :
    (narrowed slice).bytes = slice.bytes ↔ slice.len.toNat < 2 ^ 32 := by
  unfold WSABUF.bytes Slice.bytes
  rw [narrowed_len, narrowed_buf]
  constructor
  · intro h
    have hlen := congrArg List.length h
    rw [List.length_range', List.length_range'] at hlen
    omega
  · intro h
    rw [Nat.mod_eq_of_lt h]

theorem StdIoSlice.new_eq_some {slice : Slice} {std : StdIoSlice} (h : new slice = some std) :
    std.vec = narrowed slice ∧ slice.len.toNat < 2 ^ 32 := by
  simp only [new, Option.ite_none_right_eq_some, Option.some.injEq] at h
  obtain ⟨hlen, rfl⟩ := h
  have hle : slice.len.toNat ≤ 4294967295 := UInt64.le_iff_toNat_le.mp hlen
  exact ⟨rfl, by omega⟩

end Wae.Io
