import Wae.Io.Exact
import Wae.Io.Slot
import Wae.Memory
import Wae.Transition.Beside

/-! Bytes from one end of a connection to the other.

A task at one end makes one call of `write_all` after another, and a task at the other
end calls of `read_exact`. Each polls its half of a stream. The system takes bytes out of
the buffer that a send was issued with, and puts bytes into the buffer that a receive was
issued with, when it likes and in portions as it likes; a completion reports how many.
Between the two it keeps the bytes, in order.

All of this is about runs in which each half is `Orderly`: no callback on an earlier
operation's packet takes the word, and no waiting cancel takes a `PENDING`. Where one does,
a poll returns what belongs to another operation, and the bytes do not come in order. -/
namespace Wae.Net.Tcp
open Io Transition

/-- A call of `write_all` or of `read_exact`, and the operation that it has under way. -/
structure Passage where
  whole : Whole
  returned : Option (Except IoError Unit)
  /-- An operation has been issued, and its result has not come. -/
  busy : Bool
  /-- The buffer that it was issued with. -/
  window : WSABUF
  /-- The bytes that the system has moved and the call has not counted. -/
  moved : Nat
  deriving DecidableEq

namespace Passage

def new (whole : Whole) : Passage := ⟨whole, none, false, whole.buf, 0⟩

/-- Before the first call, as after one that has returned `Ok`. -/
def init : Passage := {new (WriteAll.new ⟨0, 0⟩) with returned := some (.ok ())}

/-- The call's part in its half's slot. It polls until it has returned. -/
def step (c : Passage) : Slot.Action (Except IoError Nat) → Option Passage
  | .ask =>
    if c.returned = none then some {c with busy := true, window := c.whole.inner, moved := 0}
    else none
  | .accept => some c
  | .answer result | .land result =>
    -- a byte count is of the bytes that were moved
    if result.toOption.all (· = c.moved) then some {c with busy := false} else none
  | .take (.ok n) =>
    let (whole, returned) := c.whole.poll (.ready (.ok (.ofNat n)))
    some {c with whole, returned, moved := 0}
  | .take (.error err) =>
    let (whole, returned) := c.whole.poll (.ready (.error err))
    some {c with whole, returned}

/-- The system moves more bytes of the operation in progress. -/
def moves (c : Passage) (n : Nat) : Passage := {c with moved := c.moved + n}

/-- The bytes that have gone through, counted or not. -/
def total (c : Passage) : Nat := c.whole.n.toNat + c.moved

/-- The addresses of these bytes. -/
def gone (c : Passage) : List Nat := List.range' c.whole.buf.buf c.total

theorem total_moves (c : Passage) (n : Nat) : (c.moves n).total = c.total + n :=
  (Nat.add_assoc ..).symm

theorem gone_moves (c : Passage) (n : Nat) :
    (c.moves n).gone = c.gone ++ List.range' (c.whole.buf.buf + c.total) n := by
  unfold gone
  rw [total_moves, ← List.range'_append_1]
  rfl

end Passage

structure Link where
  write : Passage
  /-- The writer's memory, which a call borrows. -/
  source : Memory
  /-- What the calls of `write_all` were given. -/
  sent : List UInt8
  /-- The bytes that the system has taken from them. -/
  stream : List UInt8
  /-- How many of these it has put into the reader's buffers. -/
  position : Nat
  read : Passage
  memory : Memory
  /-- What the calls of `read_exact` that returned `Ok` had in their buffers then. -/
  received : List UInt8

namespace Link

/-- What is no step of a half. -/
inductive Action where
  | writeAll (buf : IoSlice) (source : Memory)
  | readExact (buf : IoSliceMut)
  | send (n : Nat)
  | receive (n : Nat)

def init : Link where
  write := .init
  source := fun _ => 0
  sent := []
  stream := []
  position := 0
  read := .init
  memory := fun _ => 0
  received := []

/-- The reader's call moves on. Where it returns `Ok`, its buffer is the caller's. -/
def reads (s : Link) (read : Passage) : Link :=
  {s with
    read
    received := if read.returned = some (.ok ()) then s.received ++ read.whole.buf.bytes.map s.memory
      else s.received}

def writeAll (s : Link) (buf : IoSlice) (source : Memory) : Link :=
  {s with
    write := .new (WriteAll.new buf)
    source
    sent := s.sent ++ buf.bytes.map source}

/-- The system takes bytes from where the send in progress has come to. -/
def sends (s : Link) (n : Nat) : Link :=
  {s with
    write := s.write.moves n
    stream := s.stream ++ (List.range' (s.write.window.buf + s.write.moved) n).map s.source}

/-- The system puts bytes where the receive in progress has come to. -/
def receives (s : Link) (n : Nat) : Link :=
  {s with
    read := s.read.moves n
    position := s.position + n
    memory := s.memory.store (s.read.window.buf + s.read.moved) ((s.stream.drop s.position).take n)}

def step (s : Link) : (Slot.Action (Except IoError Nat) ⊕ Slot.Action (Except IoError Nat)) ⊕ Action →
    Option Link
  | .inl (.inl a) => (s.write.step a).map fun write => {s with write}
  | .inl (.inr a) => (s.read.step a).map s.reads
  | .inr (.writeAll buf source) =>
    if s.write.returned = some (.ok ()) then some (s.writeAll buf source) else none
  | .inr (.readExact buf) =>
    if s.read.returned = some (.ok ()) then some {s with read := .new (ReadExact.new buf)} else none
  | .inr (.send n) =>
    if s.write.busy = true ∧ s.write.moved + n ≤ s.write.window.len.toNat then some (s.sends n)
    else none
  | .inr (.receive n) =>
    if s.read.busy = true ∧ s.read.moved + n ≤ s.read.window.len.toNat ∧
      s.position + n ≤ s.stream.length then some (s.receives n)
    else none

def machine : Machine Link
    ((Slot.Action (Except IoError Nat) ⊕ Slot.Action (Except IoError Nat)) ⊕ Action) :=
  ⟨init, step⟩

end Link

/-- The two halves, each as far as it is orderly, with what the tasks and the system make of
their operations. `posts` and `posts'`: as for each half. -/
def connection (posts posts' : Bool) :
    Machine ((Half × Half) × Link) ((Io.Action ⊕ Io.Action) ⊕ Link.Action) :=
  (((Half.machine posts).within Half.Orderly).pair ((Half.machine posts').within Half.Orderly)).beside
    ((Half.asSlot posts).pair (Half.asSlot posts')).part Link.machine

namespace Passage

/-! ### One call -/

variable {R : Type} {slot slot' : Slot (Except IoError Nat)} {c c' : Passage}

/-- What a call and its half's slot know of each other. -/
structure Going (slot : Slot (Except IoError Nat)) (c : Passage) : Prop where
  tiles : c.returned ≠ some (.ok ()) → Whole.Tiles c.whole.buf c.whole.n.toNat c.whole
  full : c.returned = some (.ok ()) → c.total = c.whole.buf.len.toNat
  /-- It has returned only while there is no operation. -/
  going : slot ≠ .empty → c.returned = none
  busy : c.busy = true → (slot = .asked ∨ slot = .flying) ∧ c.window = c.whole.inner
  fits : c.returned ≠ some (.ok ()) → c.moved ≤ c.whole.inner.len.toNat
  landed : ∀ n, slot = .landed (.ok n) → n = c.moved
  counted : slot = .empty → c.returned = none → c.moved = 0

theorem going_init : Going .empty init where
  tiles h := absurd rfl h
  full _ := rfl
  going h := absurd rfl h
  busy := nofun
  fits h := absurd rfl h
  landed := nofun
  counted _ := nofun

theorem going_new (buf : WSABUF) : Going .empty (new ⟨buf, buf, 0⟩) where
  tiles _ := Whole.tiles_new buf
  full := nofun
  going h := absurd rfl h
  busy := nofun
  fits _ := Nat.zero_le _
  landed := nofun
  counted _ _ := rfl

/-- A call that has returned takes no part in any step of its slot. -/
theorem Going.returned {b : Slot.Action (Except IoError Nat)} (h : Going slot c)
    (hslot : Slot.step slot b = some slot') (hc : c.step b = some c') : c.returned = none := by
  by_cases he : slot = .empty
  · subst he
    cases b with
    | ask =>
      simp only [step, Option.ite_none_right_eq_some] at hc
      exact hc.1
    | answer | accept | land | take => cases hslot
  · exact h.going he

/-- While an operation's result waits, the operation is not in progress. -/
theorem Going.idle {r : Except IoError Nat} (h : Going (.landed r) c) : c.busy ≠ true := fun hb =>
  (h.busy hb).1.elim nofun nofun

/-- What an operation has moved fits in 64 bits. -/
theorem Going.toNat_moved (h : Going slot c) (hr : c.returned = none) :
    (UInt64.ofNat c.moved).toNat = c.moved ∧ c.moved ≤ c.whole.inner.len.toNat := by
  have hfits := h.fits (by rw [hr]; nofun)
  have hlen := c.whole.inner.len.toNat_lt
  exact ⟨by rw [UInt64.toNat_ofNat', Nat.mod_eq_of_lt (by omega)], hfits⟩

/-- What was moved is counted, and the call has returned `Ok` where that is all. -/
theorem Going.take {n : Nat} (h : Going (.landed (.ok n)) c) (hc : c.step (.take (.ok n)) = some c') :
    Going .empty c' ∧ c'.total = c.total ∧ c'.whole.buf = c.whole.buf := by
  have hr := h.going (by simp)
  have htiles := h.tiles (by simp [hr])
  obtain ⟨hn, hfits⟩ := h.toNat_moved hr
  obtain rfl := h.landed n rfl
  have hle : (UInt64.ofNat c.moved).toNat ≤ c.whole.inner.len.toNat := by omega
  have hadd := htiles.toNat_add hle
  rw [hn] at hadd
  have hidle := h.idle
  by_cases hfull : c.whole.n + .ofNat c.moved = c.whole.buf.len.toUInt64
  · have hsum := (htiles.full_iff hle).mp hfull
    rw [hn] at hsum
    simp only [step, Whole.poll, if_pos hfull, Option.some.injEq] at hc
    subst hc
    refine ⟨?_, hadd, rfl⟩
    exact {
      tiles := fun hne => absurd rfl hne
      full := fun _ => hadd.trans hsum
      going := fun he => absurd rfl he
      busy := fun hb => absurd hb hidle
      fits := fun hne => absurd rfl hne
      landed := fun _ hl => by cases hl
      counted := fun _ hn => by cases hn }
  · have hadvance := htiles.advance hle
    rw [hn] at hadvance
    simp only [step, Whole.poll, if_neg hfull, Option.some.injEq] at hc
    subst hc
    refine ⟨?_, hadd, rfl⟩
    exact {
      tiles := fun _ => by
        show Whole.Tiles c.whole.buf (c.whole.n + .ofNat c.moved).toNat _
        rw [hadd]
        exact hadvance
      full := fun hf => by cases hf
      going := fun he => absurd rfl he
      busy := fun hb => absurd hb hidle
      fits := fun _ => Nat.zero_le _
      landed := fun _ hl => by cases hl
      counted := fun _ _ => rfl }

/-- **A call goes on with its slot**, and by that no byte more or less has gone through. -/
theorem Going.step {b : Slot.Action (Except IoError Nat)} (h : Going slot c)
    (hslot : Slot.step slot b = some slot') (hc : c.step b = some c') :
    Going slot' c' ∧ c'.total = c.total ∧ c'.whole.buf = c.whole.buf := by
  have hr := h.returned hslot hc
  have hlands : ∀ {r : Except IoError Nat}, (slot = .asked ∨ slot = .flying) →
      r.toOption.all (· = c.moved) = true → Going (.landed r) {c with busy := false} := by
    intro r _ hall
    exact {
      tiles := h.tiles
      full := h.full
      going := fun _ => hr
      busy := fun hb => by cases hb
      fits := h.fits
      landed := fun n hn => by
        obtain rfl := Slot.landed.inj hn
        simpa [Except.toOption] using hall
      counted := fun he => by cases he }
  cases slot with
  | empty =>
    cases b with
    | ask =>
      have hzero := h.counted rfl hr
      simp only [Passage.step, if_pos hr, Option.some.injEq] at hc
      cases hslot
      subst hc
      refine ⟨?_, by rw [total, total, hzero], rfl⟩
      exact {
        tiles := h.tiles
        full := fun hf => nomatch hr.symm.trans hf
        going := fun _ => hr
        busy := fun _ => ⟨.inl rfl, rfl⟩
        fits := fun _ => Nat.zero_le _
        landed := fun _ hl => by cases hl
        counted := fun he => by cases he }
    | answer | accept | land | take => cases hslot
  | asked =>
    cases b with
    | answer r =>
      simp only [Passage.step, Option.ite_none_right_eq_some, Option.some.injEq] at hc
      obtain ⟨hall, rfl⟩ := hc
      cases hslot
      exact ⟨hlands (.inl rfl) hall, rfl, rfl⟩
    | accept =>
      cases hslot
      cases hc
      refine ⟨?_, rfl, rfl⟩
      exact {
        tiles := h.tiles
        full := h.full
        going := fun _ => hr
        busy := fun hb => ⟨.inr rfl, (h.busy hb).2⟩
        fits := h.fits
        landed := fun _ hl => by cases hl
        counted := fun he => by cases he }
    | ask | land | take => cases hslot
  | flying =>
    cases b with
    | land r =>
      simp only [Passage.step, Option.ite_none_right_eq_some, Option.some.injEq] at hc
      obtain ⟨hall, rfl⟩ := hc
      cases hslot
      exact ⟨hlands (.inr rfl) hall, rfl, rfl⟩
    | ask | answer | accept | take => cases hslot
  | landed r =>
    cases b with
    | take r' =>
      obtain ⟨rfl, rfl⟩ : r = r' ∧ slot' = .empty := by
        simpa [Slot.step, eq_comm] using hslot
      cases r with
      | ok n => exact h.take hc
      | error err =>
        cases hc
        have hidle := h.idle
        refine ⟨?_, rfl, rfl⟩
        exact {
          tiles := fun _ => h.tiles (by simp [hr])
          full := fun hf => by cases hf
          going := fun he => absurd rfl he
          busy := fun hb => absurd hb hidle
          fits := fun _ => h.fits (by simp [hr])
          landed := fun _ hl => by cases hl
          counted := fun _ hn => by cases hn }
    | ask | answer | accept | land => cases hslot

/-- Where the operation in progress has come to. -/
theorem Going.window (h : Going slot c) (hb : c.busy = true) :
    c.returned = none ∧ c.window.buf + c.moved = c.whole.buf.buf + c.total ∧
      c.window = c.whole.inner := by
  obtain ⟨hslot, hw⟩ := h.busy hb
  have hr := h.going (by rcases hslot with hs | hs <;> rw [hs] <;> nofun)
  have hbase := (h.tiles (by rw [hr]; nofun)).base
  refine ⟨hr, ?_, hw⟩
  rw [hw, hbase, total, Nat.add_assoc]

theorem Going.moves {n : Nat} (h : Going slot c) (hb : c.busy = true)
    (hn : c.moved + n ≤ c.window.len.toNat) : Going slot (c.moves n) := by
  obtain ⟨hr, _, hw⟩ := h.window hb
  have hslot := (h.busy hb).1
  rw [hw] at hn
  exact {
    tiles := h.tiles
    full := fun hf => nomatch hr.symm.trans hf
    going := h.going
    busy := h.busy
    fits := fun _ => hn
    landed := fun k hk => by rcases hslot with hs | hs <;> cases hs.symm.trans hk
    counted := fun he => by rcases hslot with hs | hs <;> cases hs.symm.trans he }

end Passage

namespace Link

/-! ### Both -/

/-- What has come into the buffer of a `read_exact` that has not returned `Ok`. -/
def arrived (s : Link) : List UInt8 :=
  if s.read.returned = some (.ok ()) then [] else s.read.gone.map s.memory

/-- Nothing is lost, or doubled, or out of its place. -/
structure InOrder (s : Link) : Prop where
  /-- What the calls of `read_exact` have returned is the beginning of what the calls of
  `write_all` were given. -/
  received : s.received <+: s.sent
  /-- What the system has put into the reader's buffers is in them. -/
  arrived : s.received ++ s.arrived = s.stream.take s.position
  /-- What a call that has returned `Ok` was given has all been taken. -/
  sent : s.write.returned = some (.ok ()) → s.stream = s.sent

/-- The invariant. The calls of `write_all` before the latest were given `base`. -/
structure Flows (slots : Slot (Except IoError Nat) × Slot (Except IoError Nat)) (s : Link) :
    Prop where
  write : s.write.Going slots.1
  read : s.read.Going slots.2
  out : ∃ base, s.sent = base ++ s.write.whole.buf.bytes.map s.source ∧
    s.stream = base ++ s.write.gone.map s.source
  position : s.position ≤ s.stream.length
  arrived : s.received ++ s.arrived = s.stream.take s.position

variable {slots slots' : Slot (Except IoError Nat) × Slot (Except IoError Nat)} {s s' : Link}

theorem flows_init : Flows (.empty, .empty) init where
  write := Passage.going_init
  read := Passage.going_init
  out := ⟨[], rfl, rfl⟩
  position := Nat.le_refl _
  arrived := rfl

/-- Once `Ok` is returned, these bytes are the whole buffer's. -/
theorem gone_full {c : Passage} {slot : Slot (Except IoError Nat)} (h : c.Going slot)
    (hr : c.returned = some (.ok ())) : c.gone = c.whole.buf.bytes := by
  unfold Passage.gone
  rw [h.full hr]
  rfl

/-- Before, they are the first of them. -/
theorem gone_begins {c : Passage} {slot : Slot (Except IoError Nat)} (h : c.Going slot) :
    c.gone <+: c.whole.buf.bytes := by
  by_cases hr : c.returned = some (.ok ())
  · exact ⟨[], by rw [gone_full h hr, List.append_nil]⟩
  · have hrest := (h.tiles hr).rest
    have hfits := h.fits hr
    refine ⟨List.range' (c.whole.buf.buf + c.total) (c.whole.buf.len.toNat - c.total), ?_⟩
    unfold Passage.gone Passage.total WSABUF.bytes
    rw [List.range'_append_1]
    congr 1
    omega

/-- All that the calls of `write_all` were given has been taken, once the latest has
returned `Ok`. -/
theorem Flows.sent (h : Flows slots s) (hr : s.write.returned = some (.ok ())) :
    s.stream = s.sent := by
  obtain ⟨base, hsent, hstream⟩ := h.out
  rw [hsent, hstream, gone_full h.write hr]

theorem flows_write {a : Slot.Action (Except IoError Nat)} {slot : Slot (Except IoError Nat)}
    {write : Passage} (h : Flows slots s) (hslot : Slot.step slots.1 a = some slot)
    (hc : s.write.step a = some write) : Flows (slot, slots.2) {s with write} := by
  obtain ⟨hgoing, htotal, hbuf⟩ := h.write.step hslot hc
  refine ⟨hgoing, h.read, ?_, h.position, h.arrived⟩
  rw [Passage.gone, htotal, hbuf]
  exact h.out

theorem flows_read {a : Slot.Action (Except IoError Nat)} {slot : Slot (Except IoError Nat)}
    {read : Passage} (h : Flows slots s) (hslot : Slot.step slots.2 a = some slot)
    (hc : s.read.step a = some read) : Flows (slots.1, slot) (s.reads read) := by
  obtain ⟨hgoing, htotal, hbuf⟩ := h.read.step hslot hc
  have hbefore : s.read.returned ≠ some (.ok ()) := by
    rw [h.read.returned hslot hc]
    nofun
  have harrived := h.arrived
  rw [Link.arrived, if_neg hbefore] at harrived
  refine ⟨h.write, hgoing, h.out, h.position, ?_⟩
  unfold Link.arrived reads
  dsimp only
  by_cases hr : read.returned = some (.ok ())
  · rw [if_pos hr, if_pos hr, List.append_nil, ← gone_full hgoing hr, Passage.gone, htotal, hbuf]
    exact harrived
  · rw [if_neg hr, if_neg hr, Passage.gone, htotal, hbuf]
    exact harrived

theorem flows_writeAll {slot} (h : Flows (.empty, slot) s) (hr : s.write.returned = some (.ok ()))
    (buf : IoSlice) (source : Memory) : Flows (.empty, slot) (s.writeAll buf source) := by
  refine ⟨Passage.going_new buf, h.read, ⟨s.sent, rfl, ?_⟩, h.position, h.arrived⟩
  rw [← h.sent hr]
  exact (List.append_nil _).symm

theorem flows_readExact {slot} (h : Flows (slot, .empty) s) (hr : s.read.returned = some (.ok ()))
    (buf : IoSliceMut) :
    Flows (slot, .empty) {s with read := .new (ReadExact.new buf)} := by
  have harrived := h.arrived
  rw [Link.arrived, if_pos hr] at harrived
  exact ⟨h.write, Passage.going_new buf, h.out, h.position, harrived⟩

theorem flows_sends {n : Nat} (h : Flows slots s) (hb : s.write.busy = true)
    (hn : s.write.moved + n ≤ s.write.window.len.toNat) : Flows slots (s.sends n) := by
  obtain ⟨hr, hbuf, _⟩ := h.write.window hb
  obtain ⟨base, hsent, hstream⟩ := h.out
  refine ⟨h.write.moves hb hn, h.read, ⟨base, hsent, ?_⟩, ?_, ?_⟩
  · show s.stream ++ (List.range' (s.write.window.buf + s.write.moved) n).map s.source =
      base ++ (s.write.moves n).gone.map s.source
    rw [hstream, hbuf, Passage.gone_moves, List.map_append, List.append_assoc]
  · show s.position ≤ (s.stream ++ _).length
    rw [List.length_append]
    exact Nat.le_add_right_of_le h.position
  · show s.received ++ s.arrived = (s.stream ++ _).take s.position
    rw [List.take_append_of_le_length h.position]
    exact h.arrived

theorem flows_receives {n : Nat} (h : Flows slots s) (hb : s.read.busy = true)
    (hn : s.read.moved + n ≤ s.read.window.len.toNat)
    (hp : s.position + n ≤ s.stream.length) : Flows slots (s.receives n) := by
  obtain ⟨hr, hbuf, _⟩ := h.read.window hb
  have hne : s.read.returned ≠ some (.ok ()) := by
    rw [hr]
    nofun
  have harrived := h.arrived
  rw [Link.arrived, if_neg hne] at harrived
  refine ⟨h.write, h.read.moves hb hn, h.out, hp, ?_⟩
  have hlength : ((s.stream.drop s.position).take n).length = n := by
    rw [List.length_take, List.length_drop]
    omega
  have hstored := Memory.map_store s.memory (s.read.whole.buf.buf + s.read.total)
    ((s.stream.drop s.position).take n)
  rw [hlength] at hstored
  have hkept := Memory.map_store_before s.memory s.read.whole.buf.buf s.read.total
    ((s.stream.drop s.position).take n)
  have hnew : (s.receives n).arrived = s.read.gone.map s.memory ++
      (s.stream.drop s.position).take n := by
    show (if s.read.returned = some (.ok ()) then [] else (s.read.moves n).gone.map
      (s.memory.store (s.read.window.buf + s.read.moved) _)) = _
    rw [if_neg hne, hbuf, Passage.gone_moves, List.map_append, hstored]
    exact congrArg (· ++ _) hkept
  show s.received ++ (s.receives n).arrived = s.stream.take (s.position + n)
  rw [hnew, ← List.append_assoc, harrived, List.take_add]

/-- The halves as slots, in the same surroundings. -/
abbrev Slots := Machine.beside ((Slot.machine (Except IoError Nat)).pair (Slot.machine (Except IoError Nat)))
  (fun _ b => some b) Link.machine

/-- **The step lemma.** -/
theorem flows_step {a} (h : Flows slots s) (hs : Slots.step (slots, s) a = some (slots', s')) :
    Flows slots' s' := by
  obtain ⟨slot, slot'⟩ := slots
  cases a with
  | inl a =>
    obtain ⟨hslots, hlink⟩ := (Machine.beside_some rfl).mp hs
    cases a with
    | inl a =>
      obtain ⟨_, hslot, rfl⟩ := Option.map_eq_some_iff.mp hslots
      obtain ⟨write, hc, rfl⟩ := Option.map_eq_some_iff.mp hlink
      exact flows_write h hslot hc
    | inr a =>
      obtain ⟨_, hslot, rfl⟩ := Option.map_eq_some_iff.mp hslots
      obtain ⟨read, hc, rfl⟩ := Option.map_eq_some_iff.mp hlink
      exact flows_read h hslot hc
  | inr a =>
    obtain ⟨hslots, hlink⟩ := Machine.beside_own.mp hs
    obtain rfl : slots' = (slot, slot') := hslots
    -- a call that has returned leaves its slot empty
    have hempty : ∀ {slot} {c : Passage}, c.Going slot → c.returned = some (.ok ()) →
        slot = .empty := fun hgoing hr => by
      by_contra hne
      exact nomatch (hgoing.going hne).symm.trans hr
    cases a with
    | writeAll buf source =>
      obtain ⟨hr, rfl⟩ : s.write.returned = some (.ok ()) ∧ s.writeAll buf source = s' := by
        simpa [Link.machine, step] using hlink
      obtain rfl := hempty h.write hr
      exact flows_writeAll h hr buf source
    | readExact buf =>
      obtain ⟨hr, rfl⟩ : s.read.returned = some (.ok ()) ∧
          {s with read := .new (ReadExact.new buf)} = s' := by
        simpa [Link.machine, step] using hlink
      obtain rfl := hempty h.read hr
      exact flows_readExact h hr buf
    | send n =>
      obtain ⟨⟨hb, hn⟩, rfl⟩ : (s.write.busy = true ∧
          s.write.moved + n ≤ s.write.window.len.toNat) ∧ s.sends n = s' := by
        simpa [Link.machine, step] using hlink
      exact flows_sends h hb hn
    | receive n =>
      obtain ⟨⟨hb, hn, hp⟩, rfl⟩ : (s.read.busy = true ∧
          s.read.moved + n ≤ s.read.window.len.toNat ∧ s.position + n ≤ s.stream.length) ∧
          s.receives n = s' := by
        simpa [Link.machine, step] using hlink
      exact flows_receives h hb hn hp

theorem Flows.inOrder (h : Flows slots s) : InOrder s where
  received := by
    obtain ⟨base, hsent, hstream⟩ := h.out
    have hstream : s.stream <+: s.sent := by
      rw [hsent, hstream]
      exact (List.prefix_append_right_inj base).mpr ((gone_begins h.write).map _)
    have harrived : s.received <+: s.stream.take s.position := ⟨_, h.arrived⟩
    exact (harrived.trans (List.take_prefix ..)).trans hstream
  arrived := h.arrived
  sent := h.sent

/-- The concrete connection, seen by the slots of its halves. -/
def asSlots (posts posts' : Bool) :=
  ((Half.asSlot posts).pair (Half.asSlot posts')).beside machine

/-- The invariant of both halves and of what they carry goes on with each step. -/
theorem flows_connection {posts posts' : Bool} {s s' : (Half × Half) × Link} {a}
    (hI : Half.Serial posts s.1.1 ∧ Half.Serial posts' s.1.2)
    (hflows : Flows ((asSlots posts posts').view s).1 s.2)
    (hs : (connection posts posts').step s a = some s') :
    (Half.Serial posts s'.1.1 ∧ Half.Serial posts' s'.1.2) ∧
      Flows ((asSlots posts posts').view s').1 s'.2 :=
  ⟨(asSlots posts posts').kept hI hs,
    (asSlots posts posts').keeps (J := fun s => Flows s.1 s.2) hI hflows
      (fun _ _ ht => flows_step hflows ht) hs⟩

/-- Two bytes, sent at once and received later. -/
example : ((connection true true).run (connection true true).init
    [.inr (.writeAll ⟨2, 0⟩ fun i => .ofNat (i + 7)), .inr (.readExact ⟨2, 4⟩),
     .inl (.inr (.poll 0)), .inl (.inr .owner), .inl (.inr .owner),
     .inl (.inr (.issue (.failed 997))), .inl (.inr .owner),
     .inl (.inl (.poll 0)), .inl (.inl .owner), .inl (.inl .owner), .inr (.send 2),
     .inl (.inl (.issue (.accepted ⟨0, 2⟩))), .inl (.inl .owner), .inl (.inl .owner),
     .inr (.receive 2), .inl (.inr (.complete 1 ⟨0, 2⟩)), .inl (.inr (.callback 1)),
     .inl (.inr (.callback 1)), .inl (.inr (.callback 1)), .inl (.inr (.callback 1)),
     .inl (.inr (.poll 0)), .inl (.inr .owner), .inl (.inr .owner), .inl (.inr .owner)]).map
    (fun s => s.2.received) = some [7, 8] := by
  rfl

end Link

end Wae.Net.Tcp
