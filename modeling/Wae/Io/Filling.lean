import Wae.Io.ChainLaws
import Wae.Io.Exact
import Wae.Memory

/-! `read_exact`, by the reader and the memory behind the buffer.

The buffer is filled from its start on with what the reader delivers, without a gap and
without a byte that the reader has delivered and the buffer has not, however often the
future is suspended, cancelled or told of an error in between. Over a chain these are the
first reader's bytes and then the next one's. -/
namespace Wae.Io
open Transition

/-- A reader that puts no more into a buffer than there is room for. -/
class LawfulRead (R : Type) [AsyncRead R] : Prop where
  le : ∀ (r : R) (buf : IoSliceMut) (bytes : List UInt8),
    (pollRead r buf).1 = .ready (.ok bytes) → bytes.length ≤ buf.len.toNat

/-- The number that bytes stand for. -/
def numbered : Poll (Except IoError (List UInt8)) → Poll (Except IoError UInt64)
  | .ready (.ok bytes) => .ready (.ok (.ofNat bytes.length))
  | .ready (.error err) => .ready (.error err)
  | .pending => .pending

/-- `Read`'s `poll`, on the reader and the memory: bytes go to where the buffer points. -/
def Read.poll {R : Type} [AsyncRead R] (io : R × Memory) (buf : IoSliceMut) :
    Poll (Except IoError UInt64) × R × Memory :=
  let (poll, r) := pollRead io.1 buf
  (numbered poll, r, io.2.store buf.buf (delivered [poll]))

/-- `ReadExact`'s `cancel`, which is that of the `Read` inside. -/
def ReadExact.cancel {R : Type} [AsyncRead R] (x : Whole × R × Memory) :
    Except IoError Unit × Whole × R × Memory :=
  let (result, r) := cancelRead x.2.1 false
  (result, x.1, r, x.2.2)

section
variable {R : Type} [AsyncRead R]

/-- The calls that a `ReadExact` makes of its reader: it polls with the rest of the buffer,
and it cancels. -/
inductive Calls (r : R) (buf : IoSliceMut) : List Call → Prop
  | new : Calls r buf []
  | poll {calls : List Call} {len : UInt32} : Calls r buf calls →
    (delivered (polls r calls)).length + len.toNat = buf.len.toNat →
    (buf.len ≠ 0 → len ≠ 0) →
    Calls r buf (calls ++ [.pollRead ⟨len, buf.buf + (delivered (polls r calls)).length⟩])
  | cancel {calls : List Call} : Calls r buf calls → Calls r buf (calls ++ [.cancelRead false])

theorem numbered_count {r : R} [LawfulRead R] (buf : IoSliceMut) :
    Whole.count (numbered (pollRead r buf).1) = (delivered [(pollRead r buf).1]).length := by
  cases hpoll : (pollRead r buf).1 with
  | pending => rfl
  | ready result =>
    cases result with
    | error err => rfl
    | ok bytes =>
      have hle := LawfulRead.le r buf bytes hpoll
      have hlen := buf.len.toNat_lt
      show (UInt64.ofNat bytes.length).toNat = (bytes ++ []).length
      rw [UInt64.toNat_ofNat', Nat.mod_eq_of_lt (by omega), List.append_nil]

theorem numbered_error {poll : Poll (Except IoError (List UInt8))} {err : IoError}
    (h : numbered poll = .ready (.error err)) : poll = .ready (.error err) := by
  cases poll with
  | pending => cases h
  | ready result =>
    cases result with
    | ok bytes => cases h
    | error err' =>
      cases h
      rfl

theorem numbered_pending {poll : Poll (Except IoError (List UInt8))}
    (h : numbered poll = .pending) : poll = .pending := by
  cases poll with
  | pending => rfl
  | ready result => cases result <;> cases h

theorem numbered_ok {poll : Poll (Except IoError (List UInt8))} {n : UInt64}
    (h : numbered poll = .ready (.ok n)) : ∃ bytes, poll = .ready (.ok bytes) := by
  cases poll with
  | pending => cases h
  | ready result =>
    cases result with
    | error err => cases h
    | ok bytes => exact ⟨bytes, rfl⟩

end

/-- The reader inside a `ReadExact`, and the memory. -/
def memoryRead (R : Type) [AsyncRead R] [LawfulRead R] : Inner (R × Memory) where
  poll := Read.poll
  le io buf n hn := by
    have hnumbered : numbered (pollRead io.1 buf).1 = .ready (.ok n) := hn
    obtain ⟨bytes, hpoll⟩ := numbered_ok hnumbered
    have hle := LawfulRead.le io.1 buf bytes hpoll
    have hcount := numbered_count (r := io.1) buf
    rw [hnumbered, hpoll] at hcount
    have hbytes : n.toNat = (bytes ++ []).length := hcount
    rw [List.append_nil] at hbytes
    omega

/-- How a turn leaves the loop: the buffer is full, or the answer is handed on. -/
theorem Whole.Tiles.answered_out {R : Type} {r : R} {buf : WSABUF} {sum : Nat} {s : Whole}
    {result : Poll (Except IoError UInt64)} {out : Poll (Except IoError Unit)} {y : Whole × R}
    (h : Whole.Tiles buf sum s) (hfit : Whole.Fits s result)
    (hout : s.answered (result, r) = .inr (out, y)) :
    y.2 = r ∧
      (out = .ready (.ok ()) ∧ sum + Whole.count result = buf.len.toNat ∨
        y.1 = s ∧ Whole.count result = 0 ∧ out ≠ .ready (.ok ()) ∧
          (∀ err, out = .ready (.error err) → result = .ready (.error err)) ∧
          (out = .pending → result = .pending)) := by
  cases result with
  | pending =>
    cases hout
    exact ⟨rfl, .inr ⟨rfl, rfl, by simp, by simp, fun _ => rfl⟩⟩
  | ready result =>
    cases result with
    | error err =>
      cases hout
      refine ⟨rfl, .inr ⟨rfl, rfl, by simp, fun err' herr => ?_, by simp⟩⟩
      cases herr
      rfl
    | ok n =>
      have hfull := h.full_iff (hfit n rfl)
      by_cases hn : s.n + n = s.buf.len.toUInt64
      · simp only [Whole.answered, Whole.turn_full hn, Sum.inr.injEq, Prod.mk.injEq] at hout
        obtain ⟨rfl, rfl⟩ := hout
        exact ⟨rfl, .inl ⟨rfl, hfull.mp hn⟩⟩
      · simp only [Whole.answered, Whole.turn_rest hn, reduceCtorEq] at hout

namespace ReadExact
variable {R : Type} [AsyncRead R] [LawfulRead R] {r : R} {memory : Memory} {buf : IoSliceMut}
  {calls : List Call} {x x' y : Whole × R × Memory} {out : Poll (Except IoError Unit)}

/-- What a `ReadExact` comes to while it has not returned `Ok`. -/
inductive Used (r : R) (memory : Memory) (buf : IoSliceMut) : Whole × R × Memory → Prop
  | new : Used r memory buf (ReadExact.new buf, r, memory)
  | polled {x y : Whole × R × Memory} {fuel : Nat} {out : Poll (Except IoError Unit)} :
    Used r memory buf x → (ReadExact.poll (memoryRead R)).exec fuel x = some (out, y) →
    out ≠ .ready (.ok ()) → Used r memory buf y
  | cancelled {x : Whole × R × Memory} : Used r memory buf x →
    Used r memory buf (ReadExact.cancel x).2

/-- The reader has been called so, and all it has delivered is in the buffer. -/
structure Stored (r : R) (memory : Memory) (buf : IoSliceMut) (calls : List Call)
    (y : R × Memory) : Prop where
  asked : Calls r buf calls
  reader : y.1 = called r calls
  stored : y.2 = memory.store buf.buf (delivered (polls r calls))

/-- What a poll of the future leaves, by what it returns. -/
structure Fills (r : R) (memory : Memory) (buf : IoSliceMut) (out : Poll (Except IoError Unit))
    (y : R × Memory) (calls : List Call) : Prop extends Stored r memory buf calls y where
  full : out = .ready (.ok ()) → buf.bytes.map y.2 = delivered (polls r calls)
  part : out ≠ .ready (.ok ()) → buf.len ≠ 0 →
    (delivered (polls r calls)).length < buf.len.toNat
  error : ∀ err, out = .ready (.error err) →
    (polls r calls).getLast? = some (.ready (.error err))
  pending : out = .pending → (polls r calls).getLast? = some .pending

/-- The future, its reader and the memory, when the reader has been called so. -/
structure Filled (r : R) (memory : Memory) (buf : IoSliceMut) (calls : List Call)
    (x : Whole × R × Memory) : Prop extends Stored r memory buf calls x.2 where
  tiles : Whole.Tiles buf (delivered (polls r calls)).length x.1
  part : buf.len ≠ 0 → (delivered (polls r calls)).length < buf.len.toNat

omit [LawfulRead R] in
theorem filled_new (r : R) (memory : Memory) (buf : IoSliceMut) :
    Filled r memory buf [] (ReadExact.new buf, r, memory) where
  asked := .new
  reader := rfl
  stored := (Memory.store_nil memory buf.buf).symm
  tiles := Whole.tiles_new buf
  part hbuf := Nat.pos_of_ne_zero fun h => hbuf (UInt32.toNat_inj.mp h)

omit [LawfulRead R] in
theorem Filled.cancel (h : Filled r memory buf calls x) :
    Filled r memory buf (calls ++ [.cancelRead false]) (ReadExact.cancel x).2 := by
  have hpolls : polls r (calls ++ [.cancelRead false]) = polls r calls := by
    rw [polls_append]
    exact List.append_nil _
  refine ⟨⟨h.asked.cancel, ?_, ?_⟩, ?_, ?_⟩
  · rw [called_append, ← h.reader]
    rfl
  · rw [hpolls]
    exact h.stored
  · rw [hpolls]
    exact h.tiles
  · rw [hpolls]
    exact h.part

/-! ### One inner poll -/

/-- The inner poll's call: it offers the rest of the buffer. -/
def asks (calls : List Call) (x : Whole × R × Memory) : List Call := calls ++ [.pollRead x.1.inner]

omit [LawfulRead R] in
theorem Filled.calls_asks (h : Filled r memory buf calls x) : Calls r buf (asks calls x) := by
  have hrest := h.tiles.rest
  have hinner : x.1.inner = ⟨x.1.inner.len, buf.buf + (delivered (polls r calls)).length⟩ := by
    rw [← h.tiles.base]
  unfold asks
  rw [hinner]
  refine h.asked.poll hrest fun hbuf hlen => ?_
  have hpart := h.part hbuf
  have hzero : x.1.inner.len.toNat = 0 := congrArg UInt32.toNat hlen
  omega

omit [LawfulRead R] in
theorem Filled.polls_asks (h : Filled r memory buf calls x) :
    polls r (asks calls x) = polls r calls ++ [(pollRead x.2.1 x.1.inner).1] := by
  unfold asks
  rw [polls_append, ← h.reader]
  rfl

omit [LawfulRead R] in
theorem Filled.delivered_asks (h : Filled r memory buf calls x) :
    delivered (polls r (asks calls x)) =
      delivered (polls r calls) ++ delivered [(pollRead x.2.1 x.1.inner).1] := by
  rw [h.polls_asks, delivered_append]

omit [LawfulRead R] in
/-- The bytes go right behind those that are there. -/
theorem Filled.stored_asks (h : Filled r memory buf calls x) :
    Stored r memory buf (asks calls x) (Read.poll x.2 x.1.inner).2 where
  asked := h.calls_asks
  reader := by
    unfold asks
    rw [called_append, ← h.reader]
    rfl
  stored := by
    rw [h.delivered_asks, Memory.store_append, ← h.stored, ← h.tiles.base]
    rfl

theorem Filled.length_asks (h : Filled r memory buf calls x) :
    (delivered (polls r (asks calls x))).length =
      (delivered (polls r calls)).length +
        Whole.count (numbered (pollRead x.2.1 x.1.inner).1) := by
  rw [h.delivered_asks, List.length_append, numbered_count]

/-- An inner poll after which the future polls again. -/
theorem Filled.turn_inl (h : Filled r memory buf calls x)
    (hturn : (ReadExact.poll (memoryRead R)).turn x = .inl x') :
    Filled r memory buf (asks calls x) x' := by
  have hfit := Whole.fits_poll (memoryRead R) x.1 x.2
  obtain ⟨n, hn, hpart, rfl⟩ := (h.tiles.answered_inl hfit).mp hturn
  have hnumbered : numbered (pollRead x.2.1 x.1.inner).1 = .ready (.ok n) := hn
  have hlength := h.length_asks
  rw [hnumbered] at hlength
  have hle := hfit n hn
  have hrest := h.tiles.rest
  refine ⟨h.stored_asks, ?_, fun _ => ?_⟩
  · rw [hlength]
    exact h.tiles.advance hle
  · rw [hlength]
    show _ + n.toNat < _
    omega

/-- An inner poll after which it returns. -/
theorem Filled.turn_inr (h : Filled r memory buf calls x)
    (hturn : (ReadExact.poll (memoryRead R)).turn x = .inr (out, y)) :
    Fills r memory buf out y.2 (asks calls x) ∧
      (out ≠ .ready (.ok ()) → Filled r memory buf (asks calls x) y) := by
  have hfit := Whole.fits_poll (memoryRead R) x.1 x.2
  obtain ⟨hy, hcases⟩ := h.tiles.answered_out hfit hturn
  have hstored : Stored r memory buf (asks calls x) y.2 := by
    rw [hy]
    exact h.stored_asks
  have hlength := h.length_asks
  rcases hcases with ⟨rfl, hsum⟩ | ⟨hsame, hcount, hout, herror, hpending⟩
  · refine ⟨⟨hstored, fun _ => ?_, by simp, by simp, by simp⟩, by simp⟩
    have hlen : (delivered (polls r (asks calls x))).length = buf.len.toNat := hlength.trans hsum
    unfold WSABUF.bytes
    rw [← hlen, hstored.stored]
    exact Memory.map_store ..
  · have hsum : (delivered (polls r (asks calls x))).length = (delivered (polls r calls)).length :=
      hlength.trans (congrArg _ hcount)
    have hpart : buf.len ≠ 0 → (delivered (polls r (asks calls x))).length < buf.len.toNat := by
      rw [hsum]
      exact h.part
    have hlast : (polls r (asks calls x)).getLast? = some (pollRead x.2.1 x.1.inner).1 := by
      rw [h.polls_asks, List.getLast?_concat]
    constructor
    · refine ⟨hstored, fun hok => absurd hok hout, fun _ => hpart, ?_, ?_⟩
      · intro err herr
        exact hlast.trans (congrArg some (numbered_error (herror err herr)))
      · intro hp
        exact hlast.trans (congrArg some (numbered_pending (hpending hp)))
    · intro _
      refine ⟨hstored, ?_, hpart⟩
      rw [hsame, hsum]
      exact h.tiles

/-! ### A whole run -/

theorem Filled.comes (h : Filled r memory buf calls x)
    (hcomes : (ReadExact.poll (memoryRead R)).Comes x y) :
    ∃ calls, Filled r memory buf calls y := by
  induction hcomes with
  | refl => exact ⟨calls, h⟩
  | tail _ hturn ih =>
    obtain ⟨calls, h⟩ := ih
    exact ⟨_, h.turn_inl hturn⟩

/-- What a poll of the future leaves, whatever it returns. -/
theorem Filled.exec (h : Filled r memory buf calls x) {fuel : Nat}
    (hexec : (ReadExact.poll (memoryRead R)).exec fuel x = some (out, y)) :
    ∃ calls, Fills r memory buf out y.2 calls ∧
      (out ≠ .ready (.ok ()) → Filled r memory buf calls y) := by
  obtain ⟨t, hcomes, hturn⟩ := Loop.exec_eq_some hexec
  obtain ⟨calls, ht⟩ := h.comes hcomes
  exact ⟨_, ht.turn_inr hturn⟩

theorem Used.filled (h : Used r memory buf x) : ∃ calls, Filled r memory buf calls x := by
  induction h with
  | new => exact ⟨[], filled_new r memory buf⟩
  | polled _ hexec hout ih =>
    obtain ⟨calls, hx⟩ := ih
    obtain ⟨calls, _, hy⟩ := hx.exec hexec
    exact ⟨calls, hy hout⟩
  | cancelled _ ih =>
    obtain ⟨calls, hx⟩ := ih
    exact ⟨_, hx.cancel⟩

/-- **`read_exact` fills its buffer** with what its reader delivers. When a poll returns,
every byte that the reader has delivered since the future was made is in the buffer, each
behind the one before it, and nothing else in memory has changed: after `Ok` this is the
whole buffer, and after an error or `Pending`, which is the reader's last answer, a part of
it. So it is after any polls that did not return `Ok`, and any cancels. -/
theorem read_exact_fills (h : Used r memory buf x) (fuel : Nat)
    (hexec : (ReadExact.poll (memoryRead R)).exec fuel x = some (out, y)) :
    ∃ calls, Fills r memory buf out y.2 calls := by
  obtain ⟨calls, hx⟩ := h.filled
  obtain ⟨calls, hfills, _⟩ := hx.exec hexec
  exact ⟨calls, hfills⟩

end ReadExact

/-- A reader that has these bytes, and gives as many as there is room for. -/
structure Source where
  bytes : List UInt8
  deriving DecidableEq, Repr

instance : AsyncRead Source where
  pollRead s buf := (.ready (.ok (s.bytes.take buf.len.toNat)), ⟨s.bytes.drop buf.len.toNat⟩)
  cancelRead s _ := (.ok (), s)

instance : LawfulRead Source where
  le s buf bytes h := by
    cases h
    exact List.length_take_le ..

namespace ReadExact

/-- Three bytes of five, after a cancel. -/
theorem read_exact_fills_three : ∃ calls y, Fills (⟨[1, 2, 3, 4, 5]⟩ : Source) (fun _ => 0)
    ⟨3, 100⟩ (.ready (.ok ())) y calls ∧ y.1 = ⟨[4, 5]⟩ := by
  obtain ⟨calls, hfills⟩ := read_exact_fills (Used.cancelled
    (.new : Used (⟨[1, 2, 3, 4, 5]⟩ : Source) (fun _ => 0) ⟨3, 100⟩ _)) 1 rfl
  exact ⟨calls, _, hfills, rfl⟩

end ReadExact

/-! ### Over a chain -/

/-- A poll with room for a byte. -/
def Call.Roomy : Call → Prop
  | .pollRead buf => buf.len ≠ 0
  | .cancelRead _ => True
  | .drop => True

theorem Calls.roomy {R : Type} [AsyncRead R] {r : R} {buf : IoSliceMut} {calls : List Call}
    (h : Calls r buf calls) (hbuf : buf.len ≠ 0) : ∀ c ∈ calls, c.Roomy := by
  induction h with
  | new => exact fun c hc => absurd hc (List.not_mem_nil)
  | poll _ _ hlen ih =>
    intro c hc
    rcases List.mem_append.mp hc with hc | hc
    · exact ih c hc
    · rw [List.mem_singleton.mp hc]
      exact hlen hbuf
  | cancel _ ih =>
    intro c hc
    rcases List.mem_append.mp hc with hc | hc
    · exact ih c hc
    · rw [List.mem_singleton.mp hc]
      trivial

instance {T U : Type} [AsyncRead T] [AsyncRead U] [LawfulRead T] [LawfulRead U] :
    LawfulRead (Chain T U) where
  le s buf bytes h := by
    obtain ⟨first, next, chained⟩ := s
    cases chained with
    | true => exact LawfulRead.le next buf bytes h
    | false =>
      by_cases hend : (pollRead first buf).1 = .ready (.ok [])
      · rw [Chain.pollRead_ended hend] at h
        exact LawfulRead.le next buf bytes h
      · rw [Chain.pollRead_going next hend] at h
        exact LawfulRead.le first buf bytes h

namespace Chain
variable {T U : Type} [AsyncRead T] [AsyncRead U] [LawfulRead T] [LawfulRead U]

/-- **`read_exact` over a chain** reads across the end of the first reader, if that stays at
its end: the buffer gets what the first delivers before its end and then what the next one
delivers, and both readers are left where these bytes end. -/
theorem read_exact_chain (first : T) (next : U) (memory : Memory) (buf : IoSliceMut)
    (hbuf : buf.len ≠ 0) (hfirst : ∀ calls, (∀ c ∈ calls, c.Roomy) → Stays (polls first calls))
    {x y : Whole × Chain T U × Memory} {out : Poll (Except IoError Unit)}
    (h : ReadExact.Used (AsyncReadExt.chain first next) memory buf x) (fuel : Nat)
    (hexec : (ReadExact.poll (memoryRead (Chain T U))).exec fuel x = some (out, y)) :
    ∃ calls, ReadExact.Fills (AsyncReadExt.chain first next) memory buf out y.2 calls ∧
      delivered (polls (AsyncReadExt.chain first next) calls) =
        delivered (beforeEnd (polls first calls)) ++
          delivered (polls next (fromEnd first calls)) ∧
      y.2.1 = ⟨called first calls, called next (fromEnd first calls), false⟩ := by
  obtain ⟨calls, hx⟩ := h.filled
  obtain ⟨calls, hfills, _⟩ := hx.exec hexec
  have hstays := hfirst calls (hfills.asked.roomy hbuf)
  obtain ⟨hpolls, hcalled⟩ := polls_stays first next calls hstays
  refine ⟨calls, hfills, ?_, ?_⟩
  · rw [hpolls, delivered_append]
  · rw [hfills.reader, hcalled]

theorem ended_source : Ended (⟨[]⟩ : Source) := by
  intro calls
  induction calls with
  | nil => exact fun _ hp => absurd hp (List.not_mem_nil)
  | cons c cs ih =>
    cases c with
    | cancelRead wait => exact ih
    | drop => exact ih
    | pollRead buf =>
      intro poll hp
      have hnone : Io.pollRead (⟨[]⟩ : Source) buf = (.ready (.ok []), ⟨[]⟩) := by
        show (Poll.ready (Except.ok (List.take _ [])), Source.mk (List.drop _ [])) = _
        rw [List.take_nil, List.drop_nil]
      rw [polls_pollRead, hnone] at hp
      rcases List.mem_cons.mp hp with rfl | hp
      · rfl
      · exact ih poll hp

/-- Asked with room, such a reader stays at its end. -/
theorem stays_source (bytes : List UInt8) (calls : List Call) (h : ∀ c ∈ calls, c.Roomy) :
    Stays (polls (⟨bytes⟩ : Source) calls) := by
  induction calls generalizing bytes with
  | nil => exact fun _ hp => absurd hp (List.not_mem_nil)
  | cons c cs ih =>
    have hcs : ∀ c ∈ cs, c.Roomy := fun c hc => h c (List.mem_cons_of_mem _ hc)
    cases c with
    | cancelRead wait => exact ih bytes hcs
    | drop => exact ih bytes hcs
    | pollRead buf =>
      by_cases hbytes : bytes = []
      · subst hbytes
        exact fun poll hp => ended_source _ poll (List.mem_of_mem_drop hp)
      · have hroom : buf.len.toNat ≠ 0 := fun hlen =>
          h _ (List.mem_cons_self ..) (UInt32.toNat_inj.mp hlen)
        have hgoing : (Io.pollRead (⟨bytes⟩ : Source) buf).1 ≠ .ready (.ok []) := by
          show Poll.ready (Except.ok (bytes.take buf.len.toNat)) ≠ _
          simp [hbytes, hroom]
        unfold Stays
        rw [polls_pollRead, beforeEnd_going hgoing]
        exact ih (bytes.drop buf.len.toNat) hcs

/-- Two bytes and then three, read into room for four. -/
theorem read_exact_chain_four :
    ∃ calls y, ReadExact.Fills (AsyncReadExt.chain (⟨[1, 2]⟩ : Source) (⟨[3, 4, 5]⟩ : Source))
      (fun _ => 0) ⟨4, 100⟩ (.ready (.ok ())) y calls ∧ y.1 = ⟨⟨[]⟩, ⟨[5]⟩, false⟩ := by
  obtain ⟨calls, hfills, _⟩ := read_exact_chain (⟨[1, 2]⟩ : Source) (⟨[3, 4, 5]⟩ : Source)
    (fun _ => 0) ⟨4, 100⟩ (by decide) (stays_source [1, 2]) .new 2 rfl
  exact ⟨calls, _, hfills, rfl⟩

end Chain

end Wae.Io
