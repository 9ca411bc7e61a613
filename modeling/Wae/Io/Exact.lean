import Mathlib.Algebra.Ring.Nat
import Wae.Io.Whole
import Wae.Transition.Loop

/-! `ReadExact` and `WriteAll` by their inner polls: what these are offered, and whether
they come to an end.

`poll` calls itself after each inner poll that has moved some bytes but not the last one,
so it is a loop. As long as bytes move, what is left shrinks. At the end of the stream an
inner poll returns `Ok(0)`, and what is left stays the same. -/
namespace Wae.Io
open Transition

/-- The reader or writer inside, by its state: what a poll returns that offers it a
buffer, and the state it is left in. It takes no more than it is offered. -/
structure Inner (R : Type) where
  poll : R → WSABUF → Poll (Except IoError UInt64) × R
  le : ∀ r buf n, (poll r buf).1 = .ready (.ok n) → n.toNat ≤ buf.len.toNat

namespace Whole

/-- What `poll` does with what the inner poll returned. It returns, or it calls itself. -/
def turn (s : Whole) :
    Poll (Except IoError UInt64) → Whole × Option (Poll (Except IoError Unit))
  | .ready (.ok n) =>
    let s := {s with n := s.n + n}
    if s.n = s.buf.len.toUInt64 then (s, some (.ready (.ok ()))) else (s.advance n, none)
  | .ready (.error err) => (s, some (.ready (.error err)))
  | .pending => (s, some .pending)

/-- Neither its own call nor `Pending` is the future's result. -/
theorem poll_eq_turn (s : Whole) (result : Poll (Except IoError UInt64)) :
    s.poll result = ((s.turn result).1, (s.turn result).2.bind fun out =>
      match out with
      | .ready r => some r
      | .pending => none) := by
  cases result with
  | pending => rfl
  | ready result =>
    cases result with
    | error err => rfl
    | ok n =>
      simp only [poll, turn]
      split <;> rfl

/-- One inner poll, by what it returned and left. -/
def answered {R : Type} (s : Whole) (answer : Poll (Except IoError UInt64) × R) :
    (Whole × R) ⊕ (Poll (Except IoError Unit) × Whole × R) :=
  match s.turn answer.1 with
  | (s, none) => .inl (s, answer.2)
  | (s, some out) => .inr (out, s, answer.2)

def loop {R : Type} (io : Inner R) :
    Loop (Whole × R) (Poll (Except IoError Unit) × Whole × R) where
  turn x := x.1.answered (io.poll x.2 x.1.inner)

end Whole

/-- `poll`, on `Read` of the reader. -/
def ReadExact.poll {R : Type} (read : Inner R) :
    Loop (Whole × R) (Poll (Except IoError Unit) × Whole × R) :=
  Whole.loop read

/-- `poll`, on `Write` of the writer. -/
def WriteAll.poll {R : Type} (write : Inner R) :
    Loop (Whole × R) (Poll (Except IoError Unit) × Whole × R) :=
  Whole.loop write

namespace Whole

/-! ### One turn -/

/-- So many bytes have gone through: the inner buffer is the rest of the whole one. -/
structure Tiles (buf : WSABUF) (sum : Nat) (s : Whole) : Prop where
  whole : s.buf = buf
  counted : s.n.toNat = sum
  base : s.inner.buf = buf.buf + sum
  rest : sum + s.inner.len.toNat = buf.len.toNat

variable {buf : WSABUF} {sum : Nat} {s : Whole} {n : UInt64}

theorem tiles_new (buf : WSABUF) : Tiles buf 0 ⟨buf, buf, 0⟩ where
  whole := rfl
  counted := rfl
  base := rfl
  rest := Nat.zero_add _

/-- The count does not overflow: it stays within the length of the buffer. -/
theorem Tiles.toNat_add (h : Tiles buf sum s) (hn : n.toNat ≤ s.inner.len.toNat) :
    (s.n + n).toNat = sum + n.toNat := by
  have hrest := h.rest
  have hlen := buf.len.toNat_lt
  rw [UInt64.toNat_add, h.counted, Nat.mod_eq_of_lt (by omega)]

/-- The count is the length of the buffer exactly when nothing is left. -/
theorem Tiles.full_iff (h : Tiles buf sum s) (hn : n.toNat ≤ s.inner.len.toNat) :
    s.n + n = s.buf.len.toUInt64 ↔ sum + n.toNat = buf.len.toNat := by
  rw [← UInt64.toNat_inj, h.toNat_add hn, h.whole, UInt32.toNat_toUInt64]

theorem Tiles.advance (h : Tiles buf sum s) (hn : n.toNat ≤ s.inner.len.toNat) :
    Tiles buf (sum + n.toNat) ({s with n := s.n + n}.advance n) where
  whole := h.whole
  counted := h.toNat_add hn
  base := by
    show s.inner.buf + n.toNat = buf.buf + (sum + n.toNat)
    rw [h.base, Nat.add_assoc]
  rest := by
    show sum + n.toNat + (s.inner.len - n.toUInt32).toNat = buf.len.toNat
    have hrest := h.rest
    rw [Transfer.toNat_sub hn]
    omega

theorem turn_full (hfull : s.n + n = s.buf.len.toUInt64) :
    s.turn (.ready (.ok n)) = ({s with n := s.n + n}, some (.ready (.ok ()))) := by
  simp only [turn, if_pos hfull]

theorem turn_rest (hfull : s.n + n ≠ s.buf.len.toUInt64) :
    s.turn (.ready (.ok n)) = ({s with n := s.n + n}.advance n, none) := by
  simp only [turn, if_neg hfull]

/-! ### The range that is offered -/

/-- The inner polls that a future makes, until it returns `Ok`. -/
def machine (whole : Whole) : Machine Whole (Poll (Except IoError UInt64)) where
  init := whole
  step s result :=
    let (s', out) := s.turn result
    if out = some (.ready (.ok ())) then none else some s'

/-- A byte count is at most the length offered. -/
def Fits (s : Whole) (result : Poll (Except IoError UInt64)) : Prop :=
  ∀ n, result = .ready (.ok n) → n.toNat ≤ s.inner.len.toNat

/-- The byte count of one result. -/
def count : Poll (Except IoError UInt64) → Nat
  | .ready (.ok n) => n.toNat
  | .ready (.error _) => 0
  | .pending => 0

/-- An inner poll after `sum` bytes is offered the rest of the buffer, and whatever it
returns, the arithmetic on it is exact and the future returns what it should. -/
structure Tile (buf : WSABUF) (sum : Nat) (s : Whole) : Prop where
  offered : s.inner.buf = buf.buf + sum ∧ sum + s.inner.len.toNat = buf.len.toNat
  again : s.turn .pending = (s, some .pending)
  sub : ∀ n : UInt64, n.toNat ≤ s.inner.len.toNat →
    n.toUInt32.toNat = n.toNat ∧ n.toUInt32 ≤ s.inner.len
  add : ∀ n : UInt64, n.toNat ≤ s.inner.len.toNat →
    s.n.toNat = sum ∧ s.n.toNat + n.toNat ≤ buf.len.toNat
  ok : ∀ result, Fits s result → ((s.turn result).2 = some (.ready (.ok ())) ↔
    ∃ n, result = .ready (.ok n) ∧ sum + n.toNat = buf.len.toNat)
  error : ∀ result err, (s.turn result).2 = some (.ready (.error err)) ↔
    result = .ready (.error err)

/-- **The buffer is tiled**: after any results that fit, the next inner poll is offered
what they have left. -/
def Tiling (whole : Whole) (buf : WSABUF) : Prop :=
  ∀ results s, (machine whole).Steps (fun s result _ => Fits s result) whole results →
    (machine whole).run whole results = some s → Tile buf (results.map count).sum s

theorem toNat_toUInt32 {len : UInt32} (hn : n.toNat ≤ len.toNat) :
    n.toUInt32.toNat = n.toNat := by
  have hlen := len.toNat_lt
  rw [UInt64.toNat_toUInt32, Nat.mod_eq_of_lt (by omega)]

theorem Tiles.turn_ok (h : Tiles buf sum s) {result : Poll (Except IoError UInt64)}
    (hfit : Fits s result) : (s.turn result).2 = some (.ready (.ok ())) ↔
      ∃ n, result = .ready (.ok n) ∧ sum + n.toNat = buf.len.toNat := by
  cases result with
  | pending => simp [turn]
  | ready result =>
    cases result with
    | error err => simp [turn]
    | ok n =>
      have hfull := h.full_iff (hfit n rfl)
      constructor
      · intro hok
        refine ⟨n, rfl, hfull.mp ?_⟩
        by_contra hne
        rw [turn_rest hne] at hok
        cases hok
      · rintro ⟨_, hresult, hsum⟩
        cases hresult
        rw [turn_full (hfull.mpr hsum)]

theorem turn_error (s : Whole) (result : Poll (Except IoError UInt64)) (err : IoError) :
    (s.turn result).2 = some (.ready (.error err)) ↔ result = .ready (.error err) := by
  cases result with
  | pending => simp [turn]
  | ready result =>
    cases result with
    | error err' => simp [turn]
    | ok n =>
      simp only [turn]
      split <;> simp

theorem Tiles.tile (h : Tiles buf sum s) : Tile buf sum s where
  offered := ⟨h.base, h.rest⟩
  again := rfl
  sub n hn := by
    have hcast := toNat_toUInt32 hn
    exact ⟨hcast, UInt32.le_iff_toNat_le.mpr (hcast ▸ hn)⟩
  add n hn := by
    have hrest := h.rest
    have hcounted := h.counted
    exact ⟨hcounted, by omega⟩
  ok _ hfit := h.turn_ok hfit
  error := turn_error s

theorem machine_step {whole s' : Whole} {result : Poll (Except IoError UInt64)} :
    (machine whole).step s result = some s' ↔
      (s.turn result).2 ≠ some (.ready (.ok ())) ∧ (s.turn result).1 = s' :=
  Option.ite_none_left_eq_some.trans (and_congr_right fun _ => Option.some_inj)

theorem tiles_step {result : Poll (Except IoError UInt64)} {s' whole : Whole}
    (h : Tiles buf sum s) (hfit : Fits s result) (hs : (machine whole).step s result = some s') :
    Tiles buf (sum + count result) s' := by
  obtain ⟨hout, rfl⟩ := machine_step.mp hs
  cases result with
  | pending => exact h
  | ready result =>
    cases result with
    | error err => exact h
    | ok n =>
      have hne : s.n + n ≠ s.buf.len.toUInt64 := fun hfull => hout (by rw [turn_full hfull])
      rw [turn_rest hne]
      exact h.advance (hfit n rfl)

theorem tiles_run {results : List (Poll (Except IoError UInt64))} {t whole : Whole}
    (h : Tiles buf sum s)
    (hfits : (machine whole).Steps (fun s result _ => Fits s result) s results)
    (hrun : (machine whole).run s results = some t) :
    Tiles buf (sum + (results.map count).sum) t := by
  induction results generalizing s sum with
  | nil =>
    cases hrun
    exact h
  | cons result results ih =>
    obtain ⟨s', hs, hrest⟩ := Machine.run_cons _ hrun
    obtain ⟨hfit, hfits⟩ := hfits s' hs
    rw [List.map_cons, List.sum_cons, ← Nat.add_assoc]
    exact ih (tiles_step h hfit hs) hfits hrest

theorem tiling_new (buf : WSABUF) : Tiling ⟨buf, buf, 0⟩ buf := by
  intro results s hfits hrun
  have h := tiles_run (tiles_new buf) hfits hrun
  rw [Nat.zero_add] at h
  exact h.tile

/-- **`ReadExact` and `WriteAll` tile their buffer**, whatever its length and whatever
they are answered. -/
theorem buffer_tiled (buf : WSABUF) :
    Tiling (ReadExact.new buf) buf ∧ Tiling (WriteAll.new buf) buf :=
  ⟨tiling_new buf, tiling_new buf⟩

/-- Ten bytes, of which four have been read before a suspension. -/
theorem buffer_tiled_ten :
    Tile ⟨10, 100⟩ 4 ⟨⟨6, 104⟩, ⟨10, 100⟩, 4⟩ :=
  (buffer_tiled ⟨10, 100⟩).1 [.ready (.ok 4), .pending] _ (fun _ hs => by
    cases hs
    refine ⟨fun n hn => ?_, fun _ _ => ⟨nofun, trivial⟩⟩
    cases hn
    decide) rfl

/-! ### Whether it comes to an end -/

section
variable {R : Type} (io : Inner R)
  (L : Loop (Whole × R) (Poll (Except IoError Unit) × Whole × R)) (x₀ : Whole × R)

/-- What a poll of the future may find: the future and the reader or writer as they were
at first, or as an earlier poll left them that did not return `Ok`. -/
inductive Polled : Whole × R → Prop
  | first : Polled x₀
  | again {x y : Whole × R} {fuel : Nat} {out : Poll (Except IoError Unit)} :
    Polled x → L.exec fuel x = some (out, y) → out ≠ .ready (.ok ()) → Polled y

/-- What an inner poll may find. -/
def Asked (y : Whole × R) : Prop := ∃ x, Polled L x₀ x ∧ L.Comes x y

/-- The inner poll returns `Ok(0)`, and not because nothing is left. -/
def Starved (x : Whole × R) : Prop :=
  (io.poll x.2 x.1.inner).1 = .ready (.ok 0) ∧ x.1.inner.len ≠ 0

/-- Each poll returns, and `Ok(0)` is made an error while bytes are left. -/
structure ComesToEnd : Prop where
  returns : ∀ x, Polled L x₀ x → L.Ends x
  refuses : ∀ y, Asked L x₀ y → Starved io y → ∃ err z, L.turn y = .inr (.ready (.error err), z)

end

variable {R : Type} {r : R} {x x' : Whole × R} {result : Poll (Except IoError UInt64)}

/-- A turn that goes round has taken some part of what is left, but not all of it. -/
theorem Tiles.answered_inl (h : Tiles buf sum s) (hfit : Fits s result) :
    s.answered (result, r) = .inl x' ↔ ∃ n, result = .ready (.ok n) ∧
      sum + n.toNat ≠ buf.len.toNat ∧ x' = ({s with n := s.n + n}.advance n, r) := by
  cases result with
  | pending => simp [answered, turn]
  | ready result =>
    cases result with
    | error err => simp [answered, turn]
    | ok n =>
      have hfull := h.full_iff (hfit n rfl)
      by_cases hn : s.n + n = s.buf.len.toUInt64
      · simp [answered, turn_full hn, hfull.mp hn]
      · simp only [answered, turn_rest hn, Sum.inl.injEq]
        constructor
        · intro hx
          exact ⟨n, rfl, mt hfull.mpr hn, hx.symm⟩
        · rintro ⟨_, hresult, _, hx⟩
          cases hresult
          exact hx.symm

/-- A poll that returns, and not `Ok`, leaves the future as its last inner poll found it. -/
theorem answered_inr {out : Poll (Except IoError Unit)}
    (h : s.answered (result, r) = .inr (out, x')) (hout : out ≠ .ready (.ok ())) : x'.1 = s := by
  cases result with
  | pending =>
    cases h
    rfl
  | ready result =>
    cases result with
    | error err =>
      cases h
      rfl
    | ok n =>
      by_cases hn : s.n + n = s.buf.len.toUInt64
      · simp only [answered, turn_full hn, Sum.inr.injEq, Prod.mk.injEq] at h
        exact absurd h.1.symm hout
      · simp only [answered, turn_rest hn, reduceCtorEq] at h

/-- The inner buffer is the rest of the whole one. -/
def Tiled (buf : WSABUF) (x : Whole × R) : Prop := ∃ sum, Tiles buf sum x.1

/-- What is left, of which no turn makes more. -/
def left (x : Whole × R) : Nat := x.1.inner.len.toNat

variable {io : Inner R}

theorem fits_poll (io : Inner R) (s : Whole) (r : R) : Fits s (io.poll r s.inner).1 :=
  io.le r s.inner

theorem tiles_turn (h : Tiled buf x) (hturn : (loop io).turn x = .inl x') :
    Tiled buf x' ∧ left x' ≤ left x := by
  obtain ⟨sum, h⟩ := h
  obtain ⟨n, hn, _, rfl⟩ := (h.answered_inl (fits_poll io x.1 x.2)).mp hturn
  have hle := fits_poll io x.1 x.2 n hn
  refine ⟨⟨_, h.advance hle⟩, ?_⟩
  show (x.1.inner.len - n.toUInt32).toNat ≤ x.1.inner.len.toNat
  rw [Transfer.toNat_sub hle]
  exact Nat.sub_le ..

/-- **Going round with as much left as before** is what `Ok(0)` on a rest makes it do. -/
theorem stays_iff (h : Tiled buf x) :
    (∃ x', (loop io).turn x = .inl x' ∧ left x' = left x) ↔ Starved io x := by
  obtain ⟨sum, h⟩ := h
  have hrest := h.rest
  constructor
  · rintro ⟨x', hturn, hleft⟩
    obtain ⟨n, hn, hpart, rfl⟩ := (h.answered_inl (fits_poll io x.1 x.2)).mp hturn
    have hle := fits_poll io x.1 x.2 n hn
    have hsub : x.1.inner.len.toNat - n.toNat = x.1.inner.len.toNat :=
      (Transfer.toNat_sub hle).symm.trans hleft
    have hzero : n.toNat = 0 := by omega
    have hn0 : n = 0 := UInt64.toNat_inj.mp hzero
    refine ⟨hn0 ▸ hn, fun hlen => ?_⟩
    have hlen0 : x.1.inner.len.toNat = 0 := congrArg UInt32.toNat hlen
    omega
  · rintro ⟨hn, hlen⟩
    have hpos : x.1.inner.len.toNat ≠ 0 := fun h0 => hlen (UInt32.toNat_inj.mp h0)
    have hpart : sum + (0 : UInt64).toNat ≠ buf.len.toNat := by
      show sum + 0 ≠ _
      omega
    refine ⟨_, (h.answered_inl (fits_poll io x.1 x.2)).mpr ⟨0, hn, hpart, rfl⟩, ?_⟩
    show (x.1.inner.len - UInt64.toUInt32 0).toNat = x.1.inner.len.toNat
    rw [Transfer.toNat_sub (Nat.zero_le _)]
    rfl

theorem Comes.tiles (hc : (loop io).Comes x x') (h : Tiled buf x) : Tiled buf x' :=
  hc.keeps (I := Tiled buf) (fun _ _ ht hturn => (tiles_turn ht hturn).1) h

theorem Polled.tiles (hp : Polled (loop io) (⟨buf, buf, 0⟩, r) x) : Tiled buf x := by
  induction hp with
  | first => exact ⟨0, tiles_new buf⟩
  | again _ hexec hout ih =>
    obtain ⟨t, hc, hturn⟩ := Loop.exec_eq_some hexec
    obtain ⟨sum, ht⟩ := Comes.tiles hc ih
    exact ⟨sum, answered_inr hturn hout ▸ ht⟩

theorem stalls_iff (h : Tiled buf x) :
    (loop io).Stalls left x ↔ ∀ z, (loop io).Comes x z → Starved io z := by
  constructor
  · intro hstall z hc
    exact (stays_iff (Comes.tiles hc h)).mp (hstall z hc)
  · intro hstarved z hc
    exact (stays_iff (Comes.tiles hc h)).mpr (hstarved z hc)

/-- Every poll returns, unless the inner polls come to return `Ok(0)` for ever. -/
theorem returns_iff (io : Inner R) (buf : WSABUF) (r : R) :
    (∀ x, Polled (loop io) (⟨buf, buf, 0⟩, r) x → (loop io).Ends x) ↔
      ¬ ∃ y, Asked (loop io) (⟨buf, buf, 0⟩, r) y ∧
        ∀ z, (loop io).Comes y z → Starved io z := by
  have hends (x : Whole × R) (hp : Polled (loop io) (⟨buf, buf, 0⟩, r) x) :=
    Loop.ends_iff (L := loop io) (I := Tiled buf)
      (fun _ _ ht hturn => tiles_turn ht hturn) hp.tiles
  constructor
  · rintro hret ⟨y, ⟨x, hp, hc⟩, hstarved⟩
    exact (hends x hp).mp (hret x hp) ⟨y, hc, (stalls_iff (Comes.tiles hc hp.tiles)).mpr hstarved⟩
  · intro hno x hp
    refine (hends x hp).mpr ?_
    rintro ⟨y, hc, hstall⟩
    exact hno ⟨y, ⟨x, hp, hc⟩, (stalls_iff (Comes.tiles hc hp.tiles)).mp hstall⟩

theorem comesToEnd_iff (io : Inner R) (buf : WSABUF) (r : R) :
    ComesToEnd io (loop io) (⟨buf, buf, 0⟩, r) ↔
      ∀ y, Asked (loop io) (⟨buf, buf, 0⟩, r) y → ¬ Starved io y := by
  constructor
  · rintro hend y ⟨x, hp, hc⟩ hstarved
    obtain ⟨err, z, hturn⟩ := hend.refuses y ⟨x, hp, hc⟩ hstarved
    obtain ⟨y', hturn', _⟩ := (stays_iff (Comes.tiles hc hp.tiles)).mpr hstarved
    exact Sum.inl_ne_inr (hturn'.symm.trans hturn)
  · intro hno
    refine ⟨(returns_iff io buf r).mpr ?_, fun y hy hstarved => absurd hstarved (hno y hy)⟩
    rintro ⟨y, hy, hstarved⟩
    exact hno y hy (hstarved y .refl)

/-- **They come to an end** exactly when no inner poll returns `Ok(0)` while bytes are
left. Each poll still returns unless this goes on for ever. -/
theorem ends_unless_starved (io : Inner R) (buf : WSABUF) (r : R) :
    ((ComesToEnd io (ReadExact.poll io) (ReadExact.new buf, r) ↔
      ∀ y, Asked (ReadExact.poll io) (ReadExact.new buf, r) y → ¬ Starved io y) ∧
    (ComesToEnd io (WriteAll.poll io) (WriteAll.new buf, r) ↔
      ∀ y, Asked (WriteAll.poll io) (WriteAll.new buf, r) y → ¬ Starved io y)) ∧
    ((∀ x, Polled (ReadExact.poll io) (ReadExact.new buf, r) x → (ReadExact.poll io).Ends x) ↔
      ¬ ∃ y, Asked (ReadExact.poll io) (ReadExact.new buf, r) y ∧
        ∀ z, (ReadExact.poll io).Comes y z → Starved io z) ∧
    ((∀ x, Polled (WriteAll.poll io) (WriteAll.new buf, r) x → (WriteAll.poll io).Ends x) ↔
      ¬ ∃ y, Asked (WriteAll.poll io) (WriteAll.new buf, r) y ∧
        ∀ z, (WriteAll.poll io).Comes y z → Starved io z) :=
  ⟨⟨comesToEnd_iff io buf r, comesToEnd_iff io buf r⟩, returns_iff io buf r, returns_iff io buf r⟩

/-- A peer that has closed the stream with so many bytes still to come. -/
def closedPeer : Inner Nat where
  poll left buf :=
    let n := min left buf.len.toNat
    (.ready (.ok (.ofNat n)), left - n)
  le left buf n hn := by
    cases hn
    exact Nat.le_trans (Nat.mod_le ..) (Nat.min_le_right ..)

/-- It closes after five bytes of ten: the poll goes round at the fifth, for ever. -/
theorem closed_stream_never_ends :
    ¬ ComesToEnd closedPeer (ReadExact.poll closedPeer) (ReadExact.new ⟨10, 0⟩, 5) ∧
    ¬ ComesToEnd closedPeer (WriteAll.poll closedPeer) (WriteAll.new ⟨10, 0⟩, 5) := by
  have hagain : (loop closedPeer).turn (⟨⟨5, 5⟩, ⟨10, 0⟩, 5⟩, 0) =
      .inl (⟨⟨5, 5⟩, ⟨10, 0⟩, 5⟩, 0) := rfl
  have hforever : ¬ (loop closedPeer).Ends (⟨⟨5, 5⟩, ⟨10, 0⟩, 5⟩, 0) :=
    Loop.not_ends (J := (· = (⟨⟨5, 5⟩, ⟨10, 0⟩, 5⟩, 0))) (fun _ hx => ⟨_, hx ▸ hagain, rfl⟩) rfl
  have hfirst : (loop closedPeer).turn (⟨⟨10, 0⟩, ⟨10, 0⟩, 0⟩, 5) =
      .inl (⟨⟨5, 5⟩, ⟨10, 0⟩, 5⟩, 0) := rfl
  have hnot := mt (Loop.ends_inl hfirst).mp hforever
  exact ⟨fun h => hnot (h.returns _ .first), fun h => hnot (h.returns _ .first)⟩

end Whole

end Wae.Io
