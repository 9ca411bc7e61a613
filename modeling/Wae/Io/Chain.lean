import Wae.Io.Reader
import Wae.Transition.Observer

/-! `Chain`, one reader after another.

It is to read from the first until that ends, and from then on from the next. Whether the
first has ended is what `chained` is for, and nothing sets it: each poll asks the first
again, and each cancel goes to the first. -/
namespace Wae.Io
open Transition

structure Chain (T U : Type) where
  first : T
  next : U
  chained : Bool
  deriving DecidableEq, Repr

def AsyncReadExt.chain {T U : Type} (self : T) (next : U) : Chain T U := ⟨self, next, false⟩

namespace Chain
variable {T U : Type} [AsyncRead T] [AsyncRead U]

def pollNext (s : Chain T U) (buf : IoSliceMut) :
    Poll (Except IoError (List UInt8)) × Chain T U :=
  let (poll, next) := pollRead s.next buf
  (poll, {s with next := next})

def pollRead (s : Chain T U) (buf : IoSliceMut) :
    Poll (Except IoError (List UInt8)) × Chain T U :=
  if s.chained = false then
    match Io.pollRead s.first buf with
    | (.ready (.ok []), first) => pollNext {s with first := first} buf
    | (poll, first) => (poll, {s with first := first})
  else pollNext s buf

def cancelRead (s : Chain T U) (wait : Bool) : Except IoError Unit × Chain T U :=
  if s.chained = false then
    let (result, first) := Io.cancelRead s.first wait
    (result, {s with first := first})
  else
    let (result, next) := Io.cancelRead s.next wait
    (result, {s with next := next})

instance : AsyncRead (Chain T U) := ⟨pollRead, cancelRead⟩

/-- The bytes are those of the first reader up to its end, and then those of the next; and
the first is not polled after its end. -/
structure Concatenates (first : T) (next : U) (calls : List Call) : Prop where
  bytes : delivered (Io.polls (AsyncReadExt.chain (Logged.new first) (Logged.new next)) calls) =
    delivered (beforeEnd
      (called (AsyncReadExt.chain (Logged.new first) (Logged.new next)) calls).first.polls) ++
    delivered (called (AsyncReadExt.chain (Logged.new first) (Logged.new next)) calls).next.polls
  once : EndsOnce (called (AsyncReadExt.chain (Logged.new first) (Logged.new next)) calls).first.polls

/-! ### One call -/

theorem pollRead_ended {first : T} {next : U} {buf : IoSliceMut}
    (h : (Io.pollRead first buf).1 = .ready (.ok [])) :
    Io.pollRead (⟨first, next, false⟩ : Chain T U) buf = ((Io.pollRead next buf).1,
      ⟨(Io.pollRead first buf).2, (Io.pollRead next buf).2, false⟩) := by
  show Chain.pollRead _ buf = _
  unfold Chain.pollRead
  rw [if_pos rfl]
  split <;> rename_i hpoll
  · dsimp only at hpoll
    rw [hpoll]
    rfl
  · rename_i hne
    exact (hne ((congrArg Prod.fst hpoll).symm.trans h)).elim

theorem pollRead_going {first : T} {buf : IoSliceMut} (next : U)
    (h : (Io.pollRead first buf).1 ≠ .ready (.ok [])) :
    Io.pollRead (⟨first, next, false⟩ : Chain T U) buf =
      ((Io.pollRead first buf).1, ⟨(Io.pollRead first buf).2, next, false⟩) := by
  show Chain.pollRead _ buf = _
  unfold Chain.pollRead
  rw [if_pos rfl]
  split <;> rename_i hpoll
  · exact absurd (congrArg Prod.fst hpoll) h
  · dsimp only at hpoll
    rw [hpoll]

/-- The first reader gets every call. -/
theorem call_first (first : T) (next : U) (c : Call) :
    ∃ next', (call (⟨first, next, false⟩ : Chain T U) c).2 = ⟨(call first c).2, next', false⟩ := by
  cases c with
  | cancelRead wait => exact ⟨next, rfl⟩
  | drop => exact ⟨next, rfl⟩
  | pollRead buf =>
    by_cases h : (Io.pollRead first buf).1 = .ready (.ok [])
    · exact ⟨_, congrArg Prod.snd (pollRead_ended h)⟩
    · exact ⟨_, congrArg Prod.snd (pollRead_going next h)⟩

theorem called_first (first : T) (next : U) (calls : List Call) :
    (called (⟨first, next, false⟩ : Chain T U) calls).first = called first calls := by
  induction calls generalizing first next with
  | nil => rfl
  | cons c cs ih =>
    obtain ⟨next', hc⟩ := call_first first next c
    simp only [called, hc]
    exact ih _ _

/-- The first reader has answered `Ok(0)` at the last poll, if at all: what the polls of
the next reader deliver comes after all that the first has delivered. -/
theorem delivered_chain (first : T) (next : Logged U) (calls : List Call)
    (h : EndsOnce (Io.polls first calls)) :
    ∃ news, (called (⟨first, next, false⟩ : Chain T (Logged U)) calls).next.polls =
        next.polls ++ news ∧
      delivered (Io.polls (⟨first, next, false⟩ : Chain T (Logged U)) calls) =
        delivered (beforeEnd (Io.polls first calls)) ++ delivered news := by
  induction calls generalizing first next with
  | nil => exact ⟨[], (List.append_nil _).symm, rfl⟩
  | cons c cs ih =>
    cases c with
    | cancelRead wait => exact ih (Io.cancelRead first wait).2 next h
    | drop => exact ih (Read.drop first) next h
    | pollRead buf =>
      obtain ⟨hlast, hrest⟩ := h
      rw [polls_pollRead, polls_pollRead, called_pollRead]
      by_cases hend : (Io.pollRead first buf).1 = .ready (.ok [])
      · -- No poll follows, so the rest delivers what the next reader's answers do.
        have hnone : Io.polls (Io.pollRead first buf).2 cs = [] := hlast hend
        obtain ⟨news, hnews, hbytes⟩ := ih (Io.pollRead first buf).2 (Io.pollRead next buf).2 hrest
        rw [pollRead_ended hend, hnews, delivered_cons, hbytes, hnone, hend, beforeEnd_ended]
        refine ⟨(Io.pollRead next buf).1 :: news, List.append_assoc .., ?_⟩
        rw [delivered_cons _ news]
        rfl
      · obtain ⟨news, hnews, hbytes⟩ := ih (Io.pollRead first buf).2 next hrest
        rw [pollRead_going next hend, beforeEnd_going hend, delivered_cons, hbytes,
          delivered_cons _ (beforeEnd _)]
        exact ⟨news, hnews, (List.append_assoc ..).symm⟩

/-- **A chain concatenates** exactly when the poll that finds the first reader at its end
is the last one. -/
theorem concatenates_iff (first : T) (next : U) (calls : List Call) :
    Concatenates first next calls ↔ EndsOnce (Io.polls first calls) := by
  have hpolls : (called (AsyncReadExt.chain (Logged.new first) (Logged.new next)) calls).first.polls =
      Io.polls first calls := by
    rw [AsyncReadExt.chain, called_first, Logged.called_polls]
    rfl
  constructor
  · intro h
    exact hpolls ▸ h.once
  · intro h
    have hlogged : Io.polls (Logged.new first) calls = Io.polls first calls := Logged.polls_reader ..
    obtain ⟨news, hnews, hbytes⟩ :=
      delivered_chain (Logged.new first) (Logged.new next) calls (hlogged ▸ h)
    refine ⟨?_, hpolls.symm ▸ h⟩
    rw [hpolls, ← hlogged]
    exact hbytes.trans (congrArg _ (congrArg _ hnews.symm))

/-- A read on the next reader is pending, and the first one has got more to read. -/
theorem first_polled_past_end :
    ¬ Concatenates (⟨[.ready (.ok [1]), .ready (.ok []), .ready (.ok [2])]⟩ : Script)
      (⟨[.pending, .ready (.ok [3])]⟩ : Script)
      [.pollRead ⟨8, 0⟩, .pollRead ⟨8, 0⟩, .pollRead ⟨8, 0⟩] := by
  intro h
  exact absurd h.bytes (by decide)

/-! ### Cancels -/

/-- The two readers of a chain. -/
inductive Side where
  | first
  | next
  deriving DecidableEq, Repr

/-- A chain, as it is called. -/
def machine (first : T) (next : U) : Machine (Chain (Logged T) (Logged U)) Call where
  init := AsyncReadExt.chain (Logged.new first) (Logged.new next)
  step s c := some (call s c).2

/-- Whose `Pending` the latest poll returned. That reader has the buffer. -/
def pending : Observer (Chain (Logged T) (Logged U)) Call (Option Side) where
  init := none
  see s c s' side :=
    match c with
    | .pollRead _ =>
      if s'.first.polls = s.first.polls ++ [.pending] then some .first
      else if s'.next.polls = s.next.polls ++ [.pending] then some .next
      else none
    | .cancelRead _ => side
    | .drop => side

/-- What cancels goes to the reader that has the buffer. -/
def CancelsPending (s : Chain (Logged T) (Logged U) × Option Side) (c : Call)
    (s' : Chain (Logged T) (Logged U) × Option Side) : Prop :=
  ∀ wait, c.cancels = some wait →
    (s.2 = some .first → s'.1.first.cancels = s.1.first.cancels ++ [wait]) ∧
    (s.2 = some .next → s'.1.next.cancels = s.1.next.cancels ++ [wait])

/-- Nothing cancels while that is the next reader. -/
def FirstPending (s : Chain (Logged T) (Logged U) × Option Side) (c : Call)
    (_ : Chain (Logged T) (Logged U) × Option Side) : Prop :=
  c.cancels ≠ none → s.2 ≠ some .next

/-- What cancels goes to the first reader. -/
theorem call_cancels {s : Chain T U} {c : Call} {wait : Bool} (h : s.chained = false)
    (hc : c.cancels = some wait) :
    (call s c).2 = {s with first := (Io.cancelRead s.first wait).2} := by
  obtain ⟨first, next, chained⟩ := s
  obtain rfl : chained = false := h
  cases c with
  | pollRead buf => cases hc
  | cancelRead wait' =>
    cases hc
    rfl
  | drop =>
    cases hc
    rfl

theorem cancelsPending_iff {s s' : Chain (Logged T) (Logged U) × Option Side} {c : Call}
    (h : s.1.chained = false) (hs : s'.1 = (call s.1 c).2) :
    CancelsPending s c s' ↔ FirstPending s c s' := by
  unfold CancelsPending FirstPending
  cases hc : c.cancels with
  | none => exact iff_of_true nofun fun hne => absurd rfl hne
  | some wait =>
    rw [hs, call_cancels h hc]
    constructor
    · intro hcancels _ hside
      have hnext : s.1.next.cancels = s.1.next.cancels ++ [wait] := (hcancels wait rfl).2 hside
      exact List.cons_ne_nil _ _ (List.self_eq_append_right.mp hnext)
    · intro hfirst wait' hwait
      obtain rfl : wait = wait' := Option.some.inj hwait
      exact ⟨fun _ => rfl, fun hside => absurd hside (hfirst nofun)⟩

theorem chained_step {s s' : Chain (Logged T) (Logged U)} {c : Call} (h : s.chained = false)
    (hs : s' = (call s c).2) : s'.chained = false := by
  obtain ⟨first, next, chained⟩ := s
  obtain rfl : chained = false := h
  obtain ⟨next', hc⟩ := call_first first next c
  rw [hs, hc]

/-- **A cancel reaches the reader that has the buffer** exactly when nothing cancels while
that is the next reader. -/
theorem cancels_pending_iff (first : T) (next : U) (calls : List Call) :
    (pending.watch (machine first next)).Steps CancelsPending
      (pending.watch (machine first next)).init calls ↔
    (pending.watch (machine first next)).Steps FirstPending
      (pending.watch (machine first next)).init calls := by
  have hinit : (pending.watch (machine first next)).init.1.chained = false := rfl
  have hcall (s s' : Chain (Logged T) (Logged U) × Option Side) (c : Call)
      (hs : (pending.watch (machine first next)).step s c = some s') : s'.1 = (call s.1 c).2 :=
    (Option.some.inj (Observer.watch_step hs).1).symm
  constructor
  · apply Machine.Steps.of_invariant (I := fun s => s.1.chained = false) _ hinit
    intro s c s' hchained hcancels hs
    have hs' := hcall s s' c hs
    exact ⟨chained_step hchained hs', (cancelsPending_iff hchained hs').mp hcancels⟩
  · apply Machine.Steps.of_invariant (I := fun s => s.1.chained = false) _ hinit
    intro s c s' hchained hfirst hs
    have hs' := hcall s s' c hs
    exact ⟨chained_step hchained hs', (cancelsPending_iff hchained hs').mpr hfirst⟩

/-- A `Read` that is dropped while the next reader has its buffer. -/
theorem drop_misses_next :
    ¬ (pending.watch (machine (⟨[]⟩ : Script) (⟨[.pending]⟩ : Script))).Steps CancelsPending
      (pending.watch (machine (⟨[]⟩ : Script) (⟨[.pending]⟩ : Script))).init
      [.pollRead ⟨8, 0⟩, .drop] := by
  intro h
  obtain ⟨_, hrest⟩ := h _ rfl
  obtain ⟨hcancels, _⟩ := hrest _ rfl
  exact absurd ((hcancels true rfl).2 rfl) (by decide)

end Chain

end Wae.Io
