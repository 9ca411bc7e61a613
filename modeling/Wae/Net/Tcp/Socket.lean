import Wae.Io.Release
import Wae.Net.SocketAddr
import Wae.Transition.Custody

/-! The `SOCKET`s of the TCP operations, and who closes them.

A `SOCKET` is a bare integer. `socket::new` returns one and nothing closes it until it is
in an `IoHandle`, whose drop calls `socket::close`, or in a `Socket`. An operation is
its code from one call that leaves the crate to the next: a step is what the code does on
the reply. Where it awaits, the reply may also be that its future is dropped. -/
namespace Wae.Net.Tcp
open Io Transition

/-- A `SOCKET`, numbered by the `socket::new` that returned it. -/
abbrev SOCKET := Nat

/-- What the call an operation stands at comes back with. -/
inductive Reply where
  /-- The call succeeds, or the awaited future is ready with `Ok`. -/
  | ok
  /-- It fails, and this is the error code. -/
  | err (code : Int32)
  /-- The lookup is ready with these addresses. -/
  | resolved (addrs : List SocketAddr)
  /-- The awaited future is pending. -/
  | pending
  /-- The operation is polled, and makes no call before it returns. -/
  | polled
  /-- The call panics. -/
  | panic
  /-- The operation's future is dropped. -/
  | drop
  deriving DecidableEq, Repr

/-- How an operation ends. A stream or listener it returns is known by its `SOCKET`. -/
inductive Exit where
  | returned (result : Except IoError SOCKET)
  | panicked
  | dropped
  deriving DecidableEq, Repr

/-- Where a function stands: at one of its points `P`, or at its end. -/
inductive Stage (P : Type) where
  | runs (point : P)
  | ended (exit : Exit)
  deriving DecidableEq, Repr

/-- The values that own a socket. -/
inductive Owner where
  /-- A `TcpStream`, by its `IoHandle`. -/
  | stream
  /-- A `TcpListener`, by its `Socket`. -/
  | listener
  deriving DecidableEq, Repr

/-- How an owner goes. -/
inductive Leave where
  /-- `IoHandle::drop`, with what its waiting cancels of the read and of the write half
  return. -/
  | stream (read write : Option Int32)
  /-- `IoHandle::drop` that does not return: one of its cancels waits for a word that no
  callback will replace. -/
  | spins
  /-- The drop of a `Socket`, which closes it. -/
  | listener
  deriving DecidableEq, Repr

namespace Leave

def owner : Leave → Owner
  | .stream .. | .spins => .stream
  | .listener => .listener

/-- `IoHandle::drop` unwraps the result of each cancel before it comes to the `close`. -/
def closes : Leave → Bool
  | .stream read write => read.isNone && write.isNone
  | .spins => false
  | .listener => true

/-- How a stream has gone when its handle's destructor has come as far as it can. -/
def ofHandle (s : IoHandle) : Leave :=
  if s.life = .released ∨ s.life = .panicked then .stream s.read.cancelled s.write.cancelled
  else .spins

/-- A handle's destructor has closed the socket exactly where this says so. -/
theorem closes_iff_released {posts : Bool} {as : List IoHandle.Action} {s : IoHandle}
    (hrun : (IoHandle.machine posts).run .init as = some s) :
    (ofHandle s).closes = true ↔ s.life = .released := by
  unfold ofHandle
  split <;> rename_i hover
  · rw [IoHandle.released_iff hrun hover]
    simp [closes]
  · exact iff_of_false (by simp [closes]) fun hl => hover (.inl hl)

/-- A destructor that waits for a word nobody replaces is one that does not return. -/
theorem ofHandle_spins {s : IoHandle} (h : s.Spins) : ofHandle s = .spins := by
  unfold ofHandle
  rw [h.life]
  rfl

/-- There is one: its swap comes over the `READY` of a read that has just completed. -/
theorem spins_leaves (posts : Bool) : ∃ as s, (IoHandle.machine posts).run .init as = some s ∧
    ofHandle s = .spins ∧ ∀ a, (IoHandle.machine posts).step s a = none := by
  obtain ⟨s, hrun, hspins⟩ := late_spins posts
  exact ⟨_, s, hrun, ofHandle_spins hspins, hspins.stuck⟩

/-- The drop of a handle none of whose halves was ever polled. -/
def unused : Leave :=
  .stream (Half.init.cancelTest true).cancelled (Half.init.cancelTest true).cancelled

theorem unused_closes : unused.closes = true := rfl

/-- The destructor of such a handle comes to its end, and has nothing to wait for. -/
theorem unused_released (posts : Bool) :
    ((IoHandle.machine posts).run .init
      [.drop, .read .owner, .next, .write .owner, .next, .release]).map (·.life) =
        some .released := rfl

end Leave

variable {P : Type}

namespace Stage

def isEnded : Stage P → Bool
  | .runs _ => false
  | .ended _ => true

def held (held : P → Option SOCKET) : Stage P → Option SOCKET
  | .runs point => held point
  | .ended _ => none

def abandons (abandons : P → Reply → Bool) : Stage P → Reply → Bool
  | .runs point, reply => abandons point reply
  | .ended _, _ => false

@[simp] theorem held_runs (f : P → Option SOCKET) (p : P) : (runs p).held f = f p := rfl

@[simp] theorem held_ended (f : P → Option SOCKET) (exit : Exit) :
    (ended exit).held f = none := rfl

theorem held_of_isEnded {f : P → Option SOCKET} {s : Stage P} (h : s.isEnded = true) :
    s.held f = none := by
  cases s with
  | runs => cases h
  | ended => rfl

end Stage

/-- What a function's code does on a reply. -/
abbrev Step (P : Type) := Turn Owner (Stage P)

def Stage.turn (code : P → Reply → Option (Step P)) : Stage P → Reply → Option (Step P)
  | .runs point, reply => code point reply
  | .ended _, _ => none

/-- The error of a lookup that found no address. -/
def unresolved : IoError := .notFound "the provided address couldn't be resolved"

namespace Step

def goes (point : P) : Step P := Turn.goes (.runs point)

/-- The function returns an error, panics or is dropped, and touches no socket. -/
def ends (exit : Exit) : Step P := Turn.goes (.ended exit)

def fails (code : Int32) : Step P := ends (.returned (.error (.rawOsError code)))

/-- The function ends, and with it goes a handle that was never polled. -/
def dropsHandle (socket : SOCKET) (exit : Exit) : Step P :=
  if Leave.unused.closes then .releases socket (.ended exit) else ends exit

/-- `IoHandle::new` after `CreateThreadpoolIo` has failed. -/
def handleFails (socket : SOCKET) (code : Int32) : Step P :=
  dropsHandle socket (.returned (.error (.rawOsError code)))

end Step

section Follows
variable {held : P → Option SOCKET} {p : P} {abandons : Bool}

@[simp] theorem follows_goes (q : P) :
    (Step.goes q).Follows (Stage.held held) (.runs p) abandons ↔
      (abandons = true → (held p).isSome ∧ held q = none) ∧
        (abandons = false → held q = held p) := Iff.rfl

/-- An early exit abandons the socket if there is one. -/
@[simp] theorem follows_ends (exit : Exit) :
    (Step.ends exit).Follows (Stage.held held) (.runs p) abandons ↔
      (held p).isSome = abandons := by
  cases abandons <;> cases h : held p <;> simp [Step.ends, h]

@[simp] theorem follows_fails (code : Int32) :
    (Step.fails code).Follows (Stage.held held) (.runs p) abandons ↔
      (held p).isSome = abandons := follows_ends _

@[simp] theorem follows_dropsHandle (s : SOCKET) (exit : Exit) :
    (Step.dropsHandle s exit).Follows (Stage.held held) (.runs p) abandons ↔
      abandons = false ∧ held p = some s := by
  simp [Step.dropsHandle, Leave.unused_closes]

@[simp] theorem follows_handleFails (s : SOCKET) (code : Int32) :
    (Step.handleFails s code).Follows (Stage.held held) (.runs p) abandons ↔
      abandons = false ∧ held p = some s := follows_dropsHandle s _

end Follows

/-- A function of the crate as an operation on sockets. -/
def operation (code : P → Reply → Option (Step P)) (held : P → Option SOCKET)
    (abandons : P → Reply → Bool)
    (follows : ∀ p reply step, code p reply = some step →
      step.Follows (Stage.held held) (.runs p) (abandons p reply)) :
    Operation Owner Leave (Stage P) Reply where
  turn := Stage.turn code
  held := Stage.held held
  abandons := Stage.abandons abandons
  owner := Leave.owner
  releases := Leave.closes
  follows p reply step hs := by
    cases p with
    | runs p => exact follows p reply step hs
    | ended exit => cases hs

end Wae.Net.Tcp
