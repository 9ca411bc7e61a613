import Wae.Net.Tcp.Listener
import Wae.Net.Tcp.Stream

/-! Who closes the sockets of `connect`, `bind`, `accept` and `incoming`.

From `socket::new` until a stream or a listener is returned the function alone knows
the socket, as an integer. Where it comes to `IoHandle::new`, the socket is closed by the
handle or with it; wherever else it ends, nobody closes the socket. -/
namespace Wae.Net.Tcp
open Transition

/-- The functions that open sockets. -/
inductive Function where
  | connect
  | bind
  | accept
  | incoming
  deriving DecidableEq, Repr

namespace Function

def Point : Function → Type
  | .connect => TcpStream.Connect
  | .bind => TcpListener.Bind
  | .accept => TcpListener.Accept
  | .incoming => TcpListener.Incoming

def operation : (f : Function) → Operation Owner Leave (Stage f.Point) Reply
  | .connect => TcpStream.connect
  | .bind => TcpListener.bind
  | .accept => TcpListener.accept
  | .incoming => TcpListener.incoming

def start : (f : Function) → f.Point
  | .connect => TcpStream.Connect.current
  | .bind => TcpListener.Bind.socket
  | .accept => TcpListener.Accept.socket
  | .incoming => (⟨.socket, none⟩ : TcpListener.Incoming)

def machine (f : Function) : Machine (Custody Owner (Stage f.Point)) (Custody.Action Leave Reply) :=
  Custody.machine f.operation (.runs f.start)

theorem held_start (f : Function) : f.operation.held (.runs f.start) = none := by
  cases f <;> rfl

theorem held_ended (f : Function) {s : Stage f.Point} (h : s.isEnded = true) :
    f.operation.held s = none := by
  cases f <;> exact Stage.held_of_isEnded h

end Function

variable {f : Function} {as : List (Custody.Action Leave Reply)}
  {t : Custody Owner (Stage f.Point)}

/-- **No socket is closed twice**, and none that is closed has an owner, wherever a run
of any of the functions leads. -/
theorem closed_once (hrun : f.machine.run f.machine.init as = some t) {x : Resource Owner}
    (hx : x ∈ t.resources) : x.keepers ≤ 1 := by
  obtain ⟨r, hr, rfl⟩ := List.mem_iff_getElem.mp hx
  have h := Custody.keepers_le_one hrun hr
  rw [Custody.keepers, List.getElem?_eq_getElem hr] at h
  exact Nat.le_trans (Nat.le_add_right ..) h

/-- **Every socket of a function that has ended is closed once, or has one owner to
close it**, exactly when the function never ended, or went on to the next client, while
it held a socket, and no stream's drop was stopped by a failed cancel or never came out of
one. -/
theorem sockets_settled (hrun : f.machine.run f.machine.init as = some t)
    (hend : t.point.isEnded = true) :
    (∀ x ∈ t.resources, x.Settled) ↔
      f.machine.Steps (Custody.Keeps f.operation) f.machine.init as :=
  (Custody.kept_iff_settled (f.held_ended hend)).symm.trans (Custody.kept_iff f.held_start hrun)

/-- An `Incoming` accepts a connection, `socket::new` fails for the next, and it is dropped;
the stream goes afterwards. -/
def acceptedOnce : List (Custody.Action Leave Reply) :=
  [.answer .ok, .answer .ok, .answer .ok, .answer .pending, .answer .ok, .answer .ok, .answer .ok,
   .answer .ok, .answer (.err 10024), .answer .ok, .answer .ok, .answer .drop,
   .leave 0 (.stream none none)]

theorem run_acceptedOnce :
    Function.incoming.machine.run Function.incoming.machine.init acceptedOnce =
      some ⟨[⟨[], 1⟩], .ended .dropped⟩ := rfl

theorem sockets_settled_accepted : ∃ t,
    Function.incoming.machine.run Function.incoming.machine.init acceptedOnce = some t ∧
      ∀ x ∈ t.resources, x.Settled :=
  ⟨_, run_acceptedOnce, (sockets_settled run_acceptedOnce rfl).mpr (by decide)⟩

/-- A `connect` dropped while it resolves has opened a socket that nobody closes. -/
theorem socket_leaked : ¬ ∀ (f : Function) (as : List (Custody.Action Leave Reply))
    (t : Custody Owner (Stage f.Point)), f.machine.run f.machine.init as = some t →
    t.point.isEnded = true → ∀ x ∈ t.resources, x.Settled := by
  intro h
  have hx := h .connect [.answer .ok, .answer .ok, .answer .ok, .answer .ok, .answer .ok,
    .answer .pending, .answer .drop] _ rfl rfl .fresh (List.mem_singleton.mpr rfl)
  exact absurd hx (by decide)

end Wae.Net.Tcp
