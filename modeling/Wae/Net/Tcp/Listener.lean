import Wae.Net.Tcp.Socket

/-! `TcpListener::bind`, `Accept` and `Incoming`. -/
namespace Wae.Net.Tcp
open Io Transition

namespace TcpListener

/-! ### `bind` -/

/-- Where `bind` stands. -/
inductive Bind where
  /-- `socket::new`, at the first poll. -/
  | socket
  /-- `WSAIoctl` for `AcceptEx`. -/
  | acceptex (socket : SOCKET)
  /-- `WSAIoctl` for `GetAcceptExSockaddrs`. -/
  | gaesa (socket : SOCKET)
  /-- `to_socket_addrs`, which for a host name asks for the context. -/
  | toSocketAddrs (socket : SOCKET)
  | resolve (socket : SOCKET)
  /-- `bind` to an address, with those after it. -/
  | bind (socket : SOCKET) (addr : SocketAddr) (addrs : List SocketAddr)
  /-- The end of the loop's iterator, when the last `bind` has left `lastError`. -/
  | freed (socket : SOCKET) (lastError : Int32)
  | listen (socket : SOCKET)
  deriving DecidableEq, Repr

namespace Bind

open Step in
def code : Bind → Reply → Option (Step Bind)
  | .socket, .ok => some (.acquires fun s => .runs (.acceptex s))
  | .socket, .err code => some (fails code)
  | .socket, .drop => some (ends .dropped)
  | .acceptex s, .ok => some (goes (.gaesa s))
  | .acceptex _, .err code => some (fails code)
  | .gaesa s, .ok => some (goes (.toSocketAddrs s))
  | .gaesa _, .err code => some (fails code)
  | .toSocketAddrs s, .ok => some (goes (.resolve s))
  | .toSocketAddrs _, .panic => some (ends .panicked)
  | .resolve s, .pending => some (goes (.resolve s))
  | .resolve s, .resolved (addr :: addrs) => some (goes (.bind s addr addrs))
  | .resolve _, .resolved [] => some (ends (.returned (.error unresolved)))
  | .resolve _, .err code => some (fails code)
  | .resolve _, .drop => some (ends .dropped)
  | .bind s _ _, .ok => some (goes (.listen s))
  | .bind s _ (addr :: addrs), .err _ => some (goes (.bind s addr addrs))
  | .bind s _ [], .err code => some (goes (.freed s code))
  | .freed _ lastError, .ok => some (fails lastError)
  -- freeing the addresses has left another error
  | .freed _ _, .err code => some (fails code)
  | .listen s, .ok => some (.hands s .listener (.ended (.returned (.ok s))))
  | .listen _, .err code => some (fails code)
  | _, _ => none

def held : Bind → Option SOCKET
  | .socket => none
  | .acceptex s | .gaesa s | .toSocketAddrs s | .resolve s | .bind s _ _ | .freed s _
  | .listen s => some s

/-- Where the local `socket` goes out of scope unclosed. -/
def abandons : Bind → Reply → Bool
  | .acceptex _, .err _ | .gaesa _, .err _ | .toSocketAddrs _, .panic => true
  | .resolve _, .err _ | .resolve _, .resolved [] | .resolve _, .drop => true
  | .freed _ _, .ok | .freed _ _, .err _ | .listen _, .err _ => true
  | _, _ => false

theorem follows (p : Bind) (reply : Reply) (step : Step Bind) (hs : code p reply = some step) :
    step.Follows (Stage.held held) (.runs p) (abandons p reply) := by
  cases p with
  | socket | acceptex | gaesa | toSocketAddrs | freed | listen =>
    cases reply <;> cases hs <;> simp [held, abandons]
  | resolve s =>
    cases reply with
    | resolved addrs => cases addrs <;> cases hs <;> simp [held, abandons]
    | _ => cases hs <;> simp [held, abandons]
  | bind s addr addrs => cases addrs <;> cases reply <;> cases hs <;> simp [held, abandons]

end Bind

def bind : Operation Owner Leave (Stage Bind) Reply :=
  operation Bind.code Bind.held Bind.abandons Bind.follows

/-! ### `accept` -/

/-- Where an `Accept` stands: in `accept`, which makes it; between polls; or in `poll`,
past the event. Once ready it is not polled again. -/
inductive Accept where
  /-- `socket::new`. -/
  | socket
  /-- `Handle::current`, with the client's socket or why there is none. -/
  | environ (client : Except Int32 SOCKET)
  /-- `IoEvent::new`. -/
  | event (client : Except Int32 SOCKET)
  /-- `accept` has returned, and `poll` has not been ready. -/
  | waiting (client : Except Int32 SOCKET) (event : Except Int32 Unit)
  /-- `Handle::current`, with the connection accepted. -/
  | current (client : SOCKET)
  /-- `CreateThreadpoolIo`, in `IoHandle::new`. -/
  | handle (client : SOCKET)
  /-- `as_std().unwrap()`, with the `TcpStream` made. -/
  | asStd (client : SOCKET)
  deriving DecidableEq, Repr

namespace Accept

open Step in
def code : Accept → Reply → Option (Step Accept)
  | .socket, .ok => some (.acquires fun s => .runs (.environ (.ok s)))
  | .socket, .err code => some (goes (.environ (.error code)))
  | .environ client, .ok => some (goes (.event client))
  | .environ _, .panic => some (ends .panicked)
  | .event client, .ok => some (goes (.waiting client (.ok ())))
  | .event client, .err code => some (goes (.waiting client (.error code)))
  | .waiting (.error code) _, .polled => some (fails code)
  | .waiting (.ok _) (.error code), .polled => some (fails code)
  | .waiting (.ok s) (.ok ()), .pending => some (goes (.waiting (.ok s) (.ok ())))
  | .waiting (.ok s) (.ok ()), .ok => some (goes (.current s))
  | .waiting (.ok _) (.ok ()), .err code => some (fails code)
  | .waiting _ _, .drop => some (ends .dropped)
  | .current s, .ok => some (goes (.handle s))
  | .current _, .panic => some (ends .panicked)
  | .handle s, .ok => some (goes (.asStd s))
  | .handle s, .err code => some (handleFails s code)
  | .asStd s, .ok => some (.hands s .stream (.ended (.returned (.ok s))))
  | .asStd s, .panic => some (dropsHandle s .panicked)
  | _, _ => none

/-- The client's socket, until the stream is returned. -/
def held : Accept → Option SOCKET
  | .socket => none
  | .environ client | .event client | .waiting client _ => client.toOption
  | .current s | .handle s | .asStd s => some s

/-- Where an `Accept` ends, and its client's socket is not closed. -/
def abandons : Accept → Reply → Bool
  | .environ (.ok _), .panic => true
  | .waiting (.ok _) (.error _), .polled => true
  | .waiting (.ok _) (.ok ()), .err _ => true
  | .waiting (.ok _) _, .drop => true
  | .current _, .panic => true
  | _, _ => false

theorem follows (p : Accept) (reply : Reply) (step : Step Accept)
    (hs : code p reply = some step) :
    step.Follows (Stage.held held) (.runs p) (abandons p reply) := by
  cases p with
  | socket | current | handle | asStd =>
    cases reply <;> cases hs <;> simp [held, abandons, Except.toOption]
  -- without a client there is nothing to abandon
  | environ client | event client =>
    cases client <;> cases reply <;> cases hs <;> simp [held, abandons, Except.toOption]
  | waiting client event =>
    cases client <;> cases event <;> cases reply <;> cases hs <;>
      simp [held, abandons, Except.toOption]

end Accept

def accept : Operation Owner Leave (Stage Accept) Reply :=
  operation Accept.code Accept.held Accept.abandons Accept.follows

/-! ### `incoming` -/

/-- Where an `Incoming` stands: where its `Accept` does, with the output of the one before
while `poll_next` makes the next. -/
structure Incoming where
  accept : Accept
  output : Option (Except IoError SOCKET)
  deriving DecidableEq, Repr

namespace Incoming

/-- A ready `Accept` is replaced by a new one, and once that is made its output is
returned. -/
def next (p : Incoming) : Stage Accept → Stage Incoming
  | .runs (.waiting client event) => .runs ⟨.waiting client event, none⟩
  | .runs accept => .runs ⟨accept, p.output⟩
  | .ended (.returned output) => .runs ⟨.socket, some output⟩
  | .ended exit => .ended exit

/-- The poll that accepted a connection has found a context. -/
def inContext (p : Incoming) : Bool :=
  match p.output with
  | some (.ok _) => true
  | _ => false

def code (p : Incoming) (reply : Reply) : Option (Step Incoming) :=
  if reply = .panic ∧ p.inContext then none
  else (p.accept.code reply).map (Turn.map p.next)

def held (p : Incoming) : Option SOCKET := p.accept.held

def abandons (p : Incoming) (reply : Reply) : Bool := p.accept.abandons reply

theorem held_next (p : Incoming) (s : Stage Accept) :
    (p.next s).held held = s.held Accept.held := by
  unfold next
  split <;> simp [held, Accept.held]

theorem follows (p : Incoming) (reply : Reply) (step : Step Incoming)
    (hs : p.code reply = some step) :
    step.Follows (Stage.held held) (.runs p) (p.abandons reply) := by
  simp only [code, Option.ite_none_left_eq_some, Option.map_eq_some_iff] at hs
  obtain ⟨_, step, hs, rfl⟩ := hs
  exact (Accept.follows p.accept reply step hs).map p.held_next rfl

end Incoming

def incoming : Operation Owner Leave (Stage Incoming) Reply :=
  operation Incoming.code Incoming.held Incoming.abandons Incoming.follows

end TcpListener

end Wae.Net.Tcp
