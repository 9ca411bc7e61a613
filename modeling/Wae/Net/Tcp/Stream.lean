import Wae.Net.Tcp.Socket

/-! `TcpStream::connect`. -/
namespace Wae.Net.Tcp
open Io Transition

namespace TcpStream

/-- Where `connect` stands: at which call, with the locals it still needs. -/
inductive Connect where
  /-- `Handle::current`, at the first poll. -/
  | current
  /-- `socket::new`. -/
  | socket
  /-- `bind` to the IPv6 wildcard. -/
  | bindV6 (socket : SOCKET)
  | bindV4 (socket : SOCKET)
  /-- `WSAIoctl` for `ConnectEx`. -/
  | ioctl (socket : SOCKET)
  /-- `IoEvent::new`. -/
  | event (socket : SOCKET)
  /-- `to_socket_addrs().await`. What that asks of a context the poll has found. -/
  | resolve (socket : SOCKET)
  /-- `Connect { .. }.await` for an address, with those after it and the number `tried`
  before it. -/
  | connecting (socket : SOCKET) (addr : SocketAddr) (addrs : List SocketAddr) (tried : Nat)
  /-- `Handle::current` again. -/
  | environ (socket : SOCKET)
  /-- `CreateThreadpoolIo`, in `IoHandle::new`. -/
  | handle (socket : SOCKET)
  deriving DecidableEq, Repr

namespace Connect

/-- The loop takes the next address, or is over without a connection. `result` is the
error of the latest attempt. -/
def next (socket : SOCKET) (result : IoError) (tried : Nat) : List SocketAddr → Stage Connect
  | addr :: addrs => .runs (.connecting socket addr addrs tried)
  | [] => .ended (.returned (.error (if 0 < tried then result else unresolved)))

open Step in
def code : Connect → Reply → Option (Step Connect)
  | .current, .ok => some (goes .socket)
  | .current, .panic => some (ends .panicked)
  | .current, .drop => some (ends .dropped)
  | .socket, .ok => some (.acquires fun s => .runs (.bindV6 s))
  | .socket, .err code => some (fails code)
  | .bindV6 s, .ok => some (goes (.ioctl s))
  | .bindV6 s, .err _ => some (goes (.bindV4 s))
  | .bindV4 s, .ok => some (goes (.ioctl s))
  | .bindV4 _, .err code => some (fails code)
  | .ioctl s, .ok => some (goes (.event s))
  | .ioctl _, .err code => some (fails code)
  | .event s, .ok => some (goes (.resolve s))
  | .event _, .err code => some (fails code)
  | .resolve s, .pending => some (goes (.resolve s))
  | .resolve s, .resolved addrs => some (Turn.goes (next s (.rawOsError 0) 0 addrs))
  | .resolve _, .err code => some (fails code)
  | .resolve _, .drop => some (ends .dropped)
  | .connecting s addr addrs tried, .pending =>
    some (goes (.connecting s addr addrs tried))
  | .connecting s _ _ _, .ok => some (goes (.environ s))
  | .connecting s _ addrs tried, .err code =>
    some (Turn.goes (next s (.rawOsError code) (tried + 1) addrs))
  | .connecting .., .drop => some (ends .dropped)
  | .environ s, .ok => some (goes (.handle s))
  | .environ _, .panic => some (ends .panicked)
  | .handle s, .ok => some (.hands s .stream (.ended (.returned (.ok s))))
  | .handle s, .err code => some (handleFails s code)
  | _, _ => none

/-- The local `socket`. -/
def held : Connect → Option SOCKET
  | .current | .socket => none
  | .bindV6 s | .bindV4 s | .ioctl s | .event s | .resolve s
  | .connecting s .. | .environ s | .handle s => some s

/-- Where the local `socket` goes out of scope unclosed. -/
def abandons : Connect → Reply → Bool
  | .bindV4 _, .err _ | .ioctl _, .err _ | .event _, .err _ => true
  | .resolve _, .err _ | .resolve _, .resolved [] | .resolve _, .drop => true
  | .connecting _ _ [] _, .err _ | .connecting .., .drop => true
  | .environ _, .panic => true
  | _, _ => false

@[simp] theorem held_next (s : SOCKET) (result : IoError) (tried : Nat) (addrs : List SocketAddr) :
    Stage.held held (next s result tried addrs) = if addrs = [] then none else some s := by
  cases addrs <;> rfl

theorem follows (p : Connect) (reply : Reply) (step : Step Connect)
    (hs : code p reply = some step) :
    step.Follows (Stage.held held) (.runs p) (abandons p reply) := by
  cases p with
  | current | socket | bindV6 | bindV4 | ioctl | event | environ | handle =>
    cases reply <;> cases hs <;> simp [held, abandons]
  | resolve s =>
    cases reply with
    | resolved addrs => cases addrs <;> cases hs <;> simp [held, abandons]
    | _ => cases hs <;> simp [held, abandons]
  | connecting s addr addrs tried =>
    cases addrs <;> cases reply <;> cases hs <;> simp [held, abandons]

end Connect

def connect : Operation Owner Leave (Stage Connect) Reply :=
  operation Connect.code Connect.held Connect.abandons Connect.follows

end TcpStream

end Wae.Net.Tcp
