import Wae.Memory
import Wae.Net.Tcp.Listener
import Wae.Net.Tcp.Stream

/-! The addresses that `connect` and `bind` hand to the system.

The system is given a pointer and a length. `bind` passes the pointer of the `SockAddr`
itself. `connect` first reads a `SOCKADDR` through it, whose 16 bytes are all of an IPv4
address and little more than half of an IPv6 one, and passes the pointer of that copy
with the length of the whole address. -/
namespace Wae.Net

/-! ### `sockaddr` -/

def AF_INET : Nat := 2
def AF_INET6 : Nat := 23

namespace SocketAddr

/-- A `SOCKADDR_IN` or a `SOCKADDR_IN6`. Port and address are in network order. -/
def sockaddr : SocketAddr → List UInt8
  | .v4 ip port =>
    leBytes 2 AF_INET ++ beBytes 2 port.toNat ++ beBytes 4 ip.toNat ++ List.replicate 8 0
  | .v6 ip port flowinfo scopeId =>
    leBytes 2 AF_INET6 ++ beBytes 2 port.toNat ++ leBytes 4 flowinfo.toNat ++
      beBytes 16 ip.toNat ++ leBytes 4 scopeId.toNat

/-- Its length. -/
def len : SocketAddr → Nat
  | .v4 .. => 16
  | .v6 .. => 28

def isV4 : SocketAddr → Bool
  | .v4 .. => true
  | .v6 .. => false

theorem le_len (addr : SocketAddr) : 16 ≤ addr.len := by
  cases addr <;> simp [len]

@[simp] theorem length_sockaddr (addr : SocketAddr) : addr.sockaddr.length = addr.len := by
  cases addr <;> simp [sockaddr, len]

end SocketAddr

/-- A `SockAddr` of `socket2`: the storage that `as_ptr` points to, and `len`. -/
structure SockAddr where
  storage : List UInt8
  len : Nat
  deriving DecidableEq, Repr

/-- `as_ptr().read()`: a `SOCKADDR`. -/
def SockAddr.read (sockAddr : SockAddr) : List UInt8 := sockAddr.storage.take 16

/-- `SockAddr::from` encodes every address and knows its length. -/
structure Encodes (sockAddr : SocketAddr → SockAddr) : Prop where
  len : ∀ addr, (sockAddr addr).len = addr.len
  bytes : ∀ addr, (sockAddr addr).storage.take addr.len = addr.sockaddr

namespace Encodes

variable {sockAddr : SocketAddr → SockAddr} (h : Encodes sockAddr) (addr : SocketAddr)
include h

theorem len_le : (sockAddr addr).len ≤ (sockAddr addr).storage.length := by
  have hlength := congrArg List.length (h.bytes addr)
  rw [List.length_take, SocketAddr.length_sockaddr] at hlength
  rw [h.len]
  omega

/-- A `SOCKADDR` has the first 16 bytes of the address. -/
theorem read_eq : (sockAddr addr).read = addr.sockaddr.take 16 := by
  rw [← h.bytes addr, List.take_take, Nat.min_eq_left addr.le_len, SockAddr.read]

theorem length_read : (sockAddr addr).read.length = 16 := by
  rw [h.read_eq, List.length_take, SocketAddr.length_sockaddr, Nat.min_eq_left addr.le_len]

end Encodes

/-! ### The two calls -/

namespace Tcp

variable (sockAddr : SocketAddr → SockAddr) (behind : Memory)

/-- The bytes that `ConnectEx` is given, with what is `behind` the local `addr`. -/
def TcpStream.Connect.name : Connect → Option (List UInt8)
  | .connecting _ addr _ _ =>
    let sockAddr := sockAddr addr
    let addr := sockAddr.read
    let len := sockAddr.len
    some (Memory.fetch (Memory.place addr behind) len)
  | _ => none

/-- The bytes that `bind` is given. -/
def TcpListener.Bind.name : Bind → Option (List UInt8)
  | .bind _ addr _ =>
    let sockAddr := sockAddr addr
    let addr := sockAddr.storage
    let len := sockAddr.len
    some (Memory.fetch (Memory.place addr behind) len)
  | _ => none

section Calls

variable {sockAddr} (h : Encodes sockAddr) (s : SOCKET) (addr : SocketAddr)
  (addrs : List SocketAddr) (tried : Nat)
include h

theorem bind_name :
    (TcpListener.Bind.bind s addr addrs).name sockAddr behind = some addr.sockaddr := by
  rw [TcpListener.Bind.name, Memory.fetch_place _ _ (h.len_le addr), h.len, h.bytes]

theorem connect_name : (TcpStream.Connect.connecting s addr addrs tried).name sockAddr behind =
    some (addr.sockaddr.take 16 ++ Memory.fetch behind (addr.len - 16)) := by
  have hlen : (sockAddr addr).len = (sockAddr addr).read.length + (addr.len - 16) := by
    rw [h.length_read, h.len, Nat.add_sub_cancel' addr.le_len]
  rw [TcpStream.Connect.name, hlen, Memory.fetch_place_add, h.read_eq]

theorem connect_name_iff :
    (TcpStream.Connect.connecting s addr addrs tried).name sockAddr behind = some addr.sockaddr ↔
      addr.isV4 = true ∨ Memory.fetch behind 12 = addr.sockaddr.drop 16 := by
  rw [connect_name behind h, Option.some_inj]
  conv_lhs => rhs; rw [← List.take_append_drop 16 addr.sockaddr]
  rw [List.append_cancel_left_eq]
  cases addr with
  | v4 ip port => simp [SocketAddr.isV4, SocketAddr.len, Memory.fetch]
  | v6 ip port flowinfo scopeId => simp [SocketAddr.isV4, SocketAddr.len]

end Calls

/-- **`connect` hands over the whole address**, the bytes that `bind` would, exactly where
it is an IPv4 address or the rest of it happens to lie behind the copy. -/
theorem whole_address_iff {sockAddr : SocketAddr → SockAddr} (h : Encodes sockAddr)
    (addr : SocketAddr) (behind : Memory) (socket : SOCKET) (addrs : List SocketAddr)
    (tried : Nat) (listener : SOCKET) (others : List SocketAddr) (beyond : Memory) :
    ((TcpStream.Connect.connecting socket addr addrs tried).name sockAddr behind =
        some addr.sockaddr ∧
      (TcpStream.Connect.connecting socket addr addrs tried).name sockAddr behind =
        (TcpListener.Bind.bind listener addr others).name sockAddr beyond) ↔
      addr.isV4 = true ∨ Memory.fetch behind 12 = addr.sockaddr.drop 16 := by
  rw [bind_name beyond h, and_self]
  exact connect_name_iff behind h socket addr addrs tried

/-- `SockAddr::from`: the address at the start of a `SOCKADDR_STORAGE`. -/
def stored (addr : SocketAddr) : SockAddr :=
  ⟨addr.sockaddr ++ List.replicate (128 - addr.len) 0, addr.len⟩

theorem encodes_stored : Encodes stored where
  len _ := rfl
  bytes addr := by
    have hlen := addr.length_sockaddr
    simp only [stored]
    rw [← hlen, List.take_left]

/-- `127.0.0.1:80`. -/
theorem whole_address_v4 :
    (TcpStream.Connect.connecting 0 (.v4 0x7f000001 80) [] 0).name stored (fun _ => 0xcc) =
      some [2, 0, 0, 80, 127, 0, 0, 1, 0, 0, 0, 0, 0, 0, 0, 0] :=
  ((whole_address_iff encodes_stored (.v4 0x7f000001 80) (fun _ => 0xcc) 0 [] 0 0 []
    (fun _ => 0)).mpr (.inl rfl)).1

/-- `[::1]:80`. The copy ends in the middle of the zeros. -/
theorem short_copy : ¬ ∀ (addr : SocketAddr) (behind : Memory),
    (TcpStream.Connect.connecting 0 addr [] 0).name stored behind = some addr.sockaddr := by
  intro h
  have hname := h (.v6 1 80 0 0) fun _ => 0xcc
  revert hname
  decide

end Tcp

end Wae.Net
