import Wae.Net.Tcp.Address
import Wae.Net.ToSocketAddrs
import Wae.Transition.Iterator
import Wae.Transition.Loop

/-! `GetAddrInfoIter`: the addresses of a resolver's list.

`next` moves its cursor on before it looks at the entry, and calls itself where the entry
is not an IP address. So one call goes over a run of such entries, and it is a loop whose
turns are entries. -/
namespace Wae.Net
open Transition

/-- An entry of the list; `aiAddr` is what there is from the pointer on. -/
structure ADDRINFOEXW where
  aiAddr : Memory
  aiAddrlen : UInt64
  aiNext : Option Nat

/-- What `socket2` makes of an address in memory. -/
structure Socket2 where
  fromRawParts : Memory → Int32 → SockAddr
  asStd : SockAddr → Option SocketAddr

namespace SockAddr

/-- `ss_family`, the first field of the storage. -/
def family (sockAddr : SockAddr) : List UInt8 := sockAddr.storage.take 2

def IsIp (sockAddr : SockAddr) : Prop :=
  sockAddr.family = leBytes 2 AF_INET ∨ sockAddr.family = leBytes 2 AF_INET6

instance : DecidablePred IsIp := fun sockAddr =>
  inferInstanceAs (Decidable (sockAddr.family = _ ∨ sockAddr.family = _))

end SockAddr

/-- `SockAddr::as_std` is `Some` for the addresses of IPv4 and IPv6, and for no others. -/
def Socket2.KnowsIp (socket2 : Socket2) : Prop :=
  ∀ sockAddr, (socket2.asStd sockAddr).isSome = decide sockAddr.IsIp

/-- The address of an entry. -/
def ADDRINFOEXW.sockAddr (socket2 : Socket2) (current : ADDRINFOEXW) : SockAddr :=
  socket2.fromRawParts current.aiAddr current.aiAddrlen.toUInt32.toInt32

structure GetAddrInfoIter where
  addrinfo : Option Nat
  current : Option Nat
  deriving DecidableEq, Repr

namespace GetAddrInfoIter

/-- As `GetAddrInfoFuture::poll` makes it of its `result`. -/
def new (result : Option Nat) : GetAddrInfoIter := ⟨result, result⟩

/-- The pointer that the drop gives to `FreeAddrInfoExW`. -/
def drop (iter : GetAddrInfoIter) : Option Nat := iter.addrinfo

variable (socket2 : Socket2) (heap : Nat → ADDRINFOEXW)

/-- `next`, up to where it returns or calls itself. -/
def turn (iter : GetAddrInfoIter) : GetAddrInfoIter ⊕ (Option SocketAddr × GetAddrInfoIter) :=
  match iter.current with
  | none => .inr (none, iter)
  | some p =>
    let current := heap p
    let iter := {iter with current := current.aiNext}
    match socket2.asStd (current.sockAddr socket2) with
    | some addr => .inr (some addr, iter)
    | none => .inl iter

def next : Loop GetAddrInfoIter (Option SocketAddr × GetAddrInfoIter) := ⟨turn socket2 heap⟩

def iterator (fuel : Nat) : Iterator GetAddrInfoIter SocketAddr := ⟨(next socket2 heap).exec fuel⟩

end GetAddrInfoIter

/-- `ToSocketAddrsIter`: `Once`, `Copied<Iter>` or the resolver's. -/
inductive ToSocketAddrsIter where
  | immediate (addr : Option SocketAddr)
  | slice (addrs : List SocketAddr)
  | future (iter : GetAddrInfoIter)

namespace ToSocketAddrsIter

/-- The pointers that the drop gives to `FreeAddrInfoExW`. -/
def drop : ToSocketAddrsIter → List (Option Nat)
  | .immediate _ | .slice _ => []
  | .future iter => [iter.drop]

variable (socket2 : Socket2) (heap : Nat → ADDRINFOEXW)

def next (fuel : Nat) : ToSocketAddrsIter → Option (Option SocketAddr × ToSocketAddrsIter)
  | .immediate addr => some (addr, .immediate none)
  | .slice addrs => some (addrs.head?, .slice addrs.tail)
  | .future iter =>
    ((GetAddrInfoIter.iterator socket2 heap fuel).next iter).map fun (addr, iter) =>
      (addr, .future iter)

def iterator (fuel : Nat) : Iterator ToSocketAddrsIter SocketAddr := ⟨next socket2 heap fuel⟩

end ToSocketAddrsIter

/-! ### What the iterators follow -/

section Follows

variable {socket2 : Socket2} {heap : Nat → ADDRINFOEXW}

/-- A list in memory, by the places of its entries. -/
def IsList (heap : Nat → ADDRINFOEXW) : Option Nat → List Nat → Prop :=
  Chain fun p => (heap p).aiNext

/-- The addresses that `as_std` makes of the entries. -/
def addresses (socket2 : Socket2) (heap : Nat → ADDRINFOEXW) (entries : List Nat) :
    List SocketAddr :=
  entries.filterMap fun p => socket2.asStd ((heap p).sockAddr socket2)

/-- They are those of the entries with an IP address. -/
theorem addresses_eq (h : socket2.KnowsIp) (entries : List Nat) :
    (addresses socket2 heap entries).map some =
      (entries.filter fun p => ((heap p).sockAddr socket2).IsIp).map
        fun p => socket2.asStd ((heap p).sockAddr socket2) := by
  rw [addresses, List.map_filterMap_some_eq_filter_map_isSome, List.filter_map]
  apply congrArg
  apply List.filter_congr
  intro p _
  exact h ((heap p).sockAddr socket2)

namespace GetAddrInfoIter

/-- **One call** goes over the entries that are no IP addresses, and returns the first
address, if there is one. It makes a turn for each entry, and one at the end. -/
theorem exec_list (socket2 : Socket2) (head : Option Nat) {p : Option Nat}
    {entries : List Nat} (h : IsList heap p entries) {fuel : Nat} (hfuel : entries.length < fuel) :
    ∃ q rest, (next socket2 heap).exec fuel ⟨head, p⟩ =
        some ((addresses socket2 heap entries).head?, ⟨head, q⟩) ∧
      IsList heap q rest ∧ rest.length ≤ entries.length ∧
      addresses socket2 heap rest = (addresses socket2 heap entries).tail := by
  induction h generalizing fuel with
  | nil =>
    obtain ⟨fuel, rfl⟩ := Nat.exists_eq_add_of_lt hfuel
    exact ⟨none, [], rfl, .nil, Nat.le_refl _, rfl⟩
  | cons p entries hrest ih =>
    rw [List.length_cons] at hfuel
    obtain ⟨fuel, rfl⟩ : ∃ n, fuel = n + 1 := ⟨fuel - 1, by omega⟩
    cases hstd : socket2.asStd ((heap p).sockAddr socket2) with
    | none =>
      -- `next` calls itself on the rest of the list.
      have hturn : (next socket2 heap).turn ⟨head, some p⟩ = .inl ⟨head, (heap p).aiNext⟩ := by
        simp [next, turn, hstd]
      have hfuel : entries.length < fuel := by omega
      obtain ⟨q, rest, hexec, hq, hlen, haddrs⟩ := ih hfuel
      have hskip : addresses socket2 heap (p :: entries) = addresses socket2 heap entries := by
        simp [addresses, hstd]
      refine ⟨q, rest, ?_, hq, ?_, ?_⟩
      · rw [Loop.exec_inl hturn, hexec, hskip]
      · exact Nat.le_succ_of_le hlen
      · rw [haddrs, hskip]
    | some addr =>
      have hturn : (next socket2 heap).turn ⟨head, some p⟩ =
          .inr (some addr, ⟨head, (heap p).aiNext⟩) := by
        simp [next, turn, hstd]
      refine ⟨(heap p).aiNext, entries, ?_, hrest, Nat.le_succ _, ?_⟩
      · rw [Loop.exec_inr hturn]
        simp [addresses, hstd]
      · simp [addresses, hstd]

/-- Where an iterator of a list stands when these addresses are left. -/
def Stands (socket2 : Socket2) (heap : Nat → ADDRINFOEXW) (fuel : Nat)
    (head : Option Nat) (iter : GetAddrInfoIter) (addrs : List SocketAddr) : Prop :=
  iter.addrinfo = head ∧ ∃ entries, IsList heap iter.current entries ∧ entries.length < fuel ∧
    addresses socket2 heap entries = addrs

theorem next_stands {fuel : Nat} {head : Option Nat} {iter : GetAddrInfoIter}
    {addrs : List SocketAddr} (h : Stands socket2 heap fuel head iter addrs) :
    ∃ iter', (iterator socket2 heap fuel).next iter = some (addrs.head?, iter') ∧
      Stands socket2 heap fuel head iter' addrs.tail := by
  obtain ⟨hhead, entries, hlist, hfuel, haddrs⟩ := h
  obtain ⟨q, rest, hexec, hq, hlen, hrest⟩ := exec_list socket2 head hlist hfuel
  subst hhead haddrs
  exact ⟨_, hexec, rfl, rest, hq, Nat.lt_of_le_of_lt hlen hfuel, hrest⟩

theorem follows (fuel : Nat) (head : Option Nat) :
    (iterator socket2 heap fuel).Follows (Stands socket2 heap fuel head) where
  item _ _ _ h := next_stands h
  ends _ h := next_stands h

end GetAddrInfoIter

end Follows

/-! ### What they yield -/

namespace GetAddrInfoIter

/-- **The addresses of a list, each once and in order, and then `None` for ever.** However
many calls are made before, the drop frees the list from its head. -/
theorem yields_addresses {socket2 : Socket2} (hstd : socket2.KnowsIp)
    {heap : Nat → ADDRINFOEXW} {head : Option Nat} {entries : List Nat}
    (hlist : IsList heap head entries) :
    entries.Nodup ∧ ∃ addrs : List SocketAddr,
      addrs.map some =
        (entries.filter fun p => ((heap p).sockAddr socket2).IsIp).map
          (fun p => socket2.asStd ((heap p).sockAddr socket2)) ∧
      ∀ fuel n, entries.length < fuel → ∃ iter : GetAddrInfoIter,
        (iterator socket2 heap fuel).calls n (new head) =
          some ((List.range n).map (addrs[·]?), iter) ∧
        iter.drop = head ∧
        (ToSocketAddrsIter.iterator socket2 heap fuel).calls n (.future (new head)) =
          some ((List.range n).map (addrs[·]?), .future iter) ∧
        (ToSocketAddrsIter.future iter).drop = [head] := by
  refine ⟨hlist.nodup, addresses socket2 heap entries, addresses_eq hstd entries, ?_⟩
  intro fuel n hfuel
  have hnew : Stands socket2 heap fuel head (new head) (addresses socket2 heap entries) :=
    ⟨rfl, entries, hlist, hfuel, rfl⟩
  obtain ⟨iter, hcalls, hhead, _⟩ := (follows fuel head).calls hnew n
  refine ⟨iter, hcalls, hhead, ?_, congrArg (fun p => [p]) hhead⟩
  apply Iterator.calls_inside _ hcalls
  intro s item s' hs
  simp only [ToSocketAddrsIter.iterator, ToSocketAddrsIter.next, hs, Option.map_some]

end GetAddrInfoIter

/-! ### Addresses that need no resolver -/

/-- The iterator that `poll` makes of addresses it holds already. -/
def ToSocketAddrs.held : ToSocketAddrs → Option ToSocketAddrsIter
  | .immediate addr => some (.immediate (some addr))
  | .slice addrs => some (.slice addrs)
  | .future _ => none

namespace ToSocketAddrsIter

variable {socket2 : Socket2} {heap : Nat → ADDRINFOEXW}

/-- Where the iterator of one address, or of a slice, stands when these are left. -/
def Holds (iter : ToSocketAddrsIter) (addrs : List SocketAddr) : Prop :=
  iter = .slice addrs ∨ ∃ addr, iter = .immediate addr ∧ addrs = addr.toList

theorem holds_follows (fuel : Nat) : (iterator socket2 heap fuel).Follows Holds where
  item iter addr addrs h := by
    rcases h with rfl | ⟨held, rfl, hheld⟩
    · exact ⟨_, rfl, .inl rfl⟩
    · cases held with
      | none => cases hheld
      | some held =>
        cases hheld
        exact ⟨_, rfl, .inr ⟨none, rfl, rfl⟩⟩
  ends iter h := by
    rcases h with rfl | ⟨held, rfl, hheld⟩
    · exact ⟨_, rfl, .inl rfl⟩
    · cases held with
      | none => exact ⟨_, rfl, .inr ⟨none, rfl, rfl⟩⟩
      | some held => cases hheld

theorem Holds.drop {iter : ToSocketAddrsIter} {addrs : List SocketAddr} (h : iter.Holds addrs) :
    iter.drop = [] := by
  rcases h with rfl | ⟨_, rfl, _⟩ <;> rfl

end ToSocketAddrsIter

namespace ToSocketAddrs

variable (socket2 : Socket2) (heap : Nat → ADDRINFOEXW) (fuel n : Nat)

/-- **What `poll` holds, it yields**: each address once and in order, then `None` for ever,
and nothing is freed. -/
theorem yields_held {form : ToSocketAddrs} {addrs : List SocketAddr}
    (hpoll : form.poll = .ok (.inl addrs)) : ∃ iter iter', form.held = some iter ∧
      (ToSocketAddrsIter.iterator socket2 heap fuel).calls n iter =
        some ((List.range n).map (addrs[·]?), iter') ∧ iter'.drop = [] := by
  have hheld : ∃ iter, form.held = some iter ∧ iter.Holds addrs := by
    cases form with
    | immediate addr =>
      cases hpoll
      exact ⟨_, rfl, .inr ⟨some addr, rfl, rfl⟩⟩
    | slice =>
      cases hpoll
      exact ⟨_, rfl, .inl rfl⟩
    | future lookup =>
      cases hlookup : lookup.poll with
      | error => simp [poll, hlookup, Except.map] at hpoll
      | ok => simp [poll, hlookup, Except.map] at hpoll
  obtain ⟨iter, hiter, hholds⟩ := hheld
  obtain ⟨iter', hcalls, hrest⟩ := (ToSocketAddrsIter.holds_follows fuel).calls hholds n
  exact ⟨iter, iter', hiter, hcalls, hrest.drop⟩

/-- The forms that are addresses yield just those they were made of. -/
theorem yields_given (addr : SocketAddr) (ip : IpAddr) (port : UInt16) (addrs : List SocketAddr) :
    ∀ given ∈ [(ofSocketAddr addr, [addr]), (ofIpAddr ip port, [.new ip port]),
        (ofSlice addrs, addrs)], ∃ iter iter', given.1.held = some iter ∧
      (ToSocketAddrsIter.iterator socket2 heap fuel).calls n iter =
        some ((List.range n).map (given.2[·]?), iter') ∧ iter'.drop = [] := by
  intro given hgiven
  apply yields_held
  simp only [List.mem_cons, List.not_mem_nil, or_false] at hgiven
  rcases hgiven with rfl | rfl | rfl <;> rfl

end ToSocketAddrs

/-- The number whose bytes these are, the highest first. -/
def ofBeBytes (bytes : List UInt8) : Nat := bytes.foldl (fun n byte => n * 256 + byte.toNat) 0

namespace Socket2

/-- The bytes copied, and the fields read where `SOCKADDR_IN` and `SOCKADDR_IN6` have them. -/
def copying : Socket2 where
  fromRawParts addr len := ⟨Memory.fetch addr len.toNatClampNeg, len.toNatClampNeg⟩
  asStd sockAddr :=
    let field (start len : Nat) : List UInt8 := (sockAddr.storage.drop start).take len
    if sockAddr.family = leBytes 2 AF_INET then
      some (.v4 (.ofNat 32 (ofBeBytes (field 4 4))) (.ofNat (ofBeBytes (field 2 2))))
    else if sockAddr.family = leBytes 2 AF_INET6 then
      some (.v6 (.ofNat 128 (ofBeBytes (field 8 16))) (.ofNat (ofBeBytes (field 2 2)))
        (.ofNat (ofBeBytes (field 4 4).reverse)) (.ofNat (ofBeBytes (field 24 4).reverse)))
    else none

theorem knowsIp_copying : copying.KnowsIp := by
  intro sockAddr
  unfold copying SockAddr.IsIp
  by_cases h4 : sockAddr.family = leBytes 2 AF_INET
  · simp [h4]
  · simp only [if_neg h4]
    by_cases h6 : sockAddr.family = leBytes 2 AF_INET6
    · simp only [if_pos h6]
      simp [h6]
    · simp [h4, h6]

end Socket2

namespace GetAddrInfoIter

/-- A list of four entries: `AF_UNIX`, IPv6, `AF_UNIX` again, and IPv4. -/
def mixed (p : Nat) : ADDRINFOEXW :=
  let bytes : List UInt8 :=
    match p with
    | 1 => (SocketAddr.v6 1 443 0 0).sockaddr
    | 3 => (SocketAddr.v4 0x7f000001 80).sockaddr
    | _ => [1, 0]
  ⟨Memory.place bytes fun _ => 0, .ofNat bytes.length, if p < 3 then some (p + 1) else none⟩

theorem isList_mixed : IsList mixed (some 0) [0, 1, 2, 3] :=
  .cons 0 _ (.cons 1 _ (.cons 2 _ (.cons 3 _ .nil)))

theorem yields_addresses_mixed : ∃ iter : GetAddrInfoIter,
    (iterator .copying mixed 5).calls 3 (new (some 0)) =
      some ([some (.v6 1 443 0 0), some (.v4 0x7f000001 80), none], iter) ∧
    iter.drop = some 0 := by
  obtain ⟨_, addrs, haddrs, hcalls⟩ := yields_addresses Socket2.knowsIp_copying isList_mixed
  have heq : addrs.map some = [.v6 1 443 0 0, .v4 0x7f000001 80].map some := haddrs.trans (by decide)
  obtain rfl := List.map_injective_iff.mpr (fun _ _ => Option.some.inj) heq
  obtain ⟨iter, h, hdrop, _⟩ := hcalls 5 3 (by decide)
  exact ⟨iter, h, hdrop⟩

end GetAddrInfoIter

end Wae.Net
