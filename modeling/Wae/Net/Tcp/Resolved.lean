import Mathlib.Algebra.Ring.Nat
import Wae.Net.GetAddrInfoIter
import Wae.Net.Tcp.Fallback

/-! From the resolver's list to the system calls.

An address goes through three forms: the bytes behind an entry's pointer, the `SocketAddr`
that the iterator makes of them, and the bytes that `bind` encodes it in again. `socket2`
decodes what encodes an address, so where an entry is the encoding of one, the system is
handed that entry's own bytes. -/
namespace Wae.Net
open Transition

/-! ### The entries -/

/-- What is relied on of `socket2` where an entry is the encoding of an address. -/
structure Socket2.Decodes (socket2 : Socket2) : Prop where
  knows : socket2.KnowsIp
  /-- `from_raw_parts` copies as many bytes as it is told, where its storage has room. -/
  copies : ∀ addr len, len.toNatClampNeg ≤ 128 →
    (socket2.fromRawParts addr len).len = len.toNatClampNeg ∧
      (socket2.fromRawParts addr len).storage.take len.toNatClampNeg =
        Memory.fetch addr len.toNatClampNeg
  /-- `as_std` decodes an encoding, whatever is in the storage past it. -/
  decodes : ∀ (sockAddr : SockAddr) (addr : SocketAddr), sockAddr.len = addr.len →
    sockAddr.storage.take addr.len = addr.sockaddr → socket2.asStd sockAddr = some addr

/-- Behind the entry's pointer is the encoding of the address, or nothing that is an IP
address. -/
def ADDRINFOEXW.Holds (socket2 : Socket2) (entry : ADDRINFOEXW) : Option SocketAddr → Prop
  | some addr => entry.aiAddrlen.toNat = addr.len ∧
      Memory.fetch entry.aiAddr addr.len = addr.sockaddr
  | none => ¬ (entry.sockAddr socket2).IsIp

/-- The bytes of the entry's address. -/
def ADDRINFOEXW.bytes (entry : ADDRINFOEXW) : List UInt8 :=
  Memory.fetch entry.aiAddr entry.aiAddrlen.toNat

section Entries

variable {socket2 : Socket2} (hsocket2 : socket2.Decodes)

namespace ADDRINFOEXW.Holds
variable {entry : ADDRINFOEXW} {addr : SocketAddr}

include hsocket2 in
theorem asStd (h : entry.Holds socket2 (some addr)) :
    socket2.asStd (entry.sockAddr socket2) = some addr := by
  obtain ⟨hlen, hbytes⟩ := h
  have hclamp : entry.aiAddrlen.toUInt32.toInt32.toNatClampNeg = addr.len := by
    have hlen' : entry.aiAddrlen = .ofNat addr.len := by
      apply UInt64.toNat_inj.mp
      rw [hlen]
      cases addr <;> rfl
    rw [hlen']
    cases addr <;> rfl
  have hroom : addr.len ≤ 128 := by cases addr <;> simp [SocketAddr.len]
  obtain ⟨hcopied, hstorage⟩ := hsocket2.copies entry.aiAddr
    entry.aiAddrlen.toUInt32.toInt32 (hclamp ▸ hroom)
  rw [hclamp] at hcopied hstorage
  exact hsocket2.decodes _ addr hcopied (hstorage.trans hbytes)

theorem bytes (h : entry.Holds socket2 (some addr)) : entry.bytes = addr.sockaddr := by
  obtain ⟨hlen, hbytes⟩ := h
  rw [ADDRINFOEXW.bytes, hlen, hbytes]

include hsocket2 in
theorem asStd_none (h : entry.Holds socket2 none) :
    socket2.asStd (entry.sockAddr socket2) = none := by
  have hknown := hsocket2.knows (entry.sockAddr socket2)
  rw [decide_eq_false h] at hknown
  exact Option.not_isSome_iff_eq_none.mp (by simp [hknown])

end ADDRINFOEXW.Holds

include hsocket2 in
/-- Encoded again, they are the bytes behind the pointers. -/
theorem sockaddr_addresses {heap : Nat → ADDRINFOEXW} {held : Nat → Option SocketAddr}
    {entries : List Nat} (h : ∀ p ∈ entries, (heap p).Holds socket2 (held p)) :
    (addresses socket2 heap entries).map SocketAddr.sockaddr =
      (entries.filter fun p => ((heap p).sockAddr socket2).IsIp).map fun p => (heap p).bytes := by
  induction entries with
  | nil => rfl
  | cons p entries ih =>
    have hp := h p (List.mem_cons_self ..)
    have hrest := ih fun q hq => h q (.tail _ hq)
    have hknown := hsocket2.knows ((heap p).sockAddr socket2)
    cases hheld : held p with
    | none =>
      rw [hheld] at hp
      have hskip : addresses socket2 heap (p :: entries) = addresses socket2 heap entries := by
        simp [addresses, hp.asStd_none hsocket2]
      have hip : ¬ ((heap p).sockAddr socket2).IsIp := hp
      rw [hskip, hrest, List.filter_cons_of_neg (by simpa using hip)]
    | some addr =>
      rw [hheld] at hp
      have hip : ((heap p).sockAddr socket2).IsIp := by
        rw [hp.asStd hsocket2] at hknown
        exact of_decide_eq_true hknown.symm
      have htake : addresses socket2 heap (p :: entries) =
          addr :: addresses socket2 heap entries := by
        simp [addresses, hp.asStd hsocket2]
      rw [htake, List.filter_cons_of_pos (by simpa using hip), List.map_cons, List.map_cons,
        hrest, hp.bytes]

end Entries

/-! ### A decoder -/

theorem ofBeBytes_concat (bytes : List UInt8) (byte : UInt8) :
    ofBeBytes (bytes ++ [byte]) = ofBeBytes bytes * 256 + byte.toNat := by
  simp [ofBeBytes]

theorem ofBeBytes_beBytes (n x : Nat) : ofBeBytes (beBytes n x) = x % 256 ^ n := by
  induction n generalizing x with
  | zero => simp [beBytes, leBytes, ofBeBytes, Nat.mod_one]
  | succ n ih =>
    have hbytes : beBytes (n + 1) x = beBytes n (x / 256) ++ [.ofNat x] := by
      simp [beBytes, leBytes]
    have hbyte : (UInt8.ofNat x).toNat = x % 256 := by simp
    rw [hbytes, ofBeBytes_concat, ih, hbyte, Nat.pow_succ', Nat.mod_mul]
    omega

theorem ofBeBytes_leBytes (n x : Nat) : ofBeBytes (leBytes n x).reverse = x % 256 ^ n :=
  ofBeBytes_beBytes n x

namespace SocketAddr

/-- The bytes from a position on, as many as the field is wide. -/
def field (bytes : List UInt8) (start width : Nat) : List UInt8 := (bytes.drop start).take width

/-- Fields within the first bytes are those of the first bytes. -/
theorem field_take (bytes : List UInt8) {start width len : Nat} (h : start + width ≤ len) :
    field (bytes.take len) start width = field bytes start width := by
  unfold field
  rw [List.drop_take, List.take_take, Nat.min_eq_left (by omega)]

end SocketAddr

namespace Socket2

open SocketAddr (field)

theorem asStd_copying (sockAddr : SockAddr) : copying.asStd sockAddr =
    if field sockAddr.storage 0 2 = leBytes 2 AF_INET then
      some (.v4 (.ofNat 32 (ofBeBytes (field sockAddr.storage 4 4)))
        (.ofNat (ofBeBytes (field sockAddr.storage 2 2))))
    else if field sockAddr.storage 0 2 = leBytes 2 AF_INET6 then
      some (.v6 (.ofNat 128 (ofBeBytes (field sockAddr.storage 8 16)))
        (.ofNat (ofBeBytes (field sockAddr.storage 2 2)))
        (.ofNat (ofBeBytes (field sockAddr.storage 4 4).reverse))
        (.ofNat (ofBeBytes (field sockAddr.storage 24 4).reverse)))
    else none := rfl

/-- **Decoding undoes encoding**, whatever is in the storage past the address. -/
theorem asStd_of_encodes {sockAddr : SockAddr} {addr : SocketAddr}
    (h : sockAddr.storage.take addr.len = addr.sockaddr) : copying.asStd sockAddr = some addr := by
  have hfield {start width : Nat} (hle : start + width ≤ addr.len) :
      field sockAddr.storage start width = field addr.sockaddr start width := by
    rw [← h, SocketAddr.field_take _ hle]
  rw [asStd_copying]
  cases addr with
  | v4 ip port =>
    have hfamily : field sockAddr.storage 0 2 = leBytes 2 AF_INET :=
      (hfield (by simp [SocketAddr.len])).trans (by simp [field, SocketAddr.sockaddr])
    have hport : field sockAddr.storage 2 2 = beBytes 2 port.toNat :=
      (hfield (by simp [SocketAddr.len])).trans (by simp [field, SocketAddr.sockaddr])
    have hip : field sockAddr.storage 4 4 = beBytes 4 ip.toNat :=
      (hfield (by simp [SocketAddr.len])).trans
        (by simp [field, SocketAddr.sockaddr, List.drop_append, List.drop_of_length_le])
    rw [if_pos hfamily, hport, hip, ofBeBytes_beBytes, ofBeBytes_beBytes]
    have hipLt : ip.toNat % 256 ^ 4 = ip.toNat := Nat.mod_eq_of_lt ip.isLt
    have hportLt : port.toNat % 256 ^ 2 = port.toNat := Nat.mod_eq_of_lt port.toNat_lt
    rw [hipLt, hportLt, BitVec.ofNat_toNat, BitVec.setWidth_eq, UInt16.ofNat_toNat]
  | v6 ip port flowinfo scopeId =>
    have hfamily : field sockAddr.storage 0 2 = leBytes 2 AF_INET6 :=
      (hfield (by simp [SocketAddr.len])).trans (by simp [field, SocketAddr.sockaddr])
    have hport : field sockAddr.storage 2 2 = beBytes 2 port.toNat :=
      (hfield (by simp [SocketAddr.len])).trans (by simp [field, SocketAddr.sockaddr])
    have hflow : field sockAddr.storage 4 4 = leBytes 4 flowinfo.toNat :=
      (hfield (by simp [SocketAddr.len])).trans
        (by simp [field, SocketAddr.sockaddr, List.drop_append, List.drop_of_length_le])
    have hip : field sockAddr.storage 8 16 = beBytes 16 ip.toNat :=
      (hfield (by simp [SocketAddr.len])).trans
        (by simp [field, SocketAddr.sockaddr, List.drop_append, List.drop_of_length_le])
    have hscope : field sockAddr.storage 24 4 = leBytes 4 scopeId.toNat :=
      (hfield (by simp [SocketAddr.len])).trans (by
        simp [field, SocketAddr.sockaddr, List.drop_append, List.drop_of_length_le,
          List.take_of_length_le])
    have hnotV4 : ¬ leBytes 2 AF_INET6 = leBytes 2 AF_INET := by decide
    rw [hfamily, if_neg hnotV4, if_pos rfl, hport, hflow, hip, hscope]
    rw [ofBeBytes_beBytes, ofBeBytes_beBytes, ofBeBytes_leBytes, ofBeBytes_leBytes]
    have hipLt : ip.toNat % 256 ^ 16 = ip.toNat := Nat.mod_eq_of_lt ip.isLt
    have hportLt : port.toNat % 256 ^ 2 = port.toNat := Nat.mod_eq_of_lt port.toNat_lt
    have hflowLt : flowinfo.toNat % 256 ^ 4 = flowinfo.toNat := Nat.mod_eq_of_lt flowinfo.toNat_lt
    have hscopeLt : scopeId.toNat % 256 ^ 4 = scopeId.toNat := Nat.mod_eq_of_lt scopeId.toNat_lt
    rw [hipLt, hportLt, hflowLt, hscopeLt, BitVec.ofNat_toNat, BitVec.setWidth_eq,
      UInt16.ofNat_toNat, UInt32.ofNat_toNat, UInt32.ofNat_toNat]

theorem decodes_copying : copying.Decodes where
  knows := knowsIp_copying
  copies addr len _ := by
    refine ⟨rfl, ?_⟩
    exact List.take_of_length_le (by simp [copying, Memory.fetch])
  decodes _ _ _ h := asStd_of_encodes h

end Socket2

/-! ### The system calls -/

namespace Tcp

/-- The attempts made, whatever becomes of the error. -/
theorem bind_attempts (socket : SOCKET) (resources : List (Resource Owner))
    (binds : List (SocketAddr × Option Int32)) (freed : Option Int32) :
    ∃ t, TcpListener.fallsBack socket resources binds freed = some t ∧
      t.2 = (attempted (fun x => x.2.isSome) binds).map Prod.fst := by
  cases binds with
  | nil => exact ⟨_, rfl, rfl⟩
  | cons x xs =>
    obtain ⟨⟨⟨resources', point⟩, made⟩, hserve, hmade, hwon, hlost⟩ :=
      Tries.serve_first (T := TcpListener.tries socket) x xs
        (s := (⟨resources, .runs (.bind socket x.1 (xs.map Prod.fst))⟩, [x.1])) rfl rfl
    rw [TcpListener.fallsBack, List.map_cons, TcpListener.step_resolved, Option.bind_some, hserve,
      Option.bind_some]
    by_cases hsome : ∃ y ∈ x :: xs, y.2 = none
    · obtain rfl : point = _ := hwon hsome
      exact ⟨_, rfl, hmade⟩
    · have hall : ∀ y ∈ x :: xs, y.2.isSome = true := fun y hy => by
        by_contra hy'
        exact hsome ⟨y, hy, by simpa using hy'⟩
      obtain ⟨lastError, _, hpoint⟩ := hlost hall
      obtain rfl : point = _ := hpoint
      exact ⟨_, TcpListener.step_freed socket resources' made lastError freed, hmade⟩

theorem shortest_begins {α : Type} {failed : α → Bool} {xs ys : List α}
    (h : Shortest failed xs ys) : ys <+: xs := by
  rcases h with ⟨before, x, after, rfl, _, _, rfl⟩ | ⟨_, rfl⟩
  · exact ⟨after, by simp⟩
  · exact List.prefix_refl _

/-- The first addresses are the encodings of the first entries. -/
theorem sockaddr_begins {socket2 : Socket2} (hsocket2 : socket2.Decodes)
    {heap : Nat → ADDRINFOEXW} {held : Nat → Option SocketAddr} {entries : List Nat}
    (h : ∀ p ∈ entries, (heap p).Holds socket2 (held p)) {addrs : List SocketAddr}
    (hbegins : addrs <+: addresses socket2 heap entries) :
    addrs.map SocketAddr.sockaddr =
      ((entries.filter fun p => ((heap p).sockAddr socket2).IsIp).take addrs.length).map
        fun p => (heap p).bytes := by
  rw [List.map_take, ← sockaddr_addresses hsocket2 h, ← List.map_take]
  rw [← List.prefix_iff_eq_take.mp hbegins]

/-- The addresses tried are the first of these, up to the first success. -/
def TriesInOrder {ω : Type} (error : ω → Option Int32) (tries : List (SocketAddr × ω))
    (tried : List SocketAddr) : Prop :=
  ∃ made, Shortest (fun x => (error x.2).isSome) tries made ∧ tried = made.map Prod.fst

theorem TriesInOrder.begins {ω : Type} {error : ω → Option Int32} {tries : List (SocketAddr × ω)}
    {tried : List SocketAddr} (h : TriesInOrder error tries tried) :
    tried <+: tries.map Prod.fst := by
  obtain ⟨made, hshortest, rfl⟩ := h
  exact (shortest_begins hshortest).map _

/-- **The entries reach the system.** Where each entry of the resolver's list holds the
encoding of an IP address, or no IP address, `bind` and `connect` try the entries with an IP
address, in order, up to the first success; the system is given an entry's own bytes by
`bind`, and the first 16 of them by `connect`. -/
theorem hands_entries {socket2 : Socket2} (hsocket2 : socket2.Decodes)
    {sockAddr : SocketAddr → SockAddr} (hencodes : Encodes sockAddr)
    {heap : Nat → ADDRINFOEXW} {head : Option Nat} {entries : List Nat}
    (hlist : IsList heap head entries) {held : Nat → Option SocketAddr}
    (hheld : ∀ p ∈ entries, (heap p).Holds socket2 (held p)) :
    ∃ addrs : List SocketAddr,
      (∀ fuel n, entries.length < fuel → ∃ iter,
        (GetAddrInfoIter.iterator socket2 heap fuel).calls n (.new head) =
          some ((List.range n).map (addrs[·]?), iter)) ∧
      (∀ (socket : SOCKET) (resources : List (Resource Owner)) (beyond : Memory)
        (binds : List (SocketAddr × Option Int32)) (freed : Option Int32),
        binds.map Prod.fst = addrs →
        ∃ t, TcpListener.fallsBack socket resources binds freed = some t ∧
          TriesInOrder id binds t.2 ∧
          t.2.map (fun addr => (TcpListener.Bind.bind socket addr []).name sockAddr beyond) =
            ((entries.filter fun p => ((heap p).sockAddr socket2).IsIp).take t.2.length).map
              fun p => some (heap p).bytes) ∧
      ∀ (socket : SOCKET) (resources : List (Resource Owner)) (behind : Memory)
        (connects : List (SocketAddr × TcpStream.Outcome)),
        connects.map Prod.fst = addrs →
        ∃ t, TcpStream.fallsBack socket resources connects = some t ∧
          TriesInOrder TcpStream.Outcome.error connects t.2 ∧
          t.2.map (fun addr => ((TcpStream.Connect.connecting socket addr [] 0).name sockAddr
              behind).map (List.take 16)) =
            ((entries.filter fun p => ((heap p).sockAddr socket2).IsIp).take t.2.length).map
              fun p => some ((heap p).bytes.take 16) := by
  refine ⟨addresses socket2 heap entries, fun fuel n hfuel => ?_,
    fun socket resources beyond binds freed hbinds => ?_,
    fun socket resources behind connects hconnects => ?_⟩
  · have hnew : GetAddrInfoIter.Stands socket2 heap fuel head (.new head)
        (addresses socket2 heap entries) := ⟨rfl, entries, hlist, hfuel, rfl⟩
    obtain ⟨iter, hcalls, _⟩ := (GetAddrInfoIter.follows fuel head).calls hnew n
    exact ⟨iter, hcalls⟩
  · obtain ⟨t, hrun, hmade⟩ := bind_attempts socket resources binds freed
    have horder : TriesInOrder id binds t.2 := ⟨_, shortest_attempted _ _, hmade⟩
    refine ⟨t, hrun, horder, ?_⟩
    have hbytes := sockaddr_begins hsocket2 hheld (hbinds ▸ horder.begins)
    have hname : (fun addr => (TcpListener.Bind.bind socket addr []).name sockAddr beyond) =
        some ∘ SocketAddr.sockaddr := by
      funext addr
      exact bind_name beyond hencodes socket addr []
    rw [hname, ← List.map_map, hbytes, List.map_map]
    rfl
  · obtain ⟨t, hrun, hback⟩ := TcpStream.connect_fallsBack socket resources connects
    have horder : TriesInOrder TcpStream.Outcome.error connects t.2 := hback.attempts
    refine ⟨t, hrun, horder, ?_⟩
    have hbytes := sockaddr_begins hsocket2 hheld (hconnects ▸ horder.begins)
    have hname : (fun addr => ((TcpStream.Connect.connecting socket addr [] 0).name sockAddr
        behind).map (List.take 16)) = (some ∘ List.take 16) ∘ SocketAddr.sockaddr := by
      funext addr
      have hlen : (addr.sockaddr.take 16).length = 16 := by
        rw [List.length_take, SocketAddr.length_sockaddr, Nat.min_eq_left addr.le_len]
      rw [connect_name behind hencodes socket addr [] 0, Option.map_some]
      exact congrArg some (List.take_left' hlen)
    rw [hname, ← List.map_map, hbytes, List.map_map]
    rfl

/-- What the entries of the mixed list hold. -/
def heldMixed : Nat → Option SocketAddr
  | 1 => some (.v6 1 443 0 0)
  | 3 => some (.v4 0x7f000001 80)
  | _ => none

theorem holds_mixed : ∀ p ∈ [0, 1, 2, 3],
    (GetAddrInfoIter.mixed p).Holds .copying (heldMixed p) := by
  intro p hp
  simp only [List.mem_cons, List.not_mem_nil, or_false] at hp
  rcases hp with rfl | rfl | rfl | rfl
  · show ¬ SockAddr.IsIp _
    decide
  · exact ⟨by decide, by decide⟩
  · show ¬ SockAddr.IsIp _
    decide
  · exact ⟨by decide, by decide⟩

/-- The first address is in use, and the second one is free. -/
theorem hands_entries_mixed : ∃ addrs : List SocketAddr,
    (∃ iter, (GetAddrInfoIter.iterator .copying GetAddrInfoIter.mixed 5).calls 3
      (.new (some 0)) = some ((List.range 3).map (addrs[·]?), iter)) ∧
    ∀ binds : List (SocketAddr × Option Int32), binds.map Prod.fst = addrs →
      ∃ t, TcpListener.fallsBack 0 [] binds none = some t ∧ TriesInOrder id binds t.2 := by
  obtain ⟨addrs, hcalls, hbinds, _⟩ := hands_entries Socket2.decodes_copying encodes_stored
    GetAddrInfoIter.isList_mixed holds_mixed
  refine ⟨addrs, hcalls 5 3 (by decide), fun binds hmap => ?_⟩
  obtain ⟨t, hrun, horder, _⟩ := hbinds 0 [] (fun _ => 0) binds none hmap
  exact ⟨t, hrun, horder⟩

end Tcp

end Wae.Net
