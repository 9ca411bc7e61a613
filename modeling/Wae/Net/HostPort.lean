import Wae.Net.ToSocketAddrs

/-! A host and a port, in one string or as a pair.

The two forms meet in different parsers, and only one of them splits. A host without a
colon is no IPv6 address, since that takes two, and so either form is a literal exactly
where the host is an IPv4 address. -/
namespace Wae.Net
open Text Io

namespace Literal
open Text.Parser

/-! ### IPv6 literals have two colons -/

theorem readSeparator_some {β : Type} {sep : Char} {index : Nat} {inner : Parser Char β}
    {xs ys : List Char} {b : β} (h : (readSeparator sep index inner).run xs = some (b, ys)) :
    ys.count sep + (if index = 0 then 0 else 1) ≤ xs.count sep := by
  unfold readSeparator at h
  split at h
  · rw [if_pos ‹_›]
    exact count_le sep h
  · obtain ⟨_, zs, hsep, hinner⟩ := bind_some h
    rw [if_neg ‹_›, symbol_some hsep, List.count_cons_self]
    exact Nat.succ_le_succ (count_le sep hinner)

/-- A parser that is tried takes the colons it has taken where it succeeds, or none. -/
theorem optional_some {β : Type} {p : Parser Char β} {xs ys : List Char} {b : Option β}
    (h : (optional p).run xs = some (b, ys)) :
    (∃ a, b = some a ∧ p.run xs = some (a, ys)) ∨ b = none ∧ ys = xs := by
  rcases Option.or_eq_some_iff.mp h with h | ⟨_, h⟩
  · obtain ⟨a, zs, hp, h⟩ := bind_some h
    cases h
    exact .inl ⟨a, rfl, hp⟩
  · cases h
    exact .inr ⟨rfl, rfl⟩

/-- There is a colon in front of each group but the first; an IPv4 address is two groups. -/
theorem readGroups_some {i n : Nat} {groups : List Nat × Bool} {xs ys : List Char}
    (h : (readGroups i n).run xs = some (groups, ys)) :
    groups.1.length + ys.count ':' ≤
      xs.count ':' + (if i = 0 then 1 else 0) + groups.2.toNat := by
  induction n generalizing i groups xs with
  | zero =>
    cases h
    simp
  | succ n ih =>
    have hone : (if i = 0 then 0 else 1) + (if i = 0 then 1 else 0) = 1 := by split <;> rfl
    unfold readGroups at h
    obtain ⟨ip, zs, hip, hrun⟩ := bind_some h
    rcases optional_some hip with ⟨addr, rfl, haddr⟩ | ⟨rfl, rfl⟩
    · cases hrun
      split at haddr
      · have hcount := readSeparator_some haddr
        show 2 + ys.count ':' ≤ xs.count ':' + (if i = 0 then 1 else 0) + 1
        omega
      · cases haddr
    · obtain ⟨group, ws, hgroup, hrun'⟩ := bind_some hrun
      rcases optional_some hgroup with ⟨value, rfl, hvalue⟩ | ⟨rfl, rfl⟩
      · obtain ⟨rest, vs, hrest, hend⟩ := bind_some hrun'
        cases hend
        have hcount := readSeparator_some hvalue
        have hle := ih hrest
        rw [if_neg (Nat.succ_ne_zero i)] at hle
        show rest.1.length + 1 + ys.count ':' ≤
          zs.count ':' + (if i = 0 then 1 else 0) + rest.2.toNat
        omega
      · cases hrun'
        simp

theorem readIpv6Addr_some {ip : BitVec 128} {xs ys : List Char}
    (h : readIpv6Addr.run xs = some (ip, ys)) : 2 ≤ xs.count ':' := by
  obtain ⟨head, zs, hhead, h⟩ := bind_some h
  have hgroups := readGroups_some hhead
  have hv4 := Bool.toNat_le head.2
  simp only [if_true] at hgroups
  split at h
  · omega
  · split at h
    · cases h
    · obtain ⟨_, ws, hcolon, h⟩ := bind_some h
      obtain ⟨_, vs, hcolon', h⟩ := bind_some h
      have hle := count_le ':' hhead
      rw [symbol_some hcolon, symbol_some hcolon', List.count_cons_self,
        List.count_cons_self] at hle
      omega

theorem readIpv6Addr_none {xs : List Char} (h : xs.count ':' < 2) : readIpv6Addr.run xs = none := by
  apply Option.eq_none_iff_forall_ne_some.mpr
  intro r hr
  have := readIpv6Addr_some hr
  omega

theorem readSocketAddrV6_none {xs : List Char} (h : xs.count ':' < 2) :
    readSocketAddrV6.run xs = none := by
  apply Option.eq_none_iff_forall_ne_some.mpr
  intro r hr
  obtain ⟨_, ys, hbracket, hr⟩ := bind_some hr
  obtain ⟨_, _, hip, _⟩ := bind_some hr
  rw [symbol_some hbracket, List.count_cons_of_ne (by decide)] at h
  have := readIpv6Addr_some hip
  omega

/-! ### IPv4 literals stop at a colon -/

theorem toDigit_colon : toDigit 10 ':' = none := by decide

theorem stopsAt_readOctet (index : Nat) : StopsAt ':' (readOctet index) := by
  have hnumber : StopsAt ':' (readNumber 10 (some 3) false 256) := by
    apply (stopsAt_many toDigit_colon).bind
    intro digits
    split
    · exact stopsAt_fail
    · split
      · exact stopsAt_fail
      · split
        · exact stopsAt_fail
        · split
          · exact stopsAt_pure _
          · exact stopsAt_fail
  unfold readOctet readSeparator
  split
  · exact hnumber
  · exact (stopsAt_symbol (by decide)).bind fun _ => hnumber

theorem stopsAt_readIpv4Addr : StopsAt ':' readIpv4Addr := by
  apply (stopsAt_readOctet 0).bind; intro
  apply (stopsAt_readOctet 1).bind; intro
  apply (stopsAt_readOctet 2).bind; intro
  apply (stopsAt_readOctet 3).bind; intro
  exact stopsAt_pure _

/-! ### Ports -/

theorem toDigit_digitChar : ∀ d, d < 10 → toDigit 10 d.digitChar = some d := by decide

/-- The digits of a number are read as that number. -/
theorem number_toDigits (n : Nat) :
    ∃ digits, (Nat.toDigits 10 n).map (toDigit 10) = digits.map some ∧ number 10 digits = n := by
  induction n using Nat.strongRecOn with
  | ind n ih =>
    rw [Nat.toDigits_eq_if (by decide)]
    split
    · exact ⟨[n], by simp [toDigit_digitChar n ‹_›], by simp [number]⟩
    · obtain ⟨digits, hmap, hnumber⟩ := ih (n / 10) (by omega)
      have hlast := toDigit_digitChar (n % 10) (by omega)
      refine ⟨digits ++ [n % 10], by simp [hmap, hlast], ?_⟩
      unfold number at hnumber ⊢
      rw [List.foldl_append, hnumber]
      simp only [List.foldl_cons, List.foldl_nil]
      omega

theorem readPort_toDigits (port : UInt16) :
    readPort.run (':' :: Nat.toDigits 10 port.toNat) = some (port, []) := by
  obtain ⟨digits, hmap, hnumber⟩ := number_toDigits port.toNat
  have hne : digits ≠ [] := by
    rintro rfl
    exact Nat.toDigits_ne_nil (List.map_eq_nil_iff.mp hmap)
  have hread : (readNumber 10 none true 65536).run (Nat.toDigits 10 port.toNat) =
      some (port.toNat, []) := by
    unfold readNumber
    rw [run_bind (many_all hmap), if_neg hne, hnumber]
    simp only [Option.any_none, Bool.not_true, Bool.false_and, Bool.false_eq_true, if_false]
    rw [if_pos port.toNat_lt]
    rfl
  unfold readPort
  rw [run_bind (p := symbol ':') rfl, run_bind hread, UInt16.ofNat_toNat]
  rfl

/-! ### A host without a colon -/

variable {host : List Char}

theorem colon_not_mem_toDigits (n : Nat) : ':' ∉ Nat.toDigits 10 n := by
  intro hcolon
  exact absurd (Nat.isDigit_of_mem_toDigits (by decide) (by decide) hcolon) (by decide)

/-- Behind an IPv4 address and no more of the host comes the port. -/
theorem readSocketAddrV4_hostPort (hhost : ':' ∉ host) (port : UInt16) :
    readSocketAddrV4.run (host ++ ':' :: Nat.toDigits 10 port.toNat) =
      (readIpv4Addr.parse host).map fun ip => (.v4 ip port, []) := by
  have hstop := stopsAt_readIpv4Addr host (Nat.toDigits 10 port.toNat) hhost
  unfold readSocketAddrV4 parse
  cases hip : readIpv4Addr.run host with
  | none =>
    rw [hip] at hstop
    rw [run_bind_none hstop]
    rfl
  | some r =>
    obtain ⟨ip, rest⟩ := r
    rw [hip] at hstop
    rw [run_bind hstop]
    cases rest with
    | nil =>
      rw [List.nil_append, run_bind (readPort_toDigits port)]
      rfl
    | cons c rest =>
      have hc : c ≠ ':' := by
        rintro rfl
        exact hhost ((readIpv4Addr.suffix hip).subset (List.mem_cons_self ..))
      have hport : readPort.run (c :: rest ++ ':' :: Nat.toDigits 10 port.toNat) = none := by
        apply run_bind_none
        simp [symbol, next, hc]
      rw [run_bind_none hport]
      rfl

/-- With a port behind it, the host is a literal where it is an IPv4 address. -/
theorem parse_hostPort (hhost : ':' ∉ host) (port : UInt16) :
    readSocketAddr.parse (host ++ ':' :: Nat.toDigits 10 port.toNat) =
      (readIpv4Addr.parse host).map fun ip => .v4 ip port := by
  have hcount : (host ++ ':' :: Nat.toDigits 10 port.toNat).count ':' < 2 := by
    rw [List.count_append, List.count_eq_zero.mpr hhost, List.count_cons_self,
      List.count_eq_zero.mpr (colon_not_mem_toDigits _)]
    decide
  unfold readSocketAddr
  rw [parse, run_orElse_left (readSocketAddrV6_none hcount), readSocketAddrV4_hostPort hhost]
  cases readIpv4Addr.parse host <;> rfl

/-- And without a port also. -/
theorem parse_host (hhost : ':' ∉ host) :
    readIpAddr.parse host = (readIpv4Addr.parse host).map .v4 := by
  have hcount : host.count ':' < 2 := by
    rw [List.count_eq_zero.mpr hhost]
    decide
  unfold readIpAddr
  rw [parse, run_orElse_left (run_bind_none (readIpv6Addr_none hcount)), parse]
  cases hip : readIpv4Addr.run host with
  | none =>
    rw [run_bind_none hip]
    rfl
  | some r =>
    obtain ⟨ip, rest⟩ := r
    rw [run_bind hip]
    cases rest <;> rfl

end Literal

/-- `str::parse` to an `Ipv4Addr`. -/
def Ipv4Addr.parse (s : String) : Option (BitVec 32) := Literal.readIpv4Addr.parse s.toList

theorem toList_hostPort (host : String) (port : UInt16) :
    (host ++ ":" ++ toString port).toList = host.toList ++ ':' :: Nat.toDigits 10 port.toNat := by
  have hport : (toString port).toList = Nat.toDigits 10 port.toNat := Nat.toList_repr
  rw [String.toList_append, String.toList_append, hport, List.append_assoc]
  rfl

namespace ToSocketAddrs

/-- A lookup of this host and this port is started. -/
def Asks (lookup : ToSocketAddrs) (host port : String) : Prop :=
  ∃ future, lookup = .future future ∧ future.query.Handed host (some port)

variable {host : String} (hhost : ':' ∉ host.toList) (port : UInt16) (event : Except IoError Unit)
include hhost

/-- The split undoes the concatenation. -/
theorem parts_hostPort : parts (host ++ ":" ++ toString port) none = (host, some (toString port)) := by
  have hread : Terminated.read ':' (Nat.toDigits 10 port.toNat) = Nat.toDigits 10 port.toNat :=
    (Terminated.read_eq_self_iff ':').mpr (Literal.colon_not_mem_toDigits _)
  have hport : toString port = .ofList (Nat.toDigits 10 port.toNat) := by
    apply String.toList_inj.mp
    rw [String.toList_ofList]
    exact Nat.toList_repr
  have hwhole : host ++ ":" ++ toString port =
      .ofList (host.toList ++ ':' :: Nat.toDigits 10 port.toNat) := by
    rw [← toList_hostPort, String.ofList_toList]
  rw [hwhole, parts_cons hhost, hread, String.ofList_toList, hport]

theorem ofStr_hostPort :
    ofStr (host ++ ":" ++ toString port) event =
      match Ipv4Addr.parse host with
      | some ip => .immediate (.v4 ip port)
      | none => .future (getAddrInfo (host ++ ":" ++ toString port) none event) := by
  unfold ofStr SocketAddr.parse Ipv4Addr.parse
  rw [toList_hostPort, Literal.parse_hostPort hhost]
  cases Literal.readIpv4Addr.parse host.toList <;> rfl

theorem ofStrPort_host :
    ofStrPort host port event =
      match Ipv4Addr.parse host with
      | some ip => .immediate (.v4 ip port)
      | none => .future (getAddrInfo host (some port) event) := by
  unfold ofStrPort IpAddr.parse Ipv4Addr.parse
  rw [Literal.parse_host hhost]
  cases Literal.readIpv4Addr.parse host.toList <;> rfl

/-- **The string form and the pair form agree**: an IPv4 address is the address of each, and
of any other host each starts the same lookup. -/
theorem forms_agree (event' event'' : Except IoError Unit) :
    (∃ ip, Ipv4Addr.parse host = some ip ∧
      ofStr (host ++ ":" ++ toString port) event = .immediate (.v4 ip port) ∧
      ofStrPort host port event' = .immediate (.v4 ip port) ∧
      ofStringPort host port event'' = .immediate (.v4 ip port)) ∨
    (Ipv4Addr.parse host = none ∧
      (ofStr (host ++ ":" ++ toString port) event).Asks host (toString port) ∧
      (ofStrPort host port event').Asks host (toString port) ∧
      (ofStringPort host port event'').Asks host (toString port)) := by
  have hstr := ofStr_hostPort hhost port event
  have hstrPort := ofStrPort_host hhost port event'
  have hstringPort : ofStringPort host port event'' = _ := ofStrPort_host hhost port event''
  cases hip : Ipv4Addr.parse host with
  | some ip =>
    rw [hip] at hstr hstrPort hstringPort
    exact .inl ⟨ip, rfl, hstr, hstrPort, hstringPort⟩
  | none =>
    rw [hip] at hstr hstrPort hstringPort
    have hasked := handed (host ++ ":" ++ toString port) none event
    rw [parts_hostPort hhost port] at hasked
    exact .inr ⟨rfl, ⟨_, hstr, hasked⟩, ⟨_, hstrPort, handed host (some port) event'⟩,
      ⟨_, hstringPort, handed host (some port) event''⟩⟩

omit hhost

/-- `wae.rs` is no address. -/
theorem forms_agree_name : (ofStr "wae.rs:80" (.ok ())).Asks "wae.rs" "80" ∧
    (ofStrPort "wae.rs" 80 (.ok ())).Asks "wae.rs" "80" := by
  have hhost : ':' ∉ "wae.rs".toList := by decide
  rcases forms_agree hhost 80 (.ok ()) (.ok ()) (.ok ()) with ⟨_, hip, _⟩ | ⟨_, hstr, hstrPort, _⟩
  · have hnone : Ipv4Addr.parse "wae.rs" = none := by decide
    cases hnone.symm.trans hip
  · exact ⟨hstr, hstrPort⟩

end ToSocketAddrs

end Wae.Net
