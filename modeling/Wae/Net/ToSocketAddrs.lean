import Wae.Net.GetAddrInfo

/-! `ToSocketAddrs`, and what becomes of the strings that are not literals.

`getAddrInfo` hands the resolver two pieces of the string between its colons, and the
resolver reads each up to its first zero. What lies behind the second colon, and what
lies behind a null character, is not looked up. -/
namespace Wae.Net
open Text Io

/-- `sealed::ToSocketAddrs`. -/
inductive ToSocketAddrs where
  | immediate (addr : SocketAddr)
  | slice (addrs : List SocketAddr)
  | future (lookup : GetAddrInfoFuture)

namespace ToSocketAddrs

def ofSocketAddr (addr : SocketAddr) : ToSocketAddrs := .immediate addr

/-- For an address and a port of either family, as for a `SocketAddrV4` or `V6`. -/
def ofIpAddr (ip : IpAddr) (port : UInt16) : ToSocketAddrs := .immediate (.new ip port)

def ofSlice (addrs : List SocketAddr) : ToSocketAddrs := .slice addrs

def ofStr (s : String) (event : Except IoError Unit) : ToSocketAddrs :=
  match SocketAddr.parse s with
  | some addr => .immediate addr
  | none => .future (getAddrInfo s none event)

def ofString (s : String) (event : Except IoError Unit) : ToSocketAddrs := ofStr s event

def ofStrPort (s : String) (port : UInt16) (event : Except IoError Unit) : ToSocketAddrs :=
  match IpAddr.parse s with
  | some ip => .immediate (.new ip port)
  | none => .future (getAddrInfo s (some port) event)

def ofStringPort (s : String) (port : UInt16) (event : Except IoError Unit) : ToSocketAddrs :=
  match IpAddr.parse s with
  | some ip => .immediate (.new ip port)
  | none => .future (getAddrInfo s (some port) event)

/-- What a poll comes to: addresses, the call it may make, or an error before any. -/
def poll : ToSocketAddrs → Except IoError (List SocketAddr ⊕ Query)
  | .immediate addr => .ok (.inl [addr])
  | .slice addrs => .ok (.inl addrs)
  | .future lookup => lookup.poll.map .inr

end ToSocketAddrs

/-! ### The whole string -/

/-- What the resolver is handed makes up the string. -/
def Query.HandsWhole (query : Query) (s : String) : Prop :=
  ∃ host port, query.Handed host port ∧ MakesUp s host port

/-- What the resolver reads makes up the string. -/
def Query.TellsWhole (query : Query) (s : String) : Prop :=
  ∃ host port, query.Reads host port ∧ MakesUp s host port

/-- The pieces make up a string with one colon at most. -/
theorem makesUp_parts (s : String) :
    MakesUp s (parts s none).1 (parts s none).2 ↔ s.toList.count ':' ≤ 1 := by
  have h := makesUp_iff s id fun t => List.prefix_refl t.toList
  simpa only [id_eq, Option.map_id, and_true] using h

section Whole

variable (s : String) (event : Except IoError Unit)

theorem handsWhole_iff :
    (getAddrInfo s none event).query.HandsWhole s ↔ s.toList.count ':' ≤ 1 := by
  have hhanded := handed s none event
  rw [← makesUp_parts]
  constructor
  · intro ⟨host, port, h, hup⟩
    obtain ⟨rfl, rfl⟩ := hhanded.unique h
    exact hup
  · intro hup
    exact ⟨_, _, hhanded, hup⟩

theorem tellsWhole_iff :
    (getAddrInfo s none event).query.TellsWhole s ↔
      s.toList.count ':' ≤ 1 ∧ '\x00' ∉ s.toList := by
  have hreads := (handed s none event).reads
  have hup := makesUp_iff s cut cut_prefix
  rw [← noNull_iff, ← makesUp_parts] at hup
  rw [← makesUp_parts]
  constructor
  · intro ⟨host, port, h, hmade⟩
    obtain ⟨rfl, rfl⟩ := (hreads host port).mp h
    obtain ⟨hparts, hnull⟩ := hup.mp hmade
    exact ⟨hparts, hparts.noNull_iff.mp hnull⟩
  · intro ⟨hparts, hnull⟩
    exact ⟨_, _, (hreads _ _).mpr ⟨rfl, rfl⟩, hup.mpr ⟨hparts, hparts.noNull_iff.mpr hnull⟩⟩

/-- Strings that are handed over whole are told apart. -/
theorem query_injective {t : String} (hs : s.toList.count ':' ≤ 1) (ht : t.toList.count ':' ≤ 1)
    (h : (getAddrInfo s none event).query = (getAddrInfo t none event).query) : s = t := by
  obtain ⟨host, port, hhanded, hup⟩ := (handsWhole_iff s event).mpr hs
  obtain ⟨host', port', hhanded', hup'⟩ := (handsWhole_iff t event).mpr ht
  rw [← h] at hhanded'
  obtain ⟨rfl, rfl⟩ := hhanded.unique hhanded'
  exact hup.unique hup'

/-- One more colon makes no difference behind the second one. -/
theorem query_colon (hs : 1 < s.toList.count ':') :
    (getAddrInfo (s ++ ":") none event).query = (getAddrInfo s none event).query := by
  have hmem : ':' ∈ s.toList := List.count_pos_iff.mp (by omega)
  obtain ⟨host, rest, hhost, rfl⟩ := (colon_cases s).resolve_left (not_not_intro hmem)
  rw [String.toList_ofList, ← not_le, count_le_one_iff hhost, not_not] at hs
  have hcolon : String.ofList (host ++ ':' :: rest) ++ ":" =
      .ofList (host ++ ':' :: (rest ++ [':'])) := by
    apply String.toList_inj.mp
    simp
  rw [getAddrInfo_eq, getAddrInfo_eq, hcolon, parts_cons hhost, parts_cons hhost,
    Terminated.read_append_of_mem ':' hs]

/-- **No part of a string is dropped** exactly where it has one colon at most. -/
theorem handed_whole_iff :
    ((getAddrInfo s none event).query.HandsWhole s ↔ s.toList.count ':' ≤ 1) ∧
    ((getAddrInfo s none event).query.TellsWhole s ↔
      s.toList.count ':' ≤ 1 ∧ '\x00' ∉ s.toList) ∧
    (s.toList.count ':' ≤ 1 → ∀ t, t.toList.count ':' ≤ 1 →
      (getAddrInfo t none event).query = (getAddrInfo s none event).query → t = s) ∧
    (1 < s.toList.count ':' → ∃ t, t ≠ s ∧ SocketAddr.parse t = none ∧
      (getAddrInfo t none event).query = (getAddrInfo s none event).query) := by
  refine ⟨handsWhole_iff s event, tellsWhole_iff s event, ?_, ?_⟩
  · intro hs t ht h
    exact query_injective t event ht hs h
  · intro hs
    refine ⟨s ++ ":", ?_, SocketAddr.parse_colon s, query_colon s event hs⟩
    intro h
    have hlength := congrArg (·.toList.length) h
    simp at hlength

end Whole

/-- A bare IPv6 address asks for an empty host. -/
theorem bare_address_dropped : ¬ ∀ s, SocketAddr.parse s = none →
    (getAddrInfo s none (.ok ())).query.HandsWhole s := by
  intro h
  obtain ⟨host, port, hhanded, hup⟩ := h "::1" (by decide)
  obtain ⟨rfl, rfl⟩ := (handed "::1" none (.ok ())).unique hhanded
  exact absurd ((makesUp_parts "::1").mp hup) (by decide)

/-! ### The whole name -/

namespace ToSocketAddrs

/-- The resolver reads exactly these strings, if it is called. -/
def ReadsWhole (lookup : ToSocketAddrs) (host : String) (port : Option String) : Prop :=
  ∀ query, lookup.poll = .ok (.inr query) → query.Reads host port

theorem immediate_readsWhole (addr : SocketAddr) (host : String) (port : Option String) :
    ReadsWhole (.immediate addr) host port := by
  intro query h
  cases h

/-- A lookup that is refused calls no resolver. -/
theorem future_readsWhole (lookup : GetAddrInfoFuture) (host : String) (port : Option String) :
    ReadsWhole (.future lookup) host port ↔
      (∃ err, lookup.event = .error err) ∨ lookup.query.Reads host port := by
  unfold ReadsWhole
  cases hevent : lookup.event with
  | ok u => simp [poll, GetAddrInfoFuture.poll, hevent, Except.map]
  | error err => simp [poll, GetAddrInfoFuture.poll, hevent, Except.map]

/-- A null ends what is read. -/
theorem getAddrInfo_readsWhole (host : String) (port : Option UInt16)
    (event : Except IoError Unit) :
    ReadsWhole (.future (getAddrInfo host port event)) (parts host port).1 (parts host port).2 ↔
      (∃ err, event = .error err) ∨ NoNull (parts host port).1 (parts host port).2 := by
  have hevent : (getAddrInfo host port event).event = event := by rw [getAddrInfo_eq]
  rw [future_readsWhole, hevent, (handed host port event).reads, noNull_iff]
  exact or_congr_right (and_congr eq_comm eq_comm)

theorem ofStr_readsWhole (s : String) (event : Except IoError Unit) :
    ReadsWhole (ofStr s event) (parts s none).1 (parts s none).2 ↔
      (∃ err, event = .error err) ∨ NoNull (parts s none).1 (parts s none).2 := by
  unfold ofStr
  cases hparse : SocketAddr.parse s with
  | some addr =>
    have hnull := noNull_parts (SocketAddr.null_not_mem hparse)
    exact iff_of_true (immediate_readsWhole addr _ _) (.inr hnull)
  | none => exact getAddrInfo_readsWhole s none event

theorem ofStrPort_readsWhole (s : String) (port : UInt16) (event : Except IoError Unit) :
    ReadsWhole (ofStrPort s port event) s (some (toString port)) ↔
      (∃ err, event = .error err) ∨ '\x00' ∉ s.toList := by
  unfold ofStrPort
  cases hparse : IpAddr.parse s with
  | some ip =>
    have hnull := IpAddr.null_not_mem hparse
    exact iff_of_true (immediate_readsWhole _ _ _) (.inr hnull)
  | none =>
    rw [← noNull_toString s port]
    exact getAddrInfo_readsWhole s (some port) event

/-- **The resolver reads the whole name** exactly where that has no null character, or the
lookup is refused before. -/
theorem read_whole_iff (s : String) (port : UInt16) (event : Except IoError Unit) :
    (ReadsWhole (ofStr s event) (parts s none).1 (parts s none).2 ↔
      (∃ err, event = .error err) ∨ NoNull (parts s none).1 (parts s none).2) ∧
    (ReadsWhole (ofString s event) (parts s none).1 (parts s none).2 ↔
      (∃ err, event = .error err) ∨ NoNull (parts s none).1 (parts s none).2) ∧
    (ReadsWhole (ofStrPort s port event) s (some (toString port)) ↔
      (∃ err, event = .error err) ∨ '\x00' ∉ s.toList) ∧
    (ReadsWhole (ofStringPort s port event) s (some (toString port)) ↔
      (∃ err, event = .error err) ∨ '\x00' ∉ s.toList) :=
  ⟨ofStr_readsWhole s event, ofStr_readsWhole s event, ofStrPort_readsWhole s port event,
    ofStrPort_readsWhole s port event⟩

/-- Behind the null the name goes on. -/
theorem name_cut_short : ¬ ∀ (s : String) (port : UInt16),
    ReadsWhole (ofStrPort s port (.ok ())) s (some (toString port)) := by
  intro h
  rcases (ofStrPort_readsWhole "a\x00b" 80 (.ok ())).mp (h "a\x00b" 80) with ⟨err, herr⟩ | hnull
  · cases herr
  · exact absurd hnull (by decide)

end ToSocketAddrs

end Wae.Net
