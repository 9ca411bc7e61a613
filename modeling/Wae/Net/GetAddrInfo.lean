import Wae.Io.Result
import Wae.Net.Literal
import Wae.Text.Utf16

/-! `get_addr_info`: what the resolver is asked. -/
namespace Wae.Net
open Text Io

/-- `encode_wide`, and a zero. -/
def toWstr (s : String) : List UInt16 := Terminated.close 0 (Utf16.encode s.toList)

/-- `str::split`. -/
def split (s : String) (sep : Char) : List String := (s.toList.splitOn sep).map String.ofList

theorem split_ne_nil (s : String) (sep : Char) : split s sep ≠ [] := by
  simp [split]

def AF_UNSPEC : Int32 := 0
def NS_ALL : UInt32 := 0

/-- `raw_os_error`. -/
def rawOsError : IoError → Option Int32
  | .rawOsError code => some code
  | .notFound _ => none

structure GetAddrInfoFuture where
  host : List UInt16
  port : Option (List UInt16)
  /-- `inner.hints.ai_family`. -/
  family : Int32
  event : Except IoError Unit

/-- `event` is what `IoEvent::new` has returned. -/
def getAddrInfo (host : String) (port : Option UInt16) (event : Except IoError Unit) :
    GetAddrInfoFuture :=
  let (host, port) :=
    match port with
    | some p => (host, some (toWstr (toString p)))
    | none =>
      let hostAndPort := split host ':'
      (hostAndPort.head (split_ne_nil host ':'), hostAndPort.tail.head?.map toWstr)
  { host := toWstr host, port, family := AF_UNSPEC, event }

/-- What `GetAddrInfoExW` is called with; no service stands for a null pointer. -/
structure Query where
  name : List UInt16
  service : Option (List UInt16)
  nameSpace : UInt32
  family : Int32
  deriving DecidableEq, Repr

namespace GetAddrInfoFuture

/-- The call, in the closure that `poll` passes on. -/
def query (future : GetAddrInfoFuture) : Query :=
  { name := future.host, service := future.port, nameSpace := NS_ALL, family := future.family }

/-- `poll`: the call it may make, or the error it returns before any. -/
def poll (future : GetAddrInfoFuture) : Except IoError Query :=
  match future.event with
  | .ok () => .ok future.query
  | .error err => .error (.rawOsError ((rawOsError err).getD 0))

end GetAddrInfoFuture

/-! ### The strings asked for -/

/-- The host and the port that are made wide. -/
def parts (host : String) : Option UInt16 → String × Option String
  | some p => (host, some (toString p))
  | none => ((split host ':').head (split_ne_nil host ':'), (split host ':').tail.head?)

theorem getAddrInfo_eq (host : String) (port : Option UInt16) (event : Except IoError Unit) :
    getAddrInfo host port event =
      ⟨toWstr (parts host port).1, (parts host port).2.map toWstr, AF_UNSPEC, event⟩ := by
  cases port <;> rfl

/-- The resolver is handed these strings, all of them. -/
structure Query.Handed (query : Query) (host : String) (port : Option String) : Prop where
  host : query.name = toWstr host
  port : query.service = port.map toWstr

/-- The resolver takes these strings, as it reads up to the first zero. -/
structure Query.Reads (query : Query) (host : String) (port : Option String) : Prop where
  host : Utf16.text query.name = some host.toList
  port : query.service.map Utf16.text = port.map fun p => some p.toList

/-- The string up to its first null character. -/
def cut (s : String) : String := .ofList (Terminated.read '\x00' s.toList)

theorem toWstr_injective : Function.Injective toWstr := by
  intro s t h
  apply String.toList_inj.mp
  exact Utf16.encode_injective (List.append_cancel_right h)

theorem text_toWstr (s : String) : Utf16.text (toWstr s) = some (cut s).toList := by
  rw [toWstr, Utf16.text_close, cut, String.toList_ofList]

theorem cut_eq_self_iff {s : String} : cut s = s ↔ '\x00' ∉ s.toList := by
  rw [← String.toList_inj, cut, String.toList_ofList, Terminated.read_eq_self_iff]

theorem cut_prefix (s : String) : (cut s).toList <+: s.toList := by
  rw [cut, String.toList_ofList]
  exact Terminated.read_prefix _ _

/-- Neither string has a null character. -/
def NoNull (host : String) (port : Option String) : Prop :=
  '\x00' ∉ host.toList ∧ ∀ p ∈ port, '\x00' ∉ p.toList

theorem noNull_iff {host : String} {port : Option String} :
    NoNull host port ↔ cut host = host ∧ port.map cut = port := by
  unfold NoNull
  cases port <;> simp [cut_eq_self_iff]

/-- What is handed over is read as far as the first null. -/
theorem Query.Handed.reads {query : Query} {host : String} {port : Option String}
    (h : query.Handed host port) (h' : String) (p' : Option String) :
    query.Reads h' p' ↔ h' = cut host ∧ p' = port.map cut := by
  let chars : String → Option (List Char) := fun p => some p.toList
  have hchars : Function.Injective chars := by
    intro p q hpq
    exact String.toList_inj.mp (Option.some.inj hpq)
  have htext : Utf16.text ∘ toWstr = chars ∘ cut := by
    funext p
    exact text_toWstr p
  have hname : Utf16.text query.name = chars (cut host) := by
    rw [h.host, text_toWstr]
  have hservice : query.service.map Utf16.text = (port.map cut).map chars := by
    rw [h.port, Option.map_map, htext, ← Option.map_map]
  constructor
  · intro ⟨hhost, hport⟩
    refine ⟨hchars (hhost.symm.trans hname), ?_⟩
    exact Option.map_injective hchars (hport.symm.trans hservice)
  · rintro ⟨rfl, rfl⟩
    exact ⟨hname, hservice⟩

theorem handed (host : String) (port : Option UInt16) (event : Except IoError Unit) :
    (getAddrInfo host port event).query.Handed (parts host port).1 (parts host port).2 := by
  rw [getAddrInfo_eq]
  exact ⟨rfl, rfl⟩

/-- They are the only ones. -/
theorem Query.Handed.unique {query : Query} {h h' : String} {p p' : Option String}
    (hq : query.Handed h p) (hq' : query.Handed h' p') : h' = h ∧ p' = p := by
  refine ⟨toWstr_injective (hq'.host.symm.trans hq.host), ?_⟩
  exact Option.map_injective toWstr_injective (hq'.port.symm.trans hq.port)

/-! ### A host and a port in one string -/

/-- The host and the port make up the string. -/
def MakesUp (s host : String) : Option String → Prop
  | none => ':' ∉ s.toList ∧ host = s
  | some port => s = host ++ ":" ++ port

theorem MakesUp.unique {s t host : String} {port : Option String} (hs : MakesUp s host port)
    (ht : MakesUp t host port) : s = t := by
  cases port with
  | none => exact hs.2.symm.trans ht.2
  | some port => exact Eq.trans hs ht.symm

theorem MakesUp.noNull_iff {s host : String} {port : Option String} (h : MakesUp s host port) :
    NoNull host port ↔ '\x00' ∉ s.toList := by
  unfold NoNull
  cases port with
  | none =>
    obtain ⟨_, rfl⟩ := h
    simp
  | some port =>
    obtain rfl : s = host ++ ":" ++ port := h
    simp

/-- A string has no colon, or a first one. -/
theorem colon_cases (s : String) : ':' ∉ s.toList ∨
    ∃ host rest, ':' ∉ host ∧ s = .ofList (host ++ ':' :: rest) := by
  by_cases hs : ':' ∈ s.toList
  · obtain ⟨host, rest, heq, hhost⟩ := List.eq_append_cons_of_mem hs
    exact .inr ⟨host, rest, hhost, by rw [← heq, String.ofList_toList]⟩
  · exact .inl hs

/-- A string without colons is the host. -/
theorem parts_of_not_mem {s : String} (hs : ':' ∉ s.toList) : parts s none = (s, none) := by
  simp [parts, split, List.splitOn_eq_singleton hs, String.ofList_toList]

/-- The first piece ends at the first separator. -/
theorem split_head (s : String) (sep : Char) :
    (split s sep).head? = some (.ofList (Terminated.read sep s.toList)) := by
  by_cases hs : sep ∈ s.toList
  · obtain ⟨xs, ys, heq, hxs⟩ := List.eq_append_cons_of_mem hs
    rw [split, heq, List.splitOn_append_cons_self_of_not_mem hxs, Terminated.read_append _ hxs,
      Terminated.read_cons_self, List.append_nil]
    rfl
  · rw [split, List.splitOn_eq_singleton hs, (Terminated.read_eq_self_iff sep).mpr hs]
    rfl

/-- Otherwise the host ends at the first colon, and the port at the second one. -/
theorem parts_cons {host rest : List Char} (hhost : ':' ∉ host) :
    parts (.ofList (host ++ ':' :: rest)) none =
      (.ofList host, some (.ofList (Terminated.read ':' rest))) := by
  have hsplit : split (.ofList (host ++ ':' :: rest)) ':' =
      .ofList host :: split (.ofList rest) ':' := by
    simp [split, List.splitOn_append_cons_self_of_not_mem hhost]
  have hport := split_head (.ofList rest) ':'
  rw [String.toList_ofList] at hport
  simp only [parts, hsplit, List.head_cons, List.tail_cons, hport]

/-- The pieces are pieces of the string. -/
theorem noNull_parts {s : String} (hs : '\x00' ∉ s.toList) :
    NoNull (parts s none).1 (parts s none).2 := by
  rcases colon_cases s with hcolon | ⟨host, rest, hhost, rfl⟩
  · rw [parts_of_not_mem hcolon]
    exact ⟨hs, nofun⟩
  · rw [String.toList_ofList] at hs
    rw [parts_cons hhost]
    refine ⟨?_, ?_⟩
    · rw [String.toList_ofList]
      exact fun h => hs (List.mem_append_left _ h)
    · rintro p ⟨rfl⟩ h
      rw [String.toList_ofList] at h
      exact hs (List.mem_append_right _ (.tail _ ((Terminated.read_prefix ':' rest).subset h)))

/-- The digits of a port are no nulls. -/
theorem noNull_toString (host : String) (port : UInt16) :
    NoNull host (some (toString port)) ↔ '\x00' ∉ host.toList := by
  refine ⟨And.left, fun h => ⟨h, ?_⟩⟩
  rintro p ⟨rfl⟩ hnull
  have hdigits : '\x00' ∈ Nat.toDigits 10 port.toNat := by
    rwa [← Nat.toList_repr]
  exact absurd (Nat.isDigit_of_mem_toDigits (by decide) (by decide) hdigits) (by decide)

/-- Of two parts with a separator, prefixes make up the same only where they are all of
them. -/
theorem append_prefix {α : Type} {a b a' b' : List α} {sep : α} (ha : a' <+: a) (hb : b' <+: b)
    (h : a ++ sep :: b = a' ++ sep :: b') : a' = a ∧ b' = b := by
  have hlength := congrArg List.length h
  simp only [List.length_append, List.length_cons] at hlength
  have ha' := ha.length_le
  have hb' := hb.length_le
  exact ⟨ha.eq_of_length (by omega), hb.eq_of_length (by omega)⟩

theorem count_le_one_iff {host rest : List Char} (hhost : ':' ∉ host) :
    (host ++ ':' :: rest).count ':' ≤ 1 ↔ ':' ∉ rest := by
  rw [List.count_append, List.count_cons_self, List.count_eq_zero.mpr hhost, ← List.count_eq_zero]
  omega

/-- **What the split leaves out**: read in any way that takes a prefix of each, the host
and the port make up the string where it has one colon at most, and both are read whole. -/
theorem makesUp_iff (s : String) (read : String → String)
    (hread : ∀ t, (read t).toList <+: t.toList) :
    MakesUp s (read (parts s none).1) ((parts s none).2.map read) ↔
      s.toList.count ':' ≤ 1 ∧ read (parts s none).1 = (parts s none).1 ∧
        (parts s none).2.map read = (parts s none).2 := by
  rcases colon_cases s with hs | ⟨host, rest, hhost, rfl⟩
  · rw [parts_of_not_mem hs, List.count_eq_zero.mpr hs]
    simp [MakesUp, hs]
  · have hcut := Terminated.read_prefix ':' rest
    have hleft := hread (.ofList host)
    have hright := hread (.ofList (Terminated.read ':' rest))
    rw [String.toList_ofList] at hleft hright
    rw [parts_cons hhost, String.toList_ofList, count_le_one_iff hhost, Option.map_some,
      Option.some_inj]
    simp only [MakesUp, ← String.toList_inj, String.toList_append, String.toList_ofList]
    constructor
    · intro h
      rw [List.append_assoc] at h
      obtain ⟨hl, hr⟩ := append_prefix hleft (hright.trans hcut) h
      have hlength : rest.length ≤ (Terminated.read ':' rest).length := by
        rw [← congrArg List.length hr]
        exact hright.length_le
      have hwhole : Terminated.read ':' rest = rest := hcut.eq_of_length_le hlength
      rw [hwhole] at hr ⊢
      exact ⟨(Terminated.read_eq_self_iff ':').mp hwhole, hl, hr⟩
    · intro ⟨hrest, hl, hr⟩
      rw [(Terminated.read_eq_self_iff ':').mpr hrest] at hr ⊢
      rw [hl, hr, List.append_assoc]
      rfl

end Wae.Net
