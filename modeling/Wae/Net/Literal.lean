import Wae.Net.SocketAddr
import Wae.Text.Parser

/-! Address literals, as `std::net` parses them. -/
namespace Wae.Net.Literal
open Text Text.Parser

/-! ### The parser -/

/-- `char::to_digit`. -/
def toDigit (radix : Nat) (c : Char) : Option Nat :=
  let digit :=
    if c.isDigit then some (c.toNat - '0'.toNat)
    else if c.isLower then some (c.toNat - 'a'.toNat + 10)
    else if c.isUpper then some (c.toNat - 'A'.toNat + 10)
    else none
  digit.filter (· < radix)

def number (radix : Nat) (digits : List Nat) : Nat :=
  digits.foldl (fun result digit => result * radix + digit) 0

/-- A number below `bound`, of `maxDigits` digits at most where that is given. -/
def readNumber (radix : Nat) (maxDigits : Option Nat) (allowZeroPrefix : Bool) (bound : Nat) :
    Parser Char Nat := do
  let digits ← many (toDigit radix)
  if digits = [] then fail
  else if maxDigits.any (· < digits.length) then fail
  else if !allowZeroPrefix && digits.head? == some 0 && 1 < digits.length then fail
  else if number radix digits < bound then pure (number radix digits)
  else fail

def readSeparator {β : Type} (sep : Char) (index : Nat) (inner : Parser Char β) :
    Parser Char β := do
  if index = 0 then inner
  else do
    symbol sep
    inner

def readOctet (index : Nat) : Parser Char Nat :=
  readSeparator '.' index (readNumber 10 (some 3) false 256)

def readIpv4Addr : Parser Char (BitVec 32) := do
  let a ← readOctet 0
  let b ← readOctet 1
  let c ← readOctet 2
  let d ← readOctet 3
  return .ofNat 32 (number 256 [a, b, c, d])

/-- The groups from number `i` on, `n` at most, and whether an IPv4 address is the last
two of them. -/
def readGroups (i : Nat) : Nat → Parser Char (List Nat × Bool)
  | 0 => return ([], false)
  | n + 1 => do
    -- an IPv4 address takes two groups
    match ← optional (if 0 < n then readSeparator ':' i readIpv4Addr else fail) with
    | some ip => return ([ip.toNat / 65536, ip.toNat % 65536], true)
    | none =>
      match ← optional (readSeparator ':' i (readNumber 16 (some 4) true 65536)) with
      | none => return ([], false)
      | some group => do
        let rest ← readGroups (i + 1) n
        return (group :: rest.1, rest.2)

def readIpv6Addr : Parser Char (BitVec 128) := do
  let head ← readGroups 0 8
  if head.1.length = 8 then return .ofNat 128 (number 65536 head.1)
  else if head.2 then fail
  else do
    symbol ':'
    symbol ':'
    -- `::` stands for one group at least
    let tail ← readGroups 0 (8 - (head.1.length + 1))
    let zeros := List.replicate (8 - head.1.length - tail.1.length) 0
    return .ofNat 128 (number 65536 (head.1 ++ zeros ++ tail.1))

def readIpAddr : Parser Char IpAddr :=
  orElse (do return .v4 (← readIpv4Addr)) (do return .v6 (← readIpv6Addr))

def readPort : Parser Char UInt16 := do
  symbol ':'
  let port ← readNumber 10 none true 65536
  return .ofNat port

def readScopeId : Parser Char UInt32 := do
  symbol '%'
  let scopeId ← readNumber 10 none true 4294967296
  return .ofNat scopeId

def readSocketAddrV4 : Parser Char SocketAddr := do
  let ip ← readIpv4Addr
  let port ← readPort
  return .v4 ip port

def readSocketAddrV6 : Parser Char SocketAddr := do
  symbol '['
  let ip ← readIpv6Addr
  let scopeId ← optional readScopeId
  symbol ']'
  let port ← readPort
  return .v6 ip port 0 (scopeId.getD 0)

def readSocketAddr : Parser Char SocketAddr :=
  orElse readSocketAddrV4 readSocketAddrV6

/-! ### What a literal consists of -/

/-- The characters of literals. -/
def Symbol (c : Char) : Prop := c.isAlphanum = true ∨ c ∈ ['.', ':', '[', ']', '%']

theorem not_symbol_null : ¬ Symbol '\x00' := by
  unfold Symbol
  decide

theorem isAlphanum_of_toDigit {radix : Nat} (c : Char) (d : Nat)
    (h : toDigit radix c = some d) : c.isAlphanum = true := by
  obtain ⟨hdigit, _⟩ := Option.filter_eq_some_iff.mp h
  unfold Char.isAlphanum Char.isAlpha
  split at hdigit
  · simp [*]
  · split at hdigit
    · simp [*]
    · split at hdigit
      · simp [*]
      · cases hdigit

theorem symbol_of_toDigit {radix : Nat} (c : Char) (d : Nat) (h : toDigit radix c = some d) :
    Symbol c :=
  .inl (isAlphanum_of_toDigit c d h)

theorem readNumber_some {radix bound n : Nat} {maxDigits : Option Nat} {allowZeroPrefix : Bool}
    {xs ys : List Char}
    (h : (readNumber radix maxDigits allowZeroPrefix bound).run xs = some (n, ys)) :
    ∃ digits, digits ≠ [] ∧ (many (toDigit radix)).run xs = some (digits, ys) := by
  obtain ⟨digits, zs, hmany, h⟩ := bind_some h
  split at h
  · cases h
  · rename_i hne
    split at h
    · cases h
    · split at h
      · cases h
      · split at h
        · cases h
          exact ⟨digits, hne, hmany⟩
        · cases h

section Takes

variable {radix bound index : Nat} {maxDigits : Option Nat} {allowZeroPrefix : Bool}

theorem takes_readNumber : Takes Symbol (readNumber radix maxDigits allowZeroPrefix bound) := by
  intro xs n ys h
  obtain ⟨digits, _, hmany⟩ := readNumber_some h
  exact takes_many symbol_of_toDigit hmany

theorem takes_readSeparator {β : Type} {sep : Char} {inner : Parser Char β} (hsep : Symbol sep)
    (h : Takes Symbol inner) : Takes Symbol (readSeparator sep index inner) := by
  unfold readSeparator
  split
  · exact h
  · exact (takes_symbol hsep).bind fun _ => h

theorem takes_readOctet : Takes Symbol (readOctet index) :=
  takes_readSeparator (.inr (by decide)) takes_readNumber

theorem takes_readIpv4Addr : Takes Symbol readIpv4Addr := by
  apply takes_readOctet.bind; intro
  apply takes_readOctet.bind; intro
  apply takes_readOctet.bind; intro
  apply takes_readOctet.bind; intro
  exact takes_pure _

theorem takes_readGroups (i n : Nat) : Takes Symbol (readGroups i n) := by
  induction n generalizing i with
  | zero => exact takes_pure _
  | succ n ih =>
    have hcolon : Symbol ':' := .inr (by decide)
    unfold readGroups
    apply Takes.bind
    · apply Takes.optional
      split
      · exact takes_readSeparator hcolon takes_readIpv4Addr
      · exact takes_fail
    · intro ip
      cases ip with
      | some ip => exact takes_pure _
      | none =>
        apply (takes_readSeparator hcolon takes_readNumber).optional.bind
        intro group
        cases group with
        | none => exact takes_pure _
        | some group => exact (ih (i + 1)).bind fun _ => takes_pure _

theorem takes_readIpv6Addr : Takes Symbol readIpv6Addr := by
  have hcolon : Takes Symbol (symbol ':') := takes_symbol (.inr (by decide))
  apply (takes_readGroups 0 8).bind
  intro head
  split
  · exact takes_pure _
  · split
    · exact takes_fail
    · apply hcolon.bind; intro
      apply hcolon.bind; intro
      apply (takes_readGroups 0 _).bind; intro
      exact takes_pure _

theorem takes_readIpAddr : Takes Symbol readIpAddr :=
  (takes_readIpv4Addr.bind fun _ => takes_pure _).orElse
    (takes_readIpv6Addr.bind fun _ => takes_pure _)

theorem takes_readPort : Takes Symbol readPort := by
  apply (takes_symbol (.inr (by decide))).bind; intro
  apply takes_readNumber.bind; intro
  exact takes_pure _

theorem takes_readScopeId : Takes Symbol readScopeId := by
  apply (takes_symbol (.inr (by decide))).bind; intro
  apply takes_readNumber.bind; intro
  exact takes_pure _

theorem takes_readSocketAddr : Takes Symbol readSocketAddr := by
  apply Takes.orElse
  · apply takes_readIpv4Addr.bind; intro
    apply takes_readPort.bind; intro
    exact takes_pure _
  · apply (takes_symbol (.inr (by decide))).bind; intro
    apply takes_readIpv6Addr.bind; intro
    apply takes_readScopeId.optional.bind; intro
    apply (takes_symbol (.inr (by decide))).bind; intro
    apply takes_readPort.bind; intro
    exact takes_pure _

end Takes

/-- A port ends in a digit. -/
theorem ends_readPort : Ends (·.isAlphanum = true) readPort := by
  apply ends_bind
  intro _
  apply Ends.map
  intro xs n ys h
  obtain ⟨digits, hne, hmany⟩ := readNumber_some h
  obtain ⟨zs, rfl, hzs⟩ := many_some hmany
  have hlast : zs ≠ [] := by
    rintro rfl
    exact hne (List.map_eq_nil_iff.mp hzs.symm)
  refine ⟨zs.dropLast, zs.getLast hlast, ?_, ?_⟩
  · rw [List.append_cons, List.dropLast_concat_getLast]
  · exact tested isAlphanum_of_toDigit hzs _ (List.getLast_mem hlast)

theorem ends_readSocketAddr : Ends (·.isAlphanum = true) readSocketAddr := by
  apply Ends.orElse
  · apply ends_bind; intro
    exact ends_readPort.map _
  · apply ends_bind; intro
    apply ends_bind; intro
    apply ends_bind; intro
    apply ends_bind; intro
    exact ends_readPort.map _

end Literal

/-- `str::parse` to a `SocketAddr`. -/
def SocketAddr.parse (s : String) : Option SocketAddr := Literal.readSocketAddr.parse s.toList

def IpAddr.parse (s : String) : Option IpAddr := Literal.readIpAddr.parse s.toList

/-- No literal has a null character. -/
theorem SocketAddr.null_not_mem {s : String} {addr : SocketAddr} (h : parse s = some addr) :
    '\x00' ∉ s.toList :=
  fun hnull => Literal.not_symbol_null (Literal.takes_readSocketAddr.parse h _ hnull)

theorem IpAddr.null_not_mem {s : String} {ip : IpAddr} (h : parse s = some ip) :
    '\x00' ∉ s.toList :=
  fun hnull => Literal.not_symbol_null (Literal.takes_readIpAddr.parse h _ hnull)

/-- No literal ends in a colon. -/
theorem SocketAddr.parse_colon (s : String) : parse (s ++ ":") = none := by
  apply Option.eq_none_iff_forall_ne_some.mpr
  intro addr h
  obtain ⟨zs, z, heq, hz⟩ := Literal.ends_readSocketAddr.parse h
  rw [String.toList_append] at heq
  have hcolon : [':'] = [z] := (List.append_inj' heq rfl).2
  cases hcolon
  revert hz
  decide

example : SocketAddr.parse "[fe80::1.2.3.4%7]:080" =
    some (.v6 0xfe800000000000000000000001020304 80 0 7) := by decide
example : SocketAddr.parse "01.2.3.4:80" = none := by decide

end Wae.Net
