import Wae.Net.Tcp.Listener
import Wae.Net.Tcp.Stream
import Wae.Transition.Observer
import Wae.Transition.Tries

/-! How `connect` and `bind` go through the addresses of a name.

Each has a loop of its own, and both stop at the first success. `connect` keeps the result
of the latest attempt in a local. `bind` asks for the last error of the thread when the
loop is over and its iterator is gone, which may have set another. -/
namespace Wae.Net.Tcp
open Io Transition

/-- The addresses attempted. An attempt begins where the function comes to stand at one,
and goes on as long as it is pending. -/
def attempts {P : Type} (trying : Stage P → Option SocketAddr) :
    Observer (Custody Owner (Stage P)) (Custody.Action Leave Reply) (List SocketAddr) where
  init := []
  see _ a s addrs :=
    match a with
    | .answer .pending | .leave .. => addrs
    | .answer _ => addrs ++ (trying s.point).toList

/-- A step that only goes on, and what is recorded of it. -/
theorem attempts_step {P : Type} {O : Operation Owner Leave (Stage P) Reply}
    {trying : Stage P → Option SocketAddr} {init s q : Stage P} {reply : Reply}
    (ht : O.turn s reply = some (.goes q)) (hr : reply ≠ .pending)
    (resources : List (Resource Owner)) (made : List SocketAddr) :
    ((attempts trying).watch (Custody.machine O init)).step (⟨resources, s⟩, made)
        (.answer reply) =
      some (⟨resources, q⟩, made ++ (trying q).toList) := by
  have hstep : Custody.step O ⟨resources, s⟩ (.answer reply) = some ⟨resources, q⟩ := by
    simp only [Custody.step, ht, Option.map_some, Custody.take]
  simp only [Observer.watch, Custody.machine, hstep, Option.map_some]
  cases reply with
  | pending => exact absurd rfl hr
  | _ => rfl

/-- A call succeeds, or it fails with this code. -/
def result : Option Int32 → Reply
  | none => .ok
  | some code => .err code

theorem result_ne_pending (error : Option Int32) : result error ≠ .pending := by
  cases error <;> simp [result]

/-- What the function owes for these addresses, each with what an attempt at it comes to. -/
structure FallsBack {P ω : Type} (error : ω → Option Int32) (past : P)
    (tries : List (SocketAddr × ω)) (t : Custody Owner (Stage P) × List SocketAddr) : Prop where
  attempts : ∃ made, Shortest (fun x => (error x.2).isSome) tries made ∧
    t.2 = made.map Prod.fst
  past : t.1.point = .runs past ↔ ∃ x ∈ tries, error x.2 = none
  lastError : ∀ h : tries ≠ [], (∀ x ∈ tries, (error x.2).isSome) → ∃ code,
    error (tries.getLast h).2 = some code ∧
    t.1.point = .ended (.returned (.error (.rawOsError code)))
  notFound : tries = [] → t.1.point = .ended (.returned (.error unresolved))

namespace FallsBack
variable {P ω : Type} {error : ω → Option Int32} {p : P}

/-- Without an address there is no attempt. -/
theorem of_none {s : Custody Owner (Stage P)}
    (h : s.point = .ended (.returned (.error unresolved))) : FallsBack error p [] (s, []) where
  attempts := ⟨[], .inr ⟨by simp, rfl⟩, rfl⟩
  past := by simp [h]
  lastError hne := absurd rfl hne
  notFound _ := h

theorem of_serve {x : SocketAddr × ω} {xs : List (SocketAddr × ω)}
    {t : Custody Owner (Stage P) × List SocketAddr}
    (hmade : t.2 = (attempted (fun x => (error x.2).isSome) (x :: xs)).map Prod.fst)
    (hpast : (∃ y ∈ x :: xs, error y.2 = none) → t.1.point = .runs p)
    (hlost : (∀ y ∈ x :: xs, (error y.2).isSome = true) → ∃ code,
      error ((x :: xs).getLast (List.cons_ne_nil x xs)).2 = some code ∧
      t.1.point = .ended (.returned (.error (.rawOsError code)))) :
    FallsBack error p (x :: xs) t where
  attempts := ⟨_, shortest_attempted _ _, hmade⟩
  past := by
    refine ⟨fun hp => ?_, hpast⟩
    by_contra hnone
    obtain ⟨code, -, hended⟩ := hlost fun y hy => by
      by_contra hy'
      exact hnone ⟨y, hy, by simpa using hy'⟩
    simp [hended] at hp
  lastError _ := hlost
  notFound h := by cases h

end FallsBack

/-! ### `connect` -/

namespace TcpStream

def Connect.trying : Stage Connect → Option SocketAddr
  | .runs (.connecting _ addr _ _) => some addr
  | _ => none

/-- What an attempt comes to, after as many polls that find it pending. -/
structure Outcome where
  pending : Nat
  error : Option Int32
  deriving DecidableEq, Repr

def Outcome.replies (o : Outcome) : List (Custody.Action Leave Reply) :=
  List.replicate o.pending (.answer .pending) ++ [.answer (result o.error)]

def watched : Machine (Custody Owner (Stage Connect) × List SocketAddr)
    (Custody.Action Leave Reply) :=
  (attempts Connect.trying).watch (Custody.machine connect (.runs .current))

section Attempt
variable (socket : SOCKET) (resources : List (Resource Owner)) (addrs : List SocketAddr)
  (addr : SocketAddr) (tried : Nat) (made : List SocketAddr)

theorem step_ok :
    watched.step (⟨resources, .runs (.connecting socket addr addrs tried)⟩, made) (.answer .ok) =
      some (⟨resources, .runs (.environ socket)⟩, made) :=
  (attempts_step rfl (by decide) resources made).trans (by simp [Connect.trying])

theorem trying_next (result : IoError) :
    (Connect.trying (Connect.next socket result tried addrs)).toList = addrs.head?.toList := by
  cases addrs <;> rfl

theorem step_err (code : Int32) :
    watched.step (⟨resources, .runs (.connecting socket addr addrs tried)⟩, made)
        (.answer (.err code)) =
      some (⟨resources, Connect.next socket (.rawOsError code) (tried + 1) addrs⟩,
        made ++ addrs.head?.toList) := by
  rw [← trying_next]
  exact attempts_step rfl (by simp) resources made

/-- Pending, it stands where it was. -/
theorem run_pending (n : Nat) :
    watched.run (⟨resources, .runs (.connecting socket addr addrs tried)⟩, made)
        (List.replicate n (.answer .pending)) =
      some (⟨resources, .runs (.connecting socket addr addrs tried)⟩, made) := by
  induction n with
  | zero => rfl
  | succ n ih => exact ih

/-- The polls that find an attempt pending make no difference. -/
theorem run_replies (o : Outcome) :
    watched.run (⟨resources, .runs (.connecting socket addr addrs tried)⟩, made) o.replies =
      watched.step (⟨resources, .runs (.connecting socket addr addrs tried)⟩, made)
        (.answer (result o.error)) := by
  rw [Outcome.replies, Machine.run_append, run_pending]
  simp [Machine.run]

end Attempt

def tries (socket : SOCKET) : Tries watched SocketAddr Outcome Int32 where
  made := Prod.snd
  trying t := (Connect.trying t.1.point).isSome
  replies := Outcome.replies
  error := Outcome.error
  tries addr addrs t := ∃ tried, t.1.point = .runs (.connecting socket addr addrs tried)
  won t := t.1.point = .runs (.environ socket)
  lost code t := t.1.point = .ended (.returned (.error (.rawOsError code)))
  trying_tries := by
    intro addr addrs t ⟨tried, ht⟩
    rw [ht]
    rfl
  trying_won := by
    intro t ht
    rw [ht]
    rfl
  wins := by
    intro addr addrs ⟨⟨resources, point⟩, made⟩ o ⟨tried, ht⟩ ho
    obtain rfl : point = _ := ht
    rw [run_replies, ho]
    exact ⟨_, step_ok .., rfl, rfl⟩
  goesOn := by
    intro addr next addrs ⟨⟨resources, point⟩, made⟩ o code ⟨tried, ht⟩ ho
    obtain rfl : point = _ := ht
    rw [run_replies, ho]
    exact ⟨_, step_err .., ⟨tried + 1, rfl⟩, rfl⟩
  loses := by
    intro addr ⟨⟨resources, point⟩, made⟩ o code ⟨tried, ht⟩ ho
    obtain rfl : point = _ := ht
    rw [run_replies, ho]
    refine ⟨_, step_err .., ?_, by simp⟩
    simp [Connect.next]

/-- `connect`, from where the name is resolved to where the attempts are over. -/
def fallsBack (socket : SOCKET) (resources : List (Resource Owner))
    (connects : List (SocketAddr × Outcome)) :
    Option (Custody Owner (Stage Connect) × List SocketAddr) :=
  (watched.step (⟨resources, .runs (.resolve socket)⟩, [])
    (.answer (.resolved (connects.map Prod.fst)))).bind
      ((tries socket).serve (connects.map Prod.snd))

variable (socket : SOCKET) (resources : List (Resource Owner))

theorem step_resolved (addrs : List SocketAddr) :
    watched.step (⟨resources, .runs (.resolve socket)⟩, []) (.answer (.resolved addrs)) =
      some (⟨resources, Connect.next socket (.rawOsError 0) 0 addrs⟩, addrs.head?.toList) := by
  rw [← trying_next socket addrs 0 (.rawOsError 0)]
  exact attempts_step rfl (by simp) resources []

/-- **`connect` falls back**. -/
theorem connect_fallsBack (connects : List (SocketAddr × Outcome)) :
    ∃ t, fallsBack socket resources connects = some t ∧
      FallsBack Outcome.error (.environ socket) connects t := by
  rw [fallsBack, step_resolved, Option.bind_some]
  cases connects with
  | nil => exact ⟨_, rfl, .of_none rfl⟩
  | cons x xs =>
    obtain ⟨t, hserve, hmade, hwon, hlost⟩ :=
      Tries.serve_first (T := tries socket) x xs
        (s := (⟨resources, .runs (.connecting socket x.1 (xs.map Prod.fst) 0)⟩, [x.1]))
        ⟨0, rfl⟩ rfl
    exact ⟨t, hserve, .of_serve hmade hwon hlost⟩

end TcpStream

/-! ### `bind` -/

namespace TcpListener

def Bind.trying : Stage Bind → Option SocketAddr
  | .runs (.bind _ addr _) => some addr
  | _ => none

def watched : Machine (Custody Owner (Stage Bind) × List SocketAddr)
    (Custody.Action Leave Reply) :=
  (attempts Bind.trying).watch (Custody.machine bind (.runs .socket))

section Attempt
variable (socket : SOCKET) (resources : List (Resource Owner)) (addr : SocketAddr)
  (addrs : List SocketAddr) (made : List SocketAddr)

/-- The latest `bind` was the last there is, or the loop takes the next address. -/
def Bind.next (socket : SOCKET) (code : Int32) : List SocketAddr → Stage Bind
  | addr :: addrs => .runs (.bind socket addr addrs)
  | [] => .runs (.freed socket code)

theorem step_ok :
    watched.step (⟨resources, .runs (.bind socket addr addrs)⟩, made) (.answer .ok) =
      some (⟨resources, .runs (.listen socket)⟩, made) :=
  (attempts_step rfl (by decide) resources made).trans (by simp [Bind.trying])

theorem step_err (code : Int32) :
    watched.step (⟨resources, .runs (.bind socket addr addrs)⟩, made) (.answer (.err code)) =
      some (⟨resources, Bind.next socket code addrs⟩, made ++ addrs.head?.toList) := by
  cases addrs with
  | nil => exact attempts_step rfl (by simp) resources made
  | cons next addrs => exact attempts_step rfl (by simp) resources made

/-- Where freeing the addresses sets no error, the last attempt's is still there. -/
theorem step_freed (lastError : Int32) (freed : Option Int32) :
    watched.step (⟨resources, .runs (.freed socket lastError)⟩, made) (.answer (result freed)) =
      some (⟨resources, .ended (.returned (.error (.rawOsError (freed.getD lastError))))⟩,
        made) := by
  have hr := result_ne_pending freed
  cases freed with
  | none => exact (attempts_step rfl hr resources made).trans (by simp [Bind.trying])
  | some code => exact (attempts_step rfl hr resources made).trans (by simp [Bind.trying])

theorem run_result (t : Custody Owner (Stage Bind) × List SocketAddr) (error : Option Int32) :
    watched.run t [.answer (result error)] = watched.step t (.answer (result error)) := by
  simp [Machine.run]

end Attempt

def tries (socket : SOCKET) : Tries watched SocketAddr (Option Int32) Int32 where
  made := Prod.snd
  trying t := (Bind.trying t.1.point).isSome
  replies error := [.answer (result error)]
  error := id
  tries addr addrs t := t.1.point = .runs (.bind socket addr addrs)
  won t := t.1.point = .runs (.listen socket)
  lost code t := t.1.point = .runs (.freed socket code)
  trying_tries := by
    intro addr addrs t ht
    rw [ht]
    rfl
  trying_won := by
    intro t ht
    rw [ht]
    rfl
  wins := by
    intro addr addrs ⟨⟨resources, point⟩, made⟩ error ht ho
    obtain rfl : point = _ := ht
    obtain rfl : error = none := ho
    rw [run_result]
    exact ⟨_, step_ok .., rfl, rfl⟩
  goesOn := by
    intro addr next addrs ⟨⟨resources, point⟩, made⟩ error code ht ho
    obtain rfl : point = _ := ht
    obtain rfl : error = some code := ho
    rw [run_result]
    exact ⟨_, step_err .., rfl, rfl⟩
  loses := by
    intro addr ⟨⟨resources, point⟩, made⟩ error code ht ho
    obtain rfl : point = _ := ht
    obtain rfl : error = some code := ho
    rw [run_result]
    exact ⟨_, step_err .., rfl, by simp⟩

/-- The end of the loop's iterator, where `bind` comes to it without a success. `freed` is
the error that freeing the addresses leaves, if it leaves one. -/
def free (freed : Option Int32) (t : Custody Owner (Stage Bind) × List SocketAddr) :
    Option (Custody Owner (Stage Bind) × List SocketAddr) :=
  match t.1.point with
  | .runs (.freed ..) => watched.step t (.answer (result freed))
  | _ => some t

/-- `bind`, from where the name is resolved to where the attempts are over and the
addresses are freed. -/
def fallsBack (socket : SOCKET) (resources : List (Resource Owner))
    (binds : List (SocketAddr × Option Int32)) (freed : Option Int32) :
    Option (Custody Owner (Stage Bind) × List SocketAddr) :=
  ((watched.step (⟨resources, .runs (.resolve socket)⟩, [])
    (.answer (.resolved (binds.map Prod.fst)))).bind
      ((tries socket).serve (binds.map Prod.snd))).bind (free freed)

/-- Where every attempt has failed, freeing the addresses leaves the last one's error. -/
def KeepsLast (binds : List (SocketAddr × Option Int32)) (freed : Option Int32) : Prop :=
  (∀ x ∈ binds, x.2.isSome) → ∀ code, freed = some code → ∀ x ∈ binds.getLast?, x.2 = some code

variable (socket : SOCKET) (resources : List (Resource Owner))

theorem step_resolved (addr : SocketAddr) (addrs : List SocketAddr) :
    watched.step (⟨resources, .runs (.resolve socket)⟩, []) (.answer (.resolved (addr :: addrs))) =
      some (⟨resources, .runs (.bind socket addr addrs)⟩, [addr]) :=
  attempts_step rfl (by simp) resources []

/-- An end without a success: what `bind` owes comes down to the error. -/
theorem fallsBack_freed {x : SocketAddr × Option Int32} {xs : List (SocketAddr × Option Int32)}
    {freed : Option Int32} {lastError : Int32} {t : Custody Owner (Stage Bind) × List SocketAddr}
    (hmade : t.2 = (attempted (fun y => y.2.isSome) (x :: xs)).map Prod.fst)
    (hall : ∀ y ∈ x :: xs, y.2.isSome = true)
    (hlast : ((x :: xs).getLast (List.cons_ne_nil x xs)).2 = some lastError)
    (hended : t.1.point =
      .ended (.returned (.error (.rawOsError (freed.getD lastError))))) :
    FallsBack id (.listen socket) (x :: xs) t ↔ KeepsLast (x :: xs) freed := by
  have hlast? : (x :: xs).getLast? = some ((x :: xs).getLast (List.cons_ne_nil x xs)) :=
    List.getLast?_eq_some_getLast _
  constructor
  · intro h _ code hfreed y hy
    obtain ⟨code', hcode, hended'⟩ := h.lastError (List.cons_ne_nil x xs) hall
    obtain rfl : lastError = code' := by simpa [hlast] using hcode
    obtain rfl : _ = y := by simpa [hlast?] using hy
    simpa [hfreed, hended, hlast, eq_comm] using hended'
  · intro h
    have hkept : freed.getD lastError = lastError := by
      cases freed with
      | none => rfl
      | some code => simpa [hlast, eq_comm] using h hall code rfl _ hlast?
    refine .of_serve hmade (fun ⟨y, hy, hnone⟩ => ?_) fun _ => ⟨lastError, hlast, ?_⟩
    · have hsome := hall y hy
      simp [show y.2 = none from hnone] at hsome
    · rw [hended, hkept]

/-- **`bind` falls back** where it keeps the last error. -/
theorem bind_fallsBack (binds : List (SocketAddr × Option Int32)) (freed : Option Int32) :
    ∃ t, fallsBack socket resources binds freed = some t ∧
      (FallsBack id (.listen socket) binds t ↔ KeepsLast binds freed) := by
  cases binds with
  | nil => exact ⟨_, rfl, iff_of_true (.of_none rfl) fun _ _ _ x hx => by cases hx⟩
  | cons x xs =>
    obtain ⟨⟨⟨resources', point⟩, made⟩, hserve, hmade, hwon, hlost⟩ :=
      Tries.serve_first (T := tries socket) x xs
        (s := (⟨resources, .runs (.bind socket x.1 (xs.map Prod.fst))⟩, [x.1])) rfl rfl
    rw [fallsBack, List.map_cons, step_resolved, Option.bind_some, hserve, Option.bind_some]
    by_cases hsome : ∃ y ∈ x :: xs, y.2 = none
    · obtain rfl : point = _ := hwon hsome
      obtain ⟨y, hy, hnone⟩ := hsome
      have hnot : ¬ ∀ y ∈ x :: xs, y.2.isSome = true := fun hall => by
        simpa [hnone] using hall y hy
      refine ⟨_, rfl, iff_of_true ?_ fun hall => absurd hall hnot⟩
      exact .of_serve hmade hwon fun hall => absurd hall hnot
    · have hall : ∀ y ∈ x :: xs, y.2.isSome = true := fun y hy => by
        by_contra hy'
        exact hsome ⟨y, hy, by simpa using hy'⟩
      obtain ⟨lastError, hlast, hpoint⟩ := hlost hall
      obtain rfl : point = _ := hpoint
      exact ⟨_, step_freed socket resources' made lastError freed,
        fallsBack_freed socket hmade hall hlast rfl⟩

end TcpListener

/-- **`connect` and `bind` stop at the first address that answers**. `connect` always
returns the error of the last address otherwise, and `bind` exactly where freeing the
addresses leaves it. -/
theorem falls_back_iff (socket : SOCKET) (resources : List (Resource Owner))
    (connects : List (SocketAddr × TcpStream.Outcome))
    (binds : List (SocketAddr × Option Int32)) (freed : Option Int32) :
    (∃ t, TcpStream.fallsBack socket resources connects = some t ∧
      FallsBack TcpStream.Outcome.error (.environ socket) connects t) ∧
    ∃ t, TcpListener.fallsBack socket resources binds freed = some t ∧
      (FallsBack id (.listen socket) binds t ↔ TcpListener.KeepsLast binds freed) :=
  ⟨TcpStream.connect_fallsBack socket resources connects,
    TcpListener.bind_fallsBack socket resources binds freed⟩

/-- One address, already in use, and freeing it sets the last error to 0. -/
theorem last_error_overwritten : ¬ ∀ (socket : SOCKET) (resources : List (Resource Owner))
    (connects : List (SocketAddr × TcpStream.Outcome))
    (binds : List (SocketAddr × Option Int32)) (freed : Option Int32),
    (∃ t, TcpStream.fallsBack socket resources connects = some t ∧
      FallsBack TcpStream.Outcome.error (.environ socket) connects t) ∧
    ∃ t, TcpListener.fallsBack socket resources binds freed = some t ∧
      FallsBack id (.listen socket) binds t := by
  intro h
  obtain ⟨-, t, hrun, hback⟩ := h 0 [.fresh] [] [(.v4 0x7f000001 80, some 10048)] (some 0)
  obtain ⟨code, hcode, hended⟩ := hback.lastError (by simp) (by simp)
  cases hrun
  cases hcode
  cases hended

end Wae.Net.Tcp
