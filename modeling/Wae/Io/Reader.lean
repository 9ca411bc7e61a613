import Mathlib.Data.List.Basic
import Wae.Io.Result
import Wae.Io.Slice

/-! Readers, and what they are seen to do.

A reader is called to poll and to cancel. Which calls one reader makes of another is not
in the results: it is seen by a `Logged` reader put around the other, which answers just
as that does. -/
namespace Wae.Io

/-- A reader, by its state. The bytes that a poll puts into the buffer stand here for
their number. -/
class AsyncRead (R : Type) where
  pollRead : R → IoSliceMut → Poll (Except IoError (List UInt8)) × R
  cancelRead : R → Bool → Except IoError Unit × R

export AsyncRead (pollRead cancelRead)

/-- What is called on a reader. A `Read` of it is dropped, too. -/
inductive Call where
  | pollRead (buf : IoSliceMut)
  | cancelRead (wait : Bool)
  | drop
  deriving DecidableEq, Repr

/-- With what a call cancels, if it does. -/
def Call.cancels : Call → Option Bool
  | .pollRead _ => none
  | .cancelRead wait => some wait
  | .drop => some true

section
variable {R : Type} [AsyncRead R]

/-- `Read`'s destructor. -/
def Read.drop (io : R) : R := (cancelRead io true).2

/-- A call's poll result, if it polls, and what it leaves. -/
def call (r : R) : Call → Option (Poll (Except IoError (List UInt8))) × R
  | .pollRead buf =>
    let (poll, r) := pollRead r buf
    (some poll, r)
  | .cancelRead wait => (none, (cancelRead r wait).2)
  | .drop => (none, Read.drop r)

/-- The poll results that a reader gives when it is called so. -/
def polls (r : R) : List Call → List (Poll (Except IoError (List UInt8)))
  | [] => []
  | c :: cs => (call r c).1.toList ++ polls (call r c).2 cs

def called (r : R) : List Call → R
  | [] => r
  | c :: cs => called (call r c).2 cs

theorem polls_pollRead (r : R) (buf : IoSliceMut) (cs : List Call) :
    polls r (.pollRead buf :: cs) = (pollRead r buf).1 :: polls (pollRead r buf).2 cs := rfl

theorem called_pollRead (r : R) (buf : IoSliceMut) (cs : List Call) :
    called r (.pollRead buf :: cs) = called (pollRead r buf).2 cs := rfl

theorem polls_append (r : R) (calls calls' : List Call) :
    polls r (calls ++ calls') = polls r calls ++ polls (called r calls) calls' := by
  induction calls generalizing r with
  | nil => rfl
  | cons c cs ih =>
    show (call r c).1.toList ++ polls _ (cs ++ calls') = _
    rw [ih, ← List.append_assoc]
    rfl

theorem called_append (r : R) (calls calls' : List Call) :
    called r (calls ++ calls') = called (called r calls) calls' := by
  induction calls generalizing r with
  | nil => rfl
  | cons c cs ih => exact ih _

end

/-- The bytes that poll results deliver. -/
def delivered (polls : List (Poll (Except IoError (List UInt8)))) : List UInt8 :=
  polls.flatMap fun
    | .ready (.ok bytes) => bytes
    | .ready (.error _) => []
    | .pending => []

/-- The poll results before the first `Ok(0)`. -/
def beforeEnd (polls : List (Poll (Except IoError (List UInt8)))) :
    List (Poll (Except IoError (List UInt8))) :=
  polls.takeWhile (· ≠ .ready (.ok []))

/-- None comes after an `Ok(0)`. -/
def EndsOnce : List (Poll (Except IoError (List UInt8))) → Prop
  | [] => True
  | poll :: polls => (poll = .ready (.ok []) → polls = []) ∧ EndsOnce polls

instance decidableEndsOnce :
    (polls : List (Poll (Except IoError (List UInt8)))) → Decidable (EndsOnce polls)
  | [] => isTrue trivial
  | poll :: polls =>
    have := decidableEndsOnce polls
    inferInstanceAs (Decidable ((poll = .ready (.ok []) → polls = []) ∧ EndsOnce polls))

/-- A reader that answers as it is told, and has ended after that. -/
structure Script where
  results : List (Poll (Except IoError (List UInt8)))
  deriving DecidableEq, Repr

instance : AsyncRead Script where
  pollRead
    | ⟨[]⟩, _ => (.ready (.ok []), ⟨[]⟩)
    | ⟨result :: results⟩, _ => (result, ⟨results⟩)
  cancelRead s _ := (.ok (), s)

/-- A reader, what it has answered, and how it has been cancelled. -/
structure Logged (R : Type) where
  reader : R
  polls : List (Poll (Except IoError (List UInt8)))
  cancels : List Bool
  deriving DecidableEq, Repr

def Logged.new {R : Type} (reader : R) : Logged R := ⟨reader, [], []⟩

instance {R : Type} [AsyncRead R] : AsyncRead (Logged R) where
  pollRead s buf :=
    let (poll, reader) := pollRead s.reader buf
    (poll, ⟨reader, s.polls ++ [poll], s.cancels⟩)
  cancelRead s wait :=
    let (result, reader) := cancelRead s.reader wait
    (result, ⟨reader, s.polls, s.cancels ++ [wait]⟩)

namespace Logged
variable {R : Type} [AsyncRead R]

/-- A logged reader answers as the reader does. -/
theorem polls_reader (s : Logged R) (calls : List Call) :
    Io.polls s calls = Io.polls s.reader calls := by
  induction calls generalizing s with
  | nil => rfl
  | cons c cs ih =>
    cases c with
    | cancelRead wait => exact ih _
    | drop => exact ih _
    | pollRead buf => exact congrArg _ (ih _)

/-- And the log is of these answers. -/
theorem called_polls (s : Logged R) (calls : List Call) :
    (called s calls).polls = s.polls ++ Io.polls s.reader calls := by
  induction calls generalizing s with
  | nil => exact (List.append_nil _).symm
  | cons c cs ih =>
    show (called (call s c).2 cs).polls = _
    rw [ih]
    cases c with
    | cancelRead wait => rfl
    | drop => rfl
    | pollRead buf => exact List.append_assoc ..

end Logged

theorem delivered_append (polls polls' : List (Poll (Except IoError (List UInt8)))) :
    delivered (polls ++ polls') = delivered polls ++ delivered polls' :=
  List.flatMap_append

theorem delivered_cons (poll : Poll (Except IoError (List UInt8)))
    (polls : List (Poll (Except IoError (List UInt8)))) :
    delivered (poll :: polls) = delivered [poll] ++ delivered polls := by
  simp [delivered]

theorem beforeEnd_ended (polls : List (Poll (Except IoError (List UInt8)))) :
    beforeEnd (.ready (.ok []) :: polls) = [] := by
  simp [beforeEnd]

theorem beforeEnd_going {poll : Poll (Except IoError (List UInt8))} (h : poll ≠ .ready (.ok []))
    (polls : List (Poll (Except IoError (List UInt8)))) :
    beforeEnd (poll :: polls) = poll :: beforeEnd polls := by
  simp [beforeEnd, h]

end Wae.Io
