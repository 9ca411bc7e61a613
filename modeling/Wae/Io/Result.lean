/-! What an operation returns, and the cell its completion is left in. -/
namespace Wae.Io

inductive Poll (α : Type) where
  | ready (value : α)
  | pending
  deriving DecidableEq, Repr

/-- The two ways the crate makes an `io::Error`: from a system error code, and
from a kind and a message. The only kind it ever names is `NotFound`. -/
inductive IoError where
  | rawOsError (code : Int32)
  | notFound (message : String)
  deriving DecidableEq, Repr

/-- What a completion reports: the status and the byte count. -/
structure Packet where
  result : UInt32
  transferred : Nat
  deriving DecidableEq, Repr

abbrev NonZeroU32 := {e : UInt32 // e ≠ 0}

/-- The value of an initialised result cell. -/
abbrev IoResult := Except NonZeroU32 Nat

namespace IoResult

def set (result : UInt32) (transferred : Nat) : IoResult :=
  if h : result = 0 then .ok transferred else .error ⟨result, h⟩

def get : IoResult → Except IoError Nat
  | .ok transferred => .ok transferred
  | .error err => .error (.rawOsError err.val.toInt32)

end IoResult

/-- What the owner of a completed operation is to be told. -/
def Packet.outcome (p : Packet) : Except IoError Nat := (IoResult.set p.result p.transferred).get

theorem Packet.outcome_failure {e : UInt32} (h : e ≠ 0) (n : Nat) :
    Packet.outcome ⟨e, n⟩ = .error (.rawOsError e.toInt32) := by
  simp [outcome, IoResult.set, IoResult.get, h]

end Wae.Io
