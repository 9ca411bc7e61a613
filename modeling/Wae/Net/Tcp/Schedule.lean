import Wae.Io.Result

/-! The overlapped calls a TCP stream makes: `WSARecv` and `WSASend`. -/
namespace Wae.Net.Tcp
open Io

/-- What the system answers to an overlapped call. -/
inductive Answer where
  /-- It returned 0: the operation is complete, and `WSAGetOverlappedResult`
  reports this. -/
  | accepted (packet : Packet)
  /-- It returned `SOCKET_ERROR`, with this `WSAGetLastError`. -/
  | failed (err : Int32)
  deriving DecidableEq, Repr

/-- Both `schedule` functions read an answer the same way; they differ in the
call that produced it. -/
def scheduled : Answer → Poll (Except IoError Nat)
  | .accepted packet =>
    if packet.result = 0 then .ready (.ok packet.transferred)
    else .ready (.error (.rawOsError packet.result.toInt32))
  -- WSA_IO_PENDING
  | .failed err => if err = 997 then .pending else .ready (.error (.rawOsError err))

namespace Read

def schedule (recv : Answer) : Poll (Except IoError Nat) := scheduled recv

end Read

namespace Write

def schedule (send : Answer) : Poll (Except IoError Nat) := scheduled send

end Write

/-- An accepted call returns the very outcome its packet carries. -/
theorem scheduled_accepted (packet : Packet) :
    scheduled (.accepted packet) = .ready packet.outcome := by
  obtain ⟨result, transferred⟩ := packet
  by_cases h : result = 0
  · subst h
    rfl
  · simp [scheduled, h, Packet.outcome_failure h]

end Wae.Net.Tcp
