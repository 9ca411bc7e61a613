/-! The state word of an I/O half: one atomic word, seven values.

Everything the owner of a half and its completion callbacks tell each other goes
through this word, so each operation on it is written as what it does to the
word: a store gives the new word, a compare-exchange gives it when it succeeds. -/
namespace Wae.Io

inductive IoState where
  | idle
  | scheduling
  | pending
  | callback
  | ready
  | cancelledNowait
  | cancelledWait
  deriving DecidableEq, Repr

namespace IoState

def compareExchange (current new word : IoState) : Option IoState :=
  if word = current then some new else none

def new : IoState := idle

def setIdle (_ : IoState) : IoState := idle

def schedule : IoState → Option IoState := compareExchange idle scheduling

def setPending (_ : IoState) : IoState := pending

/-- The swap of `cancel`: whether the half's own `cancel` is still to be called,
and the new word. The old word decides the first and not the second. -/
def cancel (wait : Bool) (old : IoState) : Bool × IoState :=
  (old != cancelledNowait, if wait then cancelledWait else cancelledNowait)

/-- `callback_pending` loads the word until it is no longer `SCHEDULING`. -/
def spins (word : IoState) : Bool := word == scheduling

/-- The exchange `callback_pending` makes once it has stopped spinning. -/
def callbackPending : IoState → Option IoState := compareExchange pending callback

def callbackCancelledNowait : IoState → Option IoState := compareExchange cancelledNowait callback

def callbackCancelledWait : IoState → Option IoState := compareExchange cancelledWait callback

def setReady (_ : IoState) : IoState := ready

/-- `READY` exchanged for itself: a test. -/
def finish (word : IoState) : Bool := (compareExchange ready ready word).isSome

def isCancellable (word : IoState) : Bool := word == pending

def isBusy : IoState → Bool
  | idle | ready => false
  | _ => true

theorem compareExchange_eq_some {current new word w : IoState} :
    compareExchange current new word = some w ↔ word = current ∧ new = w := by
  unfold compareExchange
  split <;> simp_all

theorem compareExchange_eq_none {current new word : IoState} :
    compareExchange current new word = none ↔ word ≠ current := by
  unfold compareExchange
  split <;> simp_all

@[simp] theorem finish_iff (word : IoState) : word.finish = true ↔ word = ready := by
  cases word <;> decide

@[simp] theorem isCancellable_iff (word : IoState) :
    word.isCancellable = true ↔ word = pending := by
  cases word <;> decide

@[simp] theorem spins_iff (word : IoState) : word.spins = true ↔ word = scheduling := by
  cases word <;> decide

theorem not_busy_iff (word : IoState) : word.isBusy = false ↔ word = idle ∨ word = ready := by
  cases word <;> decide

end IoState

end Wae.Io
