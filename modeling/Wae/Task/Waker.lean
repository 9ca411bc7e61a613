/-! The waker `block_on` waits with: one word on its stack.

A `Waker` made from it is the word's address and nothing else, and so is every clone,
so what a waker does it does to the word. -/
namespace Wae.Task.InlineWaker

def new : UInt32 := 0

/-- The exchange of `wake`. Only where it succeeds does `WakeByAddressAll` follow. -/
def wake (state : UInt32) : Option UInt32 := if state = 0 then some 1 else none

/-- The test of `wait`'s loop. -/
def woken (state : UInt32) : Bool := state == 1

/-- `WaitOnAddress` sleeps where the word is what it was given, 0, and else returns. -/
def sleeps (state : UInt32) : Bool := state == 0

end Wae.Task.InlineWaker
