import Wae.Io.Release
import Wae.Transition.Projection

/-! The two halves of an `IoHandle`, each by itself.

Every step of a handle is a step of one half, or of none: the destructor enters a half
as an owner's waiting cancel does, and its unwraps touch neither. So a handle shows two
runs of a half, and they have nothing in common. -/
namespace Wae.Io
open Transition

namespace IoHandle

/-- The read half's step. -/
def readPart (_ : IoHandle) : Action → Option Io.Action
  | .read action => some action
  | .drop => some (.cancel true)
  | .write _ | .next | .release => none

/-- The write half's. The destructor goes on to it once the read half's cancel has
returned `Ok`. -/
def writePart (s : IoHandle) : Action → Option Io.Action
  | .write action => some action
  | .next =>
    match s.life, s.read.cancelled with
    | .cancelRead, none => some (.cancel true)
    | _, _ => none
  | .read _ | .drop | .release => none

variable {posts : Bool} {s s' : IoHandle}

/-- An owner's waiting cancel begins as the destructor's does. -/
theorem cancel_outside (posts : Bool) {half : Half} (ho : half.owner = .outside) :
    Half.step posts half (.cancel true) = some {half with owner := .isCancellable true} :=
  if_pos ho

def readHalf (posts : Bool) : Projection (machine posts) (Half.machine posts) Left where
  view := read
  part := readPart
  init := rfl
  kept_init := left_init
  kept := left_step
  moved := by
    intro s a s' b h hs hb
    cases step_cases hs with
    | read action half hhalf ha =>
      cases hb
      exact hhalf
    | drop hl hr hw =>
      cases hb
      exact cancel_outside posts hr
    | write | nextWrite | nextClose | readPanics | writePanics | release => cases hb
  still := by
    intro s a s' h hs hb
    cases step_cases hs with
    | read | drop => cases hb
    | write | nextWrite | nextClose | readPanics | writePanics | release => rfl

def writeHalf (posts : Bool) : Projection (machine posts) (Half.machine posts) Left where
  view := write
  part := writePart
  init := rfl
  kept_init := left_init
  kept := left_step
  moved := by
    intro s a s' b h hs hb
    cases step_cases hs with
    | write action half hhalf ha =>
      cases hb
      exact hhalf
    | nextWrite hl hr hc =>
      rw [writePart, hl, hc] at hb
      cases hb
      exact cancel_outside posts (h.writeLeft (by rw [hl]; rfl))
    | nextClose hl =>
      rw [writePart, hl] at hb
      cases hb
    | readPanics hl hr hc =>
      simp [writePart, hl, hc] at hb
    | writePanics hl =>
      rw [writePart, hl] at hb
      cases hb
    | read | drop | release => cases hb
  still := by
    intro s a s' h hs hb
    cases step_cases hs with
    | write => cases hb
    | nextWrite hl hr hc =>
      rw [writePart, hl, hc] at hb
      cases hb
    | read | drop | nextClose | readPanics | writePanics | release => rfl

end IoHandle

end Wae.Io
