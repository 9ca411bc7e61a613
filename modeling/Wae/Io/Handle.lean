import Wae.Io.Coherent

/-! An `IoHandle`: its two halves, and its destructor.

While the handle is alive each half has an owner and goes its own way. The drop of
the last owner runs a waiting cancel on the read half and then on the write half,
closes the thread-pool object and the socket, and frees the memory. The kernel and
the callbacks take no notice of any of that. -/
namespace Wae.Io
open Transition

/-- How far the destructor has come. -/
inductive IoHandle.Life where
  | alive
  | cancelRead
  | cancelWrite
  /-- `CloseThreadpoolIo`, the half's `close`, and the end of the memory. -/
  | close
  | released
  /-- A cancel returned an error and `unwrap` met it. -/
  | panicked
  deriving DecidableEq, Repr

structure IoHandle where
  read : Half
  write : Half
  life : IoHandle.Life

namespace IoHandle

inductive Action where
  | read (action : Io.Action)
  | write (action : Io.Action)
  | drop
  /-- The destructor's next call, once the one before has returned. -/
  | next
  | release
  deriving DecidableEq

def init : IoHandle := ⟨.init, .init, .alive⟩

/-- The actions by which an owner enters a half; a dropped handle has none. -/
def enters : Io.Action → Bool
  | .poll _ | .offer _ | .cancel _ => true
  | _ => false

/-- `cancel` on the read half begins. -/
def cancelRead (s : IoHandle) : IoHandle :=
  {s with read := {s.read with owner := .isCancellable true}, life := .cancelRead}

def cancelWrite (s : IoHandle) : IoHandle :=
  {s with write := {s.write with owner := .isCancellable true}, life := .cancelWrite}

/-- A destructor's cancel has returned: `unwrap`, and what comes after it. -/
def unwrapped (s : IoHandle) (cancelled : Half) (rest : IoHandle) : Option IoHandle :=
  if cancelled.owner = .outside then
    match cancelled.cancelled with
    | none => some rest
    | some _ => some {s with life := .panicked}
  else none

def next (s : IoHandle) : Option IoHandle :=
  match s.life with
  | .cancelRead => s.unwrapped s.read s.cancelWrite
  | .cancelWrite => s.unwrapped s.write {s with life := .close}
  | _ => none

def step (posts : Bool) (s : IoHandle) : Action → Option IoHandle
  | .read action =>
    if enters action = true ∧ s.life ≠ .alive then none
    else (Half.step posts s.read action).map fun half => {s with read := half}
  | .write action =>
    if enters action = true ∧ s.life ≠ .alive then none
    else (Half.step posts s.write action).map fun half => {s with write := half}
  | .drop =>
    if s.life = .alive ∧ s.read.owner = .outside ∧ s.write.owner = .outside then some s.cancelRead
    else none
  | .next => s.next
  | .release => if s.life = .close then some {s with life := .released} else none

def machine (posts : Bool) : Machine IoHandle Action := ⟨init, step posts⟩

/-! ### What a step can do -/

inductive Moved (posts : Bool) (s : IoHandle) : Action → IoHandle → Prop
  | read (action : Io.Action) (half : Half) (hs : Half.step posts s.read action = some half)
      (ha : enters action = true → s.life = .alive) :
      Moved posts s (.read action) {s with read := half}
  | write (action : Io.Action) (half : Half) (hs : Half.step posts s.write action = some half)
      (ha : enters action = true → s.life = .alive) :
      Moved posts s (.write action) {s with write := half}
  | drop (hl : s.life = .alive) (hr : s.read.owner = .outside) (hw : s.write.owner = .outside) :
      Moved posts s .drop s.cancelRead
  | nextWrite (hl : s.life = .cancelRead) (hr : s.read.owner = .outside)
      (hc : s.read.cancelled = none) : Moved posts s .next s.cancelWrite
  | nextClose (hl : s.life = .cancelWrite) (hw : s.write.owner = .outside)
      (hc : s.write.cancelled = none) : Moved posts s .next {s with life := .close}
  | readPanics (hl : s.life = .cancelRead) (hr : s.read.owner = .outside)
      (hc : s.read.cancelled ≠ none) : Moved posts s .next {s with life := .panicked}
  | writePanics (hl : s.life = .cancelWrite) (hw : s.write.owner = .outside)
      (hc : s.write.cancelled ≠ none) : Moved posts s .next {s with life := .panicked}
  | release (hl : s.life = .close) : Moved posts s .release {s with life := .released}

theorem step_cases {posts : Bool} {s s' : IoHandle} {a : Action}
    (hs : step posts s a = some s') : Moved posts s a s' := by
  cases a with
  | read action =>
    simp only [step, Option.ite_none_left_eq_some, Option.map_eq_some_iff] at hs
    obtain ⟨ha, half, hhalf, rfl⟩ := hs
    exact .read action half hhalf fun he => by
      by_contra hl
      exact ha ⟨he, hl⟩
  | write action =>
    simp only [step, Option.ite_none_left_eq_some, Option.map_eq_some_iff] at hs
    obtain ⟨ha, half, hhalf, rfl⟩ := hs
    exact .write action half hhalf fun he => by
      by_contra hl
      exact ha ⟨he, hl⟩
  | drop =>
    simp only [step, Option.ite_none_right_eq_some, Option.some.injEq] at hs
    obtain ⟨⟨hl, hr, hw⟩, rfl⟩ := hs
    exact .drop hl hr hw
  | next =>
    simp only [step, next, unwrapped] at hs
    split at hs <;> rename_i hl
    · split at hs <;> rename_i ho
      · split at hs <;> rename_i hc <;> cases hs
        · exact .nextWrite hl ho hc
        · exact .readPanics hl ho (by rw [hc]; nofun)
      · cases hs
    · split at hs <;> rename_i ho
      · split at hs <;> rename_i hc <;> cases hs
        · exact .nextClose hl ho hc
        · exact .writePanics hl ho (by rw [hc]; nofun)
      · cases hs
    · cases hs
  | release =>
    simp only [step, Option.ite_none_right_eq_some, Option.some.injEq] at hs
    obtain ⟨hl, rfl⟩ := hs
    exact .release hl

/-! ### What the destructor's unwraps have met -/

/-- Without its owner entering, a half that was left stays as it was left. -/
theorem outside_step {posts : Bool} {s s' : Half} {a : Io.Action} (ho : s.owner = .outside)
    (ha : enters a = false) (hs : Half.step posts s a = some s') :
    s'.owner = .outside ∧ s'.cancelled = s.cancelled := by
  cases Half.step_cases hs with
  | poll | offer | cancel => exact nomatch ha
  | complete => exact ⟨ho, rfl⟩
  | callback op hcall => cases Half.callback_cases hcall <;> exact ⟨ho, rfl⟩
  | finish h | get h | schedule h _ | busy h _ | issue _ h | registerReady _ h | setIdle _ h
  | setPending h | register h | cancellable _ h _ | uncancellable _ h _ | swap _ h
  | halfCancel _ _ h _ | unbusy _ h _ => exact nomatch ho.symm.trans h

/-- A half whose cancel has returned, and what it returned. -/
def Returned (half : Half) (ret : Option Int32 → Prop) : Prop :=
  half.owner = .outside ∧ ret half.cancelled

theorem Returned.step {posts : Bool} {half half' : Half} {a : Io.Action}
    {ret : Option Int32 → Prop} (h : Returned half ret) (ha : enters a = false)
    (hs : Half.step posts half a = some half') : Returned half' ret := by
  obtain ⟨ho, hret⟩ := outside_step h.1 ha hs
  exact ⟨ho, hret ▸ h.2⟩

structure Unwrapped (s : IoHandle) : Prop where
  read : s.life = .cancelWrite ∨ s.life = .close ∨ s.life = .released → Returned s.read (· = none)
  write : s.life = .close ∨ s.life = .released → Returned s.write (· = none)
  panicked : s.life = .panicked → Returned s.read (· ≠ none) ∨ Returned s.write (· ≠ none)

theorem unwrapped_init : Unwrapped init := ⟨by simp [init], by simp [init], by simp [init]⟩

theorem unwrapped_step {posts : Bool} {s s' : IoHandle} {a : Action} (h : Unwrapped s)
    (hs : step posts s a = some s') : Unwrapped s' := by
  cases step_cases hs with
  | read action half hhalf ha =>
    have hdead (hl : s.life ≠ .alive) : enters action = false := Bool.eq_false_iff.mpr (mt ha hl)
    refine ⟨fun hl => (h.read hl).step (hdead ?_) hhalf, h.write, fun hl => ?_⟩
    · rcases hl with hl | hl | hl <;> rw [show s.life = _ from hl] <;> nofun
    · have hlife : s.life = .panicked := hl
      exact (h.panicked hl).imp_left (·.step (hdead (by rw [hlife]; nofun)) hhalf)
  | write action half hhalf ha =>
    have hdead (hl : s.life ≠ .alive) : enters action = false := Bool.eq_false_iff.mpr (mt ha hl)
    refine ⟨h.read, fun hl => (h.write hl).step (hdead ?_) hhalf, fun hl => ?_⟩
    · rcases hl with hl | hl <;> rw [show s.life = _ from hl] <;> nofun
    · have hlife : s.life = .panicked := hl
      exact (h.panicked hl).imp_right (·.step (hdead (by rw [hlife]; nofun)) hhalf)
  | drop => exact ⟨by simp [cancelRead], by simp [cancelRead], by simp [cancelRead]⟩
  | nextWrite _ hr hc => exact ⟨fun _ => ⟨hr, hc⟩, by simp [cancelWrite], by simp [cancelWrite]⟩
  | nextClose hl hw hc => exact ⟨fun _ => h.read (.inl hl), fun _ => ⟨hw, hc⟩, by simp⟩
  | readPanics _ hr hc => exact ⟨by simp, by simp, fun _ => .inl ⟨hr, hc⟩⟩
  | writePanics _ hw hc => exact ⟨by simp, by simp, fun _ => .inr ⟨hw, hc⟩⟩
  | release hl =>
    exact ⟨fun _ => h.read (.inr (.inl hl)), fun _ => h.write (.inl hl), by simp⟩

/-- **The destructor closes the socket** unless one of its cancels has returned an error,
and then it panics. -/
theorem released_iff {posts : Bool} {as : List Action} {s : IoHandle}
    (hrun : (machine posts).run init as = some s) (hover : s.life = .released ∨ s.life = .panicked) :
    s.life = .released ↔ s.read.cancelled = none ∧ s.write.cancelled = none := by
  have h := Machine.run_keeps (M := machine posts) (I := Unwrapped)
    (fun _ _ _ h hs => unwrapped_step h hs) unwrapped_init hrun
  rcases hover with hl | hl
  · exact iff_of_true hl ⟨(h.read (.inr (.inr hl))).2, (h.write (.inr hl)).2⟩
  · refine iff_of_false (by rw [hl]; nofun) fun ⟨hr, hw⟩ => ?_
    exact (h.panicked hl).elim (fun hp => hp.2 hr) fun hp => hp.2 hw

end IoHandle

end Wae.Io
