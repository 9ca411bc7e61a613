import Wae.Io.Apart

/-! A stream in two, and the handle its halves share.

`TcpStream::split` clones the `Arc` of the handle: a `ReadHalf` and a `WriteHalf` poll,
cancel and drop the futures of one half each, and the last of the two to be dropped runs
the destructor of the handle. All that a completion brings back is the address of the
`OVERLAPPED` its operation was given, and `callback` goes by that address alone. -/
namespace Wae.Net.Tcp
open Io Transition

inductive Side where
  | read
  | write
  deriving DecidableEq, Repr

/-- The addresses of a handle's two `OVERLAPPED`s, fields of one value. -/
structure Layout where
  read : Nat
  write : Nat
  apart : read ≠ write

namespace Layout

def overlapped (layout : Layout) : Side → Nat
  | .read => layout.read
  | .write => layout.write

/-- The half that `callback` takes up; none is its `unreachable!()`. -/
def half (layout : Layout) (overlapped : Nat) : Option Side :=
  if overlapped = layout.read then some .read
  else if overlapped = layout.write then some .write
  else none

@[simp] theorem half_overlapped (layout : Layout) (side : Side) :
    layout.half (layout.overlapped side) = some side := by
  cases side with
  | read => exact if_pos rfl
  | write => exact (if_neg layout.apart.symm).trans (if_pos rfl)

end Layout

/-- An operation that was handed to the system, with the address it was given. -/
structure Passed where
  side : Side
  op : Nat
  overlapped : Nat
  deriving DecidableEq, Repr

/-- A handle, and who holds it. -/
structure Shared where
  handle : IoHandle
  /-- The count of the `Arc`. -/
  strong : Nat
  split : Bool
  /-- There is a stream, or a `ReadHalf` or `WriteHalf`, to poll this half. -/
  owned : Side → Bool
  /-- What was handed to the system so far. -/
  passed : List Passed
  /-- A callback has come to its `unreachable!()`. -/
  unreachable : Bool

namespace Shared

inductive Action where
  /-- A step of the owner of one half, with the system's answer if it asks for one. -/
  | half (side : Side) (action : Io.Action)
  | split
  | dropStream
  | dropHalf (side : Side)
  /-- The destructor's next call. -/
  | next
  | release
  /-- The `n`th operation handed over completes. -/
  | complete (n : Nat) (packet : Packet)
  /-- The next step of the callback on its packet. -/
  | callback (n : Nat)
  deriving DecidableEq

def init : Shared := ⟨.init, 1, false, fun _ => true, [], false⟩

/-- The step of the handle that a step on one half is. -/
def on : Side → Io.Action → IoHandle.Action
  | .read, action => .read action
  | .write, action => .write action

def half (s : IoHandle) : Side → Half
  | .read => s.read
  | .write => s.write

def setHalf (s : IoHandle) (half : Half) : Side → IoHandle
  | .read => {s with read := half}
  | .write => {s with write := half}

/-- The owner's own steps; the kernel's and the callbacks' go by what was handed over. -/
def owners : Io.Action → Bool
  | .complete .. | .callback _ => false
  | _ => true

section Machine
variable (layout : Layout) (posts : Bool)

/-- What the owner hands to the system: its half's `OVERLAPPED`, for the operation last
begun. -/
def passing (s : Shared) (side : Side) : Io.Action → List Passed
  | .issue _ => s.passed ++ [⟨side, (half s.handle side).latest, layout.overlapped side⟩]
  | _ => s.passed

/-- An owner goes; the last one runs the destructor. -/
def leave (s : Shared) : Option Shared :=
  if s.strong = 1 then
    (IoHandle.step posts s.handle .drop).map fun handle => {s with handle, strong := 0}
  else some {s with strong := s.strong - 1}

/-- A callback that has taken up another half than its operation's: the accesses it
makes are to that half, and its own place moves on. -/
def misdirected (s : IoHandle) (side : Side) (e : Passed) : Option IoHandle :=
  let target := half s side
  let issuer := half s e.side
  (Half.callback {target with completion := issuer.completion} e.op).map fun taken =>
    setHalf (setHalf s {taken with completion := target.completion} side)
      {issuer with completion := taken.completion} e.side

/-- One step of `callback` on the packet of what was handed over as `e`. -/
def called (s : Shared) (e : Passed) : Option Shared :=
  match layout.half e.overlapped with
  | some side =>
    if side = e.side then
      (IoHandle.step posts s.handle (on side (.callback e.op))).map fun handle => {s with handle}
    else (misdirected s.handle side e).map fun handle => {s with handle}
  | none => some {s with unreachable := true}

def step (s : Shared) : Action → Option Shared
  | .half side action =>
    if owners action = false ∨ IoHandle.enters action = true ∧ s.owned side = false then none
    else (IoHandle.step posts s.handle (on side action)).map fun handle =>
      {s with handle, passed := s.passing layout side action}
  | .split =>
    if s.split = false ∧ s.handle.read.owner = .outside ∧ s.handle.write.owner = .outside ∧
      s.handle.life = .alive then
      some {s with split := true, strong := s.strong + 1}
    else none
  | .dropStream =>
    if s.split = false then leave posts {s with owned := fun _ => false} else none
  | .dropHalf side =>
    if s.split = true ∧ s.owned side = true ∧ (half s.handle side).owner = .outside then
      leave posts {s with owned := Function.update s.owned side false}
    else none
  | .next => (IoHandle.step posts s.handle .next).map fun handle => {s with handle}
  | .release => (IoHandle.step posts s.handle .release).map fun handle => {s with handle}
  | .complete n packet => s.passed[n]?.bind fun e =>
    (IoHandle.step posts s.handle (on e.side (.complete e.op packet))).map fun handle =>
      {s with handle}
  | .callback n => s.passed[n]?.bind (called layout posts s)

def machine : Machine Shared Action := ⟨init, step layout posts⟩

end Machine

variable {layout : Layout} {posts : Bool} {s s' : Shared}

/-! ### What a step can do -/

inductive Moved (layout : Layout) (posts : Bool) (s : Shared) : Action → Shared → Prop
  | half (side : Side) (action : Io.Action) (handle : IoHandle) (ha : owners action = true)
      (hs : IoHandle.step posts s.handle (on side action) = some handle) :
      Moved layout posts s (.half side action)
        {s with handle, passed := s.passing layout side action}
  | split : Moved layout posts s .split {s with split := true, strong := s.strong + 1}
  | leaves (a : Action) (owned : Side → Bool) (ha : a = .dropStream ∨ ∃ side, a = .dropHalf side)
      (hl : s.strong ≠ 1) : Moved layout posts s a {s with owned, strong := s.strong - 1}
  | last (a : Action) (owned : Side → Bool) (handle : IoHandle)
      (ha : a = .dropStream ∨ ∃ side, a = .dropHalf side) (hl : s.strong = 1)
      (hs : IoHandle.step posts s.handle .drop = some handle) :
      Moved layout posts s a {s with owned, handle, strong := 0}
  | next (handle : IoHandle) (hs : IoHandle.step posts s.handle .next = some handle) :
      Moved layout posts s .next {s with handle}
  | release (handle : IoHandle) (hs : IoHandle.step posts s.handle .release = some handle) :
      Moved layout posts s .release {s with handle}
  | complete (n : Nat) (packet : Packet) (e : Passed) (handle : IoHandle)
      (he : s.passed[n]? = some e)
      (hs : IoHandle.step posts s.handle (on e.side (.complete e.op packet)) = some handle) :
      Moved layout posts s (.complete n packet) {s with handle}
  | callback (n : Nat) (e : Passed) (t : Shared) (he : s.passed[n]? = some e)
      (hs : called layout posts s e = some t) : Moved layout posts s (.callback n) t

theorem leave_cases {a : Action} {owned : Side → Bool}
    (ha : a = .dropStream ∨ ∃ side, a = .dropHalf side)
    (hs : leave posts {s with owned} = some s') : Moved layout posts s a s' := by
  unfold leave at hs
  split at hs <;> rename_i hl
  · obtain ⟨handle, hhandle, rfl⟩ := Option.map_eq_some_iff.mp hs
    exact .last a owned handle ha hl hhandle
  · cases hs
    exact .leaves a owned ha hl

theorem step_cases {a : Action} (hs : step layout posts s a = some s') :
    Moved layout posts s a s' := by
  cases a with
  | half side action =>
    simp only [step, Option.ite_none_left_eq_some, Option.map_eq_some_iff] at hs
    obtain ⟨hg, handle, hhandle, rfl⟩ := hs
    exact .half side action handle (by simpa using fun h => hg (.inl h)) hhandle
  | split =>
    simp only [step, Option.ite_none_right_eq_some, Option.some.injEq] at hs
    obtain ⟨_, rfl⟩ := hs
    exact .split
  | dropStream =>
    simp only [step, Option.ite_none_right_eq_some] at hs
    exact leave_cases (.inl rfl) hs.2
  | dropHalf side =>
    simp only [step, Option.ite_none_right_eq_some] at hs
    exact leave_cases (.inr ⟨side, rfl⟩) hs.2
  | next =>
    obtain ⟨handle, hhandle, rfl⟩ := Option.map_eq_some_iff.mp hs
    exact .next handle hhandle
  | release =>
    obtain ⟨handle, hhandle, rfl⟩ := Option.map_eq_some_iff.mp hs
    exact .release handle hhandle
  | complete n packet =>
    obtain ⟨e, he, hs⟩ := Option.bind_eq_some_iff.mp hs
    obtain ⟨handle, hhandle, rfl⟩ := Option.map_eq_some_iff.mp hs
    exact .complete n packet e handle he hhandle
  | callback n =>
    obtain ⟨e, he, hs⟩ := Option.bind_eq_some_iff.mp hs
    exact .callback n e s' he hs

/-! ### By its address, a completion comes to the half that asked for it -/

/-- What was handed over was given its own half's `OVERLAPPED`, and no callback has failed
to find it. -/
structure Directed (layout : Layout) (s : Shared) : Prop where
  passed : ∀ e ∈ s.passed, e.overlapped = layout.overlapped e.side
  reachable : s.unreachable = false

theorem directed_init : Directed layout init := ⟨nofun, rfl⟩

/-- A callback on what was handed over acts on its half. -/
theorem Directed.called {e : Passed} (h : Directed layout s) (he : e ∈ s.passed)
    (hs : Shared.called layout posts s e = some s') :
    ∃ handle, IoHandle.step posts s.handle (on e.side (.callback e.op)) = some handle ∧
      s' = {s with handle} := by
  unfold Shared.called at hs
  rw [h.passed e he, layout.half_overlapped] at hs
  simp only [if_true] at hs
  obtain ⟨handle, hhandle, rfl⟩ := Option.map_eq_some_iff.mp hs
  exact ⟨handle, hhandle, rfl⟩

theorem directed_step {a : Action} (h : Directed layout s) (hs : step layout posts s a = some s') :
    Directed layout s' := by
  cases step_cases hs with
  | half side action =>
    refine ⟨fun e he => ?_, h.reachable⟩
    cases action with
    | issue answer =>
      rcases List.mem_append.mp he with he | he
      · exact h.passed e he
      · obtain rfl := List.mem_singleton.mp he
        rfl
    | _ => exact h.passed e he
  | callback n e t he hcalled =>
    obtain ⟨handle, _, rfl⟩ := h.called (List.mem_of_getElem? he) hcalled
    exact ⟨h.passed, h.reachable⟩
  | _ => exact ⟨h.passed, h.reachable⟩

/-! ### Each half by itself -/

/-- The step of the handle that a step is, if it is one. -/
def handlePart (s : Shared) : Action → Option IoHandle.Action
  | .half side action => some (on side action)
  | .split => none
  | .dropStream | .dropHalf _ => if s.strong = 1 then some .drop else none
  | .next => some .next
  | .release => some .release
  | .complete n packet => s.passed[n]?.map fun e => on e.side (.complete e.op packet)
  | .callback n => s.passed[n]?.map fun e => on e.side (.callback e.op)

theorem handlePart_drop {a : Action} (s : Shared) (ha : a = .dropStream ∨ ∃ side, a = .dropHalf side) :
    s.handlePart a = if s.strong = 1 then some .drop else none := by
  rcases ha with rfl | ⟨side, rfl⟩ <;> rfl

/-- Whoever shares it, a handle runs as it does by itself. -/
def ioHandle (layout : Layout) (posts : Bool) :
    Projection (machine layout posts) (IoHandle.machine posts) (Directed layout) where
  view := handle
  part := handlePart
  init := rfl
  kept_init := directed_init
  kept := directed_step
  moved := by
    intro s a s' b h hs hb
    cases step_cases hs with
    | half side action handle ha hhandle =>
      cases hb
      exact hhandle
    | split => cases hb
    | leaves _ _ ha hl =>
      rw [handlePart_drop s ha, if_neg hl] at hb
      cases hb
    | last _ _ handle ha hl hhandle =>
      rw [handlePart_drop s ha, if_pos hl] at hb
      cases hb
      exact hhandle
    | next handle hhandle | release handle hhandle =>
      cases hb
      exact hhandle
    | complete n packet e handle he hhandle =>
      rw [handlePart, he] at hb
      cases hb
      exact hhandle
    | callback n e t he hcalled =>
      obtain ⟨handle, hhandle, rfl⟩ := h.called (List.mem_of_getElem? he) hcalled
      rw [handlePart, he] at hb
      cases hb
      exact hhandle
  still := by
    intro s a s' h hs hb
    cases step_cases hs with
    | split | leaves => rfl
    | last _ _ handle ha hl =>
      rw [handlePart_drop s ha, if_pos hl] at hb
      cases hb
    | half | next | release => cases hb
    | complete n packet e handle he | callback n e t he =>
      rw [handlePart, he] at hb
      cases hb

/-- What is known of a handle that is shared. -/
abbrev Known (layout : Layout) (s : Shared) : Prop := Directed layout s ∧ IoHandle.Left s.handle

/-- A half of a shared handle, by itself. -/
def oneHalf (layout : Layout) (posts : Bool) :
    Side → Projection (machine layout posts) (Half.machine posts) (Known layout)
  | .read => (ioHandle layout posts).comp (IoHandle.readHalf posts)
  | .write => (ioHandle layout posts).comp (IoHandle.writeHalf posts)

/-- The step of a half that a step is, if it concerns it. -/
def concerns (layout : Layout) (posts : Bool) (side : Side) (s : Shared) (a : Action) :
    Option Io.Action :=
  (oneHalf layout posts side).part s a

theorem oneHalf_view (layout : Layout) (posts : Bool) (side : Side) (s : Shared) :
    (oneHalf layout posts side).view s = half s.handle side := by
  cases side <;> rfl

/-- The actions of a run that concern one half. -/
def parts (layout : Layout) (posts : Bool) (side : Side) (as : List Action) : List Io.Action :=
  (oneHalf layout posts side).parts init as

/-- A step is a step of one half, as that half takes it by itself, or of none. -/
structure Apart (layout : Layout) (posts : Bool) (s : Shared) (a : Action) (s' : Shared) :
    Prop where
  one : ∀ side other, side ≠ other → concerns layout posts side s a ≠ none →
    concerns layout posts other s a = none
  moved : ∀ side b, concerns layout posts side s a = some b →
    Half.step posts (half s.handle side) b = some (half s'.handle side)
  still : ∀ side, concerns layout posts side s a = none → half s'.handle side = half s.handle side
  /-- A callback is about the half whose `OVERLAPPED` its packet carries. -/
  directed : ∀ n, a = .callback n → ∃ e side, s.passed[n]? = some e ∧
    layout.half e.overlapped = some side ∧
    concerns layout posts side s a = some (.callback e.op)
  reachable : s'.unreachable = false

theorem concerns_read (s : Shared) (a : Action) :
    concerns layout posts .read s a = (s.handlePart a).bind s.handle.readPart := rfl

theorem concerns_write (s : Shared) (a : Action) :
    concerns layout posts .write s a = (s.handlePart a).bind s.handle.writePart := rfl

/-- No step of a handle is a step of both halves. -/
theorem parts_apart (s : IoHandle) (b : IoHandle.Action) :
    s.readPart b = none ∨ s.writePart b = none := by
  cases b with
  | read | drop | release => exact .inr rfl
  | write | next => exact .inl rfl

theorem concerns_one (s : Shared) (a : Action) :
    concerns layout posts .read s a = none ∨ concerns layout posts .write s a = none := by
  rw [concerns_read, concerns_write]
  cases s.handlePart a with
  | none => exact .inl rfl
  | some b => exact parts_apart s.handle b

/-- What a callback acts on is its own operation's half. -/
theorem Directed.concerns {n : Nat} {e : Passed} (h : Directed layout s)
    (he : s.passed[n]? = some e) : layout.half e.overlapped = some e.side ∧
      Shared.concerns layout posts e.side s (.callback n) = some (.callback e.op) := by
  constructor
  · rw [h.passed e (List.mem_of_getElem? he)]
    exact layout.half_overlapped e.side
  · have hpart : s.handlePart (.callback n) = some (on e.side (.callback e.op)) := by
      rw [handlePart, he]
      rfl
    cases hside : e.side with
    | read =>
      rw [concerns_read, hpart, hside]
      rfl
    | write =>
      rw [concerns_write, hpart, hside]
      rfl

/-- **The step lemma**. -/
theorem apart_step {a : Action} (h : Known layout s) (hs : step layout posts s a = some s') :
    Apart layout posts s a s' where
  one := by
    intro side other hne hconcerns
    cases side <;> cases other
    · exact absurd rfl hne
    · exact (concerns_one s a).resolve_left hconcerns
    · exact (concerns_one s a).resolve_right hconcerns
    · exact absurd rfl hne
  moved := by
    intro side b hb
    have hmoved := (oneHalf layout posts side).moved h hs hb
    rw [oneHalf_view, oneHalf_view] at hmoved
    exact hmoved
  still := by
    intro side hb
    have hstill := (oneHalf layout posts side).still h hs hb
    rw [oneHalf_view, oneHalf_view] at hstill
    exact hstill
  directed := by
    rintro n rfl
    cases step_cases hs with
    | callback n e t he => exact ⟨e, e.side, he, h.1.concerns he⟩
    | leaves _ _ ha | last _ _ _ ha => rcases ha with ha | ⟨_, ha⟩ <;> cases ha
  reachable := (directed_step h.1 hs).reachable

/-- **The halves of a stream do not interfere**: however their owners' steps, the kernel's
and the callbacks' are interleaved, each step is one of a single half or of none, the steps
of each half are by themselves a run of a half, to the same end, and no callback comes to
its `unreachable!()`. -/
theorem halves_apart (layout : Layout) (posts : Bool) (as : List Action) :
    (machine layout posts).Steps (Apart layout posts) init as ∧
    ∀ t, (machine layout posts).run init as = some t → ∀ side,
      (Half.machine posts).run Half.init (parts layout posts side as) =
        some (half t.handle side) := by
  have hinit : Known layout init := (oneHalf layout posts .read).kept_init
  refine ⟨?_, fun t hrun side => ?_⟩
  · refine Machine.Steps.of_kept (I := Known layout) (fun s a s' h hs => ?_) hinit as
    exact ⟨(oneHalf layout posts .read).kept h hs, apart_step h hs⟩
  · have hpart := (oneHalf layout posts side).run hinit hrun
    rw [oneHalf_view, oneHalf_view] at hpart
    cases side <;> exact hpart

/-- A stream in two: both halves have an operation pending when the write half's completes,
and the read half is dropped before it is called back. -/
def bothPending : List Action :=
  [.split, .half .read (.poll 0), .half .read .owner, .half .read .owner,
   .half .read (.issue (.failed 997)), .half .read .owner,
   .half .write (.poll 1), .half .write .owner, .half .write .owner,
   .half .write (.issue (.failed 997)), .half .write .owner,
   .complete 1 ⟨0, 5⟩, .dropHalf .read,
   .callback 1, .callback 1, .callback 1, .callback 1, .callback 1]

/-- The read half has its own operation in flight still; the write half has run by itself. -/
theorem halves_apart_pending : ∃ t,
    (machine ⟨0, 32, by decide⟩ true).run init bothPending = some t ∧
    (Half.machine true).run Half.init
      [.poll 0, .owner, .owner, .issue (.failed 997), .owner] = some t.handle.read ∧
    (Half.machine true).run Half.init
      [.poll 1, .owner, .owner, .issue (.failed 997), .owner, .complete 1 ⟨0, 5⟩,
       .callback 1, .callback 1, .callback 1, .callback 1, .callback 1] = some t.handle.write := by
  obtain ⟨t, ht⟩ := Option.isSome_iff_exists.mp
    (show ((machine ⟨0, 32, by decide⟩ true).run init bothPending).isSome = true by decide)
  have happart := (halves_apart ⟨0, 32, by decide⟩ true bothPending).2 t ht
  exact ⟨t, ht, happart .read, happart .write⟩

end Shared

end Wae.Net.Tcp
