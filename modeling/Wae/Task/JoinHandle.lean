import Wae.Transition.Machine

/-! `JoinHandle`, and who takes its `Task`.

The task lies in a `ManuallyDrop`, and `ManuallyDrop::take` copies it out, however often.
The destructor of the handle takes it, and so does `cancel`, which forgets the handle for
that; but it does so behind an `await`. A future that is dropped drops the locals that
are alive where it stands. -/
namespace Wae.Task
open Transition

namespace JoinHandle

/-- A call of `ManuallyDrop::take`, by who makes it. -/
inductive Taker where
  /-- `JoinHandle::drop`, which detaches the task. -/
  | drop
  | cancel
  deriving DecidableEq, Repr

/-- Where the future of `cancel` stands. -/
inductive Cancel where
  /-- It has not been polled. -/
  | unresumed
  /-- At the `await`. -/
  | suspended
  | returned
  deriving DecidableEq, Repr

inductive Local where
  /-- `self`, and then `this`. -/
  | joinHandle
  /-- The future of `Task::cancel`, with the task that has been taken. -/
  | taskCancel
  deriving DecidableEq, Repr

/-- The locals that are alive. -/
def Cancel.locals : Cancel → List Local
  | .unresumed => [.joinHandle]
  | .suspended => [.taskCancel, .joinHandle]
  -- `this` has been forgotten
  | .returned => []

/-- The takes of a local's drop. -/
def Local.drop : Local → List Taker
  | .joinHandle => [.drop]
  | .taskCancel => []

/-- Where the handle is. -/
inductive Place where
  /-- With its owner. -/
  | handle
  /-- In the future of `cancel`. -/
  | cancel (point : Cancel)
  /-- It has been dropped, or the future has. -/
  | gone
  deriving DecidableEq, Repr

inductive Action where
  | poll (ready : Bool)
  | drop
  /-- `cancel` is called. -/
  | cancel
  | pollCancel (ready : Bool)
  | dropCancel
  deriving DecidableEq, Repr

end JoinHandle

structure JoinHandle where
  place : JoinHandle.Place
  /-- The takes so far, the earliest first. -/
  taken : List JoinHandle.Taker
  deriving DecidableEq, Repr

namespace JoinHandle

def init : JoinHandle := ⟨.handle, []⟩

/-- `cancel` from the `await` on, when the future of `Task::cancel` is ready or not. -/
def awaited (ready : Bool) : Place := .cancel (if ready then .returned else .suspended)

def step (s : JoinHandle) : Action → Option JoinHandle
  -- it polls the task where it lies
  | .poll _ => if s.place = .handle then some s else none
  | .drop => if s.place = .handle then some ⟨.gone, s.taken ++ Local.joinHandle.drop⟩ else none
  | .cancel => if s.place = .handle then some {s with place := .cancel .unresumed} else none
  | .pollCancel ready =>
    match s.place with
    | .cancel .unresumed => some ⟨awaited ready, s.taken ++ [.cancel]⟩
    | .cancel .suspended => some {s with place := awaited ready}
    | .cancel .returned | .handle | .gone => none
  | .dropCancel =>
    match s.place with
    | .cancel point => some ⟨.gone, s.taken ++ point.locals.flatMap Local.drop⟩
    | .handle | .gone => none

def machine : Machine JoinHandle Action := ⟨init, step⟩

/-- Neither the handle nor a future that could go on is left. -/
def isOver (s : JoinHandle) : Bool :=
  match s.place with
  | .gone | .cancel .returned => true
  | .handle | .cancel .unresumed | .cancel .suspended => false

/-- The takes still to be made if each handle is to be taken from once. -/
def due : Place → Nat
  | .handle | .cancel .unresumed => 1
  | .cancel .suspended | .cancel .returned | .gone => 0

/-- The takes that have been made, and those that are due. -/
def takes (s : JoinHandle) : Nat := s.taken.length + due s.place

/-- The condition on a step: the future of `cancel` is not dropped at its `await`. -/
def KeepsSuspended (s : JoinHandle) (a : Action) (_ : JoinHandle) : Prop :=
  a = .dropCancel → s.place ≠ .cancel .suspended

/-- No step takes more than is due, but for the drop of a suspended `cancel`. -/
theorem takes_step {s s' : JoinHandle} {a : Action} (hs : step s a = some s') :
    s.takes ≤ s'.takes ∧ (s'.takes = s.takes ↔ KeepsSuspended s a s') := by
  obtain ⟨place, taken⟩ := s
  cases a with
  | poll | drop | cancel =>
    simp only [step, Option.ite_none_right_eq_some, Option.some.injEq] at hs
    obtain ⟨rfl, rfl⟩ := hs
    simp [takes, due, KeepsSuspended, Local.drop]
  | pollCancel ready =>
    cases place with
    | handle | gone => cases hs
    | cancel point =>
      cases point with
      | unresumed | suspended =>
        cases hs
        cases ready <;> simp [takes, due, awaited, KeepsSuspended]
      | returned => cases hs
  | dropCancel =>
    cases place with
    | handle | gone => cases hs
    | cancel point =>
      cases hs
      cases point <;> simp [takes, due, Cancel.locals, Local.drop, KeepsSuspended]

/-- **A handle gives up its task exactly once** if no future of `cancel` was dropped at its
`await`, and never without: from there the destructor takes the task that `cancel` has
taken. -/
theorem taken_once_iff (as : List Action) {t : JoinHandle}
    (hrun : machine.run machine.init as = some t) (hover : t.isOver = true) :
    (t.taken.length = 1 ↔ machine.Steps KeepsSuspended machine.init as) ∧
      1 ≤ t.taken.length := by
  have hmeasure := Machine.run_measure (M := machine) (I := fun _ => True) (f := takes)
    (fun s a s' _ hs => ⟨trivial, takes_step hs⟩) trivial hrun
  have hend : t.takes = t.taken.length := by
    obtain ⟨place, taken⟩ := t
    cases place with
    | handle => cases hover
    | gone => rfl
    | cancel point =>
      cases point with
      | unresumed | suspended => cases hover
      | returned => rfl
  rw [hend] at hmeasure
  exact ⟨hmeasure.2, hmeasure.1⟩

instance (s : JoinHandle) (a : Action) (s' : JoinHandle) : Decidable (KeepsSuspended s a s') :=
  inferInstanceAs (Decidable (a = .dropCancel → s.place ≠ .cancel .suspended))

/-- Polled, and then cancelled in three polls. -/
theorem taken_once_cancelled : ∃ t, machine.run machine.init
    [.poll false, .cancel, .pollCancel false, .pollCancel false, .pollCancel true, .dropCancel] =
      some t ∧ t.taken.length = 1 :=
  ⟨_, rfl, (taken_once_iff [.poll false, .cancel, .pollCancel false, .pollCancel false,
    .pollCancel true, .dropCancel] rfl rfl).1.mpr (by decide)⟩

/-- Cancelled under a timeout that is over first. -/
theorem taken_twice : ¬ ∀ (as : List Action) (t : JoinHandle),
    machine.run machine.init as = some t → t.isOver = true → t.taken.length = 1 := by
  intro h
  exact absurd (h [.cancel, .pollCancel false, .dropCancel] _ rfl rfl) (by decide)

end JoinHandle

end Wae.Task
