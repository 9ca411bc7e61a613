import Wae.Threadpool.Builder
import Wae.Transition.Observer

/-! The thread limits of a pool: who asks for them, and what the system is given.

They are asked for on the builder, before the pool is built, and on its handles then. The
two methods of the builder each set the field of the other. -/
namespace Wae.Threadpool
open Transition

namespace Builder

/-- A call of a method of the builder, with its argument under the name it has there. -/
inductive Method where
  | minThreads (max : UInt32)
  | maxThreads (min : UInt32)
  | net (enabled : Bool)
  deriving DecidableEq, Repr

def new (numberOfProcessors : UInt32) : Builder where
  maxThreads := 512
  minThreads := numberOfProcessors
  net := true

def call (b : Builder) : Method → Builder
  | .minThreads max => {b with maxThreads := max}
  | .maxThreads min => {b with minThreads := min}
  | .net enabled => {b with net := enabled}

end Builder

/-- A call of a method of a handle; `ok` is whether `SetThreadpoolThreadMinimum` succeeds. -/
inductive Handle.Method where
  | setMaxThreads (maximum : UInt32)
  | trySetMinThreads (minimum : UInt32) (ok : Bool)
  deriving DecidableEq, Repr

def Handle.Method.call : Handle.Method → Call
  | .setMaxThreads maximum => .setThreadpoolThreadMaximum maximum
  | .trySetMinThreads minimum ok => .setThreadpoolThreadMinimum minimum ok

/-- A pool from its builder on. -/
inductive Limits where
  | configures (builder : Builder)
  | builds (builder : Builder) (build : Build)

namespace Limits

inductive Action where
  | builder (method : Builder.Method)
  /-- `Builder::build` is called. -/
  | build
  | go (action : Build.Action)
  | handle (thread : Option Nat) (method : Handle.Method)
  deriving DecidableEq

def step (s : Limits) : Action → Option Limits
  | .builder method =>
    match s with
    | configures b => some (configures (b.call method))
    | builds .. => none
  | .build =>
    match s with
    | configures b => some (builds b .init)
    | builds .. => none
  | .go action =>
    match s with
    | configures _ => none
    | builds b build => (Build.step b build action).map (builds b)
  | .handle thread method =>
    match s with
    | configures _ => none
    | builds b build =>
      match build.stage with
      | .built pool =>
        if pool.reaches thread then
          some (builds b {build with calls := build.calls ++ [method.call]})
        else none
      | .runs _ | .failed _ => none

def machine (numberOfProcessors : UInt32) : Machine Limits Action :=
  ⟨configures (.new numberOfProcessors), step⟩

/-- What a step can do. -/
inductive Moved : Limits → Action → Limits → Prop
  | builder (b : Builder) (method : Builder.Method) :
      Moved (configures b) (.builder method) (configures (b.call method))
  | build (b : Builder) : Moved (configures b) .build (builds b .init)
  | go (b : Builder) (build build' : Build) (action : Build.Action)
      (hs : Build.step b build action = some build') :
      Moved (builds b build) (.go action) (builds b build')
  | handle (b : Builder) (build : Build) (pool : Pool) (thread : Option Nat)
      (method : Handle.Method) (hp : build.stage = .built pool) :
      Moved (builds b build) (.handle thread method)
        (builds b {build with calls := build.calls ++ [method.call]})

theorem step_cases {s s' : Limits} {a : Action} (hs : step s a = some s') : Moved s a s' := by
  cases s with
  | configures b =>
    cases a with
    | builder method =>
      cases hs
      exact .builder b method
    | build =>
      cases hs
      exact .build b
    | go | handle => cases hs
  | builds b build =>
    cases a with
    | builder | build => cases hs
    | go action =>
      obtain ⟨build', hb, rfl⟩ := Option.map_eq_some_iff.mp hs
      exact .go b build build' action hb
    | handle thread method =>
      simp only [step] at hs
      split at hs
      · simp only [Option.ite_none_right_eq_some, Option.some.injEq] at hs
        obtain ⟨_, rfl⟩ := hs
        exact .handle b build _ thread method ‹_›
      all_goals cases hs

/-! ### What the system is given -/

end Limits

/-- What it makes the maximum. -/
def Call.maximum : Call → Option UInt32
  | .setThreadpoolThreadMaximum maximum => some maximum
  | _ => none

/-- What it makes the minimum. -/
def Call.minimum : Call → Option UInt32
  | .setThreadpoolThreadMinimum minimum true => some minimum
  | _ => none

namespace Limits

/-- The maximum last given to `SetThreadpoolThreadMaximum`. -/
def maximum (calls : List Call) : Option UInt32 := (calls.filterMap Call.maximum).getLast?

/-- The minimum in force. -/
def minimum (calls : List Call) : Option UInt32 := (calls.filterMap Call.minimum).getLast?

@[simp] theorem maximum_append (calls calls' : List Call) :
    maximum (calls ++ calls') = (maximum calls').or (maximum calls) := by
  simp [maximum]

@[simp] theorem minimum_append (calls calls' : List Call) :
    minimum (calls ++ calls') = (minimum calls').or (minimum calls) := by
  simp [minimum]

def calls : Limits → List Call
  | configures _ => []
  | builds _ build => build.calls

/-- The build has been successful. -/
def built : Limits → Bool
  | configures _ => false
  | builds _ build =>
    match build.stage with
    | .built _ => true
    | .runs _ | .failed _ => false

/-! ### What has been asked for -/

/-- The latest requests on the builder, and on handles of the pool; one that has failed is
none. -/
structure Asked where
  builderMax : Option UInt32
  builderMin : Option UInt32
  handleMax : Option UInt32
  handleMin : Option UInt32
  deriving DecidableEq, Repr

def asked : Observer Limits Action Asked where
  init := ⟨none, none, none, none⟩
  see _ a _ asked :=
    match a with
    | .builder (.maxThreads n) => {asked with builderMax := some n}
    | .builder (.minThreads n) => {asked with builderMin := some n}
    | .handle _ (.setMaxThreads n) => {asked with handleMax := some n}
    | .handle _ (.trySetMinThreads n true) => {asked with handleMin := some n}
    | _ => asked

namespace Asked

/-- The latest request for a maximum, or the default. -/
def max (asked : Asked) : UInt32 := (asked.handleMax.or asked.builderMax).getD 512

def min (asked : Asked) (numberOfProcessors : UInt32) : UInt32 :=
  (asked.handleMin.or asked.builderMin).getD numberOfProcessors

end Asked

/-- The limits are those last asked for. -/
structure Follows (numberOfProcessors : UInt32) (s : Limits) (asked : Asked) : Prop where
  maximum : maximum s.calls = some asked.max
  minimum : minimum s.calls = some (asked.min numberOfProcessors)

/-- The condition: each limit has been asked for on a handle, or the builder has been asked
for the same as both limits, the default of this one being what it is without a request. -/
structure Unswapped (numberOfProcessors : UInt32) (asked : Asked) : Prop where
  max : asked.handleMax.isSome ∨ asked.builderMax.getD 512 = asked.builderMin.getD 512
  min : asked.handleMin.isSome ∨
    asked.builderMin.getD numberOfProcessors = asked.builderMax.getD numberOfProcessors

/-! ### From the requests to the calls -/

/-- The builder has been asked for its fields, each under the other's name. -/
structure Configured (numberOfProcessors : UInt32) (b : Builder) (asked : Asked) : Prop where
  maxThreads : b.maxThreads = asked.builderMin.getD 512
  minThreads : b.minThreads = asked.builderMax.getD numberOfProcessors

/-- `build` stands behind `SetThreadpoolThreadMaximum`. -/
def maximumSet : Builder.Stage → Bool
  | .runs .createThreadpool | .failed _ => false
  | .runs _ | .built _ => true

def minimumSet : Builder.Stage → Bool
  | .runs .createThreadpool | .runs .setThreadpoolThreadMinimum | .failed _ => false
  | .runs _ | .built _ => true

/-- The system is given the builder's fields, and then what handles ask for. -/
structure Called (b : Builder) (build : Build) (asked : Asked) : Prop where
  maximum : maximumSet build.stage = true →
    maximum build.calls = some (asked.handleMax.getD b.maxThreads)
  minimum : minimumSet build.stage = true →
    minimum build.calls = some (asked.handleMin.getD b.minThreads)
  early : ∀ point, build.stage = .runs point → asked.handleMax = none ∧ asked.handleMin = none

theorem called_reply {b : Builder} {point : Builder.Point} {calls : List Call} {asked : Asked}
    (h : Called b ⟨.runs point, calls⟩ asked) (error : Option Builder.Failure) :
    Called b ⟨(b.build point error).2, calls ++ (b.build point error).1⟩ asked := by
  obtain ⟨hmax, hmin⟩ := h.early point rfl
  have hmaximum := h.maximum
  have hminimum := h.minimum
  cases error with
  | some code =>
    -- The error ends the build.
    cases point <;> exact ⟨nofun, nofun, nofun⟩
  | none =>
    refine ⟨?_, ?_, fun _ _ => ⟨hmax, hmin⟩⟩
    · intro _
      cases point with
      | createThreadpool => simp [Builder.build, maximum, Call.maximum, List.findSome?, hmax]
      | setThreadpoolThreadMinimum | createThreadpoolCleanupGroup | createThreadpoolWork
      | wsaStartup => simpa [Builder.build, Builder.createWork, maximum, Call.maximum] using hmaximum rfl
    · intro hset
      cases point with
      | createThreadpool => cases hset
      | setThreadpoolThreadMinimum => simp [Builder.build, minimum, Call.minimum, hmin]
      | createThreadpoolCleanupGroup | createThreadpoolWork | wsaStartup =>
        simpa [Builder.build, Builder.createWork, minimum, Call.minimum] using hminimum rfl

/-- More calls on a built pool, and what has been asked for with them. -/
theorem called_more {b : Builder} {build : Build} {asked asked' : Asked} (h : Called b build asked)
    {pool pool' : Pool} (hp : build.stage = .built pool) {more : List Call}
    (hmax : asked'.handleMax = (maximum more).or asked.handleMax)
    (hmin : asked'.handleMin = (minimum more).or asked.handleMin) :
    Called b ⟨.built pool', build.calls ++ more⟩ asked' := by
  have hmaximum := h.maximum (by rw [hp]; rfl)
  have hminimum := h.minimum (by rw [hp]; rfl)
  refine ⟨fun _ => ?_, fun _ => ?_, nofun⟩
  · rw [maximum_append, hmaximum, hmax]
    cases maximum more <;> rfl
  · rw [minimum_append, hminimum, hmin]
    cases minimum more <;> rfl

theorem called_step {b : Builder} {build build' : Build} {a : Build.Action} {asked : Asked}
    (h : Called b build asked) (hs : Build.step b build a = some build') :
    Called b build' asked := by
  cases Build.step_cases hs with
  | reply point error hp =>
    obtain ⟨stage, calls⟩ := build
    obtain rfl : stage = .runs point := hp
    exact called_reply h error
  | pool pool pool' action member hp hm hpool =>
    -- no call of the pool's life sets a limit
    apply called_more h hp
    all_goals
      unfold Build.destroys
      split <;> rfl
  | createMember pool thread hp hr =>
    have hmore : Called b ⟨.built pool, build.calls ++ [.createMember]⟩ asked :=
      called_more h hp rfl rfl
    rwa [← hp] at hmore

/-- What the system is given for what has been asked. -/
def Given (numberOfProcessors : UInt32) (s : Limits) (asked : Asked) : Prop :=
  match s with
  | configures b =>
    Configured numberOfProcessors b asked ∧ asked.handleMax = none ∧ asked.handleMin = none
  | builds b build => Configured numberOfProcessors b asked ∧ Called b build asked

theorem given_init (numberOfProcessors : UInt32) :
    Given numberOfProcessors (configures (.new numberOfProcessors)) asked.init :=
  ⟨⟨rfl, rfl⟩, rfl, rfl⟩

theorem given_handle {numberOfProcessors : UInt32} {b : Builder} {build : Build} {asked : Asked}
    (hb : Configured numberOfProcessors b asked) (h : Called b build asked) {pool : Pool}
    (hp : build.stage = .built pool) (thread : Option Nat) (method : Handle.Method) :
    Given numberOfProcessors (builds b {build with calls := build.calls ++ [method.call]})
      (Limits.asked.see (builds b build) (.handle thread method)
        (builds b {build with calls := build.calls ++ [method.call]}) asked) := by
  have hmore {asked' : Asked} (hmax : asked'.handleMax = (maximum [method.call]).or asked.handleMax)
      (hmin : asked'.handleMin = (minimum [method.call]).or asked.handleMin) :
      Called b {build with calls := build.calls ++ [method.call]} asked' := by
    rw [hp]
    exact called_more h hp hmax hmin
  cases method with
  | setMaxThreads n => exact ⟨⟨hb.maxThreads, hb.minThreads⟩, hmore rfl rfl⟩
  | trySetMinThreads n ok => cases ok <;> exact ⟨⟨hb.maxThreads, hb.minThreads⟩, hmore rfl rfl⟩

theorem given_step {numberOfProcessors : UInt32} {s s' : Limits} {a : Action} {asked : Asked}
    (h : Given numberOfProcessors s asked) (hs : step s a = some s') :
    Given numberOfProcessors s' (Limits.asked.see s a s' asked) := by
  cases step_cases hs with
  | builder b method =>
    obtain ⟨hb, hmax, hmin⟩ := h
    cases method with
    | minThreads max => exact ⟨⟨rfl, hb.minThreads⟩, hmax, hmin⟩
    | maxThreads min => exact ⟨⟨hb.maxThreads, rfl⟩, hmax, hmin⟩
    | net enabled => exact ⟨⟨hb.maxThreads, hb.minThreads⟩, hmax, hmin⟩
  | build b =>
    obtain ⟨hb, hmax, hmin⟩ := h
    exact ⟨hb, nofun, nofun, fun _ _ => ⟨hmax, hmin⟩⟩
  | go b build build' action hbuild => exact ⟨h.1, called_step h.2 hbuild⟩
  | handle b build pool thread method hp => exact given_handle h.1 h.2 hp thread method

/-- What a built pool has been given. -/
theorem Given.built {numberOfProcessors : UInt32} {s : Limits} {asked : Asked}
    (h : Given numberOfProcessors s asked) (hb : s.built = true) :
    maximum s.calls = some (asked.handleMax.getD (asked.builderMin.getD 512)) ∧
    minimum s.calls = some (asked.handleMin.getD (asked.builderMax.getD numberOfProcessors)) := by
  cases s with
  | configures b => cases hb
  | builds b build =>
    obtain ⟨hconfigured, hcalled⟩ := h
    rw [← hconfigured.maxThreads, ← hconfigured.minThreads]
    obtain ⟨stage, calls⟩ := build
    cases stage with
    | runs | failed => cases hb
    | built pool => exact ⟨hcalled.maximum rfl, hcalled.minimum rfl⟩

/-- The request of a handle, or the builder's: the other one of these is right where there
is the first, or where both of the others are the same. -/
theorem getD_eq_iff (handle builder other : Option UInt32) (default : UInt32) :
    handle.getD (other.getD default) = (handle.or builder).getD default ↔
      handle.isSome ∨ builder.getD default = other.getD default := by
  cases handle <;> simp [eq_comm]

/-! ### The limits -/

/-- What the calls make of the limits. -/
def limits (calls : List Call) : Option UInt32 × Option UInt32 := (maximum calls, minimum calls)

/-- **The limits of a pool are those last asked for** exactly where each has been asked for
on a handle, or the builder has been asked for the same as both. A maximum and a minimum can
be asked for in either order, and a request that has failed changes nothing. -/
theorem limits_follow_iff (numberOfProcessors : UInt32) (as : List Action) {t : Limits × Asked}
    (hrun : (asked.watch (machine numberOfProcessors)).run
      (asked.watch (machine numberOfProcessors)).init as = some t)
    (hbuilt : t.1.built = true) :
    (Follows numberOfProcessors t.1 t.2 ↔ Unswapped numberOfProcessors t.2) ∧
    (∀ (b : Builder) m n,
      (b.call (.maxThreads m)).call (.minThreads n) =
        (b.call (.minThreads n)).call (.maxThreads m)) ∧
    (∀ calls m n ok,
      let max := Handle.Method.setMaxThreads m
      let min := Handle.Method.trySetMinThreads n ok
      limits (calls ++ [max.call, min.call]) = limits (calls ++ [min.call, max.call])) ∧
    ∀ calls n,
      let min := Handle.Method.trySetMinThreads n false
      limits (calls ++ [min.call]) = limits calls := by
  have hgiven : Given numberOfProcessors t.1 t.2 :=
    Machine.run_keeps (M := asked.watch (machine numberOfProcessors))
      (I := fun t => Given numberOfProcessors t.1 t.2)
      (fun s a s' h hw => by
        obtain ⟨hs, hr⟩ := Observer.watch_step hw
        rw [hr]
        exact given_step h hs)
      (given_init numberOfProcessors) hrun
  obtain ⟨hmaximum, hminimum⟩ := hgiven.built hbuilt
  refine ⟨⟨fun h => ?_, fun h => ?_⟩, fun _ _ _ => rfl, fun calls m n ok => ?_, fun calls n => ?_⟩
  · have hmax := hmaximum.symm.trans h.maximum
    have hmin := hminimum.symm.trans h.minimum
    exact ⟨(getD_eq_iff ..).mp (Option.some.inj hmax), (getD_eq_iff ..).mp (Option.some.inj hmin)⟩
  · have hmax := (getD_eq_iff ..).mpr h.max
    have hmin := (getD_eq_iff ..).mpr h.min
    exact ⟨hmaximum.trans (congrArg some hmax), hminimum.trans (congrArg some hmin)⟩
  · simp only [limits, maximum_append, minimum_append]
    cases ok <;> rfl
  · simp only [limits, maximum_append, minimum_append]
    rfl

/-- No call of `build` fails. -/
def builtAll : List Action := .build :: List.replicate 7 (.go (.reply none))

/-- Four threads, neither more nor less; a later request fails, and the next does not. -/
def askedForFour : List Action :=
  [.builder (.maxThreads 4), .builder (.minThreads 4)] ++ builtAll ++
    [.handle none (.trySetMinThreads 2 false), .handle none (.setMaxThreads 6)]

theorem limits_follow_four :
    ∃ t, (asked.watch (machine 8)).run (asked.watch (machine 8)).init askedForFour = some t ∧
      limits t.1.calls = (some 6, some 4) ∧ Follows 8 t.1 t.2 :=
  ⟨_, rfl, rfl, (limits_follow_iff 8 askedForFour rfl rfl).1.mpr ⟨by decide, by decide⟩⟩

/-- Four threads at most: the system is told four at least. -/
theorem limits_swapped : ¬ ∀ (numberOfProcessors : UInt32) (as : List Action) (t : Limits × Asked),
    (asked.watch (machine numberOfProcessors)).run (asked.watch (machine numberOfProcessors)).init
      as = some t → t.1.built = true → Follows numberOfProcessors t.1 t.2 := by
  intro h
  have hmaximum := (h 8 (.builder (.maxThreads 4) :: builtAll) _ rfl rfl).maximum
  revert hmaximum
  decide

end Limits

end Wae.Threadpool
