import Wae.Threadpool.Builder
import Wae.Threadpool.Teardown

/-! Who closes the pool and its cleanup group, and how often.

Until the `HandleInner` is made, `build` owns both and closes what there is when it fails.
From then on the destructor does, and it runs once: on an early return, or when the last
handle of the pool is dropped. An early return that has closed them by hand as well has
closed them twice; where the last handle is dropped in a callback that the destructor waits
for, they are not closed at all. -/
namespace Wae.Threadpool
open Transition

namespace Pool

variable {s s' : Pool}

/-- Code that has a handle to clone keeps the pool. -/
theorem Counted.reached (h : Counted s) {thread : Option Nat} (hr : s.reaches thread = true) :
    s.strong ≠ 0 := by
  intro hzero
  have hs := h.still hzero (.clone thread)
  simp only [step, hr, if_true] at hs
  cases hs

/-- Handles go one at a time. -/
theorem strong_step {a : Action} (hs : step s a = some s') : s.strong ≤ s'.strong + 1 := by
  cases step_cases hs with
  | callback k hcall =>
    cases callback_cases hcall with
    | panics | pops | runs => exact Nat.le_succ _
    | enters => exact Nat.le_succ_of_le (Nat.le_succ _)
    | leaves | drops => exact Nat.le_add_of_sub_le (Nat.le_refl _)
  | clone | spawn | push => exact Nat.le_succ_of_le (Nat.le_succ _)
  | submit | start => exact Nat.le_succ _
  | dropHandle | dropClosure => exact Nat.le_add_of_sub_le (Nat.le_refl _)

/-- Outside the work objects' callbacks, what takes the last handle is a drop. -/
theorem last_drops {a : Action} (hs : step s a = some s') (ha : a.thread = none)
    (hne : s.strong ≠ 0) (hzero : s'.strong = 0) : a.drops = true := by
  cases step_cases hs with
  | dropHandle | dropClosure => rfl
  | clone | spawn | push => exact absurd hzero (Nat.succ_ne_zero _)
  | submit | start => exact absurd hzero hne
  | callback => cases ha

theorem drops_last {a : Action} (hs : step s a = some s') (ha : a.drops = true)
    (hone : s.strong = 1) : s'.strong = 0 := by
  cases step_cases hs with
  | dropHandle | dropClosure =>
    show s.strong - 1 = 0
    omega
  | clone | spawn | push | submit | start | callback => cases ha

end Pool

/-- `build` has failed, or the last handle of the pool is gone. -/
def Builder.Stage.over : Builder.Stage → Bool
  | .runs _ => false
  | .failed _ => true
  | .built pool => pool.strong == 0

/-- What `build` creates and has to be closed. -/
inductive Object where
  | threadpool
  | cleanupGroup
  deriving DecidableEq, Repr

namespace Object

def create : Object → Call
  | .threadpool => .createThreadpool true
  | .cleanupGroup => .createThreadpoolCleanupGroup true

def close : Object → Call
  | .threadpool => .closeThreadpool
  | .cleanupGroup => .closeThreadpoolCleanupGroup

/-- It is there while `build` stands at the call. -/
def held : Object → Builder.Point → Bool
  | .threadpool, point => point != .createThreadpool
  | .cleanupGroup, point => point.inner

/-- How many there are that the code has to close. -/
def live (o : Object) : Builder.Stage → Nat
  | .runs point => (o.held point).toNat
  | .built pool => if pool.strong = 0 then 0 else 1
  | .failed _ => 0

theorem live_le (o : Object) (stage : Builder.Stage) : o.live stage ≤ 1 := by
  cases stage with
  | runs point => exact Bool.toNat_le _
  | failed => exact Nat.zero_le _
  | built pool =>
    show (if pool.strong = 0 then 0 else 1) ≤ 1
    split
    · exact Nat.zero_le _
    · exact Nat.le_refl _

theorem live_over (o : Object) {stage : Builder.Stage} (h : stage.over = true) :
    o.live stage = 0 := by
  cases stage with
  | runs => cases h
  | failed => rfl
  | built => exact if_pos (beq_iff_eq.mp h)

end Object

namespace Build

variable {b : Builder} {s s' : Build}

/-- Of two calls, the earlier did not close the cleanup group that the later uses. -/
def Unclosed (earlier later : Call) : Prop :=
  earlier = .closeThreadpoolCleanupGroup → later.usesGroup = false

instance (earlier later : Call) : Decidable (Unclosed earlier later) :=
  inferInstanceAs (Decidable (earlier = .closeThreadpoolCleanupGroup → later.usesGroup = false))

/-- One pool and one group are created at most, and what was has been closed once when all is
over, and not before; and no call is given a group that has been closed. -/
structure ClosedOnce (s : Build) : Prop where
  created : ∀ o : Object, s.calls.count o.create ≤ 1
  closed : ∀ o : Object, s.calls.count o.close =
    if s.stage.over then s.calls.count o.create else 0
  unclosed : s.calls.Pairwise Unclosed

/-- The condition on a step: no call fails once the `HandleInner` is made, a work object's
callback that drops its own handle leaves another, and what is dropped in the callback of
another member of the cleanup group is not the last. -/
structure Accepted (s : Build) (a : Action) (s' : Build) : Prop where
  reply : ∀ point failure, s.stage = .runs point → a = .reply (some failure) → point.inner = false
  pool : ∀ pool pool' action member, s.stage = .built pool → a = .pool action member →
    s'.stage = .built pool' → pool.LeavesOther action pool'
  member : ∀ pool action, s.stage = .built pool → a = .pool action true →
    action.drops = true → pool.strong ≠ 1

/-! ### Every step -/

/-- What has been created and not closed is what the code has to close. -/
structure Kept (s : Build) : Prop where
  created : ∀ o : Object, s.calls.count o.create ≤ 1
  balanced : ∀ o : Object, s.calls.count o.create = s.calls.count o.close + o.live s.stage
  unclosed : s.calls.Pairwise Unclosed
  before : s.stage.over = false → ∀ o : Object, s.calls.count o.close = 0
  counted : ∀ pool, s.stage = .built pool → pool.Counted

theorem kept_init : Kept init where
  created := fun _ => Nat.zero_le _
  balanced := fun o => by cases o <;> rfl
  unclosed := .nil
  before := fun _ _ => rfl
  counted := nofun

theorem Kept.closedOnce (h : Kept s) : ClosedOnce s where
  created := h.created
  closed o := by
    split
    · rename_i hover
      have hbalanced := h.balanced o
      rw [o.live_over hover] at hbalanced
      exact hbalanced.symm
    · rename_i hover
      exact h.before (Bool.eq_false_iff.mpr hover) o
  unclosed := h.unclosed

/-- The calls of one step, where all is not over before it. -/
structure Continues (stage : Builder.Stage) (calls : List Call) (stage' : Builder.Stage) :
    Prop where
  created : ∀ o : Object, o.live stage + calls.count o.create ≤ 1
  balanced : ∀ o : Object,
    o.live stage + calls.count o.create = calls.count o.close + o.live stage'
  unclosed : calls.Pairwise Unclosed
  before : stage'.over = false → ∀ o : Object, calls.count o.close = 0

theorem Kept.append {calls : List Call} {stage : Builder.Stage} (h : Kept s)
    (hover : s.stage.over = false) (hc : Continues s.stage calls stage)
    (hcounted : ∀ pool, stage = .built pool → pool.Counted) : Kept ⟨stage, s.calls ++ calls⟩ := by
  have hclose := h.before hover
  have hcreate (o : Object) : s.calls.count o.create = o.live s.stage := by
    rw [h.balanced, hclose, Nat.zero_add]
  refine ⟨fun o => ?_, fun o => ?_, ?_, fun ho o => ?_, hcounted⟩
  · rw [List.count_append, hcreate]
    exact hc.created o
  · rw [List.count_append, List.count_append, hcreate, hclose, Nat.zero_add]
    exact hc.balanced o
  · refine List.pairwise_append.mpr ⟨h.unclosed, hc.unclosed, fun c hmem _ _ he => ?_⟩
    subst he
    exact absurd hmem (List.count_eq_zero.mp (hclose .cleanupGroup))
  · rw [List.count_append, hclose, Nat.zero_add]
    exact hc.before ho o

/-- Calls that neither create nor close, between stages with the same to close. -/
theorem Continues.idle {stage stage' : Builder.Stage} {calls : List Call}
    (hcreate : ∀ o : Object, calls.count o.create = 0)
    (hclose : ∀ o : Object, calls.count o.close = 0)
    (hlive : ∀ o : Object, o.live stage' = o.live stage) (hcalls : calls.Pairwise Unclosed) :
    Continues stage calls stage' where
  created o := by
    rw [hcreate]
    exact o.live_le stage
  balanced o := by rw [hcreate, hclose, hlive, Nat.add_zero, Nat.zero_add]
  unclosed := hcalls
  before := fun _ => hclose

theorem live_afterWork (b : Builder) (o : Object) (priority : Priority) :
    o.live (b.afterWork priority) = 1 := by
  cases priority with
  | high | normal => cases o <;> rfl
  | low =>
    unfold Builder.afterWork
    cases b.net <;> cases o <;> rfl

theorem build_answered (b : Builder) (point : Builder.Point) :
    Continues (.runs point) (b.build point none).1 (b.build point none).2 := by
  cases point with
  | createThreadpoolWork priority =>
    refine .idle (fun o => ?_) (fun o => ?_) (fun o => ?_) (List.pairwise_singleton _ _)
    · cases o <;> rfl
    · cases o <;> rfl
    · apply (live_afterWork b o priority).trans
      cases o <;> rfl
  | _ =>
    refine ⟨fun o => ?_, fun o => ?_, ?_, fun _ o => ?_⟩
    · cases o <;> exact of_decide_eq_true rfl
    · cases o <;> rfl
    · simp [Builder.build, Unclosed]
    · cases o <;> rfl

/-- Until the `HandleInner` is made, `build` closes what there is when it fails. -/
theorem build_failed (b : Builder) {point : Builder.Point} (failure : Builder.Failure)
    (hp : point.inner = false) :
    Continues (.runs point) (b.build point (some failure)).1 (b.build point (some failure)).2 := by
  cases point with
  | createThreadpoolWork | wsaStartup => cases hp
  | createThreadpool | setThreadpoolThreadMinimum | createThreadpoolCleanupGroup =>
    refine ⟨fun o => ?_, fun o => ?_, ?_, fun ho => nomatch ho⟩
    · cases o <;> exact of_decide_eq_true rfl
    · cases o <;> rfl
    · simp [Builder.build, Unclosed]

/-- The pool that `build` returns has one handle. -/
theorem build_built {b : Builder} {point : Builder.Point} {error : Option Builder.Failure}
    {pool : Pool}
    (h : (b.build point error).2 = .built pool) : pool = .init := by
  cases error with
  | some => cases point <;> cases h
  | none =>
    cases point with
    | createThreadpool | setThreadpoolThreadMinimum | createThreadpoolCleanupGroup => cases h
    | wsaStartup =>
      cases h
      rfl
    | createThreadpoolWork priority =>
      cases priority with
      | high | normal => cases h
      | low =>
        simp only [Builder.build, Builder.afterWork] at h
        split at h <;> cases h
        rfl

/-- The drop that takes the last reference runs the destructor, and no other does. -/
theorem destroys_continues {pool pool' : Pool} {action : Threadpool.Action} {member : Bool}
    (h : pool.Counted) (hout : pool.TornOutside action pool')
    (hmember : member = true → pool'.strong ≠ 0) (hs : pool.step action = some pool') :
    Continues (.built pool) (destroys pool action member pool') (.built pool') := by
  have hlive : pool.strong ≠ 0 := fun hzero => nomatch (h.still hzero action).symm.trans hs
  have hle := Pool.strong_step hs
  unfold destroys
  split
  · rename_i hlast
    refine ⟨fun o => ?_, fun o => ?_, by decide, fun ho => ?_⟩
    · simp only [Object.live, hlive, if_false]
      cases o <;> decide
    · simp only [Object.live, hlive, hlast.2.1, if_false, if_true]
      cases o <;> rfl
    · exact absurd (beq_iff_eq.mpr hlast.2.1) (Bool.eq_false_iff.mp ho)
  · rename_i hlast
    have hlive' : pool'.strong ≠ 0 := fun hzero =>
      hlast ⟨by omega, hzero, hout hlive hzero, Bool.eq_false_iff.mpr fun hm => hmember hm hzero⟩
    refine .idle (fun _ => rfl) (fun _ => rfl) (fun o => ?_) .nil
    simp only [Object.live, hlive, hlive']

/-- Where the last handle went in a callback that the destructor waits for, nothing of the
pool is closed. -/
theorem ClosedOnce.outside {pool pool' : Pool} {action : Threadpool.Action} {member : Bool}
    (h : ClosedOnce ⟨.built pool', s.calls ++ destroys pool action member pool'⟩) (hk : Kept s)
    (hp : s.stage = .built pool) (hne : pool.strong ≠ 0) (hzero : pool'.strong = 0) :
    action.thread = none ∧ member = false := by
  by_contra hinside
  have hnothing : destroys pool action member pool' = [] :=
    if_neg fun hlast => hinside hlast.2.2
  have hcreated := hk.balanced .threadpool
  have hopen := hk.before (by rw [hp]; exact beq_eq_false_iff_ne.mpr hne) .threadpool
  have hover : (Builder.Stage.built pool').over = true := beq_iff_eq.mpr hzero
  have hclosed := h.closed .threadpool
  rw [hp, Object.live, if_neg hne] at hcreated
  rw [hnothing, List.append_nil, if_pos hover, hopen, hcreated, hopen] at hclosed
  cases hclosed

/-- **The step lemma**. -/
theorem kept_step {a : Action} (h : Kept s) (ha : Accepted s a s') (hs : step b s a = some s') :
    Kept s' := by
  cases step_cases hs with
  | reply point error hp =>
    have hover : s.stage.over = false := by
      rw [hp]
      rfl
    refine h.append hover ?_ ?_
    · rw [hp]
      cases error with
      | none => exact build_answered b point
      | some failure => exact build_failed b failure (ha.reply point failure hp rfl)
    · intro pool hpool
      rw [build_built hpool]
      exact Pool.counted_init
  | pool pool pool' action member hp hm hpool =>
    have hcounted := h.counted pool hp
    have hlive : pool.strong ≠ 0 := fun hzero =>
      nomatch (hcounted.still hzero action).symm.trans hpool
    have hover : s.stage.over = false := by
      rw [hp]
      exact beq_eq_false_iff_ne.mpr hlive
    have hout := Pool.torn_step hcounted (ha.pool pool pool' action member hp rfl rfl) hpool
    have hmember : member = true → pool'.strong ≠ 0 := by
      rintro rfl hzero
      have hdrops := Pool.last_drops hpool (hm rfl).1 hlive hzero
      have hle := Pool.strong_step hpool
      exact ha.member pool action hp rfl hdrops (by omega)
    refine h.append hover ?_ ?_
    · rw [hp]
      exact destroys_continues hcounted hout hmember hpool
    · rintro _ ⟨⟩
      exact Pool.counted_step hcounted hpool
  | createMember pool thread hp hr =>
    have hcounted := h.counted pool hp
    have hover : s.stage.over = false := by
      rw [hp]
      exact beq_eq_false_iff_ne.mpr (hcounted.reached hr)
    refine h.append hover (.idle (fun o => ?_) (fun o => ?_) (fun _ => rfl) ?_) h.counted
    · cases o <;> rfl
    · cases o <;> rfl
    · exact List.pairwise_singleton _ _

/-- A call that fails once the `HandleInner` is made has its pool closed twice. -/
theorem ClosedOnce.reply {point : Builder.Point} {failure : Builder.Failure}
    (h : ClosedOnce ⟨(b.build point (some failure)).2,
      s.calls ++ (b.build point (some failure)).1⟩) (hk : Kept s) (hp : s.stage = .runs point) :
    point.inner = false := by
  refine Bool.eq_false_iff.mpr fun hinner => ?_
  have hcreated := hk.balanced .threadpool
  have hopen := hk.before (by rw [hp]; rfl) .threadpool
  have hclosed := h.closed .threadpool
  rw [hp] at hcreated
  cases point with
  | createThreadpool | setThreadpoolThreadMinimum | createThreadpoolCleanupGroup => cases hinner
  | createThreadpoolWork | wsaStartup =>
    rw [List.count_append, List.count_append, hopen, hcreated, hopen] at hclosed
    cases hclosed

theorem ClosedOnce.accepted {a : Action} (h : ClosedOnce s') (hk : Kept s)
    (hs : step b s a = some s') : Accepted s a s' := by
  cases step_cases hs with
  | reply point error hp =>
    refine ⟨fun point' failure hp' ha => ?_, fun _ _ _ _ _ ha => (by cases ha),
      fun _ _ _ ha => (by cases ha)⟩
    obtain rfl : point = point' := Builder.Stage.runs.inj (hp.symm.trans hp')
    obtain rfl := Action.reply.inj ha
    exact h.reply hk hp
  | pool pool pool' action member hp hm hpool =>
    have hcounted := hk.counted pool hp
    refine ⟨fun _ _ _ ha => (by cases ha), fun pool₁ pool₂ _ _ hp' ha hstage => ?_,
      fun pool₁ _ hp' ha hdrops hone => ?_⟩
    · obtain rfl : pool = pool₁ := Builder.Stage.built.inj (hp.symm.trans hp')
      obtain ⟨rfl, rfl⟩ := Action.pool.inj ha
      obtain rfl := Builder.Stage.built.inj hstage
      have hout : pool.TornOutside action pool' := fun hne hzero =>
        (h.outside hk hp hne hzero).1
      exact hout.leavesOther hcounted hpool
    · obtain rfl : pool = pool₁ := Builder.Stage.built.inj (hp.symm.trans hp')
      obtain ⟨rfl, rfl⟩ := Action.pool.inj ha
      have hzero := Pool.drops_last hpool hdrops hone
      exact Bool.false_ne_true (h.outside hk hp (by omega) hzero).2.symm
  | createMember =>
    exact ⟨fun _ _ _ ha => (by cases ha), fun _ _ _ _ _ ha => (by cases ha),
      fun _ _ _ ha => (by cases ha)⟩

/-- **The pool and its cleanup group are closed once** exactly when no call of `build` fails
once its `HandleInner` is made, no `CreateThreadpoolWork` and not `WSAStartup`, each
work object's callback leaves another handle of the pool when it drops its own, and no
callback of another object in the pool's environment drops the last. -/
theorem pool_closed_once (b : Builder) (as : List Action) :
    (machine b).Steps (fun _ _ s' => ClosedOnce s') init as ↔
      (machine b).Steps Accepted init as :=
  ⟨Machine.Steps.of_invariant (I := Kept) (fun _ _ _ hk hc hs =>
      ⟨kept_step hk (hc.accepted hk hs) hs, hc.accepted hk hs⟩) kept_init,
    Machine.Steps.of_invariant (I := Kept) (fun _ _ _ hk ha hs =>
      ⟨kept_step hk ha hs, (kept_step hk ha hs).closedOnce⟩) kept_init⟩

/-- The first `CreateThreadpoolWork` fails, for want of memory. -/
theorem failed_work_closes_twice : ¬ ∀ (b : Builder) (as : List Action),
    (machine b).Steps (fun _ _ s' => ClosedOnce s') init as := by
  intro h
  obtain ⟨-, h⟩ := h ⟨512, 4, true⟩ [.reply none, .reply none, .reply none, .reply (some ⟨8, 8⟩)]
    _ rfl
  obtain ⟨-, h⟩ := h _ rfl
  obtain ⟨-, h⟩ := h _ rfl
  obtain ⟨hclosed, -⟩ := h _ rfl
  exact absurd (hclosed.closed .threadpool) (by decide)

end Build

end Wae.Threadpool
