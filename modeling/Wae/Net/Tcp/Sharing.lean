import Wae.Io.Ending
import Wae.Net.Tcp.Split

/-! The owners of a stream, and the end of the handle they share.

A stream that is not split has one owner, and a split one has two that are dropped in any
order. The count of the `Arc` is their number. So the destructor begins when the last of
them goes and no sooner, and it comes to an end as that of a handle with one owner does:
what the system and the callbacks have to do for it, they were handed while there was an
owner. -/
namespace Wae.Io

/-- An operation is there once it has been issued. -/
theorem Half.completion_step {posts : Bool} {s s' : Half} {a : Action} {op : Nat}
    (hs : step posts s a = some s') (hc : s'.completion op ≠ .absent) :
    s.completion op ≠ .absent ∨ (∃ answer, a = .issue answer) ∧ op = s.latest := by
  -- where one completion moves on, the others stay, and so does its being there
  have hmoved (op' : Nat) (c : Completion)
      (hc' : s'.completion = Function.update s.completion op' c)
      (hpresent : s.completion op' ≠ .absent) : s.completion op ≠ .absent := by
    by_cases hop : op = op'
    · exact hop ▸ hpresent
    · rw [hc', Function.update_of_ne hop] at hc
      exact hc
  cases step_cases hs with
  | issue answer =>
    by_cases hop : op = s.latest
    · exact .inr ⟨⟨answer, rfl⟩, hop⟩
    · refine .inl fun habsent => hc ?_
      unfold pollIssue
      split <;> exact (Function.update_of_ne hop ..).trans habsent
  | complete op' packet hflight => exact .inl (hmoved op' _ rfl (by rw [hflight]; simp))
  | callback op' hcall =>
    have hpresent : s.completion op' ≠ .absent := fun h => by simp [Half.callback, h] at hcall
    obtain ⟨c, hcompletion, _⟩ := callback_completion hcall
    exact .inl (hmoved op' c hcompletion hpresent)
  | swap wait =>
    obtain ⟨_, _, _, _, heq⟩ := s.cancelSwap_eq wait
    rw [heq] at hc
    exact .inl hc
  | halfCancel wait err =>
    obtain ⟨_, _, _, _, heq⟩ := s.cancelWait_eq wait err
    rw [heq] at hc
    exact .inl hc
  | _ => exact .inl hc

namespace IoHandle

/-- Only the destructor ends a handle's life. -/
theorem step_alive {posts : Bool} {s s' : IoHandle} {b : Action} (hb : b ≠ .drop)
    (hs : step posts s b = some s') : s'.life = .alive ↔ s.life = .alive := by
  cases step_cases hs with
  | read | write => exact Iff.rfl
  | drop => exact absurd rfl hb
  | nextWrite hl | nextClose hl | readPanics hl | writePanics hl | release hl =>
    rw [hl]
    constructor <;> intro h <;> cases h

theorem step_drop {posts : Bool} {s s' : IoHandle} (hs : step posts s .drop = some s') :
    s.life = .alive ∧ s'.life ≠ .alive := by
  cases step_cases hs with
  | drop hl => exact ⟨hl, by simp [cancelRead]⟩

end IoHandle

end Wae.Io

namespace Wae.Net.Tcp.Shared
open Io Transition

variable {layout : Layout} {posts : Bool} {s s' t : Shared}

/-! ### Owners -/

/-- The owners there are: the stream, or those of its halves that have not been dropped. -/
def holders (s : Shared) : Nat :=
  if s.split = true then (s.owned .read).toNat + (s.owned .write).toNat
  else (s.owned .read).toNat

/-- A stream is dropped once, as the language has it. -/
def Held (s : Shared) (a : Action) : Prop := a = .dropStream → s.owned .read = true

instance (s : Shared) (a : Action) : Decidable (Held s a) :=
  inferInstanceAs (Decidable (_ → _))

theorem held_of_ne {a : Action} (ha : a ≠ .dropStream) : Held s a := fun hdrop => absurd hdrop ha

/-- The count is the number of owners, and while there are any the handle is alive. -/
structure Counted (s : Shared) : Prop where
  strong : s.strong = s.holders
  alive : s.handle.life = .alive ↔ 0 < s.strong
  whole : s.split = false → s.owned .write = s.owned .read

theorem counted_init : Counted init where
  strong := rfl
  alive := iff_of_true rfl Nat.zero_lt_one
  whole _ := rfl

/-- A step of the handle that is not its drop changes none of this. -/
theorem Counted.keeps {handle : IoHandle} {passed : List Passed} {b : IoHandle.Action}
    (h : Counted s) (hb : b ≠ .drop) (hs : IoHandle.step posts s.handle b = some handle) :
    Counted {s with handle, passed} :=
  ⟨h.strong, (IoHandle.step_alive hb hs).trans h.alive, h.whole⟩

/-- An owner goes: one is left less. -/
theorem Counted.leave {owned : Side → Bool} (h : Counted s)
    (hholders : holders {s with owned} + 1 = s.holders)
    (hwhole : s.split = false → owned .write = owned .read)
    (hs : leave posts {s with owned} = some s') : Counted s' := by
  have hstrong := h.strong
  unfold Shared.leave at hs
  split at hs <;> rename_i hl
  · obtain ⟨handle, hhandle, rfl⟩ := Option.map_eq_some_iff.mp hs
    have hlast : s.strong = 1 := hl
    refine ⟨?_, iff_of_false (IoHandle.step_drop hhandle).2 (Nat.lt_irrefl 0), hwhole⟩
    show 0 = holders {s with owned}
    omega
  · cases hs
    have hmore : s.strong ≠ 1 := hl
    refine ⟨?_, h.alive.trans ?_, hwhole⟩
    · show s.strong - 1 = holders {s with owned}
      omega
    · show 0 < s.strong ↔ 0 < s.strong - 1
      omega

theorem on_ne_drop (side : Side) (action : Io.Action) : on side action ≠ .drop := by
  cases side <;> simp [on]

theorem counted_step {a : Action} (hd : Directed layout s) (h : Counted s) (ha : Held s a)
    (hs : step layout posts s a = some s') : Counted s' := by
  cases a with
  | half side action =>
    simp only [step, Option.ite_none_left_eq_some, Option.map_eq_some_iff] at hs
    obtain ⟨_, handle, hhandle, rfl⟩ := hs
    exact h.keeps (on_ne_drop side action) hhandle
  | split =>
    simp only [step, Option.ite_none_right_eq_some, Option.some.injEq] at hs
    obtain ⟨⟨hsplit, _, _, hlife⟩, rfl⟩ := hs
    have hpos := h.alive.mp hlife
    have hstrong := h.strong
    have hwhole := h.whole hsplit
    refine ⟨?_, h.alive.trans (iff_of_true hpos (Nat.succ_pos _)), fun hno => ?_⟩
    · simp only [holders, hsplit, Bool.false_eq_true, if_false] at hstrong
      show s.strong + 1 = (s.owned .read).toNat + (s.owned .write).toNat
      rw [hwhole]
      cases howned : s.owned .read <;> rw [howned] at hstrong
      · exact absurd hstrong (Nat.ne_of_gt hpos)
      · rw [hstrong]
        rfl
    · cases hno
  | dropStream =>
    simp only [step, Option.ite_none_right_eq_some] at hs
    obtain ⟨hsplit, hs⟩ := hs
    refine h.leave ?_ (fun _ => rfl) hs
    simp [holders, hsplit, ha rfl]
  | dropHalf side =>
    simp only [step, Option.ite_none_right_eq_some] at hs
    obtain ⟨⟨hsplit, howned, _⟩, hs⟩ := hs
    refine h.leave ?_ (fun hno => by rw [hsplit] at hno; cases hno) hs
    cases side <;> simp [holders, hsplit, howned, Nat.add_comm]
  | next =>
    obtain ⟨handle, hhandle, rfl⟩ := Option.map_eq_some_iff.mp hs
    exact h.keeps (by simp) hhandle
  | release =>
    obtain ⟨handle, hhandle, rfl⟩ := Option.map_eq_some_iff.mp hs
    exact h.keeps (by simp) hhandle
  | complete n packet =>
    obtain ⟨e, _, hs⟩ := Option.bind_eq_some_iff.mp hs
    obtain ⟨handle, hhandle, rfl⟩ := Option.map_eq_some_iff.mp hs
    exact h.keeps (on_ne_drop _ _) hhandle
  | callback n =>
    obtain ⟨e, he, hs⟩ := Option.bind_eq_some_iff.mp hs
    obtain ⟨handle, hhandle, rfl⟩ := hd.called (List.mem_of_getElem? he) hs
    exact h.keeps (on_ne_drop _ _) hhandle

/-! ### What was handed over -/

/-- What a half has in flight was there before, or this step of its owner has issued it. -/
theorem handle_completion {s s' : IoHandle} {b : IoHandle.Action} (side : Side) {op : Nat}
    (hs : IoHandle.step posts s b = some s')
    (hc : (half s' side).completion op ≠ .absent) :
    (half s side).completion op ≠ .absent ∨
      (∃ answer, b = on side (.issue answer)) ∧
        op = (half s side).latest := by
  cases IoHandle.step_cases hs with
  | read action half hhalf =>
    cases side with
    | read =>
      rcases Half.completion_step hhalf hc with hc | ⟨⟨answer, rfl⟩, hop⟩
      · exact .inl hc
      · exact .inr ⟨⟨answer, rfl⟩, hop⟩
    | write => exact .inl hc
  | write action half hhalf =>
    cases side with
    | read => exact .inl hc
    | write =>
      rcases Half.completion_step hhalf hc with hc | ⟨⟨answer, rfl⟩, hop⟩
      · exact .inl hc
      · exact .inr ⟨⟨answer, rfl⟩, hop⟩
  | drop | nextWrite | nextClose | readPanics | writePanics | release =>
    cases side <;> exact .inl hc

/-- What is in flight, and what is called back, was handed over. -/
def Recorded (s : Shared) : Prop :=
  ∀ side op, (half s.handle side).completion op ≠ .absent →
    ∃ e ∈ s.passed, e.side = side ∧ e.op = op

theorem recorded_init : Recorded init := by
  intro side op hc
  cases side <;> exact absurd rfl hc

/-- A step of the handle by which nothing is issued. -/
theorem Recorded.keeps {handle : IoHandle} {b : IoHandle.Action} (h : Recorded s)
    (hb : ∀ side answer, b ≠ on side (.issue answer))
    (hs : IoHandle.step posts s.handle b = some handle) : Recorded {s with handle} := by
  intro side op hc
  rcases handle_completion side hs hc with hc | ⟨⟨answer, rfl⟩, _⟩
  · exact h side op hc
  · exact absurd rfl (hb side answer)

theorem on_injective {side side' : Side} {action action' : Io.Action}
    (h : on side action = on side' action') : side = side' ∧ action = action' := by
  cases side <;> cases side' <;> cases h <;> exact ⟨rfl, rfl⟩

theorem recorded_step {a : Action} (hd : Directed layout s) (h : Recorded s)
    (hs : step layout posts s a = some s') : Recorded s' := by
  cases step_cases hs with
  | half side action handle ha hhandle =>
    intro side' op hc
    rcases handle_completion side' hhandle hc with hc | ⟨⟨answer, hb⟩, rfl⟩
    · obtain ⟨e, he, hside⟩ := h side' op hc
      refine ⟨e, ?_, hside⟩
      cases action with
      | issue => exact List.mem_append_left _ he
      | _ => exact he
    · obtain ⟨rfl, rfl⟩ := on_injective hb
      exact ⟨_, List.mem_append_right _ (List.mem_singleton_self _), rfl, rfl⟩
  | split | leaves => exact h
  | last _ _ handle _ _ hhandle => exact h.keeps (fun side _ => by cases side <;> simp [on]) hhandle
  | next handle hhandle | release handle hhandle =>
    exact h.keeps (fun side _ => by cases side <;> simp [on]) hhandle
  | complete n packet e handle he hhandle =>
    exact h.keeps (fun side answer hb => by cases (on_injective hb).2) hhandle
  | callback n e t he hcalled =>
    obtain ⟨handle, hhandle, rfl⟩ := hd.called (List.mem_of_getElem? he) hcalled
    exact h.keeps (fun side answer hb => by cases (on_injective hb).2) hhandle

/-! ### The end -/

/-- The step of the handle is in time, if the step is one. -/
def InTime (s : Shared) (a : Action) (s' : Shared) : Prop :=
  ∀ b, s.handlePart a = some b → IoHandle.InTime s.handle b s'.handle

instance (s : Shared) (a : Action) (s' : Shared) : Decidable (InTime s a s') :=
  match h : s.handlePart a with
  | none => isTrue fun b hb => by simp [h] at hb
  | some b => decidable_of_iff (IoHandle.InTime s.handle b s'.handle)
      ⟨fun hb c hc => by
        cases h.symm.trans hc
        exact hb, fun hall => hall b h⟩

/-- Somebody can take a step. -/
def CanStep (layout : Layout) (posts : Bool) (s : Shared) : Prop :=
  ∃ a, Held s a ∧ (step layout posts s a).isSome = true

/-- What is known of a handle and its owners. -/
structure Owned (layout : Layout) (s : Shared) : Prop where
  directed : Directed layout s
  counted : Counted s
  recorded : Recorded s

theorem owned_init : Owned layout init := ⟨directed_init, counted_init, recorded_init⟩

theorem owned_step {a : Action} (h : Owned layout s) (ha : Held s a)
    (hs : step layout posts s a = some s') : Owned layout s' where
  directed := directed_step h.directed hs
  counted := counted_step h.directed h.counted ha hs
  recorded := recorded_step h.directed h.recorded hs

/-- With no owner left, the handle's last owner has gone. -/
theorem Counted.gone (h : Counted s) (hnone : s.holders = 0) :
    s.handle.life ≠ .alive ∧ ∀ side, s.owned side = false := by
  have hstrong : s.strong = 0 := h.strong.trans hnone
  refine ⟨fun halive => absurd (h.alive.mp halive) (by omega), fun side => ?_⟩
  unfold holders at hnone
  split at hnone <;> rename_i hsplit
  · have hread : (s.owned .read).toNat = 0 := by omega
    have hwrite : (s.owned .write).toNat = 0 := by omega
    cases side
    · exact Bool.toNat_eq_zero.mp hread
    · exact Bool.toNat_eq_zero.mp hwrite
  · have hread := Bool.toNat_eq_zero.mp hnone
    cases side
    · exact hread
    · exact (h.whole (Bool.eq_false_iff.mpr hsplit)).trans hread

/-- Then each step is one of the handle. -/
theorem Owned.part {a : Action} (h : Owned layout s) (ha : Held s a) (hnone : s.holders = 0)
    (hs : step layout posts s a = some s') : (∃ b, s.handlePart a = some b) ∧ s'.holders = 0 := by
  obtain ⟨hlife, howned⟩ := h.counted.gone hnone
  cases a with
  | half side action =>
    simp only [step, Option.ite_none_left_eq_some, Option.map_eq_some_iff] at hs
    obtain ⟨_, handle, _, rfl⟩ := hs
    exact ⟨⟨_, rfl⟩, hnone⟩
  | split =>
    simp only [step, Option.ite_none_right_eq_some, Option.some.injEq] at hs
    exact absurd hs.1.2.2.2 hlife
  | dropStream =>
    rw [Held, howned] at ha
    exact absurd (ha rfl) (by simp)
  | dropHalf side =>
    simp only [step, Option.ite_none_right_eq_some] at hs
    rw [howned side] at hs
    exact absurd hs.1.2.1 (by simp)
  | next =>
    obtain ⟨handle, _, rfl⟩ := Option.map_eq_some_iff.mp hs
    exact ⟨⟨_, rfl⟩, hnone⟩
  | release =>
    obtain ⟨handle, _, rfl⟩ := Option.map_eq_some_iff.mp hs
    exact ⟨⟨_, rfl⟩, hnone⟩
  | complete n packet =>
    obtain ⟨e, he, hs⟩ := Option.bind_eq_some_iff.mp hs
    obtain ⟨handle, _, rfl⟩ := Option.map_eq_some_iff.mp hs
    exact ⟨⟨_, by rw [handlePart, he]; rfl⟩, hnone⟩
  | callback n =>
    obtain ⟨e, he, hs⟩ := Option.bind_eq_some_iff.mp hs
    obtain ⟨handle, _, rfl⟩ := h.directed.called (List.mem_of_getElem? he) hs
    exact ⟨⟨_, by rw [handlePart, he]; rfl⟩, hnone⟩

/-- No owner is left. -/
structure Gone (layout : Layout) (s : Shared) : Prop extends Owned layout s where
  unheld : s.holders = 0
  ending : IoHandle.Ending s.handle

/-- **The step lemma**: it is one less of those that are left. -/
theorem Gone.descends {a : Action} (h : Gone layout s) (ha : Held s a)
    (hs : step layout posts s a = some s') :
    Gone layout s' ∧ s'.handle.stepsLeft < s.handle.stepsLeft := by
  obtain ⟨⟨b, hb⟩, hnone⟩ := h.part ha h.unheld hs
  have hhandle := (ioHandle layout posts).moved h.directed hs hb
  obtain ⟨hending, hlt⟩ := IoHandle.ending_step h.ending hhandle
  exact ⟨⟨owned_step h.toOwned ha hs, hnone, hending⟩, hlt⟩

/-- A step on one half of a handle. -/
theorem on_step {s s' : IoHandle} {side : Side} {action : Io.Action}
    (hs : IoHandle.step posts s (on side action) = some s') :
    (IoHandle.enters action = true → s.life = .alive) ∧
      ∃ next, Half.step posts (half s side) action = some next := by
  cases side with
  | read =>
    cases IoHandle.step_cases hs with
    | read _ next hnext ha => exact ⟨ha, next, hnext⟩
  | write =>
    cases IoHandle.step_cases hs with
    | write _ next hnext ha => exact ⟨ha, next, hnext⟩

/-- The step of a handle with no owner left is somebody's. -/
theorem Owned.canStep_on (h : Owned layout s) (hlife : s.handle.life ≠ .alive) {side : Side}
    {action : Io.Action} {handle : IoHandle}
    (hs : IoHandle.step posts s.handle (on side action) = some handle) :
    CanStep layout posts s := by
  obtain ⟨henters, next, hnext⟩ := on_step hs
  have hdead : IoHandle.enters action ≠ true := mt henters hlife
  by_cases howners : owners action = true
  · refine ⟨.half side action, held_of_ne (by simp), ?_⟩
    have hguard : ¬ (owners action = false ∨
        IoHandle.enters action = true ∧ s.owned side = false) := by
      simp [howners, hdead]
    simp [step, hguard, hs]
  · -- the system's and the callbacks' steps go by what was handed over
    have hgoes : (∃ op packet, action = .complete op packet) ∨ ∃ op, action = .callback op := by
      cases action <;> simp [owners] at howners ⊢
    have hpresent : ∀ op, ((∃ packet, action = .complete op packet) ∨ action = .callback op) →
        (half s.handle side).completion op ≠ .absent := by
      rintro op (⟨packet, rfl⟩ | rfl) habsent
      · cases Half.step_cases hnext with
        | complete _ _ hflight => cases hflight.symm.trans habsent
      · cases Half.step_cases hnext with
        | callback _ hcall => simp [Half.callback, habsent] at hcall
    rcases hgoes with ⟨op, packet, rfl⟩ | ⟨op, rfl⟩
    · obtain ⟨e, he, rfl, rfl⟩ := h.recorded side op (hpresent op (.inl ⟨packet, rfl⟩))
      obtain ⟨n, hn⟩ := List.mem_iff_getElem?.mp he
      exact ⟨.complete n packet, held_of_ne (by simp), by simp [step, hn, hs]⟩
    · obtain ⟨e, he, rfl, rfl⟩ := h.recorded side op (hpresent op (.inr rfl))
      obtain ⟨n, hn⟩ := List.mem_iff_getElem?.mp he
      refine ⟨.callback n, held_of_ne (by simp), ?_⟩
      simp [step, hn, called, h.directed.passed e he, hs]

theorem Owned.canStep (h : Owned layout s) (hlife : s.handle.life ≠ .alive)
    (hcan : IoHandle.CanStep posts s.handle) : CanStep layout posts s := by
  obtain ⟨b, hb⟩ := hcan
  obtain ⟨handle, hhandle⟩ := Option.isSome_iff_exists.mp hb
  cases b with
  | read action =>
    have hon : IoHandle.step posts s.handle (on .read action) = some handle := hhandle
    exact h.canStep_on hlife hon
  | write action =>
    have hon : IoHandle.step posts s.handle (on .write action) = some handle := hhandle
    exact h.canStep_on hlife hon
  | drop => exact absurd (IoHandle.step_drop hhandle).1 hlife
  | next => exact ⟨.next, held_of_ne (by simp), by simp [step, hhandle]⟩
  | release => exact ⟨.release, held_of_ne (by simp), by simp [step, hhandle]⟩

theorem owned_run {as : List Action} (hs : Owned layout s)
    (hheld : (machine layout posts).Steps (fun s a _ => Held s a) s as)
    (hrun : (machine layout posts).run s as = some t) : Owned layout t :=
  Machine.run_keeps_of (I := Owned layout) (fun _ _ _ h ha hstep => owned_step h ha hstep) hs
    hheld hrun

theorem timeful_run {as : List Action} (hd : Directed layout s)
    (ht : IoHandle.Timeful posts s.handle) (hok : (machine layout posts).Steps InTime s as)
    (hrun : (machine layout posts).run s as = some t) : IoHandle.Timeful posts t.handle := by
  have hstep : ∀ s a s', Directed layout s ∧ IoHandle.Timeful posts s.handle → InTime s a s' →
      step layout posts s a = some s' →
      Directed layout s' ∧ IoHandle.Timeful posts s'.handle := by
    rintro s a s' ⟨hd, ht⟩ ha hs
    refine ⟨directed_step hd hs, (ioHandle layout posts).keeps hd ht (fun b hb hhandle => ?_) hs⟩
    exact IoHandle.timeful_step ht (ha b hb) hhandle
  have hkept := Machine.run_keeps_of (M := machine layout posts)
    (I := fun s => Directed layout s ∧ IoHandle.Timeful posts s.handle) hstep ⟨hd, ht⟩ hok hrun
  exact hkept.2

/-- The steps that are left, once no owner is. -/
theorem Gone.run {cs : List Action} (h : Gone layout s)
    (hheld : (machine layout posts).Steps (fun s a _ => Held s a) s cs)
    (hrun : (machine layout posts).run s cs = some t) :
    Gone layout t ∧ t.handle.stepsLeft + cs.length ≤ s.handle.stepsLeft := by
  have hstep : ∀ s a s', Gone layout s → True →
      ((machine layout posts).within Held).step s a = some s' →
      Gone layout s' ∧ s'.handle.stepsLeft < s.handle.stepsLeft := by
    intro s a s' h _ hs
    obtain ⟨ha, hs⟩ := Machine.within_step hs
    exact h.descends ha hs
  exact Machine.run_descends (f := fun s => s.handle.stepsLeft) hstep h (fun _ _ => trivial)
    (Machine.run_within hheld hrun)

/-- **The last owner ends the handle, and no other does.** However the halves of a stream are
used and dropped, the count of the `Arc` is the number of owners, and the handle is alive as
long as there is one. Once there is none, a run has no more than `stepsLeft` to go; and if its
steps were in time, then wherever nobody can take a step any more the destructor is through
and nothing of the handle is left. -/
theorem last_owner_ends {as : List Action}
    (hheld : (machine layout posts).Steps (fun s a _ => Held s a) init as)
    (hrun : (machine layout posts).run init as = some s) :
    s.strong = s.holders ∧ (s.handle.life = .alive ↔ 0 < s.holders) ∧
    (s.holders = 0 → ∀ cs t, (machine layout posts).Steps (fun s a _ => Held s a) s cs →
      (machine layout posts).run s cs = some t → cs.length ≤ s.handle.stepsLeft ∧
        ((machine layout posts).Steps InTime init (as ++ cs) → ¬ CanStep layout posts t →
          IoHandle.Ended t.handle)) := by
  have hs := owned_run owned_init hheld hrun
  refine ⟨hs.counted.strong, ?_, fun hnone cs t hheld' hrun' => ?_⟩
  · rw [← hs.counted.strong]
    exact hs.counted.alive
  · have hgone := (hs.counted.gone hnone).1
    have hhandle := (ioHandle layout posts).run directed_init hrun
    have hgone' : Gone layout s := ⟨hs, hnone, IoHandle.ending_run hhandle hgone⟩
    obtain ⟨ht, hlength⟩ := hgone'.run hheld' hrun'
    refine ⟨by omega, fun hok hno => ?_⟩
    have hall : (machine layout posts).run init (as ++ cs) = some t := by
      rw [Machine.run_append, hrun]
      exact hrun'
    have htimeful := timeful_run directed_init IoHandle.timeful_init hok hall
    have hstuck : ¬ IoHandle.CanStep posts t.handle := fun hcan =>
      hno (ht.canStep ht.ending.gone hcan)
    obtain ⟨hover, hquiet⟩ := ht.ending.through htimeful hstuck
    have hclosed := IoHandle.released_iff ((ioHandle layout posts).run directed_init hall) hover
    exact ⟨hover, hclosed, hquiet⟩

/-- A stream in two, of which the read half has a read pending when it is dropped last. -/
def readsLast : List Action :=
  [.split, .half .read (.poll 0), .half .read .owner, .half .read .owner,
   .half .read (.issue (.failed 997)), .half .read .owner, .dropHalf .write, .dropHalf .read]

theorem last_owner_ends_reading : ∃ s t,
    (machine ⟨0, 32, by decide⟩ true).run init readsLast = some s ∧ s.holders = 0 ∧
    (machine ⟨0, 32, by decide⟩ true).run s [.half .read .owner, .complete 0 ⟨0, 5⟩] = some t ∧
    2 ≤ s.handle.stepsLeft ∧ (¬ CanStep ⟨0, 32, by decide⟩ true t → IoHandle.Ended t.handle) := by
  have hrun : (machine ⟨0, 32, by decide⟩ true).run init readsLast = some _ := rfl
  obtain ⟨_, _, hends⟩ := last_owner_ends (by decide) hrun
  obtain ⟨hlength, hend⟩ := hends rfl [.half .read .owner, .complete 0 ⟨0, 5⟩] _ (by decide) rfl
  exact ⟨_, _, hrun, rfl, rfl, hlength, hend (by decide)⟩

end Wae.Net.Tcp.Shared
