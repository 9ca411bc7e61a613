import Wae.Io.Event

/-! Which callback of an event's wait has the word.

The wait is armed once for each `READY` a poll takes, and an armed wait queues one
callback. So of all the callbacks it has queued only the latest may still touch the word
(`Sole`), and one that waits for an operation's end is the latest. -/
namespace Wae.Io
open Transition

namespace IoEvent

namespace Callback

/-- It touches the word no more, or is not there. -/
def Past : Callback → Prop
  | .absent | .running _ .wake | .done => True
  | .queued _ | .running _ .callbackPending | .running _ .set | .running _ .setReady => False

/-- Still to make its exchange. -/
def Awaited : Callback → Prop
  | .queued _ | .running _ .callbackPending => True
  | _ => False

/-- It holds the word. -/
def Inside : Callback → Prop
  | .running _ .set | .running _ .setReady => True
  | _ => False

/-- It has stored `READY`. -/
def Over : Callback → Prop
  | .running _ .wake | .done => True
  | _ => False

instance : (c : Callback) → Decidable c.Awaited
  | .queued _ | .running _ .callbackPending => isTrue trivial
  | .absent | .done | .running _ .set | .running _ .setReady | .running _ .wake => isFalse id

theorem Past.not_inside {c : Callback} (h : c.Past) : ¬ c.Inside := by
  cases c with
  | running result pc => cases pc <;> first | exact h.elim | exact id
  | _ => exact id

theorem Over.past {c : Callback} (h : c.Over) : c.Past := by
  cases c with
  | running result pc => cases pc <;> exact h
  | queued => exact h
  | absent | done => trivial

theorem past_or (c : Callback) : c.Past ∨ c.Awaited ∨ c.Inside := by
  cases c with
  | running result pc => cases pc <;> simp [Past, Awaited, Inside]
  | _ => simp [Past, Awaited, Inside]

end Callback

/-- What the owner knows of the word where it stands. -/
def Owner.Fits : Owner → IoState → Prop
  | .outside, word | .finish _, word | .schedule, word => word ≠ .scheduling
  | .register, word => word ≠ .idle ∧ word ≠ .scheduling
  | .resetEvent _, word | .setThreadpoolWait _, word | .get _, word
  | .getOverlappedResult, word => word = .ready
  | .setIdle _, word => word = .ready ∨ word = .scheduling
  | .issue, word | .registerPending, word | .setPending, word => word = .scheduling

/-- Past the call that arms the wait anew. -/
def Owner.rearms : Owner → Bool
  | .get _ | .getOverlappedResult | .setIdle _ => true
  | _ => false

/-- Inside `poll`. -/
def Owner.polling : Owner → Bool
  | .outside => false
  | _ => true

structure Sole (s : IoEvent) : Prop where
  fresh : ∀ k, s.fired < k → s.callbacks k = .absent
  older : ∀ k, k < s.fired → (s.callbacks k).Past
  armed : s.armed = true → (s.callbacks s.fired).Past
  inside : s.state = .callback ↔ (s.callbacks s.fired).Inside
  ready : s.state = .ready →
    s.owner.rearms = true ∨ s.armed = false ∧ (s.callbacks s.fired).Over
  uncancelled : s.state ≠ .cancelledNowait ∧ s.state ≠ .cancelledWait
  owner : s.owner.Fits s.state
  waiting : s.waiting = true → s.owner = .outside ∧ s.state ≠ .idle

variable {s s' : IoEvent}

theorem sole_init : Sole init where
  fresh := fun _ _ => rfl
  older := fun _ _ => trivial
  armed := fun _ => trivial
  inside := ⟨nofun, False.elim⟩
  ready := nofun
  uncancelled := ⟨nofun, nofun⟩
  owner := nofun
  waiting := nofun

/-- A step of the owner: the callbacks stay, and the word is neither taken nor made
`READY`. -/
theorem Sole.move (h : Sole s) (hf : s'.fired = s.fired) (hc : s'.callbacks = s.callbacks)
    (ha : s'.armed = true → s.armed = true ∨ (s.callbacks s.fired).Past)
    (hword : s'.state = s.state ∨ s.state ≠ .callback ∧ (s'.state = .idle ∨ s'.state = .scheduling ∨
      s'.state = .pending))
    (hready : s'.state = .ready →
      s'.owner.rearms = true ∨ s.owner.rearms = false ∧ s'.armed = s.armed)
    (howner : s'.owner.Fits s'.state)
    (hwaiting : s'.waiting = true → s'.owner = .outside ∧ s'.state ≠ .idle) : Sole s' where
  fresh := by
    rw [hf, hc]
    exact h.fresh
  older := by
    rw [hf, hc]
    exact h.older
  armed := fun hs => by
    rw [hf, hc]
    exact (ha hs).elim h.armed id
  inside := by
    rw [hf, hc]
    rcases hword with hw | ⟨hne, hw⟩
    · rw [hw]
      exact h.inside
    · refine iff_of_false ?_ (mt h.inside.mpr hne)
      rcases hw with hw | hw | hw <;> rw [hw] <;> nofun
  ready := fun hr => by
    rw [hf, hc]
    refine (hready hr).imp_right fun ⟨hre, harmed⟩ => ?_
    rcases hword with hw | ⟨_, hw⟩
    · rw [harmed]
      exact (h.ready (hw ▸ hr)).resolve_left (by rw [hre]; nofun)
    · rcases hw with hw | hw | hw <;> exact nomatch hw.symm.trans hr
  uncancelled := by
    rcases hword with hw | ⟨_, hw⟩
    · rw [hw]
      exact h.uncancelled
    · rcases hw with hw | hw | hw <;> rw [hw] <;> exact ⟨nofun, nofun⟩
  owner := howner
  waiting := hwaiting

theorem Sole.not_waiting (h : Sole s) (ho : s.owner ≠ .outside) : ¬ s.waiting = true :=
  fun hw => ho (h.waiting hw).1

/-- The owner moves on inside `poll`, and the event stays as it is. -/
theorem Sole.proceed (h : Sole s) {owner : Owner} (ho : s.owner = owner) (hout : owner ≠ .outside)
    (hsame : s'.fired = s.fired ∧ s'.callbacks = s.callbacks ∧ s'.armed = s.armed ∧
      s'.state = s.state ∧ s'.waiting = s.waiting)
    (hre : s'.owner.rearms = true ∨ owner.rearms = false)
    (howner : s'.owner.Fits s.state) : Sole s' := by
  subst ho
  obtain ⟨hf, hc, ha, hw, hwait⟩ := hsame
  refine h.move hf hc (fun hs => .inl (ha ▸ hs)) (.inl hw) (fun _ => ?_) (hw ▸ howner) (fun hs => ?_)
  · exact hre.imp_right fun hre => ⟨hre, ha⟩
  · exact absurd (hwait ▸ hs) (h.not_waiting hout)

/-- What no callback touches. -/
structure Kept (s s' : IoEvent) : Prop where
  owner : s'.owner = s.owner
  life : s'.life = s.life
  armed : s'.armed = s.armed
  fired : s'.fired = s.fired
  signaled : s'.signaled = s.signaled
  inFlight : s'.inFlight = s.inFlight
  waiting : s'.waiting = s.waiting
  polled : s'.polled = s.polled
  returned : s'.returned = s.returned

theorem callback_keeps {k : Nat} (hs : s.callback k = some s') : Kept s s' := by
  cases callback_cases hs <;> exact ⟨rfl, rfl, rfl, rfl, rfl, rfl, rfl, rfl, rfl⟩

@[simp] theorem setCallback_same (s : IoEvent) (k : Nat) (c : Callback) :
    (s.setCallback k c).callbacks k = c := Function.update_self ..

theorem setCallback_other (s : IoEvent) {k j : Nat} (c : Callback) (h : j ≠ k) :
    (s.setCallback k c).callbacks j = s.callbacks j := Function.update_of_ne h ..

/-- A callback that is past the word only wakes. -/
theorem callback_past {k : Nat} (hp : (s.callbacks k).Past) (hs : s.callback k = some s') :
    s' = (s.setCallback k .done).wake := by
  cases callback_cases hs with
  | wake => rfl
  | begins _ hc | taken _ hc | missed _ hc | set _ hc | setReady _ hc =>
    rw [hc] at hp
    exact hp.elim

/-- A callback that takes a step is queued. -/
theorem Sole.le_fired (h : Sole s) {k : Nat} (hs : s.callback k = some s') : k ≤ s.fired := by
  by_contra hlt
  simp [callback, h.fresh k (Nat.lt_of_not_le hlt)] at hs

/-- The latest callback moves on. -/
theorem Sole.advance (h : Sole s) {c : Callback}
    (hk : Kept s s') (hc : s'.callbacks = Function.update s.callbacks s.fired c)
    (harmed : (s.callbacks s.fired).Past → c.Past)
    (hinside : s'.state = .callback ↔ c.Inside)
    (hready : s'.state = .ready → s.owner.rearms = true ∨ s.armed = false ∧ c.Over)
    (huncancelled : s'.state ≠ .cancelledNowait ∧ s'.state ≠ .cancelledWait)
    (howner : s.owner.Fits s'.state) (hwaiting : s.waiting = true → s'.state ≠ .idle) :
    Sole s' where
  fresh := fun k hlt => by
    rw [hk.fired] at hlt
    rw [hc, Function.update_of_ne (Nat.ne_of_gt hlt)]
    exact h.fresh k hlt
  older := fun k hlt => by
    rw [hk.fired] at hlt
    rw [hc, Function.update_of_ne (Nat.ne_of_lt hlt)]
    exact h.older k hlt
  armed := fun ha => by
    rw [hk.armed] at ha
    rw [hc, hk.fired, Function.update_self]
    exact harmed (h.armed ha)
  inside := by
    rw [hc, hk.fired, Function.update_self]
    exact hinside
  ready := fun hr => by
    rw [hk.owner, hk.armed, hc, hk.fired, Function.update_self]
    exact hready hr
  uncancelled := huncancelled
  owner := by
    rw [hk.owner]
    exact howner
  waiting := fun hw => by
    rw [hk.waiting] at hw
    rw [hk.owner]
    exact ⟨(h.waiting hw).1, hwaiting hw⟩

/-- A word that a callback takes, or gives back as `READY`, leaves the owner where it is. -/
theorem Owner.Fits.taken {owner : Owner} {word word' : IoState} (h : owner.Fits word)
    (hword : word = .pending ∨ word = .callback) (hword' : word' = .callback ∨ word' = .ready) :
    owner.Fits word' := by
  cases owner with
  | register => rcases hword' with rfl | rfl <;> exact ⟨nofun, nofun⟩
  | outside | finish | schedule => rcases hword' with rfl | rfl <;> exact nofun
  | resetEvent | setThreadpoolWait | get | getOverlappedResult | issue | registerPending
  | setPending =>
    rcases hword with rfl | rfl <;> exact nomatch h
  | setIdle =>
    rcases hword with rfl | rfl <;> exact h.elim nofun nofun

theorem sole_callback_latest (h : Sole s) (hs : s.callback s.fired = some s') : Sole s' := by
  have hk := callback_keeps hs
  have hcell : ∀ {c}, s.callbacks s.fired = c → ¬ c.Inside → s.state ≠ .callback := fun hc hn hw =>
    hn (hc ▸ h.inside.mp hw)
  cases callback_cases hs with
  | begins result hc hspin =>
    have hne := hcell hc id
    refine h.advance hk rfl (by rw [hc]; exact id) (iff_of_false hne id) (fun hr => ?_)
      h.uncancelled h.owner fun hw => (h.waiting hw).2
    refine (h.ready hr).imp_right fun ⟨_, hover⟩ => ?_
    rw [hc] at hover
    exact hover.elim
  | taken result hc hw =>
    exact h.advance hk rfl (by rw [hc]; exact id) (iff_of_true rfl trivial) nofun ⟨nofun, nofun⟩
      (h.owner.taken (.inl hw) (.inl rfl)) (fun _ => nofun)
  | missed result hc hw =>
    have hne := hcell hc id
    exact h.advance hk rfl (fun _ => trivial) (iff_of_false hne id)
      (fun hr => (h.ready hr).imp_right fun ⟨ha, _⟩ => ⟨ha, trivial⟩)
      h.uncancelled h.owner fun hw => (h.waiting hw).2
  | set result hc =>
    have hw : s.state = .callback := h.inside.mpr (by rw [hc]; trivial)
    exact h.advance hk rfl (by rw [hc]; exact id) (iff_of_true hw trivial)
      (fun hr => nomatch hw.symm.trans hr) h.uncancelled h.owner fun hw => (h.waiting hw).2
  | setReady result hc =>
    have hw : s.state = .callback := h.inside.mpr (by rw [hc]; trivial)
    have harmed : s.armed = false := Bool.eq_false_iff.mpr fun ha => by
      have hpast := h.armed ha
      rw [hc] at hpast
      exact hpast
    exact h.advance hk rfl (fun _ => trivial) (iff_of_false nofun id)
      (fun _ => .inr ⟨harmed, trivial⟩) ⟨nofun, nofun⟩ (h.owner.taken (.inr hw) (.inr rfl)) (fun _ => nofun)
  | wake result hc =>
    have hne := hcell hc id
    exact h.advance hk rfl (fun _ => trivial) (iff_of_false hne id)
      (fun hr => (h.ready hr).imp_right fun ⟨ha, _⟩ => ⟨ha, trivial⟩)
      h.uncancelled h.owner fun hw => (h.waiting hw).2

theorem sole_callback {k : Nat} (h : Sole s) (hs : s.callback k = some s') : Sole s' := by
  rcases Nat.lt_or_eq_of_le (h.le_fired hs) with hlt | rfl
  · -- an older one has nothing left to do but to wake
    obtain rfl := callback_past (h.older k hlt) hs
    have hfired : ((s.setCallback k .done).wake).callbacks s.fired = s.callbacks s.fired :=
      setCallback_other s .done (Nat.ne_of_gt hlt)
    refine ⟨fun j hj => ?_, fun j hj => ?_, ?_, ?_, ?_, h.uncancelled, h.owner, h.waiting⟩
    · show (s.setCallback k .done).callbacks j = .absent
      rw [setCallback_other s .done (Nat.ne_of_gt (Nat.lt_trans hlt hj))]
      exact h.fresh j hj
    · show ((s.setCallback k .done).callbacks j).Past
      by_cases hjk : j = k
      · subst hjk
        rw [setCallback_same]
        trivial
      · rw [setCallback_other s .done hjk]
        exact h.older j hj
    · show s.armed = true → (((s.setCallback k .done).wake).callbacks s.fired).Past
      rw [hfired]
      exact h.armed
    · show s.state = .callback ↔ (((s.setCallback k .done).wake).callbacks s.fired).Inside
      rw [hfired]
      exact h.inside
    · show s.state = .ready →
        s.owner.rearms = true ∨ s.armed = false ∧ (((s.setCallback k .done).wake).callbacks s.fired).Over
      rw [hfired]
      exact h.ready
  · exact sole_callback_latest h hs

/-- An armed wait queues its next callback when no older one can touch the word. -/
theorem sole_fire (h : Sole s) (ha : s.armed = true) : Sole
      {s.setCallback (s.fired + 1) (.queued 0) with armed := false, fired := s.fired + 1} where
  fresh := fun k hk => by
    have hk : s.fired + 1 < k := hk
    show (s.setCallback (s.fired + 1) (.queued 0)).callbacks k = .absent
    rw [setCallback_other s _ (Nat.ne_of_gt hk)]
    exact h.fresh k (Nat.lt_of_succ_lt hk)
  older := fun k hk => by
    have hk : k < s.fired + 1 := hk
    show ((s.setCallback (s.fired + 1) (.queued 0)).callbacks k).Past
    rw [setCallback_other s _ (Nat.ne_of_lt hk)]
    rcases Nat.lt_or_eq_of_le (Nat.le_of_lt_succ hk) with hlt | rfl
    · exact h.older k hlt
    · exact h.armed ha
  armed := nofun
  inside := by
    refine iff_of_false (fun hw => (h.armed ha).not_inside (h.inside.mp hw)) ?_
    show ¬ ((s.setCallback (s.fired + 1) (.queued 0)).callbacks (s.fired + 1)).Inside
    rw [setCallback_same]
    exact id
  ready := fun hr => .inl ((h.ready hr).resolve_right fun ⟨hd, _⟩ => nomatch ha.symm.trans hd)
  uncancelled := h.uncancelled
  owner := h.owner
  waiting := h.waiting

/-- **The step lemma**: whatever is polled, answered, completed or dropped. -/
theorem sole_step {a : Action} (h : Sole s) (hs : step s a = some s') : Sole s' := by
  have howner := h.owner
  cases step_cases hs with
  | poll waker handle ho hl =>
    rw [ho] at howner
    exact h.move rfl rfl .inl (.inl rfl) (fun _ => .inr ⟨by rw [ho]; rfl, rfl⟩) howner nofun
  | finish handle ho =>
    rw [ho] at howner
    unfold pollFinish
    split <;> rename_i hr
    · exact h.proceed ho nofun ⟨rfl, rfl, rfl, rfl, rfl⟩ (.inr rfl) (s.state.finish_iff.mp hr)
    · exact h.proceed ho nofun ⟨rfl, rfl, rfl, rfl, rfl⟩ (.inr rfl) howner
  | resetEvent handle err ho =>
    rw [ho] at howner
    cases err with
    | none => exact h.proceed ho nofun ⟨rfl, rfl, rfl, rfl, rfl⟩ (.inr rfl) howner
    | some err =>
      exact h.proceed ho nofun ⟨rfl, rfl, rfl, rfl, rfl⟩ (.inl rfl) (.inl howner)
  | setThreadpoolWait handle ho =>
    have hwait := h.not_waiting (by rw [ho]; nofun)
    rw [ho] at howner
    have hover := ((h.ready howner).resolve_left (by rw [ho]; nofun)).2
    exact h.move rfl rfl (fun _ => .inr hover.past) (.inl rfl) (fun _ => .inl rfl) howner
      fun hw => absurd hw hwait
  | get handle ho =>
    rw [ho] at howner
    unfold pollGet
    split
    · exact h.proceed ho nofun ⟨rfl, rfl, rfl, rfl, rfl⟩ (.inl rfl) (.inl howner)
    · exact h.proceed ho nofun ⟨rfl, rfl, rfl, rfl, rfl⟩ (.inl rfl) (.inl howner)
    · exact h.proceed ho nofun ⟨rfl, rfl, rfl, rfl, rfl⟩ (.inl rfl) howner
    · exact h.proceed ho nofun ⟨rfl, rfl, rfl, rfl, rfl⟩ (.inl rfl) (.inl howner)
  | getOverlappedResult ho =>
    rw [ho] at howner
    exact h.proceed ho nofun ⟨rfl, rfl, rfl, rfl, rfl⟩ (.inl rfl) (.inl howner)
  | schedule ho hidle =>
    have hwait := h.not_waiting (by rw [ho]; nofun)
    exact h.move rfl rfl .inl (.inr ⟨by rw [hidle]; nofun, .inr (.inl rfl)⟩) nofun rfl
      fun hw => absurd hw hwait
  | busy ho hidle =>
    rw [ho] at howner
    exact h.proceed ho nofun ⟨rfl, rfl, rfl, rfl, rfl⟩ (.inr rfl) ⟨hidle, howner⟩
  | issue clears answer ho =>
    rw [ho] at howner
    cases answer with
    | accepted signals | failed err =>
      exact h.proceed ho nofun ⟨rfl, rfl, rfl, rfl, rfl⟩ (.inr rfl) (.inr howner)
    | pending => exact h.proceed ho nofun ⟨rfl, rfl, rfl, rfl, rfl⟩ (.inr rfl) howner
  | setIdle reading ho =>
    have hwait := h.not_waiting (by rw [ho]; nofun)
    rw [ho] at howner
    have hne : s.state ≠ .callback := by
      rcases howner with hw | hw <;> rw [hw] <;> nofun
    exact h.move rfl rfl .inl (.inr ⟨hne, .inl rfl⟩) nofun nofun fun hw => absurd hw hwait
  | registerPending ho =>
    rw [ho] at howner
    exact h.proceed ho nofun ⟨rfl, rfl, rfl, rfl, rfl⟩ (.inr rfl) howner
  | setPending ho =>
    rw [ho] at howner
    have hne : s.state ≠ .callback := by
      rw [show s.state = .scheduling from howner]
      nofun
    exact h.move rfl rfl .inl (.inr ⟨hne, .inr (.inr rfl)⟩) nofun nofun fun _ => ⟨rfl, nofun⟩
  | register ho =>
    rw [ho] at howner
    exact h.move rfl rfl .inl (.inl rfl) (fun _ => .inr ⟨by rw [ho]; rfl, rfl⟩) howner.2
      fun _ => ⟨rfl, howner.1⟩
  | complete | drop | unbusy | release =>
    exact ⟨h.fresh, h.older, h.armed, h.inside, h.ready, h.uncancelled, h.owner, h.waiting⟩
  | closeThreadpoolWait =>
    exact ⟨h.fresh, h.older, nofun, h.inside,
      fun hr => (h.ready hr).imp_right fun hover => ⟨rfl, hover.2⟩, h.uncancelled, h.owner,
      h.waiting⟩
  | fire ha => exact sole_fire h ha
  | callback k hcall => exact sole_callback h hcall

end IoEvent

end Wae.Io
