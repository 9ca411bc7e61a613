import Wae.Io.OneShot

/-! The memory that futures give to the system, and when they release it.

`AcceptEx` writes to the buffer of the `Accept`; `GetAddrInfoExW` reads the host and the
port and writes to the boxed result of the `GetAddrInfoFuture`. All of it is the future's
own. Dropping a future drops its fields in the order of their declaration, and a suspended
`async` function drops the operand of its `await` and then its locals, the latest first.
An event is dropped once its destructor has left its loop; memory is simply released. -/
namespace Wae.Net
open Io Transition

inductive Kind where
  | accept
  | getAddrInfo
  /-- `resolves`: the address is a host name. -/
  | connect (resolves : Bool)
  deriving DecidableEq, Repr

/-- `connect` awaits its lookup. -/
def Kind.connects : Kind → Bool
  | .connect _ => true
  | .accept | .getAddrInfo => false

/-- What a future drops that is memory in the system's hands, or an event. -/
inductive Field where
  | buf
  | host
  | port
  | inner
  /-- The event of the operation that has the memory. -/
  | event
  /-- The event of `ConnectEx`. -/
  | own
  deriving DecidableEq, Repr

def Field.memory : Field → Bool
  | .buf | .host | .port | .inner => true
  | .event | .own => false

/-- In the order of their declaration. -/
def Accept.fields : List Field := [.event, .buf]

/-- In the order of their declaration. -/
def GetAddrInfoFuture.fields : List Field := [.host, .port, .inner, .event]

/-- In the order of their declaration. -/
def Connect.locals : List Field := [.own]

/-- A future, as far as its drop goes. -/
structure Frame where
  kind : Kind
  event : IoEvent
  own : IoEvent
  /-- `connect` is past the `await` of its lookup. -/
  looked : Bool
  dropped : Bool
  /-- What is still to be dropped of what is being dropped. -/
  dropping : List Field

namespace Frame

inductive Action where
  | event (action : IoEvent.Action)
  | own (action : IoEvent.Action)
  /-- The lookup of `connect` is ready; its future is dropped. -/
  | resolve
  | drop
  /-- The next field. -/
  | next
  deriving DecidableEq

def init (kind : Kind) : Frame where
  kind := kind
  event := .init
  own := .init
  looked := kind = .connect false
  dropped := false
  dropping := []

def alive (s : Frame) : Bool := !s.dropped && s.dropping.isEmpty

/-- What the drop of the future drops, in order. -/
def order (s : Frame) : List Field :=
  match s.kind with
  | .accept => Accept.fields
  | .getAddrInfo => GetAddrInfoFuture.fields
  | .connect _ => (if s.looked then [] else GetAddrInfoFuture.fields) ++ Connect.locals.reverse

/-- Drops begin with the first field, which is gone at once if it is memory. -/
def begin (s : Frame) : List Field → Frame
  | f :: rest => {s with dropping := if f.memory then rest else f :: rest}
  | [] => {s with dropping := []}

/-- The memory that a step releases. -/
def releases (s : Frame) : Action → Option Field
  | .resolve => GetAddrInfoFuture.fields.head?.filter (·.memory)
  | .drop => s.order.head?.filter (·.memory)
  | .next => s.dropping.head?.filter (·.memory)
  | .event _ | .own _ => none

/-- The event of the lookup or the accept is polled by its future, under an `await` until that
is ready. -/
def lets (s : Frame) : IoEvent.Action → Bool
  | .poll _ handle =>
    s.alive && !s.looked && handle == (s.kind == .accept) &&
      (!s.kind.connects || s.event.returned == [])
  | .drop => s.dropping.head? == some .event
  | _ => true

def letsOwn (s : Frame) : IoEvent.Action → Bool
  | .poll _ handle => s.alive && s.looked && handle
  | .drop => s.dropping.head? == some .own
  | _ => true

def next (s : Frame) : Option Frame :=
  match s.dropping with
  | [] => none
  | .event :: rest => if s.event.life = .released then some {s with dropping := rest} else none
  | .own :: rest => if s.own.life = .released then some {s with dropping := rest} else none
  | _ :: rest => some {s with dropping := rest}

def step (s : Frame) : Action → Option Frame
  | .event action =>
    if s.lets action then (IoEvent.step s.event action).map fun event => {s with event} else none
  | .own action =>
    if s.letsOwn action then (IoEvent.step s.own action).map fun own => {s with own} else none
  | .resolve =>
    if s.kind = .connect true ∧ s.alive = true ∧ s.looked = false ∧ s.event.owner = .outside ∧
      s.event.returned ≠ [] then
      some ({s with looked := true}.begin GetAddrInfoFuture.fields)
    else none
  | .drop =>
    if s.alive = true ∧ s.event.owner = .outside ∧ s.own.owner = .outside then
      some ({s with dropped := true}.begin s.order)
    else none
  | .next => s.next

def machine (kind : Kind) : Machine Frame Action := ⟨init kind, step⟩

/-- Memory is released once the operation that has it is over. -/
def Outlives (s : Frame) (a : Action) (_ : Frame) : Prop :=
  ∀ f, s.releases a = some f → s.event.inFlight = false

/-- The condition on a step: a lookup, or a `connect` that still has one to drop, is not
dropped with that in flight. -/
def DropsResolved (s : Frame) (a : Action) (_ : Frame) : Prop :=
  a = .drop → .host ∈ s.order → s.event.inFlight = false

instance (s s' : Frame) (a : Action) : Decidable (DropsResolved s a s') :=
  inferInstanceAs (Decidable (a = .drop → Field.host ∈ s.order → s.event.inFlight = false))

/-- A future that is ready is polled no more. -/
def Once (s : Frame) (a : Action) (_ : Frame) : Prop :=
  ∀ action, a = .event action → action.Once s.event

instance (s s' : Frame) (a : Action) : Decidable (Once s a s') :=
  match a with
  | .event (.poll waker handle) => decidable_of_iff (s.event.returned = [])
    ⟨fun h _ _ _ _ _ => h, fun h => h _ rfl waker handle rfl⟩
  | .event .owner | .event (.resetEvent _) | .event (.issue ..) | .event (.complete _)
  | .event .fire | .event (.callback _) | .event .drop | .event .next | .event .release
  | .own _ | .resolve | .drop | .next => isTrue nofun

/-- A callback of the event's wait takes the word with the operation in flight. -/
def Intrudes (s : Frame) : Action → Prop
  | .event action => s.event.Intrudes action
  | .own _ | .resolve | .drop | .next => False

instance (s : Frame) : (a : Action) → Decidable (s.Intrudes a)
  | .event action => inferInstanceAs (Decidable (s.event.Intrudes action))
  | .own _ | .resolve | .drop | .next => isFalse id

variable {s s' : Frame}

/-! ### What a step can do -/

inductive Moved (s : Frame) : Action → Frame → Prop
  | event (action : IoEvent.Action) (event : IoEvent)
      (hs : IoEvent.step s.event action = some event)
      (ha : s.kind.connects = true → action.Once s.event)
      (hpoll : ∀ waker handle, action = .poll waker handle → s.alive = true ∧ s.looked = false) :
      Moved s (.event action) {s with event}
  | own (action : IoEvent.Action) (own : IoEvent) : Moved s (.own action) {s with own}
  | resolve (hk : s.kind = .connect true) (hd : s.dropped = false) (hl : s.looked = false)
      (ho : s.event.owner = .outside) (hr : s.event.returned ≠ []) :
      Moved s .resolve {s with looked := true, dropping := [.port, .inner, .event]}
  | drop (hd : s.dropping = []) (ho : s.event.owner = .outside) :
      Moved s .drop ({s with dropped := true}.begin s.order)
  | released (f : Field) (rest : List Field) (hd : s.dropping = f :: rest)
      (hf : f.memory = true ∨ f = .event ∧ s.event.life = .released ∨ f = .own) :
      Moved s .next {s with dropping := rest}

theorem alive_iff (s : Frame) : s.alive = true ↔ s.dropped = false ∧ s.dropping = [] := by
  simp [alive]

theorem step_cases {a : Action} (hs : step s a = some s') : Moved s a s' := by
  cases a with
  | event action =>
    simp only [step, Option.ite_none_right_eq_some, Option.map_eq_some_iff] at hs
    obtain ⟨hlets, event, hevent, rfl⟩ := hs
    refine .event action event hevent (fun hk => ?_) ?_
    · rintro waker handle rfl
      simp only [lets, hk, Bool.and_eq_true, Bool.not_true, Bool.false_or, beq_iff_eq] at hlets
      exact hlets.2
    · rintro waker handle rfl
      simp only [lets, Bool.and_eq_true, Bool.not_eq_true'] at hlets
      exact hlets.1.1
  | own action =>
    simp only [step, Option.ite_none_right_eq_some, Option.map_eq_some_iff] at hs
    obtain ⟨_, own, _, rfl⟩ := hs
    exact .own action own
  | resolve =>
    simp only [step, Option.ite_none_right_eq_some, Option.some.injEq] at hs
    obtain ⟨⟨hk, ha, hl, ho, hr⟩, rfl⟩ := hs
    exact .resolve hk (s.alive_iff.mp ha).1 hl ho hr
  | drop =>
    simp only [step, Option.ite_none_right_eq_some, Option.some.injEq] at hs
    obtain ⟨⟨ha, ho, _⟩, rfl⟩ := hs
    exact .drop (s.alive_iff.mp ha).2 ho
  | next =>
    simp only [step, next] at hs
    split at hs
    · cases hs
    · rename_i rest hd
      split at hs <;> cases hs
      rename_i hl
      exact .released .event rest hd (.inr (.inl ⟨rfl, hl⟩))
    · rename_i rest hd
      split at hs <;> cases hs
      exact .released .own rest hd (.inr (.inr rfl))
    · rename_i f rest hevent hown hd
      cases hs
      refine .released f rest hd ?_
      cases f with
      | event => exact absurd rfl (hevent)
      | own => exact absurd rfl (hown)
      | _ => exact .inl rfl

/-! ### An event that nobody polls -/

/-- An owner that does not poll stays outside, and nothing comes to be in flight. -/
theorem event_outside {e e' : IoEvent} {a : IoEvent.Action} (ho : e.owner = .outside)
    (ha : ∀ waker handle, a ≠ .poll waker handle) (hs : e.step a = some e') :
    e'.owner = .outside ∧ (e'.inFlight = true → e.inFlight = true) := by
  cases IoEvent.step_cases hs with
  | poll waker handle => exact absurd rfl (ha waker handle)
  | callback k hcall =>
    have hk := IoEvent.callback_keeps hcall
    exact ⟨hk.owner.trans ho, fun hin => hk.inFlight.symm.trans hin⟩
  | complete => exact ⟨ho, nofun⟩
  | fire | drop | unbusy | closeThreadpoolWait | release => exact ⟨ho, id⟩
  | finish _ hi | resetEvent _ _ hi | setThreadpoolWait _ hi | get _ hi | getOverlappedResult hi
  | schedule hi | busy hi | issue _ _ hi | setIdle _ hi | registerPending hi | setPending hi
  | register hi => exact nomatch ho.symm.trans hi

/-- A released event is not revived. -/
theorem event_released {e e' : IoEvent} {a : IoEvent.Action} (hl : e.life = .released)
    (hs : e.step a = some e') : e'.life = .released := by
  cases IoEvent.step_cases hs with
  | callback k hcall => exact (IoEvent.callback_keeps hcall).life.trans hl
  | get handle =>
    obtain ⟨owner, heq, _⟩ := e.pollGet_eq handle
    rw [heq]
    exact hl
  | resetEvent handle err => cases err <;> exact hl
  | issue clears answer => cases answer <;> exact hl
  | poll _ _ _ hi | drop hi | unbusy hi | closeThreadpoolWait hi | release hi =>
    exact nomatch hl.symm.trans hi
  | _ => exact hl

/-! ### Every step -/

structure Kept (s : Frame) : Prop where
  busy : s.kind = .accept → s.event.Busy
  shot : s.kind.connects = true → s.event.OneShot
  still : s.alive = false ∨ s.looked = true → s.event.owner = .outside
  /-- The buffer of an `Accept` outlasts its event. -/
  accept : s.kind = .accept → s.dropping = [] ∨ s.dropping = Accept.fields ∨
    s.dropping = [.buf] ∧ s.event.life = .released
  memory : s.kind ≠ .accept → (∃ f ∈ s.dropping, f.memory = true) → s.event.inFlight = false

theorem kept_init (kind : Kind) : Kept (init kind) where
  busy := fun _ => IoEvent.busy_init
  shot := fun _ => IoEvent.oneShot_init
  still := fun _ => rfl
  accept := by
    rintro rfl
    exact .inl rfl
  memory := fun _ ⟨_, hf, _⟩ => nomatch hf

theorem not_alive (h : s.dropping ≠ []) : s.alive = false :=
  Bool.eq_false_iff.mpr fun ha => h (s.alive_iff.mp ha).2

theorem Kept.event {action : IoEvent.Action} {event : IoEvent} (h : Kept s)
    (hs : s.event.step action = some event)
    (hi : s.kind = .accept → ¬ s.event.Intrudes action)
    (ha : s.kind.connects = true → action.Once s.event)
    (hpoll : ∀ waker handle, action = .poll waker handle → s.alive = true ∧ s.looked = false) :
    Kept {s with event} := by
  have hquiet (hd : s.alive = false ∨ s.looked = true) : event.owner = .outside ∧
      (event.inFlight = true → s.event.inFlight = true) := by
    refine event_outside (h.still hd) (fun waker handle he => ?_) hs
    obtain ⟨halive, hlooked⟩ := hpoll waker handle he
    rcases hd with hd | hd
    · exact Bool.false_ne_true (hd.symm.trans halive)
    · exact Bool.false_ne_true (hlooked.symm.trans hd)
  refine ⟨fun hk => IoEvent.busy_step (h.busy hk) (hi hk) hs,
    fun hk => IoEvent.oneShot_step (h.shot hk) (ha hk) hs, fun hd => (hquiet hd).1, fun hk => ?_, ?_⟩
  · exact (h.accept hk).imp_right (Or.imp_right fun ⟨hd, hl⟩ => ⟨hd, event_released hl hs⟩)
  · rintro hk ⟨f, hf, hm⟩
    have hd : s.dropping ≠ [] := List.ne_nil_of_mem hf
    have hin := h.memory hk ⟨f, hf, hm⟩
    refine Bool.eq_false_iff.mpr fun hin' => ?_
    exact Bool.false_ne_true (hin.symm.trans ((hquiet (.inl (not_alive hd))).2 hin'))

/-- The memory of a lookup is dropped first; an `Accept` begins with its event. -/
theorem releases_drop (s : Frame) :
    s.releases .drop = if .host ∈ s.order then some .host else none := by
  unfold releases order
  cases s.kind with
  | accept | getAddrInfo => rfl
  | connect resolves => cases s.looked <;> rfl

theorem begin_accept (hk : s.kind = .accept) (t : Frame) :
    (t.begin s.order).dropping = Accept.fields := by
  rw [order, hk]
  rfl

theorem begin_memory (hk : s.kind ≠ .accept) (t : Frame) {f : Field}
    (hf : f ∈ (t.begin s.order).dropping) (hm : f.memory = true) : .host ∈ s.order := by
  unfold order at hf ⊢
  cases hkind : s.kind with
  | accept => exact absurd hkind hk
  | getAddrInfo => exact List.mem_cons_self ..
  | connect resolves =>
    rw [hkind] at hf
    cases hl : s.looked with
    | false => exact List.mem_cons_self ..
    | true =>
      rw [hl] at hf
      obtain rfl := List.mem_singleton.mp hf
      cases hm

theorem begin_kept (s : Frame) (fields : List Field) :
    (s.begin fields).event = s.event ∧ (s.begin fields).kind = s.kind := by
  unfold begin
  split <;> exact ⟨rfl, rfl⟩

/-- **The step lemma**. -/
theorem kept_step {a : Action} (h : Kept s) (hi : s.kind = .accept → ¬ s.Intrudes a)
    (ha : DropsResolved s a s') (hs : step s a = some s') : Kept s' := by
  cases step_cases hs with
  | event action event hevent honce hpoll => exact h.event hevent hi honce hpoll
  | own => exact ⟨h.busy, h.shot, h.still, h.accept, h.memory⟩
  | resolve hk hd hl ho hr =>
    have hended := (h.shot (by rw [hk]; rfl)).ended hr
    exact ⟨h.busy, h.shot, fun _ => ho, fun hk' => absurd (hk.symm.trans hk') nofun,
      fun _ _ => hended⟩
  | drop hd ho =>
    obtain ⟨hevent, hkind⟩ := begin_kept {s with dropped := true} s.order
    refine ⟨?_, ?_, fun _ => ?_, fun hk => .inr (.inl ?_), fun hk hm => ?_⟩
    · rw [hkind, hevent]
      exact h.busy
    · rw [hkind, hevent]
      exact h.shot
    · rw [hevent]
      exact ho
    · rw [hkind] at hk
      exact begin_accept hk _
    · obtain ⟨f, hf, hm⟩ := hm
      rw [hkind] at hk
      rw [hevent]
      exact ha rfl (begin_memory hk _ hf hm)
  | released f rest hd hf =>
    have hdropping := not_alive (s := s) (by rw [hd]; nofun)
    refine ⟨h.busy, h.shot, fun _ => h.still (.inl hdropping), fun hk => ?_, fun hk hm => ?_⟩
    · rcases h.accept hk with hd' | hd' | ⟨hd', _⟩ <;> cases hd.symm.trans hd'
      · rcases hf with hf | ⟨_, hl⟩ | hf
        · cases hf
        · exact .inr (.inr ⟨rfl, hl⟩)
        · cases hf
      · exact .inl rfl
    · obtain ⟨g, hg, hm⟩ := hm
      refine h.memory hk ⟨g, ?_, hm⟩
      rw [hd]
      exact List.mem_cons_of_mem f hg

theorem Kept.outlives {a : Action} (h : Kept s) (ha : DropsResolved s a s')
    (hs : step s a = some s') : Outlives s a s' := by
  intro f hf
  cases step_cases hs with
  | event | own => cases hf
  | resolve hk _ _ _ hr => exact (h.shot (by rw [hk]; rfl)).ended hr
  | drop =>
    rw [releases_drop] at hf
    split at hf <;> cases hf
    rename_i hhost
    exact ha rfl hhost
  | released g rest hd =>
    rw [releases, hd] at hf
    obtain ⟨hg, hm⟩ := Option.filter_eq_some_iff.mp hf
    cases hg
    by_cases hk : s.kind = .accept
    · rcases h.accept hk with hd' | hd' | ⟨hd', hl⟩ <;> cases hd.symm.trans hd'
      · cases hm
      · exact (h.busy hk).gone (by rw [hl]; rfl)
    · refine h.memory hk ⟨f, ?_, hm⟩
      rw [hd]
      exact List.mem_cons_self ..

theorem step_kind {a : Action} (hs : step s a = some s') : s'.kind = s.kind := by
  cases step_cases hs with
  | drop => exact (begin_kept {s with dropped := true} s.order).2
  | _ => rfl

/-- The event of a future that is polled until it is ready. -/
theorem oneShot_event {a : Action} (h : s.event.OneShot) (ha : Once s a s')
    (hs : step s a = some s') : s'.event.OneShot := by
  cases step_cases hs with
  | event action event hevent => exact IoEvent.oneShot_step h (ha action rfl) hevent
  | drop =>
    rw [(begin_kept {s with dropped := true} s.order).1]
    exact h
  | _ => exact h

theorem not_intrudes (h : s.event.OneShot) (a : Action) : ¬ s.Intrudes a := by
  cases a with
  | event action => exact h.not_intrudes action
  | _ => exact id

/-- What is released in time at a drop was not in flight. -/
theorem Outlives.dropsResolved {a : Action} (h : Outlives s a s') : DropsResolved s a s' := by
  rintro rfl hhost
  refine h .host ?_
  rw [releases_drop, if_pos hhost]

/-- **The memory of an `Accept`, a lookup or a `connect` outlives the operation that has
it** exactly when none is dropped with its lookup in flight; an `Accept` has none, and may
be dropped at any time, if it has been polled only until it was ready, or else if no
callback of its wait has taken the word with the operation in flight. -/
theorem buffers_outlive (kind : Kind) (as : List Action) :
    ((kind = .accept → (machine kind).Steps Once (init kind) as) →
      ((machine kind).Steps Outlives (init kind) as ↔
        (machine kind).Steps DropsResolved (init kind) as)) ∧
    ((machine kind).Steps (fun s a s' => ¬ s.Intrudes a ∧ DropsResolved s a s') (init kind) as →
      (machine kind).Steps Outlives (init kind) as) := by
  refine ⟨fun honce => ⟨fun h => ?_, fun h => ?_⟩, fun h => ?_⟩
  · exact h.mono fun _ _ _ _ hout => hout.dropsResolved
  · by_cases hk : kind = .accept
    · exact Machine.Steps.of_invariant (I := fun s => Kept s ∧ s.event.OneShot)
        (fun _ a _ hI hok hs => ⟨⟨kept_step hI.1 (fun _ => not_intrudes hI.2 a) hok.2 hs,
          oneShot_event hI.2 hok.1 hs⟩, hI.1.outlives hok.2 hs⟩)
        ⟨kept_init kind, IoEvent.oneShot_init⟩ ((honce hk).and h)
    · exact Machine.Steps.of_invariant (I := fun s => Kept s ∧ s.kind = kind)
        (fun _ _ _ hI hok hs => ⟨⟨kept_step hI.1 (fun hk' => absurd (hI.2.symm.trans hk') hk) hok hs,
          (step_kind hs).trans hI.2⟩, hI.1.outlives hok hs⟩)
        ⟨kept_init kind, rfl⟩ h
  · exact Machine.Steps.of_invariant (I := Kept) (fun _ _ _ hI hok hs =>
      ⟨kept_step hI (fun _ => hok.1) hok.2 hs, hI.outlives hok.2 hs⟩) (kept_init kind) h

/-- An `Accept` is dropped with its operation in flight, and a client connects after all. -/
def droppedAccept : List Action :=
  [.event (.poll 0 true), .event .owner, .event .owner, .event (.issue true .pending),
   .event .owner, .event .owner, .drop, .event .drop, .event (.complete 0), .event .fire,
   .event (.callback 1), .event (.callback 1), .event (.callback 1), .event (.callback 1),
   .event .next, .event .next, .event .release, .next, .next]

theorem buffers_outlive_accept :
    ((machine .accept).Steps Outlives (init .accept) droppedAccept ↔
      (machine .accept).Steps DropsResolved (init .accept) droppedAccept) ∧
    (machine .accept).Steps Outlives (init .accept) droppedAccept :=
  ⟨(buffers_outlive .accept droppedAccept).1 fun _ => by decide,
    (buffers_outlive .accept droppedAccept).2 (by decide)⟩

/-- A lookup is polled once and dropped: its strings and its result slot go first. -/
theorem pending_lookup_released : ¬ ∀ (kind : Kind) (as : List Action),
    (machine kind).Steps Outlives (init kind) as := by
  intro h
  have hresolved := (h .getAddrInfo [.event (.poll 0 false), .event .owner, .event .owner,
    .event (.issue true .pending), .event .owner, .event .owner, .drop]).mono
    fun _ _ _ _ hout => hout.dropsResolved
  exact absurd hresolved (by decide)

end Frame

end Wae.Net
