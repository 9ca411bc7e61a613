import Wae.Net.Lookup
import Wae.Transition.Beside

/-! Who frees the list that a lookup is answered with.

The resolver makes the list and leaves its address in the future. Where `poll` returns
`Ok`, the iterator takes the address along, and its drop gives it to `FreeAddrInfoExW`.
The future's own drop frees nothing. -/
namespace Wae.Net
open Transition Io

/-- The lists there have been, and the iterator. -/
structure Lists (L : Type) where
  made : List L
  /-- What the iterator was made of, until it is dropped. -/
  iter : Option (Option L)
  /-- What `FreeAddrInfoExW` was called with. -/
  freed : List (Option L)
  deriving DecidableEq, Repr

namespace Lists
variable {L : Type}

inductive Part (L : Type) where
  | make (list : L)
  | give (result : Option L)
  deriving DecidableEq, Repr

def step (s : Lists L) : Part L ⊕ Unit → Option (Lists L)
  | .inl (.make list) => some {s with made := list :: s.made}
  | .inl (.give result) => some {s with iter := some result}
  -- the iterator is dropped
  | .inr () => s.iter.map fun result => {s with iter := none, freed := result :: s.freed}

def machine : Machine (Lists L) (Part L ⊕ Unit) := ⟨⟨[], none, []⟩, step⟩

end Lists

namespace Lookup
variable {L : Type} (outcome : Outcome L)

/-- The steps in which the resolver leaves its outcome. -/
def resolves : Action → Bool
  | .issue _ atOnce _ => atOnce
  | .complete => true
  | .poll _ | .owner | .resetEvent _ | .fire | .callback _ | .drop | .next | .release => false

/-- What the step makes `poll` return. -/
def outputs (s : Lookup L) (a : Action) : List (Option (Except IoError (Option L))) :=
  match a, s.event.owner with
  | .owner, .setIdle reading => [s.output reading]
  | _, _ => []

/-- What the iterators among these are made of. -/
def iterators (returned : List (Option (Except IoError (Option L)))) : List (Option L) :=
  returned.filterMap fun r => r.bind Except.toOption

def part (s : Lookup L × Course) (a : Action) : Option (Lists.Part L) :=
  if resolves a then outcome.toOption.map .make else (iterators (s.1.outputs a)).head?.map .give

/-- A lookup, what becomes of its lists, and when its iterator is dropped. -/
def listed : Machine ((Lookup L × Course) × Lists L) (Action ⊕ Unit) :=
  (course.watch (machine outcome)).beside (part outcome) Lists.machine

/-! ### When the list is made, and when it is given away -/

/-- The resolver has left its outcome. -/
def Resolved (s : Lookup L) (c : Course) : Prop :=
  c.answered = some true ∨ c.answered = some false ∧ s.event.inFlight = false

instance (s : Lookup L) (c : Course) : Decidable (Resolved s c) :=
  inferInstanceAs (Decidable (_ ∨ _))

variable {outcome : Outcome L} {s s' : Lookup L} {a : Action} {c : Course}

theorem returnedNext_eq (s : Lookup L) (a : Action) :
    s.returnedNext a = s.outputs a ++ s.returned := by
  unfold returnedNext outputs
  cases a with
  | owner => cases s.event.owner <;> rfl
  | _ => rfl

/-- An operation in flight was one that is answered late; so is one that `ResetEvent` fails
after. -/
structure Late (s : Lookup L) (c : Course) : Prop where
  flying : s.event.inFlight = true → c.answered = some false
  failed : c.failed ≠ none → c.answered = some false
  /-- And what is returned was answered. -/
  asked : s.returned ≠ [] ∨ (∃ reading, s.event.owner = .setIdle reading) → c.answered ≠ none

theorem late_init (outcome : Outcome L) : Late (machine outcome).init ⟨none, none⟩ where
  flying := nofun
  failed h := absurd rfl h
  asked h := h.elim (absurd rfl) nofun

/-- Only the call and the completion tell of the operation in flight. -/
theorem still_event {e e' : IoEvent} {b : IoEvent.Action} (hs : IoEvent.step e b = some e')
    (hi : ∀ clears answer, b ≠ .issue clears answer) (hc : ∀ status, b ≠ .complete status)
    (c : Course) : e'.inFlight = e.inFlight ∧ (c.see b).answered = c.answered := by
  cases IoEvent.step_cases hs with
  | issue clears answer => exact absurd rfl (hi clears answer)
  | complete status => exact absurd rfl (hc status)
  | callback k hcall => exact ⟨(IoEvent.callback_keeps hcall).inFlight, rfl⟩
  | resetEvent handle err => cases err <;> exact ⟨rfl, rfl⟩
  | get handle =>
    obtain ⟨owner, heq, _⟩ := e.pollGet_eq handle
    rw [heq]
    exact ⟨rfl, rfl⟩
  | _ => exact ⟨rfl, rfl⟩

theorem complete_event {e e' : IoEvent} {status : UInt32}
    (hs : IoEvent.step e (.complete status) = some e') :
    e.inFlight = true ∧ e'.inFlight = false := by
  cases IoEvent.step_cases hs with
  | complete _ hin => exact ⟨hin, rfl⟩

/-- When the resolver is called, nothing has come of the lookup yet. -/
theorem Follows.issuing (h : Follows outcome s c) (ho : s.event.owner = .issue) :
    c = ⟨none, none⟩ ∧ s.event.inFlight = false := by
  have hunread := h.answered.oneShot.unread (by rw [ho]; nofun)
  have hanswered := h.answered.unasked hunread (.inr ho)
  have hfailed := h.answered.unfailed hunread (by rw [ho]; nofun)
  obtain ⟨answered, failed⟩ := c
  subst hanswered hfailed
  exact ⟨rfl, h.answered.oneShot.busy.issuing ho⟩

theorem Late.flying_step {b : IoEvent.Action} {e' : IoEvent} (h : Follows outcome s c)
    (hl : Late s c) (hevent : IoEvent.step s.event b = some e') (hin : e'.inFlight = true) :
    (c.see b).answered = some false := by
  by_cases hi : ∃ clears answer, b = .issue clears answer
  · obtain ⟨clears, answer, rfl⟩ := hi
    obtain ⟨ho, rfl⟩ := issue_eq hevent
    have hout := (h.issuing ho).2
    cases answer with
    | pending => rfl
    | accepted | failed => cases hout.symm.trans hin
  · by_cases hc : ∃ status, b = .complete status
    · obtain ⟨status, rfl⟩ := hc
      cases (complete_event hevent).2.symm.trans hin
    · obtain ⟨heq, hsee⟩ := still_event hevent (fun clears answer hb => hi ⟨clears, answer, hb⟩)
        (fun status hb => hc ⟨status, hb⟩) c
      exact hsee.trans (hl.flying (heq ▸ hin))

/-- `ResetEvent` is called with the word `READY`, which a callback has stored. -/
theorem Late.failed_step {b : IoEvent.Action} {e' : IoEvent} (h : Follows outcome s c)
    (hl : Late s c) (hevent : IoEvent.step s.event b = some e') (hf : (c.see b).failed ≠ none) :
    (c.see b).answered = some false := by
  cases b with
  | issue clears answer =>
    exact absurd (congrArg Course.failed (h.issuing (issue_eq hevent).1).1) hf
  | resetEvent err =>
    cases err with
    | none => exact hl.failed hf
    | some err =>
      cases IoEvent.step_cases hevent with
      | resetEvent handle _ ho =>
        have hfits := h.answered.oneShot.busy.sole.owner
        rw [ho] at hfits
        have hready : s.event.state = .ready := hfits
        show c.answered = some false
        by_contra hc
        rcases h.answered.early hc with hw | hw <;> cases hready.symm.trans hw
  | poll | owner | complete | fire | callback | drop | next | release => exact hl.failed hf

theorem Late.asked_step {b : IoEvent.Action} (h : Follows outcome s c) (hl : Late s c)
    (hs : step outcome s a = some s') (hb : s.act outcome a = some b)
    (hevent : IoEvent.step s.event b = some s'.event)
    (ha : s'.returned ≠ [] ∨ ∃ reading, s'.event.owner = .setIdle reading) :
    (c.see b).answered ≠ none := by
  rcases ha with hr | ⟨reading, ho'⟩
  · rcases returned_step hs hb hevent with ⟨reading, rfl, ho, _, _⟩ | ⟨_, heq⟩
    · exact hl.asked (.inr ⟨reading, ho⟩)
    · rw [heq] at hr
      rw [h.see_returned hr hevent]
      exact hl.asked (.inl hr)
  · rcases reading_event h.answered hevent ho' with
      ⟨ho, _, hsee⟩ | ⟨clears, answer, rfl, _⟩ | ⟨err, rfl, _, hc⟩ | ⟨rfl, _, hc, _⟩
    · rw [hsee]
      exact hl.asked (.inr ⟨reading, ho⟩)
    · nofun
    · show c.answered ≠ none
      rw [hc]
      nofun
    · show c.answered ≠ none
      rw [hc]
      nofun

theorem late_step (h : Follows outcome s c) (hl : Late s c) (hs : step outcome s a = some s') :
    Late s' (course.see s a s' c) := by
  obtain ⟨b, hb, hevent, _⟩ := step_eq hs
  rw [see_act hb]
  exact ⟨hl.flying_step h hevent, hl.failed_step h hevent, hl.asked_step h hs hb hevent⟩

theorem resolved_still {b : IoEvent.Action} (hb : s.act outcome a = some b)
    (hevent : IoEvent.step s.event b = some s'.event)
    (hi : ∀ clears answer, b ≠ .issue clears answer) (hc : ∀ status, b ≠ .complete status) :
    Resolved s' (course.see s a s' c) ↔ Resolved s c := by
  obtain ⟨heq, hsee⟩ := still_event hevent hi hc c
  rw [see_act hb, Resolved, Resolved, hsee, heq]

/-- The resolver leaves its outcome once. -/
theorem resolved_step (h : Follows outcome s c) (hl : Late s c) (hs : step outcome s a = some s') :
    (resolves a = true → ¬ Resolved s c ∧ Resolved s' (course.see s a s' c)) ∧
      (resolves a = false → (Resolved s' (course.see s a s' c) ↔ Resolved s c)) := by
  obtain ⟨b, hb, hevent, _⟩ := step_eq hs
  cases a with
  | issue clears atOnce signals =>
    cases hb
    obtain ⟨ho, hpoll⟩ := issue_eq hevent
    obtain ⟨rfl, hout⟩ := h.issuing ho
    have hbefore : ¬ Resolved s ⟨none, none⟩ := by simp [Resolved]
    cases atOnce with
    | true => exact ⟨fun _ => ⟨hbefore, .inl rfl⟩, fun hr => (by cases hr)⟩
    | false =>
      have hin : s'.event.inFlight = true := by
        rw [hpoll]
        rfl
      refine ⟨fun hr => (by cases hr), fun _ => iff_of_false ?_ hbefore⟩
      rintro (hans | ⟨_, hnot⟩)
      · cases hans
      · cases hnot.symm.trans hin
  | complete =>
    cases hb
    obtain ⟨hin, hin'⟩ := complete_event hevent
    have hc := hl.flying hin
    have hbefore : ¬ Resolved s c := by simp [Resolved, hc, hin]
    exact ⟨fun _ => ⟨hbefore, .inr ⟨hc, hin'⟩⟩, fun hr => (by cases hr)⟩
  | poll waker =>
    have hstill := resolved_still (c := c) hb hevent
    obtain ⟨_, rfl⟩ := act_poll hb
    exact ⟨fun hr => (by cases hr),
      fun _ => hstill (fun _ _ h => by cases h) (fun _ h => by cases h)⟩
  | owner | resetEvent | fire | callback | drop | next | release =>
    have hstill := resolved_still (c := c) hb hevent
    cases hb
    exact ⟨fun hr => (by cases hr),
      fun _ => hstill (fun _ _ h => by cases h) (fun _ h => by cases h)⟩

/-- A future returns once. -/
theorem Follows.outputs_once (h : Follows outcome s c) (ho : s.outputs a ≠ []) :
    s.returned = [] ∧ ∃ reading, a = .owner ∧ s.event.owner = .setIdle reading ∧
      s.outputs a = [s.output reading] := by
  unfold outputs at ho ⊢
  split at ho <;> rename_i hset
  · refine ⟨h.unreturned.mpr (h.answered.oneShot.unread (by rw [hset]; nofun)), _, rfl, hset, rfl⟩
  · exact absurd rfl ho

/-! ### Where each list is -/

/-- The invariant: what the resolver has made, and what of it `poll` has returned, is with
the iterator or was freed. -/
structure Accounts (outcome : Outcome L) (s : (Lookup L × Course) × Lists L) : Prop where
  follows : Follows outcome s.1.1 s.1.2
  late : Late s.1.1 s.1.2
  made : s.2.made = if Resolved s.1.1 s.1.2 then outcome.toOption.toList else []
  given : s.2.iter.toList ++ s.2.freed = iterators s.1.1.returned
  once : s.1.1.returned.length ≤ 1

variable {lists lists' : Lists L}

theorem accounts_init : Accounts outcome (listed outcome).init where
  follows := follows_init
  late := late_init outcome
  made := rfl
  given := rfl
  once := Nat.zero_le _

/-- A step of the resolver. -/
theorem Accounts.resolver (h : Accounts outcome ((s, c), lists)) (hs : step outcome s a = some s')
    (hr : resolves a = true) (hl : lists' = {lists with made := outcome.toOption.toList ++ lists.made}) :
    Accounts outcome ((s', course.see s a s' c), lists') := by
  obtain ⟨hfollows, hlate, hmade, hgiven, honce⟩ := h
  obtain ⟨hbefore, hafter⟩ := (resolved_step hfollows hlate hs).1 hr
  obtain ⟨_, _, _, _, hreturned⟩ := step_eq hs
  have hsame : s'.returned = s.returned := by
    rw [hreturned]
    cases a <;> first | rfl | cases hr
  rw [if_neg hbefore] at hmade
  subst hl
  refine ⟨follows_step hfollows hs, late_step hfollows hlate hs, ?_, ?_, ?_⟩
  · show outcome.toOption.toList ++ lists.made = _
    rw [if_pos hafter, show lists.made = [] from hmade, List.append_nil]
  · rw [hsame]
    exact hgiven
  · rw [hsame]
    exact honce

/-- Any other step of the lookup. -/
theorem Accounts.polls (h : Accounts outcome ((s, c), lists)) (hs : step outcome s a = some s')
    (hr : resolves a = false) (hl : lists' =
      {lists with iter := (iterators (s.outputs a)).head?.or lists.iter}) :
    Accounts outcome ((s', course.see s a s' c), lists') := by
  obtain ⟨hfollows, hlate, hmade, hgiven, honce⟩ := h
  have hsame := (resolved_step hfollows hlate hs).2 hr
  obtain ⟨_, _, _, _, hreturned⟩ := step_eq hs
  rw [returnedNext_eq] at hreturned
  subst hl
  refine ⟨follows_step hfollows hs, late_step hfollows hlate hs, ?_, ?_, ?_⟩
  · show lists.made = _
    rw [show lists.made = _ from hmade]
    exact if_congr hsame.symm rfl rfl
  · show ((iterators (s.outputs a)).head?.or lists.iter).toList ++ lists.freed = iterators s'.returned
    rw [hreturned]
    by_cases ho : s.outputs a = []
    · rw [ho]
      exact hgiven
    · obtain ⟨hnone, reading, _, _, heq⟩ := hfollows.outputs_once ho
      rw [show s.returned = [] from hnone] at hgiven
      obtain ⟨hiter, hfreed⟩ := List.append_eq_nil_iff.mp hgiven
      rw [heq, hnone, List.append_nil, show lists.freed = [] from hfreed,
        show lists.iter = none from Option.toList_eq_nil_iff.mp hiter]
      unfold iterators
      cases hread : (s.output reading).bind Except.toOption <;> simp [hread]
  · show s'.returned.length ≤ 1
    rw [hreturned]
    by_cases ho : s.outputs a = []
    · rw [ho]
      exact honce
    · obtain ⟨hnone, _, _, _, heq⟩ := hfollows.outputs_once ho
      rw [heq, hnone]
      exact Nat.le_refl 1

/-- The part of the lists in a step. -/
theorem listed_some {c c' : Course} {b : Lists.Part L} (hp : part outcome (s, c) a = some b)
    (hs : (listed outcome).step ((s, c), lists) (.inl a) = some ((s', c'), lists')) :
    Lists.step lists (.inl b) = some lists' :=
  ((Machine.beside_some (s := ((s, c), lists)) hp).mp hs).2

/-- **The step lemma.** -/
theorem accounts_step {s s' : (Lookup L × Course) × Lists L} {b : Action ⊕ Unit}
    (h : Accounts outcome s) (hs : (listed outcome).step s b = some s') : Accounts outcome s' := by
  obtain ⟨⟨s, c⟩, lists⟩ := s
  obtain ⟨⟨t, c'⟩, lists'⟩ := s'
  cases b with
  | inl a =>
    -- what the lookup does, and what that is to the lists
    have hwatch : (course.watch (machine outcome)).step (s, c) a = some (t, c') := by
      cases hp : part outcome (s, c) a with
      | none => exact ((Machine.beside_none hp).mp hs).1
      | some b => exact ((Machine.beside_some hp).mp hs).1
    obtain ⟨hstep, hc⟩ := Observer.watch_step hwatch
    obtain rfl : c' = course.see s a t c := hc
    cases hr : resolves a with
    | true =>
      refine h.resolver hstep hr ?_
      cases outcome with
      | error code =>
        have hp : part (.error code) (s, c) a = none := by simp [part, hr, Except.toOption]
        exact ((Machine.beside_none hp).mp hs).2
      | ok list =>
        have hp : part (.ok list) (s, c) a = some (.make list) := by simp [part, hr, Except.toOption]
        exact (Option.some.inj (listed_some hp hs)).symm
    | false =>
      refine h.polls hstep hr ?_
      cases hiter : (iterators (s.outputs a)).head? with
      | none =>
        have hp : part outcome (s, c) a = none := by simp [part, hr, hiter]
        exact ((Machine.beside_none hp).mp hs).2
      | some result =>
        have hp : part outcome (s, c) a = some (.give result) := by simp [part, hr, hiter]
        exact (Option.some.inj (listed_some hp hs)).symm
  | inr u =>
    obtain ⟨hsame, hdrop⟩ := Machine.beside_own.mp hs
    obtain ⟨result, hiter, rfl⟩ := Option.map_eq_some_iff.mp hdrop
    obtain ⟨rfl, rfl⟩ := Prod.mk.inj hsame
    refine ⟨h.follows, h.late, h.made, ?_, h.once⟩
    have hgiven := h.given
    rw [show lists.iter = some result from hiter] at hgiven
    exact hgiven

/-- What a lookup has returned, if it has: its result, by then left by the resolver. -/
theorem Accounts.returned (h : Accounts outcome ((s, c), lists)) (hr : s.returned ≠ []) :
    s.returned = [some (returns outcome c)] ∧ Resolved s c := by
  obtain ⟨hfollows, hlate, _, _, honce⟩ := h
  have hasked := hlate.asked (.inl hr)
  have hended := hfollows.answered.oneShot.ended (mt hfollows.unreturned.mpr hr)
  constructor
  · obtain ⟨r, hone⟩ := List.length_eq_one_iff.mp
      (Nat.le_antisymm honce (List.length_pos_iff.mpr hr))
    have hone : s.returned = [r] := hone
    rw [hone, hfollows.returned r (hone ▸ List.mem_singleton_self r)]
  · cases hans : c.answered with
    | none => exact absurd hans hasked
    | some atOnce =>
      cases atOnce with
      | true => exact .inl hans
      | false => exact .inr ⟨hans, hended⟩

/-- `poll` returns an error for a list only where `ResetEvent` has failed. -/
theorem returns_error {list : L} {err : IoError} (hr : returns (.ok list) c = .error err) :
    c.failed ≠ none := by
  unfold returns at hr
  split at hr
  · cases hr
  · intro hf
    rw [hf] at hr
    cases hr

theorem Late.returns_ok {result : Option L} (h : Late s c) (hr : returns outcome c = .ok result) :
    c.failed = none := by
  by_contra hf
  have hans := h.failed hf
  have hprompt : c.answered ≠ some true := by simp [hans]
  rw [returns, if_neg hprompt] at hr
  cases hfailed : c.failed with
  | none => exact hf hfailed
  | some err =>
    rw [hfailed] at hr
    cases hr

/-- An iterator is made of the list, where there is one. -/
theorem Accounts.iterator (h : Accounts outcome ((s, c), lists)) {result : Option L}
    (hr : returns outcome c = .ok result) (hreturned : s.returned ≠ []) :
    result.toList = lists.made := by
  have hresolved := (h.returned hreturned).2
  have hmade := h.made
  rw [if_pos hresolved] at hmade
  rw [show lists.made = _ from hmade]
  unfold returns at hr
  cases outcome with
  | ok list =>
    split at hr
    · cases hr
      rfl
    · unfold Lookup.late at hr
      split at hr <;> cases hr
      rfl
  | error code =>
    split at hr
    · cases hr
    · unfold Lookup.late at hr
      split at hr <;> cases hr
      rfl

/-- What becomes of the lists. -/
structure Freed (outcome : Outcome L) (s : (Lookup L × Course) × Lists L) : Prop where
  made : s.2.made = [] ∨ ∃ list, outcome = .ok list ∧ s.2.made = [list]
  /-- `FreeAddrInfoExW` is called once, by the iterator's drop: with the list, or with
  nothing where there is none. -/
  freed : ∀ result, s.2.iter.toList ++ s.2.freed = [result] → result.toList = s.2.made
  once : (s.2.iter.toList ++ s.2.freed).length ≤ 1
  /-- A list is left where `poll` has not returned, and where `ResetEvent` has failed in it. -/
  left : s.2.iter = none → (s.2.freed.flatMap Option.toList ≠ s.2.made ↔
    s.2.made ≠ [] ∧ (s.1.1.returned = [] ∨ s.1.2.failed ≠ none))

theorem Accounts.freed {s : (Lookup L × Course) × Lists L} (h : Accounts outcome s) :
    Freed outcome s := by
  obtain ⟨⟨s, c⟩, lists⟩ := s
  have hgiven : lists.iter.toList ++ lists.freed = iterators s.returned := h.given
  have hmade : lists.made = if Resolved s c then outcome.toOption.toList else [] := h.made
  refine ⟨?_, fun result hone => ?_, ?_, fun hiter => ?_⟩
  · show lists.made = [] ∨ _
    rw [hmade]
    split
    · cases outcome with
      | ok list => exact .inr ⟨list, rfl, rfl⟩
      | error code => exact .inl rfl
    · exact .inl rfl
  · have hreturned : s.returned ≠ [] := by
      rintro hnil
      rw [hnil] at hgiven
      cases hgiven.symm.trans hone
    obtain ⟨hall, _⟩ := h.returned hreturned
    rw [hall] at hgiven
    have hresult : iterators [some (returns outcome c)] = [result] := hgiven.symm.trans hone
    cases hr : returns outcome c with
    | error err =>
      rw [hr] at hresult
      cases hresult
    | ok result' =>
      rw [hr] at hresult
      obtain rfl : result' = result := List.singleton_inj.mp hresult
      exact h.iterator hr hreturned
  · show (lists.iter.toList ++ lists.freed).length ≤ 1
    rw [hgiven]
    exact Nat.le_trans (List.length_filterMap_le ..) h.once
  · show lists.freed.flatMap Option.toList ≠ lists.made ↔
      lists.made ≠ [] ∧ (s.returned = [] ∨ c.failed ≠ none)
    rw [show lists.iter = none from hiter] at hgiven
    have hfreed : lists.freed = iterators s.returned := hgiven
    by_cases hreturned : s.returned = []
    · rw [hfreed, hreturned]
      exact ⟨fun hne => ⟨hne.symm, .inl rfl⟩, fun hne => hne.1.symm⟩
    · obtain ⟨hall, _⟩ := h.returned hreturned
      rw [hall] at hfreed
      cases hr : returns outcome c with
      | ok result =>
        rw [hr] at hfreed
        have hfree : lists.freed.flatMap Option.toList = lists.made := by
          rw [hfreed, ← h.iterator hr hreturned]
          exact List.append_nil _
        have hfailed := h.late.returns_ok hr
        exact iff_of_false (fun hne => hne hfree)
          fun ⟨_, hor⟩ => hor.elim hreturned fun hf => hf hfailed
      | error err =>
        rw [hr] at hfreed
        rw [hfreed]
        refine ⟨fun hne => ⟨hne.symm, .inr ?_⟩, fun hne => hne.1.symm⟩
        cases outcome with
        | ok list => exact returns_error hr
        | error code =>
          rw [hmade] at hne
          split at hne <;> exact absurd rfl hne

/-- **The list of a lookup is freed once**, or never: in every run, the resolver makes one
list at most, `FreeAddrInfoExW` is called at most once, never on anything but that list,
and the list is left just where no poll has returned it. -/
theorem list_freed (outcome : Outcome L) (as : List (Action ⊕ Unit)) :
    (listed outcome).Steps (fun _ _ s' => Freed outcome s') (listed outcome).init as :=
  .of_kept (fun _ _ _ h hs => ⟨accounts_step h hs, (accounts_step h hs).freed⟩) accounts_init as

/-- Answered, and dropped before it is polled again: the list is left. -/
example : ((listed (.ok 7 : Outcome Nat)).run (listed (.ok 7)).init
    ([Action.poll 0, .owner, .owner, .issue true false false, .owner, .owner, .complete, .fire,
      .callback 1, .callback 1, .callback 1, .callback 1, .callback 1, .drop, .next, .next,
      .release].map .inl)).map Prod.snd = some ⟨[7], none, []⟩ := by
  rfl

/-- Polled first, and the iterator dropped: it is freed. -/
example : ((listed (.ok 7 : Outcome Nat)).run (listed (.ok 7)).init
    (lately.map .inl ++ [.inl .drop, .inr ()])).map Prod.snd = some ⟨[7], none, [some 7]⟩ := by
  rfl

end Lookup

end Wae.Net
