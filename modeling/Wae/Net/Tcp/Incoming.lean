import Mathlib.Data.List.Induction
import Wae.Net.Tcp.Listener
import Wae.Transition.Observer

/-! What an `Incoming` yields.

It is one `Accept` after another: where one comes ready the next is made, and only then the
stream returns the output. So every run of an `Incoming` is runs of `accept`, each from its
beginning to its end, and one that is not over; and no output is lost on the way, unless
making the next `Accept` panics, which it does not once a connection has been accepted. -/
namespace Wae.Net.Tcp.TcpListener
open Io Transition

/-- The actions of a run, of an `Accept` as of an `Incoming`. -/
abbrev Act := Custody.Action Leave Reply

/-- What an `Accept` comes to, and what the stream's items are. -/
abbrev Output := Except IoError SOCKET

def acceptMachine : Machine (Custody Owner (Stage Accept)) Act :=
  Custody.machine accept (.runs .socket)

def incomingMachine : Machine (Custody Owner (Stage Incoming)) Act :=
  Custody.machine incoming (.runs ⟨.socket, none⟩)

/-- Runs of `accept` one after the other, with their outputs. -/
inductive Accepts : List Act → List (Resource Owner) → List Output → Prop
  | none : Accepts [] [] []
  | next {as bs : List Act} {resources resources' : List (Resource Owner)}
      {outputs : List Output} {output : Output} (h : Accepts as resources outputs)
      (hrun : acceptMachine.run ⟨resources, .runs .socket⟩ bs =
        some ⟨resources', .ended (.returned output)⟩) :
      Accepts (as ++ bs) resources' (outputs ++ [output])

structure Yields where
  /-- The outputs of the `Accept`s that came ready. -/
  accepted : List Output
  /-- What the stream has returned. -/
  items : List Output

def yields : Observer (Custody Owner (Stage Incoming)) Act Yields where
  init := ⟨[], []⟩
  see s a s' y :=
    match a, s.point, s'.point with
    | .answer _, .runs p, .runs q =>
      { accepted := y.accepted ++ if p.output.isNone then q.output.toList else []
        items := y.items ++ if q.output.isNone then p.output.toList else [] }
    | _, _, _ => y

/-- Where its `Accept` stands. -/
def current : Stage Incoming → Stage Accept
  | .runs p => .runs p.accept
  | .ended exit => .ended exit

/-- What has been accepted and not returned: the output that the stream is about to return,
and at its end nothing but an error. -/
def Late : Stage Incoming → List Output → Prop
  | .runs p, late => late = p.output.toList
  | .ended _, late => late.length ≤ 1 ∧ ∀ output ∈ late, output.toOption = none

/-- `listener.accept()` is being made. -/
def Accept.Making : Accept → Prop
  | .socket | .environ _ | .event _ => True
  | .waiting _ _ | .current _ | .handle _ | .asStd _ => False

/-! ### A step of the `Accept` -/

/-- What a step that makes an `Accept` comes to: it goes on, the `Accept` is made, or there
is no context. -/
theorem making_step {p : Accept} {reply : Reply} {step : Step Accept} (hm : p.Making)
    (hs : p.code reply = some step) (s : Custody Owner (Stage Accept)) :
    (∃ q, (s.take step).point = .runs q ∧ (q.Making ∨ ∃ client event, q = .waiting client event)) ∨
      (s.take step).point = .ended .panicked ∧ reply = .panic := by
  cases p with
  | socket =>
    cases reply <;> cases hs
    · exact .inl ⟨_, rfl, .inl trivial⟩
    · exact .inl ⟨_, rfl, .inl trivial⟩
  | environ client =>
    cases reply <;> cases hs
    · exact .inl ⟨_, rfl, .inl trivial⟩
    · exact .inr ⟨rfl, rfl⟩
  | event client =>
    cases reply <;> cases hs
    · exact .inl ⟨_, rfl, .inr ⟨_, _, rfl⟩⟩
    · exact .inl ⟨_, rfl, .inr ⟨_, _, rfl⟩⟩
  | waiting | current | handle | asStd => cases hm

/-- One that is made is not made again. -/
theorem made_step {p : Accept} {reply : Reply} {step : Step Accept} (hm : ¬ p.Making)
    (hs : p.code reply = some step) (s : Custody Owner (Stage Accept)) :
    (∃ q, (s.take step).point = .runs q ∧ ¬ q.Making) ∨ ∃ exit, (s.take step).point = .ended exit := by
  cases p with
  | socket | environ | event => exact absurd trivial hm
  | waiting client event =>
    cases client <;> cases event <;> cases reply <;> cases hs
    all_goals first | exact .inr ⟨_, rfl⟩ | exact .inl ⟨_, rfl, id⟩
  | current client =>
    cases reply <;> cases hs
    · exact .inl ⟨_, rfl, id⟩
    · exact .inr ⟨_, rfl⟩
  | handle client =>
    cases reply <;> cases hs
    · exact .inl ⟨_, rfl, id⟩
    · exact .inr ⟨_, rfl⟩
  | asStd client =>
    cases reply <;> cases hs
    · exact .inr ⟨_, rfl⟩
    · exact .inr ⟨_, rfl⟩

/-- A stream is returned by the `Accept` that holds its socket. -/
theorem held_of_output {p : Accept} {reply : Reply} {step : Step Accept}
    (hs : p.code reply = some step) (s : Custody Owner (Stage Accept)) {socket : SOCKET}
    (ho : (s.take step).point = .ended (.returned (.ok socket))) : p.held = some socket := by
  cases p with
  | asStd client =>
    cases reply <;> cases hs <;> cases ho
    rfl
  | socket | environ | event | current | handle => cases reply <;> cases hs <;> cases ho
  | waiting client event =>
    cases client <;> cases event <;> cases reply <;> cases hs <;> cases ho

/-! ### A step of the `Incoming` -/

theorem take_map {K P Q : Type} (resources : List (Resource K)) (p : P) (q : Q) (turn : Turn K P)
    (f : P → Q) : (⟨resources, q⟩ : Custody K Q).take (turn.map f) =
      ⟨((⟨resources, p⟩ : Custody K P).take turn).resources,
        f ((⟨resources, p⟩ : Custody K P).take turn).point⟩ := by
  cases turn <;> rfl

section Steps

variable {s s' : Custody Owner (Stage Incoming)} {a : Act}

/-- The `Accept` takes the step, and the `Incoming` makes of it what it does. -/
theorem incoming_answer {p : Incoming} {reply : Reply} {resources : List (Resource Owner)}
    (hs : Custody.step incoming ⟨resources, .runs p⟩ (.answer reply) = some s') :
    ∃ step, p.accept.code reply = some step ∧
      s' = ⟨((⟨resources, .runs p.accept⟩ : Custody Owner (Stage Accept)).take step).resources,
        p.next ((⟨resources, .runs p.accept⟩ : Custody Owner (Stage Accept)).take step).point⟩ ∧
      ¬ (reply = .panic ∧ p.inContext = true) := by
  obtain ⟨turn, hturn, rfl⟩ := Option.map_eq_some_iff.mp hs
  have hcode : p.code reply = some turn := hturn
  simp only [Incoming.code, Option.ite_none_left_eq_some, Option.map_eq_some_iff] at hcode
  obtain ⟨hnot, step, hstep, rfl⟩ := hcode
  exact ⟨step, hstep, take_map resources (.runs p.accept) _ step p.next, hnot⟩

/-- The output of an `Accept` that has come ready. -/
def finished : Stage Accept → List Output
  | .ended (.returned output) => [output]
  | _ => []

/-- Where the next `Accept` begins, or the same one goes on. -/
def again : Stage Accept → Stage Accept
  | .ended (.returned _) => .runs .socket
  | stage => stage

theorem current_next (p : Incoming) (stage : Stage Accept) :
    current (p.next stage) = again stage := by
  cases stage with
  | runs q => cases q <;> rfl
  | ended exit => cases exit <;> rfl

/-- An output is returned as soon as the next `Accept` is made, and is no connection where
that panics. -/
structure Returning (s : Custody Owner (Stage Incoming)) (y : Yields) : Prop where
  late : ∃ late, y.accepted = y.items ++ late ∧ Late s.point late
  making : ∀ p, s.point = .runs p → p.output ≠ none → p.accept.Making
  unreturned : ∀ output, s.point ≠ .ended (.returned output)

/-- While the next `Accept` is being made. -/
theorem returning_making {p : Incoming} {reply : Reply} {step : Step Accept} {y : Yields}
    {resources : List (Resource Owner)} (h : Returning ⟨resources, .runs p⟩ y)
    (hm : p.accept.Making) (hs : p.accept.code reply = some step)
    (hnot : ¬ (reply = .panic ∧ p.inContext = true)) (accepts : Custody Owner (Stage Accept)) :
    Returning ⟨(accepts.take step).resources, p.next (accepts.take step).point⟩
        (yields.see ⟨resources, .runs p⟩ (.answer reply)
          ⟨(accepts.take step).resources, p.next (accepts.take step).point⟩ y) ∧
      (yields.see ⟨resources, .runs p⟩ (.answer reply)
          ⟨(accepts.take step).resources, p.next (accepts.take step).point⟩ y).accepted =
        y.accepted ++ finished (accepts.take step).point := by
  obtain ⟨late, hlate, rfl⟩ := h.late
  rcases making_step hm hs accepts with ⟨q, hq, hmade⟩ | ⟨hq, rfl⟩ <;> rw [hq]
  · rcases hmade with hmade | ⟨client, event, rfl⟩
    · have hnext : p.next (.runs q) = .runs ⟨q, p.output⟩ := by
        cases q <;> first | rfl | cases hmade
      have hsee : yields.see ⟨resources, .runs p⟩ (.answer reply)
          ⟨(accepts.take step).resources, .runs ⟨q, p.output⟩⟩ y = y := by
        cases p with
        | mk accept output => cases output <;> simp [yields]
      rw [hnext, hsee]
      refine ⟨⟨⟨_, hlate, rfl⟩, fun p' hp' _ => ?_, nofun⟩, by simp [finished]⟩
      cases hp'
      exact hmade
    · have hsee : yields.see ⟨resources, .runs p⟩ (.answer reply)
          ⟨(accepts.take step).resources, .runs ⟨.waiting client event, none⟩⟩ y =
          ⟨y.accepted, y.items ++ p.output.toList⟩ := by
        cases p with
        | mk accept output => cases output <;> simp [yields]
      show Returning ⟨_, .runs ⟨.waiting client event, none⟩⟩ (yields.see _ _
        ⟨_, .runs ⟨.waiting client event, none⟩⟩ y) ∧ _
      simp only [Incoming.next, hsee]
      refine ⟨⟨⟨[], by simp [hlate], rfl⟩, fun p' hp' hsome => ?_, nofun⟩, by simp [finished]⟩
      cases hp'
      exact absurd rfl hsome
  · refine ⟨⟨⟨p.output.toList, hlate, ?_, fun output ho => ?_⟩, nofun, nofun⟩,
      (List.append_nil _).symm⟩
    · cases p.output <;> simp
    · -- an accepted connection has found the context already
      cases output with
      | error err => rfl
      | ok socket =>
        refine absurd ⟨rfl, ?_⟩ hnot
        rw [Option.mem_toList] at ho
        simp [Incoming.inContext, ho]

/-- Once it is made. -/
theorem returning_made {p : Incoming} {reply : Reply} {step : Step Accept} {y : Yields}
    {resources : List (Resource Owner)} (h : Returning ⟨resources, .runs p⟩ y)
    (hm : ¬ p.accept.Making) (hs : p.accept.code reply = some step)
    (accepts : Custody Owner (Stage Accept)) :
    Returning ⟨(accepts.take step).resources, p.next (accepts.take step).point⟩
        (yields.see ⟨resources, .runs p⟩ (.answer reply)
          ⟨(accepts.take step).resources, p.next (accepts.take step).point⟩ y) ∧
      (yields.see ⟨resources, .runs p⟩ (.answer reply)
          ⟨(accepts.take step).resources, p.next (accepts.take step).point⟩ y).accepted =
        y.accepted ++ finished (accepts.take step).point := by
  have houtput : p.output = none := by
    by_contra hsome
    exact hm (h.making p rfl hsome)
  obtain ⟨accept, output⟩ := p
  obtain rfl : output = none := houtput
  obtain ⟨late, hlate, rfl⟩ := h.late
  rw [Option.toList_none, List.append_nil] at hlate
  rcases made_step hm hs accepts with ⟨q, hq, hmade⟩ | ⟨exit, hq⟩ <;> rw [hq]
  · have hnext : Incoming.next ⟨accept, none⟩ (.runs q) = .runs ⟨q, none⟩ := by
      cases q <;> rfl
    rw [hnext]
    refine ⟨⟨⟨[], by simp [yields, hlate], rfl⟩, fun p' hp' hsome => ?_, nofun⟩,
      by simp [yields, finished]⟩
    cases hp'
    exact absurd rfl hsome
  · cases exit with
    | returned result =>
      refine ⟨⟨⟨[result], by simp [yields, Incoming.next, hlate], rfl⟩, fun p' hp' _ => ?_, nofun⟩,
        by simp [yields, Incoming.next, finished]⟩
      cases hp'
      trivial
    | panicked | dropped =>
      refine ⟨⟨⟨[], by simp [yields, Incoming.next, hlate], by simp, by simp⟩, nofun, nofun⟩, ?_⟩
      simp [yields, Incoming.next, finished]

theorem returning_answer {p : Incoming} {reply : Reply} {step : Step Accept} {y : Yields}
    {resources : List (Resource Owner)} (h : Returning ⟨resources, .runs p⟩ y)
    (hs : p.accept.code reply = some step) (hnot : ¬ (reply = .panic ∧ p.inContext = true))
    (accepts : Custody Owner (Stage Accept)) :
    Returning ⟨(accepts.take step).resources, p.next (accepts.take step).point⟩
        (yields.see ⟨resources, .runs p⟩ (.answer reply)
          ⟨(accepts.take step).resources, p.next (accepts.take step).point⟩ y) ∧
      (yields.see ⟨resources, .runs p⟩ (.answer reply)
          ⟨(accepts.take step).resources, p.next (accepts.take step).point⟩ y).accepted =
        y.accepted ++ finished (accepts.take step).point := by
  by_cases hm : p.accept.Making
  · exact returning_making h hm hs hnot accepts
  · exact returning_made h hm hs accepts

/-- **A step of an `Incoming`** is one of its `Accept`: that goes on, or it has come ready
and the next one is begun. -/
theorem returning_step {y : Yields} (h : Returning s y)
    (hs : Custody.step incoming s a = some s') :
    Returning s' (yields.see s a s' y) ∧
    ∃ stage, Custody.step accept ⟨s.resources, current s.point⟩ a = some ⟨s'.resources, stage⟩ ∧
      (current s'.point = stage ∧ (yields.see s a s' y).accepted = y.accepted ∨
      ∃ output, stage = .ended (.returned output) ∧ (current s.point).isEnded = false ∧
        current s'.point = .runs .socket ∧
        (yields.see s a s' y).accepted = y.accepted ++ [output]) := by
  cases a with
  | leave r l =>
    simp only [Custody.step, Option.ite_none_right_eq_some, Option.some.injEq] at hs
    obtain ⟨ho, rfl⟩ := hs
    refine ⟨⟨h.late, h.making, h.unreturned⟩, current s.point, ?_, .inl ⟨rfl, rfl⟩⟩
    exact if_pos ho
  | answer reply =>
    obtain ⟨resources, point⟩ := s
    cases point with
    | ended exit => cases hs
    | runs p =>
      obtain ⟨step, hstep, rfl, hnot⟩ := incoming_answer hs
      obtain ⟨hreturning, haccepted⟩ := returning_answer h hstep hnot ⟨resources, .runs p.accept⟩
      refine ⟨hreturning, (Custody.take ⟨resources, .runs p.accept⟩ step).point,
        congrArg (Option.map _) hstep, ?_⟩
      rw [haccepted, current_next]
      cases (Custody.take ⟨resources, .runs p.accept⟩ step).point with
      | runs q => exact .inl ⟨rfl, List.append_nil _⟩
      | ended exit =>
        cases exit with
        | returned output => exact .inr ⟨output, rfl, rfl, rfl, rfl⟩
        | panicked | dropped => exact .inl ⟨rfl, List.append_nil _⟩

/-- Each accepted socket is older than the next one, and than the one being accepted. -/
structure Ordered (s : Custody Owner (Stage Accept)) (accepted : List Output) : Prop where
  sockets : (accepted.filterMap Except.toOption).Pairwise (· < ·)
  old : ∀ socket ∈ accepted.filterMap Except.toOption, socket < s.resources.length
  held : ∀ next, s.point.held Accept.held = some next → next < s.resources.length ∧
    ∀ socket ∈ accepted.filterMap Except.toOption, socket < next

theorem ordered_step {t t' : Custody Owner (Stage Accept)} {accepted : List Output}
    (h : Ordered t accepted) (hs : Custody.step accept t a = some t') : Ordered t' accepted := by
  have hlength := Custody.length_step hs
  refine ⟨h.sockets, fun n hn => Nat.lt_of_lt_of_le (h.old n hn) hlength, fun next hnext => ?_⟩
  have hwithin : Custody.Within accept t := fun r hr => (h.held r hr).1
  refine ⟨Custody.within_step hwithin hs next hnext, ?_⟩
  have hkept : t.point.held Accept.held = some next ∨ next = t.resources.length := by
    cases a with
    | leave r l =>
      simp only [Custody.step, Option.ite_none_right_eq_some, Option.some.injEq] at hs
      obtain ⟨_, rfl⟩ := hs
      exact .inl hnext
    | answer reply =>
      obtain ⟨turn, ht, rfl⟩ := Option.map_eq_some_iff.mp hs
      have hf := accept.follows _ _ _ ht
      cases turn with
      | goes q =>
        cases ha : accept.abandons t.point reply with
        | true => cases (hf.1 ha).2.symm.trans hnext
        | false => exact .inl ((hf.2 ha).symm.trans hnext)
      | acquires q => exact .inr (Option.some.inj ((hf.2.2 _).symm.trans hnext)).symm
      | releases r q | hands r _ q => cases hf.2.2.symm.trans hnext
  rcases hkept with hkept | rfl
  · exact (h.held next hkept).2
  · exact h.old

/-- An `Accept` that comes ready with a stream holds its socket up to then. -/
theorem ordered_output {t t' : Custody Owner (Stage Accept)} {accepted : List Output}
    {output : Output} (h : Ordered t accepted) (hs : Custody.step accept t a = some t')
    (hready : t'.point = .ended (.returned output)) (hnot : t.point.isEnded = false) :
    Ordered ⟨t'.resources, .runs .socket⟩ (accepted ++ [output]) := by
  have h' := ordered_step h hs
  have hlength := Custody.length_step hs
  cases output with
  | error err =>
    have hsame : (accepted ++ [Except.error err]).filterMap Except.toOption =
        accepted.filterMap Except.toOption := by simp [Except.toOption]
    exact ⟨by rw [hsame]; exact h.sockets, by rw [hsame]; exact h'.old, fun _ h => by cases h⟩
  | ok socket =>
    have hnew : (accepted ++ [Except.ok socket]).filterMap Except.toOption =
        accepted.filterMap Except.toOption ++ [socket] := by simp [Except.toOption]
    have hheld : t.point.held Accept.held = some socket := by
      cases a with
      | leave r l =>
        simp only [Custody.step, Option.ite_none_right_eq_some, Option.some.injEq] at hs
        obtain ⟨_, rfl⟩ := hs
        rw [show t.point = _ from hready] at hnot
        cases hnot
      | answer reply =>
        obtain ⟨resources, point⟩ := t
        cases point with
        | ended exit => cases hnot
        | runs p =>
          obtain ⟨step, hstep, rfl⟩ := Option.map_eq_some_iff.mp hs
          exact held_of_output hstep _ hready
    obtain ⟨hlt, hold⟩ := h.held socket hheld
    refine ⟨?_, fun n hn => ?_, fun _ h => by cases h⟩
    · rw [hnew]
      refine List.pairwise_append.mpr ⟨h.sockets, List.pairwise_singleton .., fun n hn m hm => ?_⟩
      rw [List.mem_singleton.mp hm]
      exact hold n hn
    · rw [hnew] at hn
      rcases List.mem_append.mp hn with hn | hn
      · exact h'.old n hn
      · rw [List.mem_singleton.mp hn]
        exact Nat.lt_of_lt_of_le hlt hlength

end Steps

/-! ### Runs -/

/-- Where a run has led: to so many whole runs of `accept`, and one that is not over. -/
structure Serves (as : List Act) (s : Custody Owner (Stage Incoming)) (y : Yields) : Prop where
  returning : Returning s y
  ordered : Ordered ⟨s.resources, current s.point⟩ y.accepted
  accepts : ∃ before rest resources, as = before ++ rest ∧ Accepts before resources y.accepted ∧
    acceptMachine.run ⟨resources, .runs .socket⟩ rest = some ⟨s.resources, current s.point⟩

theorem serves_init : Serves [] incomingMachine.init yields.init where
  returning := ⟨⟨[], rfl, rfl⟩, fun _ hp hsome => by cases hp; exact absurd rfl hsome, nofun⟩
  ordered := ⟨.nil, by simp [yields], nofun⟩
  accepts := ⟨[], [], [], rfl, .none, rfl⟩

theorem serves_step {as : List Act} {s s' : Custody Owner (Stage Incoming)} {y : Yields} {a : Act}
    (h : Serves as s y) (hs : Custody.step incoming s a = some s') :
    Serves (as ++ [a]) s' (yields.see s a s' y) := by
  obtain ⟨hreturning, stage, haccept, hstage⟩ := returning_step h.returning hs
  obtain ⟨before, rest, resources, rfl, hbefore, hrest⟩ := h.accepts
  have hrun : acceptMachine.run ⟨resources, .runs .socket⟩ (rest ++ [a]) =
      some ⟨s'.resources, stage⟩ := by
    rw [Machine.run_append, hrest]
    show (Custody.step accept _ a).bind _ = _
    rw [haccept]
    rfl
  rcases hstage with ⟨hcurrent, haccepted⟩ | ⟨output, rfl, hgoing, hcurrent, haccepted⟩
  · refine ⟨hreturning, ?_, ⟨before, rest ++ [a], resources, by simp, ?_, ?_⟩⟩
    · rw [haccepted, hcurrent]
      exact ordered_step h.ordered haccept
    · rw [haccepted]
      exact hbefore
    · rw [hcurrent]
      exact hrun
  · refine ⟨hreturning, ?_, ⟨before ++ (rest ++ [a]), [], s'.resources, by simp, ?_, ?_⟩⟩
    · rw [haccepted, hcurrent]
      exact ordered_output h.ordered haccept rfl hgoing
    · rw [haccepted]
      exact hbefore.next hrun
    · rw [hcurrent]
      rfl

theorem serves_run {as : List Act} {t : Custody Owner (Stage Incoming) × Yields}
    (hrun : (yields.watch incomingMachine).run (yields.watch incomingMachine).init as = some t) :
    Serves as t.1 t.2 := by
  induction as using List.reverseRecOn generalizing t with
  | nil =>
    cases hrun
    exact serves_init
  | append_singleton as a ih =>
    rw [Machine.run_append] at hrun
    obtain ⟨u, hu, hlast⟩ := Option.bind_eq_some_iff.mp hrun
    obtain ⟨u', hw, hnil⟩ := Machine.run_cons _ hlast
    cases hnil
    obtain ⟨hs, hsee⟩ := Observer.watch_step hw
    rw [hsee]
    exact serves_step (ih hu) hs

/-- **An `Incoming` is one `accept` after another**, and loses no connection: its run is whole
runs of `accept` and one that is going on; the items it has returned are their outputs, in
order, up to the one that is about to be returned, or an error where it has ended; and each
connection has a socket of its own. -/
theorem incoming_serves {as : List Act} {t : Custody Owner (Stage Incoming) × Yields}
    (hrun : (yields.watch incomingMachine).run (yields.watch incomingMachine).init as = some t) :
    (∃ before rest resources, as = before ++ rest ∧ Accepts before resources t.2.accepted ∧
      acceptMachine.run ⟨resources, .runs .socket⟩ rest =
        some ⟨t.1.resources, current t.1.point⟩) ∧
    (∃ late, t.2.accepted = t.2.items ++ late ∧ Late t.1.point late) ∧
    (t.2.accepted.filterMap Except.toOption).Pairwise (· < ·) := by
  have h := serves_run hrun
  exact ⟨h.accepts, h.returning.late, h.ordered.sockets⟩

/-- A connection is accepted, and returned when the next `Accept` is made. -/
theorem incoming_serves_once : ∃ t,
    (yields.watch incomingMachine).run (yields.watch incomingMachine).init
      (List.replicate 10 (.answer .ok)) = some t ∧ t.2.items = [.ok 0] ∧
    (t.2.accepted.filterMap Except.toOption).Pairwise (· < ·) := by
  have hrun : (yields.watch incomingMachine).run (yields.watch incomingMachine).init
    (List.replicate 10 (.answer .ok)) = some _ := rfl
  exact ⟨_, hrun, rfl, (incoming_serves hrun).2.2⟩

end Wae.Net.Tcp.TcpListener
