import Mathlib.Data.List.TakeWhile
import Wae.Io.Chain
import Wae.Transition.Mealy

/-! What a chain of readers is, told by what it answers.

How chains are put inside each other makes no difference, to whoever calls or to the
readers. A reader that is at its end may be chained to another, and whoever calls cannot
tell; before another it cannot be told by polls, though by cancels it can. And where the
first reader, once at its end, stays there, a chain answers as the first does up to the
end and from then on as the next. -/
namespace Wae.Io
open Transition

/-- What a caller is answered. -/
inductive Call.Reply where
  | read (poll : Poll (Except IoError (List UInt8)))
  | cancelled (result : Except IoError Unit)
  | dropped
  deriving DecidableEq

/-- A reader, by its answers. -/
def reader (R : Type) [AsyncRead R] : Mealy R Call Call.Reply where
  step r c :=
    match c with
    | .pollRead buf => (.read (pollRead r buf).1, (pollRead r buf).2)
    | .cancelRead wait => (.cancelled (cancelRead r wait).1, (cancelRead r wait).2)
    | .drop => (.dropped, Read.drop r)

namespace Chain
variable {T U V : Type} [AsyncRead T] [AsyncRead U] [AsyncRead V]

theorem pollRead_chained (first : T) (next : U) (buf : IoSliceMut) :
    Io.pollRead (⟨first, next, true⟩ : Chain T U) buf =
      ((Io.pollRead next buf).1, ⟨first, (Io.pollRead next buf).2, true⟩) := rfl

/-! ### Chains in chains -/

/-- The same three readers, chained from the right. -/
def assoc (s : Chain (Chain T U) V) : Chain T (Chain U V) :=
  ⟨s.first.first, ⟨s.first.next, s.next, s.chained⟩, s.chained || s.first.chained⟩

theorem pollRead_assoc (s : Chain (Chain T U) V) (buf : IoSliceMut) :
    Io.pollRead s.assoc buf = ((Io.pollRead s buf).1, (Io.pollRead s buf).2.assoc) := by
  obtain ⟨⟨first, next, chained⟩, last, chained'⟩ := s
  cases chained' with
  | true => rfl
  | false =>
    cases chained with
    | true =>
      -- the inner chain answers as its next reader does
      have hinner : Io.pollRead (⟨first, next, true⟩ : Chain T U) buf =
        ((Io.pollRead next buf).1, ⟨first, (Io.pollRead next buf).2, true⟩) := rfl
      show Io.pollRead (⟨first, ⟨next, last, false⟩, true⟩ : Chain T (Chain U V)) buf = _
      rw [pollRead_chained]
      by_cases h : (Io.pollRead next buf).1 = .ready (.ok [])
      · rw [pollRead_ended h, pollRead_ended (hinner ▸ h), hinner]
        rfl
      · rw [pollRead_going last h, pollRead_going last (hinner ▸ h), hinner]
        rfl
    | false =>
      show Io.pollRead (⟨first, ⟨next, last, false⟩, false⟩ : Chain T (Chain U V)) buf = _
      by_cases h : (Io.pollRead first buf).1 = .ready (.ok [])
      · have hinner : Io.pollRead (⟨first, next, false⟩ : Chain T U) buf = _ := pollRead_ended h
        rw [pollRead_ended h]
        by_cases h' : (Io.pollRead next buf).1 = .ready (.ok [])
        · rw [pollRead_ended h', pollRead_ended (by rw [hinner]; exact h'), hinner]
          rfl
        · rw [pollRead_going last h', pollRead_going last (by rw [hinner]; exact h'), hinner]
          rfl
      · have hinner := pollRead_going next h
        rw [pollRead_going _ h, pollRead_going last (by rw [hinner]; exact h), hinner]
        rfl

theorem cancelRead_assoc (s : Chain (Chain T U) V) (wait : Bool) :
    Io.cancelRead s.assoc wait = ((Io.cancelRead s wait).1, (Io.cancelRead s wait).2.assoc) := by
  obtain ⟨⟨first, next, chained⟩, last, chained'⟩ := s
  cases chained' <;> cases chained <;> rfl

/-- Put inside each other either way, chains go on alike. -/
def assocSimulation :
    Mealy.Simulation (reader (Chain (Chain T U) V)) (reader (Chain T (Chain U V))) fun _ => True where
  Rel s t := t = s.assoc
  step s t c h _ := by
    subst h
    cases c with
    | pollRead buf => exact congrArg Prod.snd (pollRead_assoc s buf)
    | cancelRead wait => exact congrArg Prod.snd (cancelRead_assoc s wait)
    | drop => exact congrArg Prod.snd (cancelRead_assoc s true)
  answer s t c h _ := by
    subst h
    cases c with
    | pollRead buf => exact (congrArg (Call.Reply.read ∘ Prod.fst) (pollRead_assoc s buf)).symm
    | cancelRead wait => exact (congrArg (Call.Reply.cancelled ∘ Prod.fst) (cancelRead_assoc s wait)).symm
    | drop => rfl

/-! ### A reader at its end -/

/-- Whatever is called, a poll is answered `Ok(0)`. -/
def Ended (r : T) : Prop := ∀ calls, ∀ poll ∈ Io.polls r calls, poll = .ready (.ok [])

theorem Ended.poll {r : T} (h : Ended r) (buf : IoSliceMut) :
    (Io.pollRead r buf).1 = .ready (.ok []) :=
  h [.pollRead buf] _ (List.mem_cons_self ..)

theorem Ended.call {r : T} (h : Ended r) (c : Call) : Ended (Io.call r c).2 :=
  fun calls poll hp => h (c :: calls) poll (List.mem_append_right _ hp)

theorem ended_script : Ended (⟨[]⟩ : Script) := by
  intro calls
  induction calls with
  | nil => exact fun _ hp => nomatch hp
  | cons c cs ih =>
    cases c with
    | cancelRead wait => exact ih
    | drop => exact ih
    | pollRead buf =>
      intro poll hp
      rcases List.mem_cons.mp hp with rfl | hp
      · rfl
      · exact ih poll hp

theorem step_ended {first : T} {buf : IoSliceMut} (next : U)
    (h : (Io.pollRead first buf).1 = .ready (.ok [])) :
    (reader (Chain T U)).step ⟨first, next, false⟩ (.pollRead buf) =
      (.read (Io.pollRead next buf).1,
        ⟨(Io.pollRead first buf).2, (Io.pollRead next buf).2, false⟩) := by
  show (Call.Reply.read _, _) = _
  rw [pollRead_ended h]

theorem step_going {first : T} {buf : IoSliceMut} (next : U)
    (h : (Io.pollRead first buf).1 ≠ .ready (.ok [])) :
    (reader (Chain T U)).step ⟨first, next, false⟩ (.pollRead buf) =
      (.read (Io.pollRead first buf).1, ⟨(Io.pollRead first buf).2, next, false⟩) := by
  show (Call.Reply.read _, _) = _
  rw [pollRead_going next h]

/-- After a reader, one at its end adds nothing. -/
def endedSimulation : Mealy.Simulation (reader (Chain T U)) (reader T) fun _ => True where
  Rel s t := s.first = t ∧ s.chained = false ∧ Ended s.next
  step s t c h _ := by
    obtain ⟨first, next, chained⟩ := s
    obtain ⟨rfl, rfl, hended⟩ := h
    cases c with
    | cancelRead wait => exact ⟨rfl, rfl, hended⟩
    | drop => exact ⟨rfl, rfl, hended⟩
    | pollRead buf =>
      by_cases hpoll : (Io.pollRead first buf).1 = .ready (.ok [])
      · rw [step_ended next hpoll]
        exact ⟨rfl, rfl, hended.call (.pollRead buf)⟩
      · rw [step_going next hpoll]
        exact ⟨rfl, rfl, hended⟩
  answer s t c h _ := by
    obtain ⟨first, next, chained⟩ := s
    obtain ⟨rfl, rfl, hended⟩ := h
    cases c with
    | cancelRead wait => rfl
    | drop => rfl
    | pollRead buf =>
      by_cases hpoll : (Io.pollRead first buf).1 = .ready (.ok [])
      · rw [step_ended next hpoll]
        exact congrArg Call.Reply.read ((hended.poll buf).trans hpoll.symm)
      · rw [step_going next hpoll]
        rfl

/-- Before a reader, it cannot be told by polls. -/
def endedFirstSimulation :
    Mealy.Simulation (reader (Chain T U)) (reader U) fun c => c.cancels = none where
  Rel s t := s.next = t ∧ s.chained = false ∧ Ended s.first
  step s t c h hc := by
    obtain ⟨first, next, chained⟩ := s
    obtain ⟨rfl, rfl, hended⟩ := h
    cases c with
    | cancelRead => cases hc
    | drop => cases hc
    | pollRead buf =>
      rw [step_ended next (hended.poll buf)]
      exact ⟨rfl, rfl, hended.call (.pollRead buf)⟩
  answer s t c h hc := by
    obtain ⟨first, next, chained⟩ := s
    obtain ⟨rfl, rfl, hended⟩ := h
    cases c with
    | cancelRead => cases hc
    | drop => cases hc
    | pollRead buf =>
      rw [step_ended next (hended.poll buf)]
      rfl

/-- **The laws of chains**. Put inside each other either way, they give the same answers,
whatever is called, and leave the three readers the same. A reader at its end is no part of
a chain: behind another reader to no call, and before another to no poll. -/
theorem chain_laws (first : T) (next : U) (last : V) (calls : List Call) :
    ((reader (Chain (Chain T U) V)).trace
          (AsyncReadExt.chain (AsyncReadExt.chain first next) last) calls =
        (reader (Chain T (Chain U V))).trace
          (AsyncReadExt.chain first (AsyncReadExt.chain next last)) calls ∧
      (reader (Chain T (Chain U V))).after
          (AsyncReadExt.chain first (AsyncReadExt.chain next last)) calls =
        ((reader (Chain (Chain T U) V)).after
          (AsyncReadExt.chain (AsyncReadExt.chain first next) last) calls).assoc) ∧
    (Ended next → (reader (Chain T U)).trace (AsyncReadExt.chain first next) calls =
      (reader T).trace first calls) ∧
    (Ended first → (∀ c ∈ calls, c.cancels = none) →
      (reader (Chain T U)).trace (AsyncReadExt.chain first next) calls =
        (reader U).trace next calls) := by
  refine ⟨⟨?_, ?_⟩, fun h => ?_, fun h hcalls => ?_⟩
  · exact assocSimulation.trace_eq rfl fun _ _ => trivial
  · exact assocSimulation.after_rel rfl fun _ _ => trivial
  · exact endedSimulation.trace_eq ⟨rfl, rfl, h⟩ fun _ _ => trivial
  · exact endedFirstSimulation.trace_eq ⟨rfl, rfl, h⟩ hcalls

/-- A reader that has one byte, and one that has none. -/
theorem chain_laws_script :
    (reader (Chain Script Script)).trace (AsyncReadExt.chain ⟨[.ready (.ok [7])]⟩ ⟨[]⟩)
      [.pollRead ⟨8, 0⟩, .cancelRead true, .pollRead ⟨8, 0⟩] =
    [.read (.ready (.ok [7])), .cancelled (.ok ()), .read (.ready (.ok []))] := by
  have hlaws := chain_laws (⟨[.ready (.ok [7])]⟩ : Script) (⟨[]⟩ : Script) (⟨[]⟩ : Script)
    [.pollRead ⟨8, 0⟩, .cancelRead true, .pollRead ⟨8, 0⟩]
  exact (hlaws.2.1 ended_script).trans rfl

/-! ### A reader that stays at its end -/

/-- Once a poll has been answered `Ok(0)`, whatever is called, all are. -/
def Fused (r : T) : Prop :=
  ∀ calls, ∀ poll ∈ (Io.polls r calls).drop (beforeEnd (Io.polls r calls)).length,
    poll = .ready (.ok [])

/-- The polls from the one on that finds the reader at its end. -/
def fromEnd (r : T) : List Call → List Call
  | [] => []
  | c :: cs =>
    if (Io.call r c).1 = some (.ready (.ok [])) then (c :: cs).filter (·.cancels = none)
    else fromEnd (Io.call r c).2 cs

/-- From the first `Ok(0)` on there is nothing else. -/
def Stays (polls : List (Poll (Except IoError (List UInt8)))) : Prop :=
  ∀ poll ∈ polls.drop (beforeEnd polls).length, poll = .ready (.ok [])

theorem stays_going {poll : Poll (Except IoError (List UInt8))} (h : poll ≠ .ready (.ok []))
    {polls : List (Poll (Except IoError (List UInt8)))} (hstays : Stays (poll :: polls)) :
    Stays polls := by
  unfold Stays at hstays
  rw [beforeEnd_going h] at hstays
  exact hstays

theorem stays_ended {polls : List (Poll (Except IoError (List UInt8)))}
    (h : Stays (.ready (.ok []) :: polls)) : ∀ poll ∈ polls, poll = .ready (.ok []) := by
  unfold Stays at h
  rw [beforeEnd_ended] at h
  exact fun poll hp => h poll (List.mem_cons_of_mem _ hp)

/-- The next reader gets the polls. -/
theorem polls_ended (first : T) (next : U) (calls : List Call)
    (h : ∀ poll ∈ Io.polls first calls, poll = .ready (.ok [])) :
    Io.polls (⟨first, next, false⟩ : Chain T U) calls =
        Io.polls next (calls.filter (·.cancels = none)) ∧
      called (⟨first, next, false⟩ : Chain T U) calls =
        ⟨called first calls, called next (calls.filter (·.cancels = none)), false⟩ := by
  induction calls generalizing first next with
  | nil => exact ⟨rfl, rfl⟩
  | cons c cs ih =>
    cases c with
    | cancelRead wait => exact ih _ next h
    | drop => exact ih _ next h
    | pollRead buf =>
      obtain ⟨hpolls, hcalled⟩ := ih (Io.pollRead first buf).2 (Io.pollRead next buf).2
        fun poll hp => h poll (List.mem_cons_of_mem _ hp)
      rw [polls_pollRead, called_pollRead, pollRead_ended (h _ (List.mem_cons_self ..))]
      exact ⟨congrArg _ hpolls, hcalled⟩

/-- The first reader answers before its end, and the next one from then on. -/
theorem polls_stays (first : T) (next : U) (calls : List Call)
    (h : Stays (Io.polls first calls)) :
    Io.polls (AsyncReadExt.chain first next) calls =
        beforeEnd (Io.polls first calls) ++ Io.polls next (fromEnd first calls) ∧
      called (AsyncReadExt.chain first next) calls =
        ⟨called first calls, called next (fromEnd first calls), false⟩ := by
  unfold AsyncReadExt.chain
  induction calls generalizing first next with
  | nil => exact ⟨rfl, rfl⟩
  | cons c cs ih =>
    cases c with
    | cancelRead wait => exact ih _ next h
    | drop => exact ih _ next h
    | pollRead buf =>
      rw [polls_pollRead] at h
      rw [polls_pollRead, polls_pollRead, called_pollRead, called_pollRead]
      by_cases hend : (Io.pollRead first buf).1 = .ready (.ok [])
      · have hfrom : fromEnd first (.pollRead buf :: cs) =
            .pollRead buf :: cs.filter (·.cancels = none) := if_pos (congrArg some hend)
        rw [hend] at h
        obtain ⟨hpolls, hcalled⟩ := polls_ended _ (Io.pollRead next buf).2 cs (stays_ended h)
        rw [pollRead_ended hend, hfrom, hend, beforeEnd_ended, hpolls, hcalled]
        exact ⟨rfl, rfl⟩
      · have hne : (Io.call first (.pollRead buf)).1 ≠ some (.ready (.ok [])) :=
          fun he => hend (Option.some.inj he)
        have hfrom : fromEnd first (.pollRead buf :: cs) = fromEnd (Io.pollRead first buf).2 cs :=
          if_neg hne
        obtain ⟨hpolls, hcalled⟩ := ih (Io.pollRead first buf).2 next (stays_going hend h)
        rw [pollRead_going next hend, hfrom, beforeEnd_going hend]
        exact ⟨congrArg _ hpolls, hcalled⟩

theorem polls_fused (first : T) (next : U) (calls : List Call) (h : Fused first) :
    Io.polls (AsyncReadExt.chain first next) calls =
      beforeEnd (Io.polls first calls) ++ Io.polls next (fromEnd first calls) :=
  (polls_stays first next calls (h calls)).1

theorem beforeEnd_append (xs ys : List (Poll (Except IoError (List UInt8)))) :
    beforeEnd (beforeEnd xs ++ ys) = beforeEnd xs ++ beforeEnd ys := by
  apply List.takeWhile_append_of_pos
  intro poll hp
  exact List.mem_takeWhile_imp (l := xs) hp

theorem fused_chain {first : T} {next : U} (h : Fused first) (h' : Fused next) :
    Fused (AsyncReadExt.chain first next) := by
  intro calls poll hp
  rw [polls_fused first next calls h, beforeEnd_append, List.length_append,
    List.drop_length_add_append] at hp
  exact h' (fromEnd first calls) poll hp

/-- **A chain continues a reader that stays at its end**: it answers as the first reader
does before its end, and from then on as the next, which gets the polls from that one on.
So do the chains that are made of it, if the next reader stays at its end, too. -/
theorem chain_continues (first : T) (next : U) (h : Fused first) :
    (∀ calls, Io.polls (AsyncReadExt.chain first next) calls =
      beforeEnd (Io.polls first calls) ++ Io.polls next (fromEnd first calls)) ∧
    (Fused next → Fused (AsyncReadExt.chain first next)) :=
  ⟨fun calls => polls_fused first next calls h, fused_chain h⟩

/-- A script in which there is no `Ok(0)` stays at its end. -/
theorem fused_script (results : List (Poll (Except IoError (List UInt8))))
    (h : .ready (.ok []) ∉ results) : Fused (⟨results⟩ : Script) := by
  intro calls
  induction calls generalizing results with
  | nil => exact fun _ hp => nomatch hp
  | cons c cs ih =>
    cases c with
    | cancelRead wait => exact ih results h
    | drop => exact ih results h
    | pollRead buf =>
      cases results with
      | nil =>
        have hpolls : Io.polls (⟨[]⟩ : Script) (.pollRead buf :: cs) =
            .ready (.ok []) :: Io.polls (⟨[]⟩ : Script) cs := rfl
        rw [hpolls, beforeEnd_ended]
        exact ended_script (.pollRead buf :: cs)
      | cons result results =>
        have hpolls : Io.polls (⟨result :: results⟩ : Script) (.pollRead buf :: cs) =
            result :: Io.polls (⟨results⟩ : Script) cs := rfl
        rw [hpolls, beforeEnd_going fun he => h (he ▸ List.mem_cons_self ..)]
        exact ih results fun hmem => h (List.mem_cons_of_mem _ hmem)

/-- Three readers in a row. -/
theorem chain_continues_three :
    Io.polls (AsyncReadExt.chain (AsyncReadExt.chain (⟨[.ready (.ok [1])]⟩ : Script)
        (⟨[.pending, .ready (.ok [2])]⟩ : Script)) (⟨[.ready (.ok [3])]⟩ : Script))
      [.pollRead ⟨8, 0⟩, .drop, .pollRead ⟨8, 0⟩, .pollRead ⟨8, 0⟩, .drop, .pollRead ⟨8, 0⟩] =
    [.ready (.ok [1]), .pending, .ready (.ok [2]), .ready (.ok [3])] := by
  have htwo := chain_continues (⟨[.ready (.ok [1])]⟩ : Script) (⟨[.pending, .ready (.ok [2])]⟩ : Script)
    (fused_script _ (by decide))
  have hthree := chain_continues _ (⟨[.ready (.ok [3])]⟩ : Script)
    (htwo.2 (fused_script _ (by decide)))
  exact (hthree.1 _).trans rfl

end Chain

end Wae.Io
