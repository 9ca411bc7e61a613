import Wae.Net.Tcp.Link

/-! The test of a round trip, in every orderly interleaving.

A client sends one message and waits for another; the task that handles its connection
waits for the first and sends the second. Each asserts that what it has read is what the
other was to send. There are two streams of bytes between them, over the two halves of
each one's `TcpStream`, and each half is orderly: where a callback on an earlier
operation's packet takes the word, or a waiting cancel a `PENDING`, an assertion may fail. -/
namespace Wae.Net.Tcp
open Io Transition

/-- A message in its sender's memory, and the buffer that it is read into. -/
structure Message where
  slice : Slice
  source : Memory
  buf : Slice
  same : buf.len = slice.len
  short : slice.len.toNat < 2 ^ 32

namespace Message

def bytes (m : Message) : List UInt8 := m.slice.bytes.map m.source

/-- What is given to `write_all`. -/
def write (m : Message) : IoSlice := IoSlice.fromSlice m.slice

/-- What is given to `read_exact`. -/
def read (m : Message) : IoSliceMut := IoSliceMut.fromSlice m.buf

theorem bytes_write (m : Message) : m.write.bytes.map m.source = m.bytes :=
  congrArg (List.map m.source) ((narrowed_bytes_iff m.slice).mpr m.short)

theorem bytes_read (m : Message) : m.read.bytes = m.buf.bytes :=
  (narrowed_bytes_iff m.buf).mpr (m.same ▸ m.short)

/-- The buffer is as long as the message. -/
theorem length_read (m : Message) (memory : Memory) :
    (m.read.bytes.map memory).length = m.bytes.length := by
  rw [bytes_read, List.length_map, bytes, List.length_map, Slice.bytes, Slice.bytes,
    List.length_range', List.length_range', m.same]

end Message

/-- Where a task stands; its next step, or what has come of it. -/
inductive Roundtrip.Task where
  | start
  /-- It awaits its first call, or its second. -/
  | first
  | second
  | finished (result : Except IoError Unit)
  /-- An assertion has failed. -/
  | panicked
  deriving DecidableEq

/-- The test, once the connection is made. -/
structure Roundtrip where
  /-- From the client's write half to the other end's read half. -/
  up : (Half × Half) × Link
  /-- And back. -/
  down : (Half × Half) × Link
  client : Roundtrip.Task
  handle : Roundtrip.Task

namespace Roundtrip

inductive Action where
  | up (a : (Io.Action ⊕ Io.Action) ⊕ Link.Action)
  | down (a : (Io.Action ⊕ Io.Action) ⊕ Link.Action)
  | client
  | handle

/-- A call of `write_all` or `read_exact`: the tasks make them, and nobody else does. -/
def calls : (Io.Action ⊕ Io.Action) ⊕ Link.Action → Bool
  | .inr (.writeAll ..) | .inr (.readExact _) => true
  | .inr (.send _) | .inr (.receive _) | .inl _ => false

/-- `await?`: goes on where the call has returned `Ok`. -/
def awaits (returned : Option (Except IoError Unit)) (next : Option Roundtrip)
    (fails : IoError → Roundtrip) : Option Roundtrip :=
  match returned with
  | none => none
  | some (.error err) => some (fails err)
  | some (.ok ()) => next

section
variable (posts posts' : Bool) (hello world : Message)

/-- The halves of the client's socket post as `posts` says, those of the other end's as
`posts'`. -/
def init : Roundtrip :=
  ⟨(connection posts posts').init, (connection posts' posts).init, .start, .start⟩

def clientNext (s : Roundtrip) : Option Roundtrip :=
  match s.client with
  | .start =>
    ((connection posts posts').step s.up (.inr (.writeAll hello.write hello.source))).map fun up =>
      {s with up, client := .first}
  | .first =>
    awaits s.up.2.write.returned
      (((connection posts' posts).step s.down (.inr (.readExact world.read))).map fun down =>
        {s with down, client := .second})
      fun err => {s with client := .finished (.error err)}
  | .second =>
    awaits s.down.2.read.returned
      (some {s with
        client := if world.buf.bytes.map s.down.2.memory = world.bytes then .finished (.ok ())
          else .panicked})
      fun err => {s with client := .finished (.error err)}
  | .finished _ | .panicked => none

def handleNext (s : Roundtrip) : Option Roundtrip :=
  match s.handle with
  | .start =>
    ((connection posts posts').step s.up (.inr (.readExact hello.read))).map fun up =>
      {s with up, handle := .first}
  | .first =>
    awaits s.up.2.read.returned
      (if hello.buf.bytes.map s.up.2.memory = hello.bytes then
        ((connection posts' posts).step s.down (.inr (.writeAll world.write world.source))).map
          fun down => {s with down, handle := .second}
      else some {s with handle := .panicked})
      fun err => {s with handle := .finished (.error err)}
  | .second =>
    awaits s.down.2.write.returned (some {s with handle := .finished (.ok ())})
      fun err => {s with handle := .finished (.error err)}
  | .finished _ | .panicked => none

def step (s : Roundtrip) : Action → Option Roundtrip
  | .up a => if calls a then none else
    ((connection posts posts').step s.up a).map fun up => {s with up}
  | .down a => if calls a then none else
    ((connection posts' posts).step s.down a).map fun down => {s with down}
  | .client => clientNext posts posts' hello world s
  | .handle => handleNext posts posts' hello world s

def machine : Machine Roundtrip Action := ⟨init posts posts', step posts posts' hello world⟩

end

end Roundtrip

/-! ### What only the tasks change -/

namespace Link

variable {slots slots' : Slot (Except IoError Nat) × Slot (Except IoError Nat)} {s s' : Link}

/-- The one call of `read_exact` so far is on this buffer. -/
structure Reading (whole : WSABUF) (s : Link) : Prop where
  buf : s.read.whole.buf = whole
  received : s.received = if s.read.returned = some (.ok ()) then whole.bytes.map s.memory else []

/-- No call of `read_exact` is under way: there has been none, or it has returned `Ok`. -/
def Rests (received : List UInt8) (s : Link) : Prop :=
  s.read.returned = some (.ok ()) ∧ s.received = received

/-- What a step of the read half leaves. -/
theorem reading_reads {b : Slot.Action (Except IoError Nat)} {slot : Slot (Except IoError Nat)}
    {read : Passage} (h : Flows slots s) (hslot : Slot.step slots.2 b = some slot)
    (hc : s.read.step b = some read) :
    (∀ whole, Reading whole s → Reading whole (s.reads read)) ∧
      ∀ received, ¬ Rests received s := by
  have hnone := h.read.returned hslot hc
  refine ⟨fun whole hreading => ?_, fun received hrests => ?_⟩
  · have hbuf := (h.read.step hslot hc).2.2
    have hbefore : s.received = [] := by simpa [hnone] using hreading.received
    refine ⟨hbuf.trans hreading.buf, ?_⟩
    show (if read.returned = some (.ok ()) then s.received ++ read.whole.buf.bytes.map s.memory
      else s.received) = _
    rw [hbuf, hreading.buf, hbefore]
    rfl
  · exact nomatch hnone.symm.trans hrests.1

/-- A step that is no call leaves what was sent, and the call of `read_exact`. -/
theorem reading_step {a} (h : Flows slots s) (hs : Slots.step (slots, s) a = some (slots', s'))
    (hw : ∀ buf source, a ≠ .inr (.writeAll buf source)) (hr : ∀ buf, a ≠ .inr (.readExact buf)) :
    s'.sent = s.sent ∧ (∀ whole, Reading whole s → Reading whole s') ∧
      ∀ received, Rests received s → Rests received s' := by
  obtain ⟨slot, slot'⟩ := slots
  cases a with
  | inl a =>
    obtain ⟨hslots, hlink⟩ := (Machine.beside_some rfl).mp hs
    cases a with
    | inl a =>
      obtain ⟨write, _, rfl⟩ := Option.map_eq_some_iff.mp hlink
      exact ⟨rfl, fun _ hreading => ⟨hreading.buf, hreading.received⟩, fun _ hrests => hrests⟩
    | inr a =>
      obtain ⟨_, hslot, rfl⟩ := Option.map_eq_some_iff.mp hslots
      obtain ⟨read, hc, rfl⟩ := Option.map_eq_some_iff.mp hlink
      obtain ⟨hreading, hrests⟩ := reading_reads h hslot hc
      exact ⟨rfl, hreading, fun received hrest => absurd hrest (hrests received)⟩
  | inr a =>
    obtain ⟨_, hlink⟩ := Machine.beside_own.mp hs
    cases a with
    | writeAll buf source => exact absurd rfl (hw buf source)
    | readExact buf => exact absurd rfl (hr buf)
    | send n =>
      obtain ⟨_, rfl⟩ : (s.write.busy = true ∧ s.write.moved + n ≤ s.write.window.len.toNat) ∧
          s.sends n = s' := by
        simpa [Link.machine, step] using hlink
      exact ⟨rfl, fun _ hreading => ⟨hreading.buf, hreading.received⟩, fun _ hrests => hrests⟩
    | receive n =>
      obtain ⟨⟨hb, _⟩, rfl⟩ : (s.read.busy = true ∧ s.read.moved + n ≤ s.read.window.len.toNat ∧
          s.position + n ≤ s.stream.length) ∧ s.receives n = s' := by
        simpa [Link.machine, step] using hlink
      have hnone := (h.read.window hb).1
      refine ⟨rfl, fun whole hreading => ⟨hreading.buf, ?_⟩, fun _ hrests => hrests⟩
      -- the bytes go where no call that has returned has its buffer
      have hreceived : s.received = [] := by simpa [hnone] using hreading.received
      show s.received = if s.read.returned = some (.ok ()) then _ else _
      rw [hnone, hreceived]
      rfl

end Link

namespace Roundtrip

section
variable {posts posts' : Bool} {m : Message}

/-- One direction. `written`, `reading`: whether its one call of `write_all`, of `read_exact`
has been made. -/
structure Carries (posts posts' : Bool) (m : Message) (written reading : Bool)
    (s : (Half × Half) × Link) : Prop where
  serial : Half.Serial posts s.1.1 ∧ Half.Serial posts' s.1.2
  flows : Link.Flows ((Link.asSlots posts posts').view s).1 s.2
  sent : s.2.sent = if written then m.bytes else []
  reading : if reading then s.2.Reading m.read else s.2.Rests []

variable {written reading : Bool} {s s' : (Half × Half) × Link}

theorem carries_init : Carries posts posts' m false false (connection posts posts').init where
  serial := (Link.asSlots posts posts').kept_init
  flows := Link.flows_init
  sent := rfl
  reading := ⟨rfl, rfl⟩

/-- What has come over is the message, once the call that reads it has returned `Ok`. -/
theorem Carries.arrives (h : Carries posts posts' m written true s)
    (hr : s.2.read.returned = some (.ok ())) :
    s.2.received = m.bytes ∧ m.buf.bytes.map s.2.memory = m.bytes ∧
      (m.bytes ≠ [] → written = true) := by
  have hreceived := h.reading.received
  rw [if_pos hr] at hreceived
  have hlength := m.length_read s.2.memory
  rw [← hreceived] at hlength
  have hbegins := h.flows.inOrder.received
  rw [h.sent] at hbegins
  rw [m.bytes_read] at hreceived
  cases written with
  | false =>
    have hnil : s.2.received = [] := List.prefix_nil.mp hbegins
    have hempty : m.bytes = [] := List.length_eq_zero_iff.mp (hlength ▸ hnil ▸ rfl)
    exact ⟨hnil.trans hempty.symm, hreceived.symm.trans (hnil.trans hempty.symm),
      fun hne => absurd hempty hne⟩
  | true =>
    have hall : s.2.received = m.bytes := hbegins.eq_of_length hlength
    exact ⟨hall, hreceived.symm.trans hall, fun _ => rfl⟩

/-- No task has a part in the step. -/
theorem Carries.step {a} (h : Carries posts posts' m written reading s)
    (hs : (connection posts posts').step s a = some s') (ha : calls a = false) :
    Carries posts posts' m written reading s' ∧
      ∀ received, s.2.Rests received → s'.2.Rests received := by
  obtain ⟨hserial, hflows⟩ := Link.flows_connection h.serial h.flows hs
  -- a call stays a call, as the slots see it
  have hcall : ∀ c, (Link.asSlots posts posts').part s a = some (.inr c) → calls (.inr c) = false := by
    intro c hc
    cases a with
    | inl a =>
      obtain ⟨_, _, hne⟩ := Option.map_eq_some_iff.mp hc
      cases hne
    | inr a =>
      obtain rfl : a = c := Sum.inr.inj (Option.some.inj hc)
      exact ha
  obtain ⟨hsent, hreading, hrests⟩ := (Link.asSlots posts posts').keeps
    (J := fun t => t.2.sent = s.2.sent ∧ (∀ whole, s.2.Reading whole → t.2.Reading whole) ∧
      ∀ received, s.2.Rests received → t.2.Rests received)
    h.serial ⟨rfl, fun _ h => h, fun _ h => h⟩
    (fun b hb ht => Link.reading_step h.flows ht
      (fun buf source hb' => Bool.noConfusion (hcall _ (hb' ▸ hb)))
      (fun buf hb' => Bool.noConfusion (hcall _ (hb' ▸ hb)))) hs
  refine ⟨⟨hserial, hflows, hsent.trans h.sent, ?_⟩, hrests⟩
  have hbefore := h.reading
  cases reading with
  | false => exact hrests [] hbefore
  | true => exact hreading m.read hbefore

/-- The message is given to `write_all`. -/
theorem Carries.write (h : Carries posts posts' m false reading s)
    (hs : (connection posts posts').step s (.inr (.writeAll m.write m.source)) = some s') :
    Carries posts posts' m true reading s' ∧
      ∀ received, s.2.Rests received → s'.2.Rests received := by
  obtain ⟨hserial, hflows⟩ := Link.flows_connection h.serial h.flows hs
  obtain ⟨_, hlink⟩ := Machine.beside_own.mp hs
  obtain ⟨_, hlink⟩ : s.2.write.returned = some (.ok ()) ∧ s.2.writeAll m.write m.source = s'.2 := by
    simpa [Link.machine, Link.step] using hlink
  refine ⟨⟨hserial, hflows, ?_, ?_⟩, fun received hrests => hlink ▸ hrests⟩
  · show s'.2.sent = m.bytes
    rw [← hlink]
    show s.2.sent ++ m.write.bytes.map m.source = m.bytes
    rw [h.sent, m.bytes_write]
    rfl
  · rw [← hlink]
    have hbefore := h.reading
    cases reading with
    | false => exact hbefore
    | true => exact ⟨hbefore.buf, hbefore.received⟩

/-- The buffer is given to `read_exact`. -/
theorem Carries.read (h : Carries posts posts' m written false s)
    (hs : (connection posts posts').step s (.inr (.readExact m.read)) = some s') :
    Carries posts posts' m written true s' := by
  obtain ⟨hserial, hflows⟩ := Link.flows_connection h.serial h.flows hs
  obtain ⟨_, hlink⟩ := Machine.beside_own.mp hs
  obtain ⟨_, hlink⟩ : s.2.read.returned = some (.ok ()) ∧
      {s.2 with read := .new (ReadExact.new m.read)} = s'.2 := by
    simpa [Link.machine, Link.step] using hlink
  refine ⟨hserial, hflows, ?_, ?_⟩
  · rw [← hlink]
    exact h.sent
  · rw [← hlink]
    exact ⟨rfl, h.reading.2⟩

end

/-! ### The tasks -/

theorem awaits_some {returned : Option (Except IoError Unit)} {next : Option Roundtrip}
    {fails : IoError → Roundtrip} {s : Roundtrip} (h : awaits returned next fails = some s) :
    (∃ err, returned = some (.error err) ∧ fails err = s) ∨
      returned = some (.ok ()) ∧ next = some s := by
  cases returned with
  | none => cases h
  | some result =>
    cases result with
    | error err => exact .inl ⟨err, rfl, Option.some.inj h⟩
    | ok => exact .inr ⟨rfl, h⟩

/-- Which of its two calls a task has made. -/
inductive Made : Task → Bool → Bool → Prop where
  | start : Made .start false false
  | first : Made .first true false
  | second : Made .second true true
  | failed {err : IoError} {second : Bool} : Made (.finished (.error err)) true second
  | finished : Made (.finished (.ok ())) true true

theorem Made.not_panicked {t : Task} {first second : Bool} (h : Made t first second) :
    t ≠ .panicked := by
  rintro rfl
  cases h

section
variable {posts posts' : Bool} {hello world : Message}

/-- The invariant. `asked`, `hears`: whether the client has written, and reads; `heard`,
`replied`: whether the other end reads, and has written. -/
structure Holds (posts posts' : Bool) (hello world : Message) (asked hears heard replied : Bool)
    (s : Roundtrip) : Prop where
  client : Made s.client asked hears
  handle : Made s.handle heard replied
  up : Carries posts posts' hello asked heard s.up
  down : Carries posts' posts world replied hears s.down
  /-- It answers once it has read the whole of what it is asked. -/
  answers : replied = true → s.up.2.Rests hello.bytes
  answered : s.client = .finished (.ok ()) →
    s.down.2.Rests world.bytes ∧ (world.bytes ≠ [] → replied = true)

variable {asked hears heard replied : Bool} {s s' : Roundtrip}

theorem holds_init :
    Holds posts posts' hello world false false false false (init posts posts') where
  client := .start
  handle := .start
  up := carries_init
  down := carries_init
  answers h := by cases h
  answered h := by cases h

theorem Holds.client_step (h : Holds posts posts' hello world asked hears heard replied s)
    (hs : clientNext posts posts' hello world s = some s') :
    ∃ asked hears, Holds posts posts' hello world asked hears heard replied s' := by
  obtain ⟨hclient, hhandle, hup, hdown, hanswers, hanswered⟩ := h
  unfold clientNext at hs
  cases hclient' : s.client with
  | start =>
    rw [hclient'] at hs hclient
    cases hclient
    obtain ⟨up, hwrite, rfl⟩ := Option.map_eq_some_iff.mp hs
    obtain ⟨hup', hrests⟩ := hup.write hwrite
    exact ⟨true, false, .first, hhandle, hup', hdown, fun ha => hrests _ (hanswers ha),
      fun hf => by cases hf⟩
  | first =>
    rw [hclient'] at hs hclient
    cases hclient
    rcases awaits_some hs with ⟨err, _, rfl⟩ | ⟨_, hnext⟩
    · exact ⟨true, false, .failed, hhandle, hup, hdown, hanswers, fun hf => by cases hf⟩
    · obtain ⟨down, hread, rfl⟩ := Option.map_eq_some_iff.mp hnext
      exact ⟨true, true, .second, hhandle, hup, hdown.read hread, hanswers, fun hf => by cases hf⟩
  | second =>
    rw [hclient'] at hs hclient
    cases hclient
    rcases awaits_some hs with ⟨err, _, rfl⟩ | ⟨hreturned, hnext⟩
    · exact ⟨true, true, .failed, hhandle, hup, hdown, hanswers, fun hf => by cases hf⟩
    · obtain ⟨hreceived, hbuf, hwritten⟩ := hdown.arrives hreturned
      rw [if_pos hbuf] at hnext
      cases hnext
      exact ⟨true, true, .finished, hhandle, hup, hdown, hanswers,
        fun _ => ⟨⟨hreturned, hreceived⟩, hwritten⟩⟩
  | finished result =>
    rw [hclient'] at hs
    cases hs
  | panicked =>
    rw [hclient'] at hs
    cases hs

theorem Holds.handle_step (h : Holds posts posts' hello world asked hears heard replied s)
    (hs : handleNext posts posts' hello world s = some s') :
    ∃ heard replied, Holds posts posts' hello world asked hears heard replied s' := by
  obtain ⟨hclient, hhandle, hup, hdown, hanswers, hanswered⟩ := h
  unfold handleNext at hs
  cases hhandle' : s.handle with
  | start =>
    rw [hhandle'] at hs hhandle
    cases hhandle
    obtain ⟨up, hread, rfl⟩ := Option.map_eq_some_iff.mp hs
    exact ⟨true, false, hclient, .first, hup.read hread, hdown, fun ha => (by cases ha), hanswered⟩
  | first =>
    rw [hhandle'] at hs hhandle
    cases hhandle
    rcases awaits_some hs with ⟨err, _, rfl⟩ | ⟨hreturned, hnext⟩
    · exact ⟨true, false, hclient, .failed, hup, hdown, hanswers, hanswered⟩
    · obtain ⟨hreceived, hbuf, _⟩ := hup.arrives hreturned
      rw [if_pos hbuf] at hnext
      obtain ⟨down, hwrite, rfl⟩ := Option.map_eq_some_iff.mp hnext
      obtain ⟨hdown', hrests⟩ := hdown.write hwrite
      refine ⟨true, true, hclient, .second, hup, hdown', fun _ => ⟨hreturned, hreceived⟩, ?_⟩
      exact fun hf => ⟨hrests _ (hanswered hf).1, fun _ => rfl⟩
  | second =>
    rw [hhandle'] at hs hhandle
    cases hhandle
    rcases awaits_some hs with ⟨err, _, rfl⟩ | ⟨_, hnext⟩
    · exact ⟨true, true, hclient, .failed, hup, hdown, hanswers, hanswered⟩
    · cases hnext
      exact ⟨true, true, hclient, .finished, hup, hdown, hanswers, hanswered⟩
  | finished result =>
    rw [hhandle'] at hs
    cases hs
  | panicked =>
    rw [hhandle'] at hs
    cases hs

/-- **The step lemma.** -/
theorem Holds.step {a : Action} (h : Holds posts posts' hello world asked hears heard replied s)
    (hs : step posts posts' hello world s a = some s') :
    ∃ asked hears heard replied, Holds posts posts' hello world asked hears heard replied s' := by
  cases a with
  | up a =>
    obtain ⟨hcalls, hs⟩ := Option.ite_none_left_eq_some.mp hs
    obtain ⟨up, hstep, rfl⟩ := Option.map_eq_some_iff.mp hs
    obtain ⟨hup, hrests⟩ := h.up.step hstep (Bool.not_eq_true _ ▸ hcalls)
    exact ⟨asked, hears, heard, replied, h.client, h.handle, hup, h.down,
      fun ha => hrests _ (h.answers ha), h.answered⟩
  | down a =>
    obtain ⟨hcalls, hs⟩ := Option.ite_none_left_eq_some.mp hs
    obtain ⟨down, hstep, rfl⟩ := Option.map_eq_some_iff.mp hs
    obtain ⟨hdown, hrests⟩ := h.down.step hstep (Bool.not_eq_true _ ▸ hcalls)
    exact ⟨asked, hears, heard, replied, h.client, h.handle, h.up, hdown, h.answers,
      fun hf => ⟨hrests _ (h.answered hf).1, (h.answered hf).2⟩⟩
  | client =>
    obtain ⟨asked, hears, hholds⟩ := h.client_step hs
    exact ⟨asked, hears, heard, replied, hholds⟩
  | handle =>
    obtain ⟨heard, replied, hholds⟩ := h.handle_step hs
    exact ⟨asked, hears, heard, replied, hholds⟩

/-- What the test is to show. -/
structure Passes (hello world : Message) (s : Roundtrip) : Prop where
  client : s.client ≠ .panicked
  handle : s.handle ≠ .panicked
  /-- A task that has returned `Ok` has read the other's message, and no more. -/
  heard : s.handle = .finished (.ok ()) → s.up.2.received = hello.bytes
  answered : s.client = .finished (.ok ()) → s.down.2.received = world.bytes
  /-- No answer comes before the question. -/
  asked : s.client = .finished (.ok ()) → world.bytes ≠ [] → s.up.2.received = hello.bytes

theorem Holds.passes (h : Holds posts posts' hello world asked hears heard replied s) :
    Passes hello world s where
  client := h.client.not_panicked
  handle := h.handle.not_panicked
  heard hf := by
    have hhandle := h.handle
    rw [hf] at hhandle
    cases hhandle
    exact (h.answers rfl).2
  answered hf := (h.answered hf).1.2
  asked hf hne := (h.answers ((h.answered hf).2 hne)).2

/-- **The test passes**: in every interleaving of the two tasks, their halves' callbacks and
the system in which the halves are orderly, whatever portions the bytes come in, no
assertion fails; and a task that has returned `Ok` has read what the other was to send. -/
theorem roundtrip_passes (posts posts' : Bool) (hello world : Message) (as : List Action) :
    (machine posts posts' hello world).Steps (fun _ _ s' => s'.Passes hello world)
      (init posts posts') as := by
  refine Machine.Steps.of_kept (I := fun s => ∃ asked hears heard replied,
    Holds posts posts' hello world asked hears heard replied s) (fun s a s' hI hs => ?_)
    ⟨false, false, false, false, holds_init⟩ as
  obtain ⟨_, _, _, _, hholds⟩ := hI
  obtain ⟨asked, hears, heard, replied, hkept⟩ := hholds.step hs
  exact ⟨⟨asked, hears, heard, replied, hkept⟩, hkept.passes⟩

end

/-- Both return `Ok`: two bytes each way, each sent at once and received later. -/
example :
    let message (n : Nat) : Message := ⟨⟨0, 2⟩, fun i => .ofNat (i + n), ⟨4, 2⟩, rfl, by decide⟩
    let passage : List ((Io.Action ⊕ Io.Action) ⊕ Link.Action) :=
      [.inl (.inr (.poll 0)), .inl (.inr .owner), .inl (.inr .owner),
       .inl (.inr (.issue (.failed 997))), .inl (.inr .owner),
       .inl (.inl (.poll 0)), .inl (.inl .owner), .inl (.inl .owner), .inr (.send 2),
       .inl (.inl (.issue (.accepted ⟨0, 2⟩))), .inl (.inl .owner), .inl (.inl .owner),
       .inr (.receive 2), .inl (.inr (.complete 1 ⟨0, 2⟩)), .inl (.inr (.callback 1)),
       .inl (.inr (.callback 1)), .inl (.inr (.callback 1)), .inl (.inr (.callback 1)),
       .inl (.inr (.poll 0)), .inl (.inr .owner), .inl (.inr .owner), .inl (.inr .owner)]
    ((machine true true (message 7) (message 9)).run (init true true)
      ([.handle, .client] ++ passage.map .up ++ [.client, .handle] ++ passage.map .down ++
        [.handle, .client])).map (fun s => (s.client, s.handle)) =
      some (.finished (.ok ()), .finished (.ok ())) := by
  rfl

end Roundtrip

end Wae.Net.Tcp
