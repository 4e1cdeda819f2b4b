import Rmote.Stream.Credit
import Rmote.Wire.Packet

/-!
# The consuming side of a stream

`Consumer` is one call of `stream` with the queue that the receive loop fills for
it. The receive loop reaches the queue through the registries of the protocol, so
`registered` says whether they still name it; the entries for the buffered bytes
and for the budget that was passed live and die with this registration.

The generator is suspended at its awaits and at its yields. It gives the permission
back when the user asks for the item after the last one of a packet, once half of
the window or half of the backlog is owed.
-/

namespace Rmote

/-- What the receive loop leaves in the queue. -/
structure Entry where
  flags : Flags
  payload : Decoded Bytes
  size : ℕ

/-- The items of an entry: those of a batch, or the one item. -/
def Entry.items (e : Entry) : List Bytes :=
  match e.payload with
  | .items values => values
  | .value value => [value]
  | .error _ => []

/-- The text of the exception that an entry holds. -/
def Entry.text (e : Entry) : String :=
  match e.payload with
  | .error text => text
  | _ => ""

/-- The entry ends its stream. -/
def Entry.ends (e : Entry) : Bool := e.flags.has Flags.exception || !e.flags.has Flags.stream

theorem ends_exception (payload : Decoded Bytes) :
    Entry.ends ⟨Flags.exception ||| Flags.response, payload, 0⟩ = true := by
  have hbits : (Flags.exception ||| Flags.response).has Flags.exception = true := by decide
  simp only [Entry.ends, hbits, Bool.true_or]

theorem ends_response (payload : Decoded Bytes) :
    Entry.ends ⟨Flags.rpc ||| Flags.response, payload, 0⟩ = true := by
  have hbits : (Flags.rpc ||| Flags.response).has Flags.stream = false := by decide
  simp only [Entry.ends, hbits, Bool.not_false, Bool.or_true]

/-- How a streaming call ended. -/
inductive Ending where
  /-- The ordinary response came after the items. -/
  | complete
  /-- An exception was raised to the user. -/
  | failed (text : String)
  /-- The user closed or cancelled the generator. -/
  | left
  deriving DecidableEq, Repr

/-- Where the generator stands. -/
inductive ConsumerPhase where
  /-- It sends the request. -/
  | sending
  /-- It waits in `queue.get`. -/
  | waiting
  /-- It gave an item of a packet to the user; `rest` are those that follow. -/
  | yielding (rest : List Bytes) (count size : ℕ)
  /-- It sends a permission. -/
  | returning
  /-- It sends the stop. -/
  | stopping (ending : Ending)
  | ended (ending : Ending)
  deriving DecidableEq, Repr

/-- The generator has not come to its end. -/
def ConsumerPhase.active : ConsumerPhase → Bool
  | .stopping _ => false
  | .ended _ => false
  | _ => true

/-- One call of `stream`. `delivered` are the items that the user got. -/
structure Consumer where
  queue : List Entry
  registered : Bool
  buffered : ℕ
  overBudget : Bool
  owedBytes : ℕ
  owedItems : ℕ
  finished : Bool
  phase : ConsumerPhase
  delivered : List Bytes

namespace Consumer

/-- The queue keeps one slot above the backlog for the end or the failure. -/
def queueSize : ℕ := maxStreamBacklog + 1

/-- The call when it begins to send its request. -/
def init : Consumer where
  queue := []
  registered := true
  buffered := 0
  overBudget := false
  owedBytes := 0
  owedItems := 0
  finished := false
  phase := .sending
  delivered := []

/-- The request is sent. -/
def start (c : Consumer) : Consumer := { c with phase := .waiting }

/-- The text of the error that a peer gets which ignores its permission. -/
def overBudgetText (packetId waiting buffered : ℕ) : String :=
  s!"Streaming call {packetId} ignored its permission: " ++
    s!"{waiting} items and {buffered} bytes are waiting"

/-- The packet passes one of the three limits of the receive loop. -/
def exceeds (c : Consumer) (size : ℕ) : Bool :=
  maxStreamBacklog ≤ c.queue.length || maxStreamItem < size ||
    !(c.buffered + size ≤ maxStreamWindow || c.queue.isEmpty)

/-- Hand one packet of items to the consumer. -/
def handleStreamItem (c : Consumer) (packetId : ℕ) (flags : Flags) (payload : Decoded Bytes)
    (size : ℕ) : Consumer :=
  if !c.registered || c.overBudget then
    c
  else if c.exceeds size then
    { c with
      overBudget := true
      queue := c.queue ++ [⟨Flags.exception ||| Flags.response,
        .error (overBudgetText packetId c.queue.length (c.buffered + size)), 0⟩] }
  else
    { c with
      buffered := c.buffered + size
      queue := c.queue ++ [⟨flags, payload, size⟩] }

/-- Put the end or the failure of the stream, unless the queue is full. -/
def putEnd (c : Consumer) (flags : Flags) (payload : Decoded Bytes) : Consumer :=
  if c.registered && c.queue.length < queueSize then
    { c with queue := c.queue ++ [⟨flags, payload, 0⟩] }
  else
    c

/-- The part of `_finish_pending` that concerns the call. -/
def close (c : Consumer) (text : String) : Consumer :=
  { c.putEnd (Flags.exception ||| Flags.response) (.error text) with
    registered := false
    buffered := 0
    overBudget := false }

/-- The `finally` block, up to the send of the stop. -/
def unwind (c : Consumer) (closed : Bool) (ending : Ending) : Consumer :=
  { c with
    registered := false
    buffered := 0
    overBudget := false
    phase := if c.finished || closed then .ended ending else .stopping ending }

/-- The items of a packet are taken: half of a budget goes back. -/
def settle (c : Consumer) (count size : ℕ) : Consumer :=
  { c with
    owedBytes := c.owedBytes + size
    owedItems := c.owedItems + count
    phase :=
      if maxStreamWindow ≤ (c.owedBytes + size) * 2 ∨
          maxStreamBacklog ≤ (c.owedItems + count) * 2 then
        .returning
      else
        .waiting }

/-- Go on with the items of a packet. -/
def advance (c : Consumer) (rest : List Bytes) (count size : ℕ) : Consumer :=
  match rest with
  | [] => c.settle count size
  | item :: rest =>
      { c with phase := .yielding rest count size, delivered := c.delivered ++ [item] }

/-- Take the next entry from the queue. `closed` tells whether the connection is
over. -/
def get (c : Consumer) (closed : Bool) : Option Consumer :=
  match c.phase, c.queue with
  | .waiting, e :: queue =>
      let c := { c with queue := queue, buffered := c.buffered - e.size }
      if e.flags.has Flags.exception then
        some ({ c with finished := true }.unwind closed (.failed e.text))
      else if e.flags.has Flags.stream then
        some (c.advance e.items e.items.length e.size)
      else
        some ({ c with finished := true }.unwind closed .complete)
  | _, _ => none

/-- The user asks for the next item. -/
def next (c : Consumer) : Option Consumer :=
  match c.phase with
  | .yielding rest count size => some (c.advance rest count size)
  | _ => none

/-- The permission is sent. -/
def returned (c : Consumer) : Option Consumer :=
  match c.phase with
  | .returning => some { c with owedBytes := 0, owedItems := 0, phase := .waiting }
  | _ => none

/-- The user closes or cancels the generator at the place where it is suspended. -/
def leave (c : Consumer) (closed : Bool) : Option Consumer :=
  match c.phase with
  | .sending => some (c.unwind closed .left)
  | .waiting => some (c.unwind closed .left)
  | .yielding _ _ _ => some (c.unwind closed .left)
  | .returning => some (c.unwind closed .left)
  | _ => none

/-- The stop is sent. -/
def stopped (c : Consumer) : Option Consumer :=
  match c.phase with
  | .stopping ending => some { c with phase := .ended ending }
  | _ => none

@[simp] theorem registered_advance (c : Consumer) (items : List Bytes) (count size : ℕ) :
    (c.advance items count size).registered = c.registered := by
  cases items <;> rfl

@[simp] theorem overBudget_advance (c : Consumer) (items : List Bytes) (count size : ℕ) :
    (c.advance items count size).overBudget = c.overBudget := by
  cases items <;> rfl

@[simp] theorem queue_advance (c : Consumer) (items : List Bytes) (count size : ℕ) :
    (c.advance items count size).queue = c.queue := by
  cases items <;> rfl

@[simp] theorem buffered_advance (c : Consumer) (items : List Bytes) (count size : ℕ) :
    (c.advance items count size).buffered = c.buffered := by
  cases items <;> rfl

theorem active_advance (c : Consumer) (items : List Bytes) (count size : ℕ) :
    (c.advance items count size).phase.active = true := by
  cases items with
  | nil =>
      unfold advance settle
      simp only
      split_ifs <;> rfl
  | cons item items => rfl

@[simp] theorem phase_putEnd (c : Consumer) (flags : Flags) (payload : Decoded Bytes) :
    (c.putEnd flags payload).phase = c.phase := by
  unfold putEnd
  split_ifs <;> rfl

@[simp] theorem registered_putEnd (c : Consumer) (flags : Flags) (payload : Decoded Bytes) :
    (c.putEnd flags payload).registered = c.registered := by
  unfold putEnd
  split_ifs <;> rfl

@[simp] theorem phase_handleStreamItem (c : Consumer) (packetId : ℕ) (flags : Flags)
    (payload : Decoded Bytes) (size : ℕ) :
    (c.handleStreamItem packetId flags payload size).phase = c.phase := by
  unfold handleStreamItem
  split_ifs <;> rfl

@[simp] theorem registered_handleStreamItem (c : Consumer) (packetId : ℕ) (flags : Flags)
    (payload : Decoded Bytes) (size : ℕ) :
    (c.handleStreamItem packetId flags payload size).registered = c.registered := by
  unfold handleStreamItem
  split_ifs <;> rfl

@[simp] theorem phase_close (c : Consumer) (text : String) : (c.close text).phase = c.phase :=
  c.phase_putEnd ..

variable {c c' : Consumer} {closed : Bool}

/-- Everything that taking an entry can do. -/
theorem get_cases (h : c.get closed = some c') :
    ∃ e queue, c.phase = .waiting ∧ c.queue = e :: queue ∧
      ((e.flags.has Flags.exception = true ∧
          c' = { c with
            queue := queue
            buffered := c.buffered - e.size
            finished := true }.unwind closed (.failed e.text)) ∨
        (e.flags.has Flags.exception = false ∧ e.flags.has Flags.stream = true ∧
          c' = { c with queue := queue, buffered := c.buffered - e.size }.advance e.items
            e.items.length e.size) ∨
        (e.flags.has Flags.exception = false ∧ e.flags.has Flags.stream = false ∧
          c' = { c with
            queue := queue
            buffered := c.buffered - e.size
            finished := true }.unwind closed .complete)) := by
  unfold get at h
  split at h
  · rename_i e queue hphase hqueue
    refine ⟨e, queue, hphase, hqueue, ?_⟩
    simp only at h
    split_ifs at h with hexception hstream
    · exact .inl ⟨hexception, (Option.some.inj h).symm⟩
    · exact .inr (.inl ⟨by simpa using hexception, hstream, (Option.some.inj h).symm⟩)
    · exact .inr (.inr ⟨by simpa using hexception, by simpa using hstream,
        (Option.some.inj h).symm⟩)
  · cases h

theorem next_cases (h : c.next = some c') :
    ∃ rest count size, c.phase = .yielding rest count size ∧ c' = c.advance rest count size := by
  unfold next at h
  split at h
  · rename_i rest count size hphase
    exact ⟨rest, count, size, hphase, (Option.some.inj h).symm⟩
  · cases h

theorem returned_cases (h : c.returned = some c') :
    c.phase = .returning ∧ c' = { c with owedBytes := 0, owedItems := 0, phase := .waiting } := by
  unfold returned at h
  split at h
  · rename_i hphase
    exact ⟨hphase, (Option.some.inj h).symm⟩
  · cases h

theorem leave_cases (h : c.leave closed = some c') : c' = c.unwind closed .left := by
  unfold leave at h
  split at h
  · exact (Option.some.inj h).symm
  · exact (Option.some.inj h).symm
  · exact (Option.some.inj h).symm
  · exact (Option.some.inj h).symm
  · cases h

theorem stopped_cases (h : c.stopped = some c') :
    ∃ ending, c.phase = .stopping ending ∧ c' = { c with phase := .ended ending } := by
  unfold stopped at h
  split at h
  · rename_i ending hphase
    exact ⟨ending, hphase, (Option.some.inj h).symm⟩
  · cases h

/-- The packets of items in the queue leave one slot free. -/
def Room (c : Consumer) : Prop := c.queue.countP (fun e => !e.ends) ≤ maxStreamBacklog

/-- A full queue holds an end. -/
theorem Room.end_of_full (h : c.Room) (hfull : queueSize ≤ c.queue.length) :
    ∃ e ∈ c.queue, e.ends = true := by
  by_contra hnone
  have hall : c.queue.countP (fun e => !e.ends) = c.queue.length := by
    rw [List.countP_eq_length]
    intro e he
    cases hends : e.ends with
    | true => exact absurd ⟨e, he, hends⟩ hnone
    | false => rfl
  unfold Room at h
  rw [hall] at h
  have hsize : queueSize = maxStreamBacklog + 1 := rfl
  omega

/-- An end joins the queue. -/
theorem Room.putEnd (h : c.Room) {flags : Flags} (payload : Decoded Bytes)
    (hflags : Entry.ends ⟨flags, payload, 0⟩ = true) : (c.putEnd flags payload).Room := by
  unfold Consumer.putEnd
  split_ifs
  · unfold Room at h ⊢
    simpa [List.countP_append, hflags] using h
  · exact h

/-- A packet of items joins the queue, or the report of a peer that ignored its
permission. -/
theorem Room.handleStreamItem (h : c.Room) (packetId : ℕ) (flags : Flags)
    (payload : Decoded Bytes) (size : ℕ) :
    (c.handleStreamItem packetId flags payload size).Room := by
  unfold Consumer.handleStreamItem
  split_ifs with hdrop hexceeds
  · exact h
  · unfold Room at h ⊢
    simpa [List.countP_append, ends_exception] using h
  · have hlength : c.queue.length < maxStreamBacklog := by
      simp only [exceeds, Bool.or_eq_true, decide_eq_true_eq, not_or, not_le]
        at hexceeds
      exact hexceeds.1.1
    calc List.countP (fun e => !e.ends) (c.queue ++ [⟨flags, payload, size⟩])
        ≤ (c.queue ++ [(⟨flags, payload, size⟩ : Entry)]).length := List.countP_le_length
      _ ≤ maxStreamBacklog := by
          rw [List.length_append, List.length_singleton]
          exact hlength

theorem Room.get (h : c.Room) {closed : Bool} (hget : c.get closed = some c') : c'.Room := by
  obtain ⟨e, queue, -, hqueue, hcases⟩ := get_cases hget
  have hroom : queue.countP (fun e => !e.ends) ≤ maxStreamBacklog := by
    have hsub : queue.Sublist c.queue := by
      rw [hqueue]
      exact List.sublist_cons_self e queue
    exact (hsub.countP_le).trans h
  rcases hcases with ⟨-, rfl⟩ | ⟨-, -, rfl⟩ | ⟨-, -, rfl⟩
  · exact hroom
  · unfold Room
    simpa using hroom
  · exact hroom

/-- A registered stream without an end in its queue takes one. -/
theorem putEnd_of_open (hroom : c.Room) (hregistered : c.registered = true)
    (hopen : ∀ e ∈ c.queue, e.ends = false) (flags : Flags) (payload : Decoded Bytes) :
    c.putEnd flags payload = { c with queue := c.queue ++ [⟨flags, payload, 0⟩] } := by
  have hlength : c.queue.length < queueSize := by
    by_contra hfull
    obtain ⟨e, he, hends⟩ := hroom.end_of_full (Nat.le_of_not_lt hfull)
    rw [hopen e he] at hends
    cases hends
  simp [putEnd, hregistered, hlength]

end Consumer

end Rmote
