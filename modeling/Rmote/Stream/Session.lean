import Rmote.Library.Machine
import Rmote.Stream.Consumer

/-!
# One stream between two endpoints

`Session` holds both ends of one streaming call: the handler inside `send_stream`
with its credit and its buffer, the task that writes what gathered, the packets of
the stream on the way to the consumer, the permissions on the way back, and the
consumer. Both directions keep their order. One event is one stretch of one task
between two awaits, so a run of events is one interleaving of the two endpoints on
a connection that stays open. The consumer accepts code.

The generator of the method is the environment: each `produce` brings any item,
with the sources that `encode` reports for it. `produced` and `pushed` record the
items that it gave and those that were paid and left in the buffer.
-/

namespace Rmote

/-- One pickled item with the sources that the peer does not have. -/
structure Item where
  payload : Bytes
  sources : Manifest

/-- What the sender pays for an item: its pickle and the length before it. -/
def Item.price (i : Item) : ℕ := i.payload.length + itemHeaderSize

/-- The items that wait for the writer. -/
structure StreamBuffer where
  frames : List Bytes
  sources : Manifest
  ready : Bool
  done : Bool

namespace StreamBuffer

def new : StreamBuffer := ⟨[], ∅, false, false⟩

/-- Hand one paid item to the writer. -/
def push (b : StreamBuffer) (item : Item) : StreamBuffer :=
  { b with
    frames := b.frames ++ [item.payload]
    sources := item.sources ∪ b.sources
    ready := true }

/-- No more items will arrive. -/
def finish (b : StreamBuffer) : StreamBuffer := { b with done := true, ready := true }

end StreamBuffer

/-- The flags of a packet with items. -/
def streamFlags (sources : Manifest) : Flags :=
  let flags := Flags.rpc ||| Flags.response ||| Flags.stream ||| Flags.batch
  if sources.entries.isEmpty then flags else flags ||| Flags.modules

/-- How the body of `send_stream` came to its `finally` block. -/
inductive Outcome where
  /-- The generator is exhausted, or `spend` told the sender to stop. -/
  | returned
  | raised (text : String)
  | cancelled
  deriving DecidableEq, Repr

/-- Where the handler stands. Its credit is registered in the first two phases. -/
inductive SenderPhase where
  /-- It waits for the generator. -/
  | produce
  /-- It waits for permission inside `spend`. -/
  | spending (item : Item)
  /-- It waits for the writer. -/
  | finishing (outcome : Outcome)
  | done (outcome : Outcome)

/-- Where the writer task of the buffer stands. -/
inductive WriterPhase where
  | waiting
  | writing (frames : List Bytes) (sources : Manifest)
  | returned

/-- A packet of the stream on its way to the consumer. -/
structure Forward where
  flags : Flags
  payload : Bytes

/-- What the consumer sends back. -/
inductive Back where
  | permission (bytes items : ℕ)
  | stop
  deriving DecidableEq, Repr

/-- Both ends of one streaming call. `responding` is the task that hands the
ordinary response to the queue of the consumer. -/
structure Session where
  packetId : ℕ
  phase : SenderPhase
  credit : StreamCredit
  cancelling : Bool
  buffer : StreamBuffer
  writer : WriterPhase
  forward : List Forward
  back : List Back
  responding : Option (Decoded Bytes)
  consumer : Consumer
  produced : List Item
  pushed : List Item

/-- The steps of the two endpoints. -/
inductive SessionEvent where
  | produce (item : Item)
  | exhaust
  | raise (text : String)
  | resume
  | unwind
  | flush
  | sent
  | respond (payload : Bytes)
  | credit
  | start
  | arrive
  | deliverEnd
  | get
  | next
  | returned
  | leave
  | stopped

namespace Session

/-- The handler registered its credit, and the consumer begins to send. -/
def init (packetId : ℕ) : Session where
  packetId := packetId
  phase := .produce
  credit := StreamCredit.new maxStreamWindow maxStreamBacklog
  cancelling := false
  buffer := StreamBuffer.new
  writer := .waiting
  forward := []
  back := []
  responding := none
  consumer := Consumer.init
  produced := []
  pushed := []

/-- The `finally` block of `send_stream`, up to the wait for the writer. -/
def finish (s : Session) (outcome : Outcome) : Session :=
  { s with phase := .finishing outcome, buffer := s.buffer.finish }

/-- One pass through `spend` for an item. -/
def spend (s : Session) (item : Item) : Session :=
  match s.credit.spend item.price with
  | (.stopped, _) => s.finish .returned
  | (.paid, credit) =>
      { s with
        phase := .produce
        credit := credit
        buffer := s.buffer.push item
        pushed := s.pushed ++ [item] }
  | (.waits, credit) => { s with phase := .spending item, credit := credit }

/-- The text for an item above the limit. -/
def itemText (size : ℕ) : String :=
  s!"Streaming item of {size} bytes is above the limit of {maxStreamItem} bytes"

/-- The generator gave an item. -/
def produce (s : Session) (item : Item) : Session :=
  let s := { s with produced := s.produced ++ [item] }
  if maxStreamItem < item.payload.length then
    s.finish (.raised (itemText item.payload.length))
  else
    s.spend item

/-- The writer checks whether it is done. -/
def afterWrite (s : Session) : Session :=
  { s with writer := if s.buffer.done && s.buffer.frames.isEmpty then .returned else .waiting }

/-- The writer wakes and takes what gathered. -/
def flush (s : Session) : Session :=
  let s' := { s with buffer := { s.buffer with frames := [], sources := ∅, ready := false } }
  if s.buffer.frames.isEmpty then
    s'.afterWrite
  else
    { s' with writer := .writing s.buffer.frames s.buffer.sources }

/-- The sender takes what the consumer sent back. -/
def handleStreamCredit (s : Session) : Back → Session
  | .stop => { s with credit := s.credit.release, cancelling := true }
  | .permission bytes items =>
      match s.credit.giveBack bytes items with
      | .ok credit => { s with credit := credit }
      | .error _ => { s with credit := s.credit.release }

/-- The credit is in the registry of the sender. -/
def registered (s : Session) : Bool :=
  match s.phase with
  | .produce => true
  | .spending _ => true
  | _ => false

/-- The receive loop of the consumer handles one packet of the stream. -/
def receive (P : Pickle) (s : Session) (m : Forward) : Session :=
  match decodePacket P true .ok m.payload m.flags s.packetId with
  | .error error => { s with consumer := s.consumer.close error.message }
  | .ok packet =>
      let ⟨payload, flags, packetId, size⟩ := packet
      if flags.has Flags.exception then
        { s with consumer := s.consumer.putEnd (Flags.exception ||| Flags.response) payload }
      else if flags.has Flags.stream then
        { s with consumer := s.consumer.handleStreamItem packetId flags payload size }
      else
        { s with responding := some payload }

/-- One stretch of the event loop of either endpoint. -/
def step (P : Pickle) (s : Session) : SessionEvent → Option Session
  | .produce item =>
      match s.phase with
      | .produce => some (s.produce item)
      | _ => none
  | .exhaust =>
      match s.phase with
      | .produce => some (s.finish .returned)
      | _ => none
  | .raise text =>
      match s.phase with
      | .produce => some (s.finish (.raised text))
      | _ => none
  | .resume =>
      match s.phase with
      | .spending item => if s.credit.ready then some (s.spend item) else none
      | _ => none
  | .unwind => if s.cancelling && s.registered then some (s.finish .cancelled) else none
  | .flush =>
      match s.writer with
      | .waiting => if s.buffer.ready then some s.flush else none
      | _ => none
  | .sent =>
      match s.writer with
      | .writing frames sources =>
          let message : Forward := ⟨streamFlags sources, streamPayload P frames sources⟩
          some { s with forward := s.forward ++ [message] }.afterWrite
      | _ => none
  | .respond payload =>
      match s.phase, s.writer with
      | .finishing .returned, .returned =>
          some { s with
            phase := .done .returned
            forward := s.forward ++ [⟨Flags.rpc ||| Flags.response, payload⟩] }
      | .finishing (.raised text), .returned =>
          some { s with
            phase := .done (.raised text)
            forward := s.forward ++ [⟨Flags.exception ||| Flags.response, payload⟩] }
      -- A cancelled handler sends no response.
      | .finishing .cancelled, .returned => some { s with phase := .done .cancelled }
      | _, _ => none
  | .credit =>
      match s.back with
      | [] => none
      | message :: back =>
          let s := { s with back := back }
          some (if s.registered then s.handleStreamCredit message else s)
  | .start =>
      match s.consumer.phase with
      | .sending => some { s with consumer := s.consumer.start }
      | _ => none
  | .arrive =>
      match s.forward with
      | [] => none
      | message :: forward => some ({ s with forward := forward }.receive P message)
  | .deliverEnd =>
      match s.responding with
      | none => none
      | some payload =>
          some { s with
            responding := none
            consumer := s.consumer.putEnd (Flags.rpc ||| Flags.response) payload }
  | .get => (s.consumer.get false).map fun c => { s with consumer := c }
  | .next => s.consumer.next.map fun c => { s with consumer := c }
  | .returned =>
      s.consumer.returned.map fun c => { s with
        consumer := c
        back := s.back ++ [.permission s.consumer.owedBytes s.consumer.owedItems] }
  | .leave => (s.consumer.leave false).map fun c => { s with consumer := c }
  | .stopped =>
      s.consumer.stopped.map fun c => { s with consumer := c, back := s.back ++ [.stop] }

/-- Everything that one step can do, with what it needs. -/
inductive Step (P : Pickle) (s : Session) : SessionEvent → Session → Prop where
  | tooLarge (item : Item) (hphase : s.phase = .produce)
      (hlarge : maxStreamItem < item.payload.length) :
      Step P s (.produce item) ({ s with produced := s.produced ++ [item] }.finish
        (.raised (itemText item.payload.length)))
  | produce (item : Item) (hphase : s.phase = .produce)
      (hsmall : item.payload.length ≤ maxStreamItem) :
      Step P s (.produce item) ({ s with produced := s.produced ++ [item] }.spend item)
  | resume (item : Item) (hphase : s.phase = .spending item) (hready : s.credit.ready = true) :
      Step P s .resume (s.spend item)
  | exhaust (hphase : s.phase = .produce) : Step P s .exhaust (s.finish .returned)
  | raise (text : String) (hphase : s.phase = .produce) :
      Step P s (.raise text) (s.finish (.raised text))
  | unwind (hregistered : s.registered = true) (hcancelling : s.cancelling = true) :
      Step P s .unwind (s.finish .cancelled)
  | flush (hwriter : s.writer = .waiting) (hready : s.buffer.ready = true) : Step P s .flush s.flush
  | sent (frames : List Bytes) (sources : Manifest) (hwriter : s.writer = .writing frames sources) :
      Step P s .sent { s with forward :=
        s.forward ++ [(⟨streamFlags sources, streamPayload P frames sources⟩ : Forward)] }.afterWrite
  | response (payload : Bytes) (hphase : s.phase = .finishing .returned)
      (hwriter : s.writer = .returned) :
      Step P s (.respond payload) { s with
        phase := .done .returned
        forward := s.forward ++ [⟨Flags.rpc ||| Flags.response, payload⟩] }
  | failure (payload : Bytes) (text : String) (hphase : s.phase = .finishing (.raised text))
      (hwriter : s.writer = .returned) :
      Step P s (.respond payload) { s with
        phase := .done (.raised text)
        forward := s.forward ++ [⟨Flags.exception ||| Flags.response, payload⟩] }
  | silent (payload : Bytes) (hphase : s.phase = .finishing .cancelled)
      (hwriter : s.writer = .returned) :
      Step P s (.respond payload) { s with phase := .done .cancelled }
  | credit (message : Back) (back : List Back) (hback : s.back = message :: back)
      (hregistered : s.registered = true) :
      Step P s .credit ({ s with back := back }.handleStreamCredit message)
  | creditLate (message : Back) (back : List Back) (hback : s.back = message :: back)
      (hregistered : s.registered = false) : Step P s .credit { s with back := back }
  | start (hphase : s.consumer.phase = .sending) :
      Step P s .start { s with consumer := s.consumer.start }
  | arrive (message : Forward) (forward : List Forward) (hforward : s.forward = message :: forward) :
      Step P s .arrive ({ s with forward := forward }.receive P message)
  | deliverEnd (payload : Decoded Bytes) (hresponding : s.responding = some payload) :
      Step P s .deliverEnd { s with
        responding := none
        consumer := s.consumer.putEnd (Flags.rpc ||| Flags.response) payload }
  | get (c : Consumer) (hget : s.consumer.get false = some c) :
      Step P s .get { s with consumer := c }
  | next (c : Consumer) (hnext : s.consumer.next = some c) : Step P s .next { s with consumer := c }
  | returned (c : Consumer) (hreturned : s.consumer.returned = some c) :
      Step P s .returned { s with
        consumer := c
        back := s.back ++ [.permission s.consumer.owedBytes s.consumer.owedItems] }
  | leave (c : Consumer) (hleave : s.consumer.leave false = some c) :
      Step P s .leave { s with consumer := c }
  | stopped (c : Consumer) (hstopped : s.consumer.stopped = some c) :
      Step P s .stopped { s with consumer := c, back := s.back ++ [.stop] }

theorem step_spec {P : Pickle} {s s' : Session} {e : SessionEvent} (h : s.step P e = some s') :
    Step P s e s' := by
  cases e with
  | produce item =>
      simp only [step] at h
      split at h
      · rename_i hphase
        obtain rfl := Option.some.inj h
        simp only [Session.produce]
        split_ifs with hlarge
        · exact .tooLarge item hphase hlarge
        · exact .produce item hphase (not_lt.mp hlarge)
      · cases h
  | exhaust =>
      simp only [step] at h
      split at h
      · rename_i hphase
        obtain rfl := Option.some.inj h
        exact .exhaust hphase
      · cases h
  | raise text =>
      simp only [step] at h
      split at h
      · rename_i hphase
        obtain rfl := Option.some.inj h
        exact .raise text hphase
      · cases h
  | resume =>
      simp only [step] at h
      split at h
      · rename_i item hphase
        split_ifs at h with hready
        obtain rfl := Option.some.inj h
        exact .resume item hphase hready
      · cases h
  | unwind =>
      simp only [step] at h
      split_ifs at h with hguard
      obtain ⟨hcancelling, hregistered⟩ := Bool.and_eq_true_iff.mp hguard
      obtain rfl := Option.some.inj h
      exact .unwind hregistered hcancelling
  | flush =>
      simp only [step] at h
      split at h
      · rename_i hwriter
        split_ifs at h with hready
        obtain rfl := Option.some.inj h
        exact .flush hwriter hready
      · cases h
  | sent =>
      simp only [step] at h
      split at h
      · rename_i frames sources hwriter
        obtain rfl := Option.some.inj h
        exact .sent frames sources hwriter
      · cases h
  | respond payload =>
      simp only [step] at h
      split at h
      · rename_i hphase hwriter
        obtain rfl := Option.some.inj h
        exact .response payload hphase hwriter
      · rename_i text hphase hwriter
        obtain rfl := Option.some.inj h
        exact .failure payload text hphase hwriter
      · rename_i hphase hwriter
        obtain rfl := Option.some.inj h
        exact .silent payload hphase hwriter
      · cases h
  | credit =>
      simp only [step] at h
      split at h
      · cases h
      · rename_i message back hback
        obtain rfl := Option.some.inj h
        split_ifs with hregistered
        · exact .credit message back hback hregistered
        · exact .creditLate message back hback (Bool.eq_false_iff.mpr hregistered)
  | start =>
      simp only [step] at h
      split at h
      · rename_i hphase
        obtain rfl := Option.some.inj h
        exact .start hphase
      · cases h
  | arrive =>
      simp only [step] at h
      split at h
      · cases h
      · rename_i message forward hforward
        obtain rfl := Option.some.inj h
        exact .arrive message forward hforward
  | deliverEnd =>
      simp only [step] at h
      split at h
      · cases h
      · rename_i payload hresponding
        obtain rfl := Option.some.inj h
        exact .deliverEnd payload hresponding
  | get =>
      obtain ⟨c, hget, rfl⟩ := Option.map_eq_some_iff.mp h
      exact .get c hget
  | next =>
      obtain ⟨c, hnext, rfl⟩ := Option.map_eq_some_iff.mp h
      exact .next c hnext
  | returned =>
      obtain ⟨c, hreturned, rfl⟩ := Option.map_eq_some_iff.mp h
      exact .returned c hreturned
  | leave =>
      obtain ⟨c, hleave, rfl⟩ := Option.map_eq_some_iff.mp h
      exact .leave c hleave
  | stopped =>
      obtain ⟨c, hstopped, rfl⟩ := Option.map_eq_some_iff.mp h
      exact .stopped c hstopped

end Session

end Rmote
