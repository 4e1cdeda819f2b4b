import Mathlib.Logic.Function.Basic
import Rmote.Stream.Session

/-!
# One endpoint of a connection

`Endpoint` is one `Protocol`: the calls and the streams that it opened, the handlers that
serve the requests of its peer, the tasks that hand a response to its call, and its
receive loop. The registries of the source map a packet number to an object. A call and
a consumer are kept under their number for good, and `registered` tells whether the
registry still names them. A handler is kept under a number of its own, because a peer
may use one packet number twice, and `senders` is the registry of the streaming ones.

A Python value is the pickle that it came from, and `Codec` holds what the endpoint
can tell about it.
-/

namespace Rmote

/-- What the code sees when it takes a decoded value apart. -/
inductive View where
  | none
  /-- Two numbers. -/
  | pair (size items : ℤ)
  /-- The mapping of a call; the method may be an async generator. -/
  | request (streaming : Bool)
  /-- Log records and the response that they travel with. -/
  | logged (payload : Decoded Bytes)
  | exception (text : String)
  | other

/-- How an endpoint decodes what it receives. -/
structure Codec where
  pickle : Pickle
  load : Bytes → Except DecodeError Bytes
  view : Decoded Bytes → View

/-- What the code sees of a payload; a refused one is the `PermissionError` itself. -/
def Codec.look (C : Codec) : Decoded Bytes → View
  | .error text => .exception text
  | payload => C.view payload

/-- The codec of an endpoint that trusts its peer, for values that the loop does not look
into. -/
def Codec.plain : Codec := ⟨Pickle.marked, .ok, fun _ => .other⟩

/-- One reassembled packet before it is decoded. -/
structure Raw where
  payload : Bytes
  flags : Flags
  packetId : ℕ

/-- What this endpoint wrote. -/
inductive Message where
  | request (packetId : ℕ)
  | permission (packetId bytes items : ℕ)
  | stop (packetId : ℕ)
  | response (packetId : ℕ)
  deriving DecidableEq, Repr

/-! ## Calls -/

/-- The future of a call. -/
inductive Future where
  | pending
  | result (value : Decoded Bytes)
  /-- The peer answered with an exception. -/
  | raised (text : String)
  /-- The connection is over. -/
  | failed (text : String)
  | cancelled

def Future.done : Future → Bool
  | .pending => false
  | _ => true

/-- How a call ended. -/
inductive CallOutcome where
  | value (value : Decoded Bytes)
  | raised (text : String)
  /-- The send failed, or the connection is over. -/
  | failed (text : String)
  /-- The caller was cancelled. -/
  | cancelled

/-- Where a call stands. -/
inductive CallPhase where
  /-- It has not written its request. -/
  | sending
  /-- It waits in `drain`. -/
  | draining
  /-- It waits for its future. -/
  | waiting
  | done (outcome : CallOutcome)

def CallPhase.active : CallPhase → Bool
  | .done _ => false
  | _ => true

/-- One run of `_call`. `answer` records the first successful response that the receive
loop obtained while the future was registered. -/
structure Call where
  phase : CallPhase
  future : Future
  registered : Bool
  answer : Option (Decoded Bytes)

namespace Call

def init : Call := ⟨.sending, .pending, true, none⟩

/-- The future is taken out of the registry and set, unless it is done. -/
def settle (c : Call) (future : Future) : Call :=
  { c with future := if c.future.done then c.future else future, registered := false }

/-- The part of `_finish_pending` that concerns the call. -/
def close (c : Call) (text : String) : Call := if c.registered then c.settle (.failed text) else c

/-- The receive loop obtained a successful response. -/
def obtain (c : Call) (value : Decoded Bytes) : Call :=
  if c.registered && c.answer.isNone then { c with answer := some value } else c

/-- The `finally` block. -/
def finish (c : Call) (outcome : CallOutcome) : Call :=
  { c.settle .cancelled with phase := .done outcome }

end Call

/-- The steps of a call. -/
inductive CallEvent where
  /-- It gets the write lock for its last frame. -/
  | write
  /-- The send returns. -/
  | sent
  /-- The send raises. -/
  | fail (error : String)
  /-- Its caller is cancelled. -/
  | cancel
  /-- Its future is done. -/
  | resume

/-- What a step of a call does to the endpoint: it closes the writer, it passes through the
`except` block with an error, and it wrote a message. -/
structure CallEffect where
  update : Call → Call
  closes : Bool
  error : Option String
  messages : List Message

namespace Call

/-- The call goes on to another await. -/
def move (phase : CallPhase) (messages : List Message) : CallEffect :=
  ⟨fun c => { c with phase := phase }, false, none, messages⟩

/-- The call ends with an exception. -/
def abort (outcome : CallOutcome) (closes : Bool) (error : String) : CallEffect :=
  ⟨fun c => c.finish outcome, closes, some error, []⟩

/-- One stretch of `_call`. `closing` tells whether the writer is closing. -/
def step (c : Call) (packetId : ℕ) (closing : Bool) : CallEvent → Option CallEffect
  | .write =>
      match c.phase with
      | .sending =>
          if closing then
            some (abort (.failed "Connection closed") false "Connection closed")
          else
            some (move .draining [])
      | _ => none
  | .sent =>
      match c.phase with
      | .draining => some (move .waiting [.request packetId])
      | _ => none
  | .fail error =>
      match c.phase with
      | .sending => some (abort (.failed error) false error)
      | .draining => some (abort (.failed error) true error)
      | _ => none
  | .cancel =>
      match c.phase with
      | .sending => some (abort .cancelled false "Packet send interrupted")
      | .draining => some (abort .cancelled true "Packet send interrupted")
      | .waiting => some (abort .cancelled false "Packet send interrupted")
      | .done _ => none
  | .resume =>
      match c.phase, c.future with
      | .waiting, .result value => some ⟨fun c => c.finish (.value value), false, none, []⟩
      | .waiting, .raised text => some (abort (.raised text) false text)
      | .waiting, .failed text => some (abort (.failed text) false text)
      | _, _ => none

end Call

/-! ## Streams -/

/-- One run of `stream`. `written` tells whether its request is on the wire. -/
structure Stream where
  consumer : Consumer
  written : Bool

/-- The steps of a streaming call. -/
inductive StreamEvent where
  /-- It gets the write lock for the last frame of its request. -/
  | write
  /-- The request is sent. -/
  | sent
  /-- The send of the request or of a permission raises. -/
  | fail (error : String)
  | get
  | next
  /-- The permission is sent. -/
  | returned
  /-- The user closes or cancels the generator, which may wait in `drain`. -/
  | leave (draining : Bool)
  /-- The stop is sent. -/
  | stopped
  /-- The send of the stop raises. -/
  | stopFail
  /-- The send of the stop is cancelled. -/
  | stopCancel (draining : Bool)

/-- What a step of a streaming call does to the endpoint. -/
structure StreamEffect where
  stream : Stream
  closes : Bool
  messages : List Message

namespace Stream

def init : Stream := ⟨Consumer.init, false⟩

/-- A step of the generator that changes nothing else. -/
def move (w : Stream) (c : Consumer) (messages : List Message) : StreamEffect :=
  ⟨{ w with consumer := c }, false, messages⟩

/-- One stretch of `stream`. `closed` tells whether the connection is over, and `closing`
whether the writer is closing. -/
def step (w : Stream) (packetId : ℕ) (closed closing : Bool) : StreamEvent → Option StreamEffect
  | .write =>
      match w.consumer.phase, w.written with
      | .sending, false =>
          if closing then
            some (w.move (w.consumer.unwind closed (.failed "Connection closed")) [])
          else
            some ⟨{ w with written := true }, false, []⟩
      | _, _ => none
  | .sent =>
      match w.consumer.phase, w.written with
      | .sending, true => some (w.move w.consumer.start [.request packetId])
      | _, _ => none
  | .fail error =>
      match w.consumer.phase with
      | .sending =>
          some ⟨{ w with consumer := w.consumer.unwind closed (.failed error) }, w.written, []⟩
      | .returning =>
          some ⟨{ w with consumer := w.consumer.unwind closed (.failed error) }, true, []⟩
      | _ => none
  | .get => (w.consumer.get closed).map fun c => w.move c []
  | .next => w.consumer.next.map fun c => w.move c []
  | .returned =>
      w.consumer.returned.map fun c =>
        w.move c [.permission packetId w.consumer.owedBytes w.consumer.owedItems]
  | .leave draining =>
      (w.consumer.leave closed).map fun c => ⟨{ w with consumer := c }, draining, []⟩
  | .stopped => w.consumer.stopped.map fun c => w.move c [.stop packetId]
  | .stopFail => w.consumer.stopped.map fun c => ⟨{ w with consumer := c }, true, []⟩
  | .stopCancel draining =>
      w.consumer.stopped.map fun c => ⟨{ w with consumer := c }, draining, []⟩

end Stream

/-! ## Handlers -/

/-- What a handler serves. -/
inductive HandlerKind where
  | sync
  | ordinary
  | streaming
  deriving DecidableEq, Repr

/-- Where a handler stands. -/
inductive HandlerPhase where
  /-- It is scheduled. -/
  | created
  /-- It runs `_load_tool` or a method that is not a generator. -/
  | running
  /-- `send_stream` waits for the generator. -/
  | producing
  /-- `send_stream` waits for permission. -/
  | spending (item : Item)
  /-- `send_stream` waits for its writer and closes the generator. -/
  | finishing (cancelled : Bool)
  /-- It sends its response, or the report of a response that cannot be serialized. -/
  | responding (fallback : Bool)
  | done

/-- The loop over the items is over. -/
def HandlerPhase.ended : HandlerPhase → Bool
  | .finishing _ => true
  | .responding _ => true
  | .done => true
  | _ => false

/-- One task of `_execute` that serves a request. `pushed` are the items that it handed to
its writer. -/
structure Handler where
  packetId : ℕ
  kind : HandlerKind
  phase : HandlerPhase
  credit : StreamCredit
  cancelling : Bool
  pushed : List Item

namespace Handler

def init (packetId : ℕ) (kind : HandlerKind) : Handler where
  packetId := packetId
  kind := kind
  phase := .created
  credit := StreamCredit.new maxStreamWindow maxStreamBacklog
  cancelling := false
  pushed := []

/-- The first step of the task, up to its first await. -/
def start (h : Handler) : Handler :=
  match h.kind with
  | .streaming => { h with phase := .producing }
  | _ => { h with phase := .running }

/-- One pass through `spend` for an item. -/
def spend (h : Handler) (item : Item) : Handler :=
  match h.credit.spend item.price with
  | (.stopped, _) => { h with phase := .finishing false }
  | (.paid, credit) =>
      { h with phase := .producing, credit := credit, pushed := h.pushed ++ [item] }
  | (.waits, credit) => { h with phase := .spending item, credit := credit }

/-- The generator gave an item. -/
def produce (h : Handler) (item : Item) : Handler :=
  if maxStreamItem < item.payload.length then
    { h with phase := .finishing false }
  else
    h.spend item

/-- The consumer left. -/
def stop (h : Handler) : Handler := { h with credit := h.credit.release, cancelling := true }

/-- The consumer gave permission back. -/
def giveBack (h : Handler) (size items : ℤ) : Handler :=
  match h.credit.giveBack size items with
  | .ok credit => { h with credit := credit }
  | .error _ => { h with credit := h.credit.release }

/-- The permission cannot be read, or the connection is over. -/
def release (h : Handler) : Handler := { h with credit := h.credit.release }

end Handler

/-! ## The endpoint -/

/-- Where the receive loop stands. -/
inductive LoopPhase where
  | receiving
  /-- It sends the refusal of a request. -/
  | replying (packetId : ℕ) (fallback : Bool)
  | ended
  deriving DecidableEq, Repr

/-- One `Protocol`. `responses` are the tasks that hand a response to its call, in the
order of their creation; `received` and `sent` record the packets of both
directions. -/
structure Endpoint where
  acceptCode : Bool
  acceptCalls : Bool
  lastId : ℕ
  calls : ℕ → Option Call
  streams : ℕ → Option Stream
  lastHandler : ℕ
  handlers : ℕ → Option Handler
  senders : ℕ → Option ℕ
  responses : List (ℕ × Decoded Bytes)
  responsesPending : ℤ
  loop : LoopPhase
  closed : Bool
  closeError : Option String
  writerClosing : Bool
  exiting : Bool
  received : List Raw
  sent : List Message

namespace Endpoint

/-- The endpoint when its receive loop starts. -/
def init (acceptCode acceptCalls : Bool) : Endpoint where
  acceptCode := acceptCode
  acceptCalls := acceptCalls
  lastId := 0
  calls _ := none
  streams _ := none
  lastHandler := 0
  handlers _ := none
  senders _ := none
  responses := []
  responsesPending := 0
  loop := .receiving
  closed := false
  closeError := none
  writerClosing := false
  exiting := false
  received := []
  sent := []

def modifyCall (s : Endpoint) (packetId : ℕ) (f : Call → Call) : Endpoint :=
  { s with calls := Function.update s.calls packetId ((s.calls packetId).map f) }

def setCall (s : Endpoint) (packetId : ℕ) (call : Call) : Endpoint :=
  { s with calls := Function.update s.calls packetId (some call) }

def setStream (s : Endpoint) (packetId : ℕ) (stream : Stream) : Endpoint :=
  { s with streams := Function.update s.streams packetId (some stream) }

def setConsumer (s : Endpoint) (packetId : ℕ) (stream : Stream) (consumer : Consumer) : Endpoint :=
  s.setStream packetId { stream with consumer := consumer }

def setHandler (s : Endpoint) (number : ℕ) (handler : Handler) : Endpoint :=
  { s with handlers := Function.update s.handlers number (some handler) }

def log (s : Endpoint) (message : Message) : Endpoint := { s with sent := s.sent ++ [message] }

/-- The registry of the streaming handlers names this one. -/
def names (s : Endpoint) (number : ℕ) (handler : Handler) : Bool :=
  s.senders handler.packetId == some number

/-- Settle everything that waits for the connection. -/
def finishPending (s : Endpoint) (error : String) : Endpoint :=
  let text := s.closeError.getD error
  { s with
    closeError := some text
    closed := true
    calls := fun p => (s.calls p).map fun c => c.close text
    streams := fun p => (s.streams p).map fun w => { w with consumer := w.consumer.close text }
    handlers := fun n => (s.handlers n).map fun h => if s.names n h then h.release else h
    senders := fun _ => none }

/-- The consumer that the registry names. -/
def queue (s : Endpoint) (packetId : ℕ) : Option Stream :=
  (s.streams packetId).filter fun w => w.consumer.registered

/-- The call that the registry names. -/
def future (s : Endpoint) (packetId : ℕ) : Option Call :=
  (s.calls packetId).filter fun c => c.registered

end Endpoint

end Rmote
