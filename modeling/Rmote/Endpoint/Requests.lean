import Mathlib.Data.Int.Notation
import Rmote.Library.Machine
import Rmote.Wire.Flags

/-!
# The requests of a peer and their responses

`_execute` gives a request a task of its own, and the task sends what the handler made of it. Every
exception of the handler becomes a response, but a `BaseException` that is no `Exception` leaves
the task without one. A response that cannot be serialized is replaced by a report. The loop itself
refuses a request that is not allowed or cannot be decoded, and waits until the refusal is sent.

`Server` follows all of this while the connection is open. A request is kept under a number of its
own, because a peer may use one packet number twice.
-/

namespace Rmote

namespace Requests

/-- A Python object, as far as a response tells one from another. -/
inductive Object where
  | none
  | value (id : ℕ)
  | error (type text : String)
  deriving DecidableEq, Repr

/-- The exceptions that `except Exception` lets through. -/
inductive Escape where
  | cancelled
  /-- `SystemExit` or `KeyboardInterrupt`, which leave the event loop too. -/
  | exit
  | other
  deriving DecidableEq, Repr

/-- What code can raise. -/
inductive Raised where
  | exception (error : Object)
  | escape (e : Escape)
  deriving DecidableEq, Repr

/-- How a handler ends. -/
abbrev Result := Except Raised Object

/-- What a final response carries. -/
inductive Body where
  | value (object : Object)
  | exception (error : Object)
  /-- `RuntimeError("Remote response serialization failed (…)")`, with the type of the error. -/
  | fallback (type : String)
  deriving DecidableEq, Repr

inductive Kind where
  | sync
  | rpc
  deriving DecidableEq, Repr

def Kind.flags : Kind → Flags
  | .sync => Flags.sync
  | .rpc => Flags.rpc

/-- Where a request stands. -/
inductive Phase where
  /-- Its task is scheduled. -/
  | created
  /-- Its task waits for a handler that is no stream. -/
  | running
  /-- Its task is in the loop of `send_stream`, and the registry names it. -/
  | streaming
  /-- `send_stream` waits for its writer and closes the generator. -/
  | unwinding (raised : Option Raised)
  /-- `_send_response` sends the response. -/
  | sending (flags : Flags) (body : Body)
  /-- `_send_response` sends the report of a response that cannot be serialized. -/
  | reporting (type : String)
  /-- It is over, with the response that was sent. -/
  | done (answer : Option (Flags × Body))
  deriving DecidableEq, Repr

def Phase.isDone : Phase → Bool
  | .done _ => true
  | _ => false

/-- One request. `served` tells that a task serves it, and not the loop that refuses it. `stopped`
records that a stop of its consumer cancelled the task, and `outcome` what was made of it: the
result that is answered, or the exception that ended the task. -/
structure Request where
  packetId : ℕ
  kind : Kind
  served : Bool
  stopped : Bool
  phase : Phase
  outcome : Option Result

/-- What a step does to a request, and what it does to the connection and the event loop. -/
structure Effect where
  request : Request
  answer : Option (Flags × Body)
  closes : Bool
  halts : Bool

/-- How a send ends. -/
inductive SendEvent where
  | sent
  /-- It raises an `Exception` of this type; `closing` tells whether the writer is closing. -/
  | failed (type : String) (closing : Bool)
  /-- It raises something else. -/
  | interrupted (e : Escape)

/-- The steps of the task of a request. -/
inductive TaskEvent where
  /-- Its first step, up to the handler or into the loop of `send_stream`. -/
  | start (streaming : Bool)
  /-- The handler ends; `logged` tells whether log records wait for a response. -/
  | ended (result : Result) (logged : Bool)
  /-- The loop of `send_stream` ends, by itself or with an exception. -/
  | streamEnded (raised : Option Raised)
  /-- The writer is done and the generator is closed, or one of them raises. -/
  | unwound (raised : Option Raised) (logged : Bool)
  | send (event : SendEvent)

namespace Request

/-- The task has not come to its end. -/
def active (r : Request) : Bool := r.served && !r.phase.isDone

/-- Log records that gathered travel with the response. -/
def withLog (flags : Flags) (logged : Bool) : Flags := if logged then flags ||| Flags.log else flags

/-- The step goes on to another phase. -/
def move (r : Request) (phase : Phase) : Effect := ⟨{ r with phase := phase }, none, false, false⟩

/-- The handler ended, and `_send_response` is called unless the exception leaves the task. -/
def conclude (r : Request) (result : Result) (logged : Bool) : Effect :=
  let r := { r with outcome := some result }
  match result with
  | .ok value => r.move (.sending (withLog (r.kind.flags ||| Flags.response) logged) (.value value))
  | .error (.exception error) =>
      r.move (.sending (withLog (Flags.exception ||| Flags.response) logged) (.exception error))
  | .error (.escape e) => { r.move (.done none) with halts := e = .exit }

/-- The response is on the wire. -/
def deliver (r : Request) (flags : Flags) (body : Body) : Effect :=
  { r.move (.done (some (flags, body))) with answer := some (flags, body) }

/-- The two sends of `_send_response`. -/
def send (r : Request) (event : SendEvent) : Option Effect :=
  match r.phase, event with
  | .sending flags body, .sent => some (r.deliver flags body)
  | .sending _ _, .failed type closing =>
      if closing then some { r.move (.done none) with closes := true }
      else some (r.move (.reporting type))
  | .reporting type, .sent =>
      some (r.deliver (Flags.exception ||| Flags.response) (.fallback type))
  | .reporting _, .failed _ _ => some { r.move (.done none) with closes := true }
  | .sending _ _, .interrupted e | .reporting _, .interrupted e =>
      some { { r with outcome := some (.error (.escape e)) }.move (.done none) with
        halts := e = .exit }
  | _, _ => none

/-- One stretch of the task of a request. -/
def step (r : Request) (event : TaskEvent) : Option Effect :=
  match r.phase, event with
  | .created, .start streaming =>
      match r.kind, streaming with
      | .rpc, true => some (r.move .streaming)
      | .sync, true => none
      | _, false => some (r.move .running)
  | .running, .ended result logged => some (r.conclude result logged)
  | .streaming, .streamEnded raised => some (r.move (.unwinding raised))
  | .unwinding raised, .unwound later logged =>
      match later.or raised with
      | some raised => some (r.conclude (.error raised) logged)
      | none => some (r.conclude (.ok .none) logged)
  | _, .send event => r.send event
  | _, _ => none

end Request

/-- A response on the wire, with the number of the request that it answers. -/
structure Answer where
  number : ℕ
  packetId : ℕ
  flags : Flags
  body : Body
  deriving DecidableEq, Repr

/-- Where the receive loop stands. -/
inductive Loop where
  | receiving
  /-- It sends the refusal of a request. -/
  | replying (number : ℕ)
  deriving DecidableEq, Repr

structure Server where
  acceptCode : Bool
  acceptCalls : Bool
  requests : List Request
  /-- `stream_senders`, by packet number. -/
  senders : ℕ → Option ℕ
  responsesPending : ℤ
  loop : Loop
  /-- The connection is over, and the receive loop with it. -/
  closed : Bool
  /-- The event loop is left. -/
  halted : Bool
  wire : List Answer

/-- A request as it arrives. -/
structure Incoming where
  packetId : ℕ
  kind : Kind
  /-- The text of the exception when it could not be decoded. -/
  refusal : Option String
  /-- The payload of a call is a mapping. -/
  mapping : Bool
  logged : Bool

/-- The steps of the endpoint that concern requests. -/
inductive Event where
  | configure (acceptCode acceptCalls : Bool)
  | request (incoming : Incoming)
  /-- The consumer of a stream left. -/
  | stop (packetId : ℕ)
  /-- The send of a refusal ends. -/
  | reply (event : SendEvent)
  | task (number : ℕ) (event : TaskEvent)
  /-- The connection ends for another reason. -/
  | close

namespace Server

def new (acceptCode acceptCalls : Bool) : Server where
  acceptCode := acceptCode
  acceptCalls := acceptCalls
  requests := []
  senders _ := none
  responsesPending := 0
  loop := .receiving
  closed := false
  halted := false
  wire := []

/-- The loop refuses a request with an exception. -/
def refuse (s : Server) (incoming : Incoming) (error : Object) : Server :=
  let r : Request := ⟨incoming.packetId, incoming.kind, false, false, .created, none⟩
  { s with
    requests := s.requests ++ [(r.conclude (.error (.exception error)) incoming.logged).request]
    loop := .replying s.requests.length }

/-- `_execute`: the response is owed before the task exists. -/
def execute (s : Server) (incoming : Incoming) : Server :=
  { s with
    requests := s.requests ++ [⟨incoming.packetId, incoming.kind, true, false, .created, none⟩]
    responsesPending := s.responsesPending + 1 }

/-- The body of the receive loop for a request. -/
def receive (s : Server) (incoming : Incoming) : Server :=
  if (incoming.kind = .sync ∧ !s.acceptCode) ∨ (incoming.kind = .rpc ∧ !s.acceptCalls) then
    s.refuse incoming (.error "PermissionError" "Peer code or calls are disabled")
  else
    match incoming.refusal with
    | some text => s.refuse incoming (.error "PermissionError" text)
    | none =>
        match incoming.kind, incoming.mapping with
        -- `RPCRequest(**payload)` raises in the loop.
        | .rpc, false => { s with closed := true }
        | _, _ => s.execute incoming

/-- The stop cancels the task that the registry names. -/
def handleStop (s : Server) (packetId : ℕ) : Server :=
  match s.senders packetId with
  | none => s
  | some number =>
      match s.requests[number]? with
      | none => s
      | some r => { s with requests := s.requests.set number { r with stopped := true } }

/-- A step of a request; the `finally` block of the task gives back what it owed. -/
def apply (s : Server) (number : ℕ) (r : Request) (effect : Effect) : Server :=
  { s with
    requests := s.requests.set number effect.request
    responsesPending :=
      if r.active && !effect.request.active then s.responsesPending - 1 else s.responsesPending
    closed := s.closed || effect.closes
    halted := s.halted || effect.halts
    wire := s.wire ++ (effect.answer.map fun a => ⟨number, r.packetId, a.1, a.2⟩).toList }

/-- The registry of the streams after a step of a task. -/
def register (s : Server) (number packetId : ℕ) : TaskEvent → Server
  | .start true => { s with senders := Function.update s.senders packetId (some number) }
  | .streamEnded _ => { s with senders := Function.update s.senders packetId none }
  | _ => s

/-- The loop goes on when its refusal is over, and a `BaseException` ends it. -/
def afterReply (s : Server) (effect : Effect) (event : SendEvent) : Server :=
  match event with
  | .interrupted _ => { s with closed := true }
  | _ => if effect.request.phase.isDone then { s with loop := .receiving } else s

def act (s : Server) : Event → Option Server
  | .configure acceptCode acceptCalls =>
      some { s with acceptCode := acceptCode, acceptCalls := acceptCalls }
  | .request incoming =>
      match s.loop with
      | .receiving => some (s.receive incoming)
      | .replying _ => none
  | .stop packetId =>
      match s.loop with
      | .receiving => some (s.handleStop packetId)
      | .replying _ => none
  | .reply event =>
      match s.loop with
      | .receiving => none
      | .replying number =>
          (s.requests[number]?).bind fun r =>
            (r.send event).map fun effect => (s.apply number r effect).afterReply effect event
  | .task number event =>
      (s.requests[number]?).bind fun r =>
        if r.served then
          (r.step event).map fun effect => (s.apply number r effect).register number r.packetId event
        else
          none
  | .close => some { s with closed := true }

/-- One step, while the connection is open. -/
def step (s : Server) (event : Event) : Option Server :=
  if s.closed || s.halted then none else s.act event

/-- The responses to one request. -/
def answersTo (s : Server) (number : ℕ) : List Answer := s.wire.filter fun a => a.number = number

end Server

end Requests

end Rmote
