import Rmote.Endpoint.State

/-!
# The receive loop

`dispatch` is the body of `_loop` for one decoded packet. It gives the endpoint after
the packet and the exception that it raised, if any: an exception ends the loop, and
`endLoop` settles everything that waits. A response of the peer is not handed to its
call here. A task of its own does that, and `respond` is the one step of this task.
-/

namespace Rmote

namespace Endpoint

/-- Take the permission that a streaming consumer gave back. -/
def handleStreamCredit (C : Codec) (s : Endpoint) (returned : Decoded Bytes) (packetId : ℕ) :
    Endpoint :=
  match s.senders packetId with
  | none => s
  | some number =>
      match s.handlers number with
      | none => s
      | some handler =>
          match C.look returned with
          | .none => s.setHandler number handler.stop
          | .pair size items => s.setHandler number (handler.giveBack size items)
          | _ => s.setHandler number handler.release

/-- Hand one packet of items to its consumer. Only a full queue cannot take the report of
a peer that ignored its permission. -/
def handleStreamItem (s : Endpoint) (packet : Packet Bytes) : Endpoint × Option String :=
  match s.queue packet.packetId with
  | none => (s, none)
  | some stream =>
      let c := stream.consumer
      if !c.overBudget && c.exceeds packet.size && Consumer.queueSize ≤ c.queue.length then
        (s, some "QueueFull")
      else
        (s.setConsumer packet.packetId stream
          (c.handleStreamItem packet.packetId packet.flags packet.payload packet.size), none)

/-- Hand the exception of a peer to its stream or call. A future takes only exceptions. -/
def handleException (C : Codec) (s : Endpoint) (exception : Decoded Bytes) (packetId : ℕ) :
    Endpoint × Option String :=
  match s.queue packetId with
  | some stream =>
      (s.setConsumer packetId stream
        (stream.consumer.putEnd (Flags.exception ||| Flags.response) exception), none)
  | none =>
      match s.future packetId with
      | none => (s, none)
      | some call =>
          match C.look exception with
          | .exception text => (s.setCall packetId (call.settle (.raised text)), none)
          | _ => (s.setCall packetId { call with registered := false },
              some "invalid exception object")

/-- Hand a successful response to its stream or call. -/
def handleRpcResponse (s : Endpoint) (response : Decoded Bytes) (packetId : ℕ) : Endpoint :=
  match s.queue packetId with
  | some stream =>
      s.setConsumer packetId stream
        (stream.consumer.putEnd (Flags.rpc ||| Flags.response) response)
  | none =>
      match s.future packetId with
      | none => s
      | some call => s.setCall packetId (call.settle (.result response))

/-- Schedule the task that serves a request. -/
def execute (s : Endpoint) (packetId : ℕ) (kind : HandlerKind) : Endpoint :=
  { s with
    lastHandler := s.lastHandler + 1
    handlers := Function.update s.handlers (s.lastHandler + 1) (some (Handler.init packetId kind))
    responsesPending := s.responsesPending + 1 }

/-- Schedule the task that hands a response to its call. -/
def executeResponse (s : Endpoint) (packetId : ℕ) (response : Decoded Bytes) : Endpoint :=
  { s with
    calls := Function.update s.calls packetId ((s.calls packetId).map fun c => c.obtain response)
    responses := s.responses ++ [(packetId, response)] }

/-- The loop sends a refusal and waits for the send. -/
def reply (s : Endpoint) (packetId : ℕ) : Endpoint :=
  { s with loop := .replying packetId false }

/-- The response and its log records are taken apart. -/
def unpackLog (C : Codec) (packet : Packet Bytes) : Option (Packet Bytes) :=
  if packet.flags.has Flags.log && packet.flags.has Flags.response then
    match C.look packet.payload with
    | .logged payload =>
        some { packet with payload := payload, flags := packet.flags.clear Flags.log }
    | _ => none
  else
    some packet

/-- The request is refused before it is looked at. -/
def refuses (s : Endpoint) (flags : Flags) : Bool :=
  flags.has Flags.request && !flags.has Flags.stream &&
    ((flags.has Flags.sync && !s.acceptCode) || (flags.has Flags.rpc && !s.acceptCalls))

/-- The loop handles a packet that is neither refused nor carries log records. -/
def handle (C : Codec) (s : Endpoint) (packet : Packet Bytes) : Endpoint × Option String :=
  let flags := packet.flags
  if flags.has Flags.exception then
    if flags.has Flags.request then
      (s.reply packet.packetId, none)
    else if flags.has Flags.response then
      s.handleException C packet.payload packet.packetId
    else
      (s, none)
  else if flags.has Flags.stream && flags.has Flags.request then
    (s.handleStreamCredit C packet.payload packet.packetId, none)
  else if flags.has Flags.stream && flags.has Flags.response then
    s.handleStreamItem packet
  else if flags.has Flags.sync && flags.has Flags.request then
    (s.execute packet.packetId .sync, none)
  else if flags.has Flags.rpc && flags.has Flags.request then
    match C.look packet.payload with
    | .request streaming =>
        (s.execute packet.packetId (if streaming then .streaming else .ordinary), none)
    | _ => (s, some "argument after ** must be a mapping")
  else if (flags.has Flags.rpc && flags.has Flags.response) ||
      (flags.has Flags.sync && flags.has Flags.response) then
    (s.executeResponse packet.packetId packet.payload, none)
  else
    (s, none)

/-- The body of the loop for one packet, with the exception that it raised. -/
def dispatch (C : Codec) (s : Endpoint) (packet : Packet Bytes) : Endpoint × Option String :=
  if s.refuses packet.flags then
    (s.reply packet.packetId, none)
  else
    match unpackLog C packet with
    | none => (s, some "cannot unpack the log records")
    | some packet => s.handle C packet

/-- The loop ends, with an exception or without one. -/
def endLoop (s : Endpoint) (error : Option String) : Endpoint :=
  { s.finishPending (error.getD "Remote process closed the connection") with loop := .ended }

/-- The loop looks whether the connection is over before it waits for a packet. -/
def proceed (s : Endpoint) : Endpoint :=
  if s.closed then s.endLoop none else { s with loop := .receiving }

/-- The loop obtained one reassembled packet. -/
def receive (C : Codec) (s : Endpoint) (raw : Raw) : Endpoint :=
  let s := { s with received := s.received ++ [raw] }
  match decodePacket C.pickle s.acceptCode C.load raw.payload raw.flags raw.packetId with
  | .error error => s.endLoop (some error.message)
  | .ok packet =>
      match s.dispatch C packet with
      | (s', some error) => s'.endLoop (some error)
      | (s', none) =>
          match s'.loop with
          | .replying _ _ => s'
          | _ => s'.proceed

/-- The first task that hands over a response runs. -/
def respond (s : Endpoint) : Option Endpoint :=
  match s.responses with
  | [] => none
  | (packetId, response) :: responses =>
      some ({ s with responses := responses }.handleRpcResponse response packetId)

/-- Everything that the loop can do with a packet, with what it needs. -/
inductive Handled (C : Codec) (s : Endpoint) (packet : Packet Bytes) :
    Endpoint → Option String → Prop where
  | nothing (error : Option String) : Handled C s packet s error
  | reply (hrequest : packet.flags.has Flags.request = true) :
      Handled C s packet (s.reply packet.packetId) none
  | exceptionStream (stream : Stream) (hqueue : s.queue packet.packetId = some stream)
      (hexception : packet.flags.has Flags.exception = true)
      (hresponse : packet.flags.has Flags.response = true) :
      Handled C s packet (s.setConsumer packet.packetId stream
        (stream.consumer.putEnd (Flags.exception ||| Flags.response) packet.payload)) none
  | exceptionCall (call : Call) (text : String) (hfuture : s.future packet.packetId = some call)
      (hexception : packet.flags.has Flags.exception = true)
      (hresponse : packet.flags.has Flags.response = true)
      (hlook : C.look packet.payload = .exception text) :
      Handled C s packet (s.setCall packet.packetId (call.settle (.raised text))) none
  | exceptionInvalid (call : Call) (error : String)
      (hfuture : s.future packet.packetId = some call)
      (hexception : packet.flags.has Flags.exception = true)
      (hresponse : packet.flags.has Flags.response = true)
      (hlook : ∀ text, C.look packet.payload ≠ .exception text) :
      Handled C s packet (s.setCall packet.packetId { call with registered := false })
        (some error)
  | credit (hexception : packet.flags.has Flags.exception = false)
      (hstream : packet.flags.has Flags.stream = true)
      (hrequest : packet.flags.has Flags.request = true) :
      Handled C s packet (s.handleStreamCredit C packet.payload packet.packetId) none
  | item (stream : Stream) (hqueue : s.queue packet.packetId = some stream)
      (hexception : packet.flags.has Flags.exception = false)
      (hstream : packet.flags.has Flags.stream = true)
      (hroom : stream.consumer.overBudget = false → stream.consumer.exceeds packet.size = true →
        stream.consumer.queue.length < Consumer.queueSize) :
      Handled C s packet (s.setConsumer packet.packetId stream
        (stream.consumer.handleStreamItem packet.packetId packet.flags packet.payload packet.size))
        none
  | execute (kind : HandlerKind) (hrequest : packet.flags.has Flags.request = true) :
      Handled C s packet (s.execute packet.packetId kind) none
  | response (hexception : packet.flags.has Flags.exception = false)
      (hstream : packet.flags.has Flags.stream = false)
      (hresponse : packet.flags.has Flags.response = true) :
      Handled C s packet (s.executeResponse packet.packetId packet.payload) none

variable {C : Codec} {s : Endpoint} {packet : Packet Bytes}

theorem handleException_spec (hexception : packet.flags.has Flags.exception = true)
    (hresponse : packet.flags.has Flags.response = true) :
    Handled C s packet (s.handleException C packet.payload packet.packetId).1
      (s.handleException C packet.payload packet.packetId).2 := by
  unfold handleException
  cases hqueue : s.queue packet.packetId with
  | some stream => exact .exceptionStream stream hqueue hexception hresponse
  | none =>
      cases hfuture : s.future packet.packetId with
      | none => exact .nothing _
      | some call =>
          cases hlook : C.look packet.payload with
          | exception text => exact .exceptionCall call text hfuture hexception hresponse hlook
          | _ => exact .exceptionInvalid call _ hfuture hexception hresponse (by simp [hlook])

theorem handleStreamItem_spec (hexception : packet.flags.has Flags.exception = false)
    (hstream : packet.flags.has Flags.stream = true) :
    Handled C s packet (s.handleStreamItem packet).1 (s.handleStreamItem packet).2 := by
  unfold handleStreamItem
  cases hqueue : s.queue packet.packetId with
  | none => exact .nothing _
  | some stream =>
      simp only
      split_ifs with hfull
      · exact .nothing _
      · refine .item stream hqueue hexception hstream fun hbudget hexceeds => ?_
        simpa [hbudget, hexceeds] using hfull

theorem handle_spec (C : Codec) (s : Endpoint) (packet : Packet Bytes) :
    Handled C s packet (s.handle C packet).1 (s.handle C packet).2 := by
  unfold handle
  simp only
  split_ifs with hexception hrequest hresponse hcredit hitem hsync hrpc hanswer
  · exact .reply hrequest
  · exact handleException_spec hexception hresponse
  · exact .nothing _
  · obtain ⟨hstream, hrequest⟩ := Bool.and_eq_true_iff.mp hcredit
    exact .credit (by simpa using hexception) hstream hrequest
  · exact handleStreamItem_spec (by simpa using hexception) (Bool.and_eq_true_iff.mp hitem).1
  · exact .execute _ (Bool.and_eq_true_iff.mp hsync).2
  · cases C.look packet.payload with
    | request streaming => exact .execute _ (Bool.and_eq_true_iff.mp hrpc).2
    | _ => exact .nothing _
  · have hresponse : packet.flags.has Flags.response = true := by
      rcases Bool.or_eq_true_iff.mp hanswer with hanswer | hanswer
      · exact (Bool.and_eq_true_iff.mp hanswer).2
      · exact (Bool.and_eq_true_iff.mp hanswer).2
    refine .response (by simpa using hexception) ?_ hresponse
    simpa [hresponse] using hitem
  · exact .nothing _

theorem unpackLog_spec {packet' : Packet Bytes} (h : unpackLog C packet = some packet') :
    packet'.packetId = packet.packetId ∧ packet'.size = packet.size ∧
      ∀ mask, Flags.log &&& mask = 0#32 → packet'.flags.has mask = packet.flags.has mask := by
  unfold unpackLog at h
  split_ifs at h
  · split at h
    · cases h
      exact ⟨rfl, rfl, fun _ hmask => Flags.has_clear_of_disjoint packet.flags hmask⟩
    · cases h
  · cases h
    exact ⟨rfl, rfl, fun _ _ => rfl⟩

/-- What the loop made of a decoded packet: nothing, a refusal, or what it does with the
packet without its log records. -/
inductive Dispatched (C : Codec) (s : Endpoint) (packet : Packet Bytes) :
    Endpoint → Option String → Prop where
  | nothing (error : Option String) : Dispatched C s packet s error
  | reply : Dispatched C s packet (s.reply packet.packetId) none
  | handled (packet' : Packet Bytes) (s' : Endpoint) (error : Option String)
      (hunpack : unpackLog C packet = some packet') (h : Handled C s packet' s' error) :
      Dispatched C s packet s' error

theorem dispatch_spec (C : Codec) (s : Endpoint) (packet : Packet Bytes) :
    Dispatched C s packet (s.dispatch C packet).1 (s.dispatch C packet).2 := by
  unfold dispatch
  split_ifs with hrefuses
  · exact .reply
  · cases hunpack : unpackLog C packet with
    | none => exact .nothing _
    | some packet' => exact .handled packet' _ _ hunpack (handle_spec C s packet')

/-- A packet that ends the loop schedules nothing. -/
theorem Dispatched.responses_eq {s' : Endpoint} {error : String}
    (h : Dispatched C s packet s' (some error)) : s'.responses = s.responses := by
  cases h with
  | nothing => rfl
  | handled packet' _ _ hunpack h => cases h <;> rfl

/-- What the loop made of a reassembled packet, before it goes on or ends. -/
inductive Obtained (C : Codec) (s : Endpoint) (raw : Raw) : Endpoint → Prop where
  | nothing : Obtained C s raw s
  | dispatched (packet : Packet Bytes) (s' : Endpoint) (error : Option String)
      (hdecode : decodePacket C.pickle s.acceptCode C.load raw.payload raw.flags raw.packetId =
        .ok packet) (h : Dispatched C s packet s' error) : Obtained C s raw s'

/-- The loop ends after a packet that raised, and when it finds the connection over. -/
theorem receive_spec (C : Codec) (s : Endpoint) (raw : Raw) :
    ∃ s', Obtained C { s with received := s.received ++ [raw] } raw s' ∧
      ((∃ error, s.receive C raw = s'.endLoop error ∧
          (s'.closed = true ∨ s'.responses = s.responses)) ∨
        ∃ loop, s.receive C raw = { s' with loop := loop }) := by
  unfold receive
  simp only
  split
  · exact ⟨_, .nothing, .inl ⟨_, rfl, .inr rfl⟩⟩
  · rename_i packet hdecode
    have hdispatch := dispatch_spec C { s with received := s.received ++ [raw] } packet
    refine ⟨_, .dispatched packet _ _ hdecode hdispatch, ?_⟩
    split
    · rename_i s' error heq
      rw [heq] at hdispatch ⊢
      exact .inl ⟨_, rfl, .inr hdispatch.responses_eq⟩
    · rename_i s' heq
      rw [heq]
      split
      · exact .inr ⟨s'.loop, rfl⟩
      · unfold proceed
        split_ifs with hclosed
        · exact .inl ⟨_, rfl, .inl hclosed⟩
        · exact .inr ⟨_, rfl⟩

end Endpoint

end Rmote
