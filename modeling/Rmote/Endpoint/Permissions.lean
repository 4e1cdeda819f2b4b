import Rmote.Endpoint.Close
import Rmote.Wire.Unpickler

/-!
# Permissions

An endpoint refuses what its peer may not do in three places: the unpickler refuses a global,
the decoder refuses an envelope with sources, and the loop refuses a request to load a tool or
to call one. The first two rewrite the flags of the packet, so that the loop answers a refused
request and fails the call or the stream of a refused response.

`Host` is an endpoint with the process that its packets are decoded in. A packet is decoded
under the permissions of that moment, and the loop looks at it under those of the endpoint.
`asked` are the packets that the loop answers itself, `answers` what it wrote for them.
-/

namespace Rmote

namespace Endpoint

/-- The loop obtained one packet with this outcome of its decoding. -/
def obtain (C : Codec) (s : Endpoint) (raw : Raw) (decoded : Except DecodeError (Packet Bytes)) :
    Endpoint :=
  let s := { s with received := s.received ++ [raw] }
  match decoded with
  | .error error => s.endLoop (some error.message)
  | .ok packet =>
      match s.dispatch C packet with
      | (s', some error) => s'.endLoop (some error)
      | (s', none) =>
          match s'.loop with
          | .replying _ _ => s'
          | _ => s'.proceed

/-- What the loop made of a packet before it goes on or ends. -/
theorem obtain_spec (C : Codec) (s : Endpoint) (raw : Raw)
    (decoded : Except DecodeError (Packet Bytes)) :
    ∃ s', (s' = { s with received := s.received ++ [raw] } ∨ ∃ packet error,
        decoded = .ok packet ∧
          Dispatched C { s with received := s.received ++ [raw] } packet s' error) ∧
      Ends s' (s.obtain C raw decoded) := by
  unfold obtain
  cases decoded with
  | error error => exact ⟨_, .inl rfl, (Ends.frame (.refl _)).endLoop _⟩
  | ok packet =>
      have hdispatch := dispatch_spec C { s with received := s.received ++ [raw] } packet
      refine ⟨_, .inr ⟨packet, _, rfl, hdispatch⟩, ?_⟩
      simp only
      split
      · rename_i s' error heq
        rw [heq]
        exact (Ends.frame (.refl _)).endLoop _
      · rename_i s' heq
        rw [heq]
        split
        · exact .frame (.refl _)
        · exact (Ends.frame (.refl _)).proceed

end Endpoint

/-! ## What the registries name -/

namespace Call

/-- A call that the registry names is not settled. -/
def Ready (c : Call) : Prop := c.registered = true → c.future = .pending

theorem Ready.close {c : Call} (h : c.Ready) (text : String) : (c.close text).Ready := by
  unfold Call.close
  split_ifs
  · exact nofun
  · exact h

theorem Ready.obtain {c : Call} (h : c.Ready) (value : Decoded Bytes) : (c.obtain value).Ready := by
  unfold Call.obtain
  split_ifs
  · exact h
  · exact h

end Call

/-- No step of a stream adds to its queue. -/
theorem Stream.room_step {w : Stream} (h : w.consumer.Room) {packetId : ℕ} {closed closing : Bool}
    {event : StreamEvent} {effect : StreamEffect}
    (hstep : w.step packetId closed closing event = some effect) :
    effect.stream.consumer.Room := by
  cases event with
  | write =>
      simp only [Stream.step] at hstep
      split at hstep
      · split_ifs at hstep <;> cases hstep <;> exact h
      · cases hstep
  | sent =>
      simp only [Stream.step] at hstep
      split at hstep
      · cases hstep
        exact h
      · cases hstep
  | fail error =>
      simp only [Stream.step] at hstep
      split at hstep <;> cases hstep <;> exact h
  | get =>
      obtain ⟨c, hget, rfl⟩ := Option.map_eq_some_iff.mp hstep
      exact h.get hget
  | next =>
      obtain ⟨c, hnext, rfl⟩ := Option.map_eq_some_iff.mp hstep
      obtain ⟨rest, count, size, -, rfl⟩ := Consumer.next_cases hnext
      unfold Consumer.Room at h ⊢
      simpa [Stream.move] using h
  | returned =>
      obtain ⟨c, hreturned, rfl⟩ := Option.map_eq_some_iff.mp hstep
      obtain ⟨-, rfl⟩ := Consumer.returned_cases hreturned
      exact h
  | leave draining =>
      obtain ⟨c, hleave, rfl⟩ := Option.map_eq_some_iff.mp hstep
      rw [Consumer.leave_cases hleave]
      exact h
  | stopped =>
      obtain ⟨c, hstopped, rfl⟩ := Option.map_eq_some_iff.mp hstep
      obtain ⟨ending, -, rfl⟩ := Consumer.stopped_cases hstopped
      exact h
  | stopFail =>
      obtain ⟨c, hstopped, rfl⟩ := Option.map_eq_some_iff.mp hstep
      obtain ⟨ending, -, rfl⟩ := Consumer.stopped_cases hstopped
      exact h
  | stopCancel draining =>
      obtain ⟨c, hstopped, rfl⟩ := Option.map_eq_some_iff.mp hstep
      obtain ⟨ending, -, rfl⟩ := Consumer.stopped_cases hstopped
      exact h

namespace Endpoint

/-- Every registered call is pending, and every queue has room for an end. -/
structure Ready (s : Endpoint) : Prop where
  calls : ∀ p c, s.calls p = some c → c.Ready
  streams : ∀ p w, s.streams p = some w → w.consumer.Room

variable {C : Codec} {s s' : Endpoint} {e : EndpointEvent}

theorem ready_init (acceptCode acceptCalls : Bool) : Ready (init acceptCode acceptCalls) := by
  refine ⟨fun p c hc => ?_, fun p w hw => ?_⟩
  · have hnone : (init acceptCode acceptCalls).calls p = none := rfl
    exact absurd (hnone.symm.trans hc) (Option.some_ne_none c).symm
  · have hnone : (init acceptCode acceptCalls).streams p = none := rfl
    exact absurd (hnone.symm.trans hw) (Option.some_ne_none w).symm

theorem Ready.of_eq (h : s.Ready) (hcalls : s'.calls = s.calls) (hstreams : s'.streams = s.streams) :
    s'.Ready :=
  ⟨hcalls ▸ h.calls, hstreams ▸ h.streams⟩

theorem Ready.ends (h : s.Ready) (hends : Ends s s') : s'.Ready := by
  induction hends with
  | frame hframe => exact h.of_eq hframe.calls hframe.streams
  | finish u error _ hafter ih =>
      refine Ready.of_eq (s := u.finishPending error) ⟨fun p c hc => ?_, fun p w hw => ?_⟩
        hafter.calls hafter.streams
      · obtain ⟨c', hc', rfl⟩ := Option.map_eq_some_iff.mp hc
        exact (ih.calls p c' hc').close _
      · obtain ⟨w', hw', rfl⟩ := Option.map_eq_some_iff.mp hw
        exact (ih.streams p w' hw').putEnd _ (ends_exception _)

theorem Ready.setCall (h : s.Ready) (packetId : ℕ) {c : Call} (hc : c.Ready) :
    (s.setCall packetId c).Ready := by
  refine ⟨fun p c' hc' => ?_, h.streams⟩
  simp only [Endpoint.setCall, Function.update_apply] at hc'
  split_ifs at hc' with hp
  · cases hc'
    exact hc
  · exact h.calls p c' hc'

theorem Ready.setStream (h : s.Ready) (packetId : ℕ) {w : Stream} (hw : w.consumer.Room) :
    (s.setStream packetId w).Ready := by
  refine ⟨h.calls, fun p w' hw' => ?_⟩
  simp only [Endpoint.setStream, Function.update_apply] at hw'
  split_ifs at hw' with hp
  · cases hw'
    exact hw
  · exact h.streams p w' hw'

theorem Ready.modifyCall (h : s.Ready) (packetId : ℕ) {f : Call → Call}
    (hf : ∀ c, c.Ready → (f c).Ready) : (s.modifyCall packetId f).Ready := by
  refine ⟨fun p c' hc' => ?_, h.streams⟩
  simp only [Endpoint.modifyCall, Function.update_apply] at hc'
  split_ifs at hc' with hp
  · obtain ⟨c, hc, rfl⟩ := Option.map_eq_some_iff.mp hc'
    exact hf c (h.calls _ c hc)
  · exact h.calls p c' hc'

theorem Ready.handled (h : s.Ready) {packet : Packet Bytes} {error : Option String}
    (hhandled : Handled C s packet s' error) : s'.Ready := by
  cases hhandled with
  | nothing => exact h
  | reply _ => exact h.of_eq rfl rfl
  | exceptionStream stream hqueue _ _ =>
      exact h.setStream _ ((h.streams _ _ (queue_eq_some hqueue).1).putEnd _ (ends_exception _))
  | exceptionCall call text _ _ _ _ => exact h.setCall _ nofun
  | exceptionInvalid call error _ _ _ _ => exact h.setCall _ nofun
  | credit _ _ _ =>
      have hframe := frame_handleStreamCredit C s packet.payload packet.packetId
      exact h.of_eq hframe.calls hframe.streams
  | item stream hqueue _ _ _ =>
      exact h.setStream _ ((h.streams _ _ (queue_eq_some hqueue).1).handleStreamItem ..)
  | execute kind _ => exact h.of_eq rfl rfl
  | response _ _ _ =>
      exact (h.modifyCall packet.packetId fun c hc => hc.obtain packet.payload).of_eq rfl rfl

theorem Ready.dispatched (h : s.Ready) {packet : Packet Bytes} {error : Option String}
    (hdispatched : Dispatched C s packet s' error) : s'.Ready := by
  cases hdispatched with
  | nothing => exact h
  | reply => exact h.of_eq rfl rfl
  | handled packet' _ _ _ hhandled => exact h.handled hhandled

theorem Ready.obtain (h : s.Ready) (raw : Raw) (decoded : Except DecodeError (Packet Bytes)) :
    (s.obtain C raw decoded).Ready := by
  have hreceived : Ready { s with received := s.received ++ [raw] } := h.of_eq rfl rfl
  obtain ⟨s', rfl | ⟨packet, error, -, hdispatched⟩, hends⟩ := obtain_spec C s raw decoded
  · exact hreceived.ends hends
  · exact (hreceived.dispatched hdispatched).ends hends

theorem Ready.handleRpcResponse (h : s.Ready) (response : Decoded Bytes) (packetId : ℕ) :
    (s.handleRpcResponse response packetId).Ready := by
  unfold Endpoint.handleRpcResponse
  cases hqueue : s.queue packetId with
  | some stream =>
      exact h.setStream _ ((h.streams _ _ (queue_eq_some hqueue).1).putEnd _ (ends_response _))
  | none =>
      cases s.future packetId with
      | none => exact h
      | some call => exact h.setCall _ nofun

theorem Ready.applyCall (h : s.Ready) {packetId : ℕ} {event : CallEvent} {c : Call}
    {effect : CallEffect} (hstep : c.step packetId s.writerClosing event = some effect) :
    (s.applyCall packetId effect).Ready := by
  have hclose := h.ends (.frame (frame_closeIf s effect.closes))
  have hexcept := hclose.ends (ends_exceptCall _ effect.error)
  refine (hexcept.modifyCall packetId fun c hc => ?_).of_eq rfl rfl
  rcases Call.step_cases hstep with ⟨-, phase, messages, -, rfl⟩ | ⟨outcome, -, hupdate, -⟩
  · exact hc
  · rw [hupdate]
    exact nofun

theorem Ready.step (h : s.Ready) (hother : ∀ raw, e ≠ .receive raw)
    (hstep : s.step C e = some s') : s'.Ready := by
  cases step_spec hstep with
  | other hends => exact h.ends hends
  | receive raw u hobtained hends _ => exact absurd rfl (hother raw)
  | respond packetId response responses _ =>
      have hpop : Ready { s with responses := responses } := h.of_eq rfl rfl
      exact hpop.handleRpcResponse ..
  | call hopen =>
      have hnext : Ready { s with lastId := s.lastId + 1 } := h.of_eq rfl rfl
      exact hnext.setCall _ fun _ => rfl
  | callStep packetId event c effect hcall heffect => exact h.applyCall heffect
  | stream =>
      have hnext : Ready { s with lastId := s.lastId + 1 } := h.of_eq rfl rfl
      exact hnext.setStream _ (Nat.zero_le _)
  | streamStep packetId event w effect hstream heffect =>
      have hclose : Ready (s.closeIf effect.closes) := h.of_eq rfl rfl
      have hroom := Stream.room_step (h.streams _ _ hstream) heffect
      exact (hclose.setStream packetId hroom).of_eq rfl rfl

end Endpoint

/-! ## The answers of the loop -/

/-- The packet that the loop is answering. -/
def LoopPhase.replyTo : LoopPhase → List ℕ
  | .replying packetId _ => [packetId]
  | _ => []

namespace Endpoint

variable {C : Codec} {s s' : Endpoint} {e : EndpointEvent}

theorem loop_afterItem (s : Endpoint) (number : ℕ) (handler : Handler) :
    (s.afterItem number handler).loop = s.loop := by
  unfold afterItem
  split <;> rfl

theorem loop_startHandler (s : Endpoint) (number : ℕ) (handler : Handler) :
    (s.startHandler number handler).loop = s.loop := by
  unfold startHandler
  simp only
  split <;> rfl

/-- The tasks that serve requests leave the loop alone. -/
theorem loop_stepHandler {number : ℕ} {handler : Handler} {event : HandlerEvent}
    (h : s.stepHandler number handler event = some s') : s'.loop = s.loop := by
  cases event with
  | start =>
      simp only [stepHandler] at h
      split at h <;> cases h
      exact loop_startHandler ..
  | produce item =>
      simp only [stepHandler] at h
      split at h <;> cases h
      exact loop_afterItem ..
  | resume =>
      simp only [stepHandler] at h
      split at h
      · split_ifs at h
        cases h
        exact loop_afterItem ..
      · cases h
  | respondFail error draining =>
      simp only [stepHandler] at h
      split at h
      · split_ifs at h <;> cases h <;> rfl
      · cases h
        rfl
      · cases h
  | _ =>
      simp only [stepHandler] at h
      split at h <;> cases h <;> rfl

theorem loop_handleRpcResponse (s : Endpoint) (response : Decoded Bytes) (packetId : ℕ) :
    (s.handleRpcResponse response packetId).loop = s.loop ∧
      (s.handleRpcResponse response packetId).closed = s.closed := by
  unfold handleRpcResponse
  split
  · exact ⟨rfl, rfl⟩
  · split <;> exact ⟨rfl, rfl⟩

theorem loop_exceptCall (s : Endpoint) (error : Option String) :
    (s.exceptCall error).loop = s.loop := by
  unfold exceptCall
  split
  · rfl
  · split_ifs <;> rfl

/-- A step that leaves the connection up and is not the end of a send keeps the packet that the
loop is answering, and the end of a send answers it. -/
theorem step_replyTo (hother : ∀ raw, e ≠ .receive raw) (hstep : s.step C e = some s')
    (hopen : s'.closed = false) :
    s.closed = false ∧ (e = .replied ∧ s'.loop.replyTo = [] ∨
      e ≠ .replied ∧ s'.loop.replyTo = s.loop.replyTo) := by
  cases e with
  | configure acceptCode acceptCalls =>
      cases hstep
      exact ⟨hopen, .inr ⟨by simp, rfl⟩⟩
  | receive raw => exact absurd rfl (hother raw)
  | receiveFail error =>
      simp only [step] at hstep
      split at hstep <;> cases hstep
      cases hopen
  | replied =>
      simp only [step] at hstep
      split at hstep <;> cases hstep
      unfold proceed at hopen ⊢
      split_ifs at hopen ⊢ with hclosed
      · cases hopen
      · exact ⟨hopen, .inl ⟨rfl, rfl⟩⟩
  | replyFail error draining =>
      simp only [step] at hstep
      split at hstep
      · rename_i packetId hloop
        split_ifs at hstep
        · cases hstep
          cases hopen
        · cases hstep
          exact ⟨hopen, .inr ⟨by simp, by rw [hloop]; rfl⟩⟩
      · cases hstep
        cases hopen
      · cases hstep
  | loopCancel draining =>
      simp only [step] at hstep
      split at hstep <;> cases hstep <;> cases hopen
  | respond =>
      simp only [step, Endpoint.respond] at hstep
      split at hstep
      · cases hstep
      · rename_i packetId response responses hresponses
        cases hstep
        obtain ⟨hloop, hclosed⟩ :=
          loop_handleRpcResponse { s with responses := responses } response packetId
        exact ⟨hclosed.symm.trans hopen, .inr ⟨by simp, by rw [hloop]⟩⟩
  | call =>
      cases hstep
      unfold beginCall at hopen ⊢
      split_ifs at hopen ⊢
      · exact ⟨hopen, .inr ⟨by simp, rfl⟩⟩
      · exact ⟨hopen, .inr ⟨by simp, rfl⟩⟩
  | callStep packetId event =>
      obtain ⟨c, -, hmap⟩ := Option.bind_eq_some_iff.mp hstep
      obtain ⟨effect, -, rfl⟩ := Option.map_eq_some_iff.mp hmap
      have hends := ends_exceptCall (s.closeIf effect.closes) effect.error
      have hframe := hends.frame_of_open hopen
      refine ⟨hframe.closed.symm.trans hopen, .inr ⟨by simp, ?_⟩⟩
      exact congrArg LoopPhase.replyTo (loop_exceptCall (s.closeIf effect.closes) effect.error)
  | stream =>
      cases hstep
      exact ⟨hopen, .inr ⟨by simp, rfl⟩⟩
  | streamStep packetId event =>
      obtain ⟨w, -, hmap⟩ := Option.bind_eq_some_iff.mp hstep
      obtain ⟨effect, -, rfl⟩ := Option.map_eq_some_iff.mp hmap
      exact ⟨hopen, .inr ⟨by simp, rfl⟩⟩
  | handlerStep number event =>
      obtain ⟨handler, -, hhandler⟩ := Option.bind_eq_some_iff.mp hstep
      have hframe := (stepHandler_ends hhandler).frame_of_open hopen
      exact ⟨hframe.closed.symm.trans hopen, .inr ⟨by simp, by rw [loop_stepHandler hhandler]⟩⟩
  | exit =>
      simp only [step] at hstep
      split_ifs at hstep
      cases hstep
      cases hopen
  | closeWriter =>
      cases hstep
      exact ⟨hopen, .inr ⟨by simp, rfl⟩⟩

end Endpoint

/-- An endpoint and its process. -/
structure Host (α W : Type) where
  endpoint : Endpoint
  world : World α W
  asked : List ℕ
  answers : List (Flags × ℕ)

/-- What happens to a host: a packet arrives and is decoded under some permissions, or anything
else happens to its endpoint. -/
inductive HostEvent (α : Type) where
  | packet (raw : Raw) (π : Permissions α)
  | other (event : EndpointEvent)

namespace Host

variable {α W : Type} (I : Interpreter α W) (C : Codec)

/-- The host when its receive loop starts. -/
def init (acceptCode acceptCalls : Bool) (world : World α W) : Host α W where
  endpoint := Endpoint.init acceptCode acceptCalls
  world := world
  asked := []
  answers := []

/-- A packet arrives. -/
def packet (h : Host α W) (raw : Raw) (π : Permissions α) : Host α W :=
  let (decoded, world) := (π.process I).decodePacket h.world raw.payload raw.flags raw.packetId
  let endpoint := h.endpoint.obtain C raw decoded
  { h with endpoint := endpoint, world := world, asked := h.asked ++ endpoint.loop.replyTo }

/-- What the loop wrote when its send returned. -/
def written (h : Host α W) : EndpointEvent → List (Flags × ℕ)
  | .replied => h.endpoint.loop.replyTo.map fun packetId =>
      (Flags.exception ||| Flags.response, packetId)
  | _ => []

/-- One stretch of the event loop. -/
def step (h : Host α W) : HostEvent α → Option (Host α W)
  | .packet raw π =>
      match h.endpoint.loop with
      | .receiving => some (h.packet I C raw π)
      | _ => none
  | .other (.receive _) => none
  | .other event =>
      (h.endpoint.step C event).map fun endpoint =>
        { h with endpoint := endpoint, answers := h.answers ++ h.written event }

end Host

/-! ## Refused packets -/

/-- The flags of the packet that the decoder makes of a refused one. -/
def Flags.refused (flags : Flags) : Flags :=
  Flags.exception ||| (flags &&& (Flags.request ||| Flags.response))

namespace Flags

theorem has_refused_of_disjoint (flags : Flags) {mask : Flags}
    (h : (Flags.exception ||| (Flags.request ||| Flags.response)) &&& mask = 0#32) :
    flags.refused.has mask = false := by
  rw [BitVec.and_or_distrib_right, BitVec.or_eq_zero_iff] at h
  have hkept : (flags &&& (Flags.request ||| Flags.response)).has mask = false := by
    rw [has_eq_false_iff, BitVec.and_assoc, h.2, BitVec.and_zero]
  rw [refused, has_or, hkept, (has_eq_false_iff _ _).mpr h.1]
  rfl

theorem has_refused_exception (flags : Flags) : flags.refused.has Flags.exception = true := by
  have hself : Flags.exception.has Flags.exception = true := by decide
  rw [refused, has_or, hself, Bool.true_or]

theorem has_refused_request (flags : Flags) :
    flags.refused.has Flags.request = flags.has Flags.request := by
  have hoff : Flags.exception.has Flags.request = false := by decide
  rw [refused, has_or, hoff, Bool.false_or, has_and_of_kept flags (by decide)]

theorem has_refused_response (flags : Flags) :
    flags.refused.has Flags.response = flags.has Flags.response := by
  have hoff : Flags.exception.has Flags.response = false := by decide
  rw [refused, has_or, hoff, Bool.false_or, has_and_of_kept flags (by decide)]

end Flags

namespace Endpoint

variable {C : Codec} {s : Endpoint} {raw : Raw}

/-- The report of a packet that the decoder refused. -/
def refusal (raw : Raw) (text : String) : Packet Bytes :=
  ⟨.error text, raw.flags.refused, raw.packetId, raw.payload.length⟩

/-- The loop does not look at the permissions of a packet that the decoder refused. -/
theorem dispatch_refusal (C : Codec) (s : Endpoint) (raw : Raw) (text : String) :
    s.dispatch C (refusal raw text) = s.handle C (refusal raw text) := by
  have hsync : raw.flags.refused.has Flags.sync = false :=
    raw.flags.has_refused_of_disjoint (by decide)
  have hrpc : raw.flags.refused.has Flags.rpc = false :=
    raw.flags.has_refused_of_disjoint (by decide)
  have hlog : raw.flags.refused.has Flags.log = false :=
    raw.flags.has_refused_of_disjoint (by decide)
  simp [dispatch, refuses, refusal, unpackLog, hsync, hrpc, hlog]

/-- A request that the decoder refused is answered, and a response is an exception. -/
theorem handle_refusal (C : Codec) (s : Endpoint) (raw : Raw) (text : String) :
    s.handle C (refusal raw text) =
      if raw.flags.has Flags.request then
        (s.reply raw.packetId, none)
      else if raw.flags.has Flags.response then
        s.handleException C (.error text) raw.packetId
      else
        (s, none) := by
  simp only [handle, refusal, raw.flags.has_refused_exception, raw.flags.has_refused_request,
    raw.flags.has_refused_response, if_true]

theorem obtain_refused_request (C : Codec) (s : Endpoint) (text : String)
    (hrequest : raw.flags.has Flags.request = true) :
    s.obtain C raw (.ok (refusal raw text)) =
      { s with received := s.received ++ [raw], loop := .replying raw.packetId false } := by
  simp only [obtain, dispatch_refusal, handle_refusal, hrequest, if_true, reply]

/-- A request that the loop refuses is answered. -/
theorem obtain_refuses {packet : Packet Bytes} (hid : packet.packetId = raw.packetId)
    (hrefuses : s.refuses packet.flags = true) :
    s.obtain C raw (.ok packet) =
      { s with received := s.received ++ [raw], loop := .replying raw.packetId false } := by
  have hsame : { s with received := s.received ++ [raw] }.refuses packet.flags = true := hrefuses
  simp only [obtain, dispatch, hsame, if_true, reply, hid]

/-- The stream that a refused response belongs to fails, or else the call. -/
theorem handleException_refusal (C : Codec) (s : Endpoint) (packetId : ℕ) (text : String) :
    s.handleException C (.error text) packetId =
      match s.queue packetId, s.future packetId with
      | some w, _ =>
          (s.setConsumer packetId w
            (w.consumer.putEnd (Flags.exception ||| Flags.response) (.error text)), none)
      | none, some c => (s.setCall packetId (c.settle (.raised text)), none)
      | none, none => (s, none) := by
  unfold handleException
  cases s.queue packetId with
  | some w => rfl
  | none => cases s.future packetId <;> rfl

/-- A refused response fails the stream or the call of its number, the stream unless its end is
there already, and nothing else changes. -/
structure Fails (s s' : Endpoint) (packetId : ℕ) (text : String) : Prop where
  stream : ∀ w, s.queue packetId = some w → (∀ e ∈ w.consumer.queue, e.ends = false) →
    s'.streams packetId = some { w with consumer := { w.consumer with
      queue := w.consumer.queue ++ [⟨Flags.exception ||| Flags.response, .error text, 0⟩] } }
  call : ∀ c, s.queue packetId = none → s.future packetId = some c →
    s'.calls packetId = some { c with future := .raised text, registered := false }
  calls : ∀ p, (p = packetId → s.queue packetId = none → s.future packetId = none) →
    s'.calls p = s.calls p
  streams : ∀ p, (p = packetId → s.queue packetId = none) → s'.streams p = s.streams p
  handlers : s'.handlers = s.handlers
  loop : s'.loop = .receiving

theorem fails_handleException (hready : s.Ready) (C : Codec) (packetId : ℕ) (text : String)
    (hloop : s.loop = .receiving) :
    Fails s (s.handleException C (.error text) packetId).1 packetId text := by
  rw [handleException_refusal]
  cases hqueue : s.queue packetId with
  | some w =>
      have hw := queue_eq_some hqueue
      constructor
      · intro w' hw' hopen
        obtain rfl := Option.some.inj (hqueue.symm.trans hw')
        have hput := Consumer.putEnd_of_open (hready.streams _ _ hw.1) hw.2 hopen
          (Flags.exception ||| Flags.response) (.error text)
        simp [setConsumer, setStream, hput]
      · intro c hnone
        rw [hqueue] at hnone
        cases hnone
      · exact fun p _ => rfl
      · intro p hp
        have hne : p ≠ packetId := by
          intro heq
          rw [hqueue] at hp
          cases hp heq
        simp [setConsumer, setStream, hne]
      · rfl
      · exact hloop
  | none =>
      cases hfuture : s.future packetId with
      | some c =>
          have hc := future_eq_some hfuture
          have hpending := hready.calls _ _ hc.1 hc.2
          constructor
          · intro w hw
            rw [hqueue] at hw
            cases hw
          · intro c' _ hc'
            obtain rfl := Option.some.inj (hfuture.symm.trans hc')
            simp [setCall, Call.settle, hpending, Future.done]
          · intro p hp
            have hne : p ≠ packetId := by
              intro heq
              rw [hfuture] at hp
              cases hp heq hqueue
            simp [setCall, hne]
          · exact fun p _ => rfl
          · rfl
          · exact hloop
      | none =>
          constructor
          · intro w hw
            rw [hqueue] at hw
            cases hw
          · intro c _ hc
            rw [hfuture] at hc
            cases hc
          · exact fun p _ => rfl
          · exact fun p _ => rfl
          · rfl
          · exact hloop

theorem closed_handleException (C : Codec) (s : Endpoint) (packetId : ℕ) (text : String) :
    (s.handleException C (.error text) packetId).1.closed = s.closed ∧
      (s.handleException C (.error text) packetId).2 = none := by
  rw [handleException_refusal]
  split <;> exact ⟨rfl, rfl⟩

theorem obtain_refused_response (hready : s.Ready) (C : Codec) (text : String)
    (hrequest : raw.flags.has Flags.request = false)
    (hresponse : raw.flags.has Flags.response = true) (hopen : s.closed = false)
    (hloop : s.loop = .receiving) :
    Fails s (s.obtain C raw (.ok (refusal raw text))) raw.packetId text := by
  have hreceived : Ready { s with received := s.received ++ [raw] } := hready.of_eq rfl rfl
  have hfails := fails_handleException hreceived C raw.packetId text hloop
  obtain ⟨hclosed, hnone⟩ :=
    closed_handleException C { s with received := s.received ++ [raw] } raw.packetId text
  have hobtain : s.obtain C raw (.ok (refusal raw text)) =
      { ({ s with received := s.received ++ [raw] }.handleException C (.error text)
        raw.packetId).1 with loop := .receiving } := by
    simp only [obtain, dispatch_refusal, handle_refusal, hrequest, hresponse, if_true,
      Bool.false_eq_true, if_false]
    generalize { s with received := s.received ++ [raw] }.handleException C (.error text)
      raw.packetId = out at hfails hclosed hnone ⊢
    obtain ⟨s', error⟩ := out
    obtain rfl : error = none := hnone
    have hwaits : s'.loop = .receiving := hfails.loop
    have hup : s'.closed = false := hclosed.trans hopen
    simp only [hwaits, proceed, hup, Bool.false_eq_true, if_false]
  rw [hobtain]
  exact ⟨hfails.stream, hfails.call, hfails.calls, hfails.streams, hfails.handlers, rfl⟩

/-! ## Handlers -/

/-- At most one handler started, and it had its permission. -/
def Starts (s s' : Endpoint) (packetId : ℕ) : Prop :=
  s'.lastHandler = s.lastHandler ∨
    s'.lastHandler = s.lastHandler + 1 ∧ ∃ handler,
      s'.handlers (s.lastHandler + 1) = some handler ∧ handler.packetId = packetId ∧
      (handler.kind = .sync → s.acceptCode = true) ∧
      (handler.kind ≠ .sync → s.acceptCalls = true)

/-- The permission that a request had when it passed the first look of the loop. -/
theorem permission_of_not_refuses {flags : Flags} (h : s.refuses flags = false)
    (hrequest : flags.has Flags.request = true) (hstream : flags.has Flags.stream = false) :
    (flags.has Flags.sync = true → s.acceptCode = true) ∧
      (flags.has Flags.rpc = true → s.acceptCalls = true) := by
  simp only [refuses, hrequest, hstream, Bool.not_false, Bool.true_and, Bool.or_eq_false_iff] at h
  obtain ⟨hcode, hcalls⟩ := h
  constructor
  · intro hsync
    simpa [hsync] using hcode
  · intro hrpc
    simpa [hrpc] using hcalls

theorem starts_execute (s : Endpoint) (packetId : ℕ) {kind : HandlerKind}
    (hsync : kind = .sync → s.acceptCode = true) (hcall : kind ≠ .sync → s.acceptCalls = true) :
    Starts s (s.execute packetId kind) packetId :=
  .inr ⟨rfl, Handler.init packetId kind, by simp [execute], rfl, hsync, hcall⟩

theorem lastHandler_handleStreamCredit (C : Codec) (s : Endpoint) (returned : Decoded Bytes)
    (packetId : ℕ) :
    (s.handleStreamCredit C returned packetId).lastHandler = s.lastHandler := by
  unfold handleStreamCredit
  split
  · rfl
  · split
    · rfl
    · split <;> rfl

theorem lastHandler_handleStreamItem (s : Endpoint) (packet : Packet Bytes) :
    (s.handleStreamItem packet).1.lastHandler = s.lastHandler := by
  unfold handleStreamItem
  split
  · rfl
  · simp only
    split_ifs <;> rfl

theorem lastHandler_handleException (C : Codec) (s : Endpoint) (exception : Decoded Bytes)
    (packetId : ℕ) :
    (s.handleException C exception packetId).1.lastHandler = s.lastHandler := by
  unfold handleException
  split
  · rfl
  · split
    · rfl
    · split <;> rfl

/-- The loop starts a handler for a request that it did not refuse. -/
theorem starts_handle (C : Codec) (s : Endpoint) (packet : Packet Bytes)
    (h : s.refuses packet.flags = false) : Starts s (s.handle C packet).1 packet.packetId := by
  unfold handle
  simp only
  split_ifs with hexception hrequest hresponse hcredit hitem hsync hrpc hanswer
  · exact .inl rfl
  · exact .inl (lastHandler_handleException ..)
  · exact .inl rfl
  · exact .inl (lastHandler_handleStreamCredit ..)
  · exact .inl (lastHandler_handleStreamItem ..)
  · obtain ⟨hflag, hrequest⟩ := Bool.and_eq_true_iff.mp hsync
    have hstream : packet.flags.has Flags.stream = false := by simpa [hrequest] using hcredit
    have hpermission := permission_of_not_refuses h hrequest hstream
    exact starts_execute s _ (fun _ => hpermission.1 hflag) fun hne => absurd rfl hne
  · obtain ⟨hflag, hrequest⟩ := Bool.and_eq_true_iff.mp hrpc
    have hstream : packet.flags.has Flags.stream = false := by simpa [hrequest] using hcredit
    have hpermission := permission_of_not_refuses h hrequest hstream
    cases C.look packet.payload with
    | request streaming =>
        refine starts_execute s _ ?_ fun _ => hpermission.2 hflag
        cases streaming <;> exact nofun
    | _ => exact .inl rfl
  · exact .inl rfl
  · exact .inl rfl

theorem refuses_unpackLog {packet packet' : Packet Bytes} (hunpack : unpackLog C packet = some packet') :
    s.refuses packet'.flags = s.refuses packet.flags := by
  have hflags := (unpackLog_spec hunpack).2.2
  unfold refuses
  rw [hflags Flags.request (by decide), hflags Flags.stream (by decide),
    hflags Flags.sync (by decide), hflags Flags.rpc (by decide)]

theorem starts_dispatch (C : Codec) (s : Endpoint) (packet : Packet Bytes) :
    Starts s (s.dispatch C packet).1 packet.packetId := by
  unfold dispatch
  split_ifs with hrefuses
  · exact .inl rfl
  · cases hunpack : unpackLog C packet with
    | none => exact .inl rfl
    | some packet' =>
        have hsame := (refuses_unpackLog (s := s) hunpack).trans (by simpa using hrefuses)
        have hstarts := starts_handle C s packet' hsame
        rw [(unpackLog_spec hunpack).1] at hstarts
        exact hstarts

/-- The end of the connection starts no handler. -/
theorem Starts.finishPending {s' : Endpoint} {packetId : ℕ} (h : Starts s s' packetId)
    (error : String) : Starts s (s'.finishPending error) packetId := by
  rcases h with hsame | ⟨hlast, handler, hhandler, hrest⟩
  · exact .inl hsame
  · refine .inr ⟨hlast, if s'.names (s.lastHandler + 1) handler then handler.release else handler,
      ?_, ?_⟩
    · simp [Endpoint.finishPending, hhandler]
    · split_ifs
      · exact hrest
      · exact hrest

theorem Starts.endLoop {s' : Endpoint} {packetId : ℕ} (h : Starts s s' packetId)
    (error : Option String) : Starts s (s'.endLoop error) packetId :=
  h.finishPending (error.getD "Remote process closed the connection")

/-- Whatever a packet holds, it starts at most one handler, with its permission. -/
theorem starts_obtain (C : Codec) (s : Endpoint) (raw : Raw)
    {decoded : Except DecodeError (Packet Bytes)}
    (hid : ∀ packet, decoded = .ok packet → packet.packetId = raw.packetId) :
    Starts s (s.obtain C raw decoded) raw.packetId := by
  cases decoded with
  | error error => exact .inl rfl
  | ok packet =>
      have hstarts : Starts s ({ s with received := s.received ++ [raw] }.dispatch C packet).1
          raw.packetId := hid packet rfl ▸ starts_dispatch C _ packet
      simp only [obtain]
      split
      · rename_i s' error heq
        rw [heq] at hstarts
        exact hstarts.endLoop (some error)
      · rename_i s' heq
        rw [heq] at hstarts
        split
        · exact hstarts
        · unfold proceed
          split_ifs
          · exact hstarts.endLoop none
          · exact hstarts

theorem closed_dispatched {s' : Endpoint} {packet : Packet Bytes} {error : Option String}
    (h : Dispatched C s packet s' error) : s'.closed = s.closed := by
  cases h with
  | nothing => rfl
  | reply => rfl
  | handled packet' _ _ _ hhandled =>
      cases hhandled with
      | credit _ _ _ => exact (frame_handleStreamCredit ..).closed
      | _ => rfl

/-- A packet does not bring a connection back. -/
theorem open_of_obtain {decoded : Except DecodeError (Packet Bytes)}
    (h : (s.obtain C raw decoded).closed = false) : s.closed = false := by
  obtain ⟨s', hbefore, hends⟩ := obtain_spec C s raw decoded
  have hopen := (hends.frame_of_open h).closed.symm.trans h
  rcases hbefore with rfl | ⟨packet, error, -, hdispatched⟩
  · exact hopen
  · exact (closed_dispatched hdispatched).symm.trans hopen

end Endpoint

namespace Host

variable {α W : Type} {I : Interpreter α W} {C : Codec} {h h' : Host α W}

/-- The registries are in order, and while the connection is up the loop has answered each
packet that asked for it once, except for the one that it is answering. -/
structure Balanced (h : Host α W) : Prop where
  ready : h.endpoint.Ready
  answers : h.endpoint.closed = false →
    h.asked = h.answers.map Prod.snd ++ h.endpoint.loop.replyTo
  flags : ∀ answer ∈ h.answers, answer.1 = Flags.exception ||| Flags.response

theorem balanced_init (acceptCode acceptCalls : Bool) (world : World α W) :
    Balanced (init acceptCode acceptCalls world) :=
  ⟨Endpoint.ready_init acceptCode acceptCalls, fun _ => rfl, nofun⟩

theorem Balanced.packet (hb : h.Balanced) (hloop : h.endpoint.loop = .receiving) (raw : Raw)
    (π : Permissions α) : (h.packet I C raw π).Balanced := by
  refine ⟨hb.ready.obtain raw _, fun hopen => ?_, hb.flags⟩
  have hbefore := hb.answers (Endpoint.open_of_obtain hopen)
  rw [hloop] at hbefore
  change h.asked ++ _ = _
  rw [hbefore, show LoopPhase.receiving.replyTo = [] from rfl, List.append_nil]
  rfl

theorem Balanced.other (hb : h.Balanced) {e : EndpointEvent} {s : Endpoint}
    (hother : ∀ raw, e ≠ .receive raw) (hstep : h.endpoint.step C e = some s) :
    Balanced { h with endpoint := s, answers := h.answers ++ h.written e } := by
  refine ⟨hb.ready.step hother hstep, fun hopen => ?_, fun answer hanswer => ?_⟩
  · obtain ⟨hbefore, ⟨rfl, hdone⟩ | ⟨hne, hsame⟩⟩ := Endpoint.step_replyTo hother hstep hopen
    · have hasked := hb.answers hbefore
      simp only [written, hdone, List.append_nil, List.map_append, List.map_map]
      rw [hasked]
      simp [Function.comp_def]
    · have hasked := hb.answers hbefore
      have hnothing : h.written e = [] := by
        cases e with
        | replied => exact absurd rfl hne
        | _ => rfl
      simp only [hnothing, List.append_nil, hsame]
      exact hasked
  · rcases List.mem_append.mp hanswer with hanswer | hanswer
    · exact hb.flags answer hanswer
    · cases e with
      | replied =>
          obtain ⟨packetId, -, rfl⟩ := List.mem_map.mp hanswer
          rfl
      | _ => cases hanswer

/-- What happens to the endpoint apart from packets. -/
theorem step_other {e : EndpointEvent} (hstep : h.step I C (.other e) = some h') :
    ∃ s, (∀ raw, e ≠ .receive raw) ∧ h.endpoint.step C e = some s ∧
      h' = { h with endpoint := s, answers := h.answers ++ h.written e } := by
  cases e with
  | receive raw => cases hstep
  | _ =>
      simp only [Host.step] at hstep
      obtain ⟨s, hs, rfl⟩ := Option.map_eq_some_iff.mp hstep
      exact ⟨s, nofun, hs, rfl⟩

theorem Balanced.step (hb : h.Balanced) {e : HostEvent α} (hstep : h.step I C e = some h') :
    h'.Balanced := by
  cases e with
  | packet raw π =>
      simp only [Host.step] at hstep
      split at hstep
      · rename_i hloop
        cases hstep
        exact hb.packet hloop raw π
      · cases hstep
  | other e =>
      obtain ⟨s, hother, hs, rfl⟩ := step_other hstep
      exact hb.other hother hs

/-- The decoder refuses the packet: a global or the sources that it brings. -/
def DecoderRefuses (I : Interpreter α W) (h : Host α W) (raw : Raw) (π : Permissions α)
    (text : String) : Prop :=
  ((π.process I).decodePayload h.world raw.flags raw.payload).1 = .error (.permission text)

/-- The packet is a request to load a tool or to call one, and the decoder or the loop
refuses it. -/
def RefusedRequest (I : Interpreter α W) (h : Host α W) (raw : Raw) (π : Permissions α) : Prop :=
  raw.flags.has Flags.request = true ∧
    (raw.flags.has Flags.sync = true ∨ raw.flags.has Flags.rpc = true) ∧
    ((∃ text, DecoderRefuses I h raw π text) ∨
      (∃ value, ((π.process I).decodePayload h.world raw.flags raw.payload).1 = .ok value) ∧
        h.endpoint.refuses raw.flags = true)

/-- The packet is a response that the decoder refuses. -/
def RefusedResponse (I : Interpreter α W) (h : Host α W) (raw : Raw) (π : Permissions α)
    (text : String) : Prop :=
  raw.flags.has Flags.response = true ∧ raw.flags.has Flags.request = false ∧
    DecoderRefuses I h raw π text

/-- The loop answers a packet and goes on with the next one, and nothing else changes. -/
structure Answers (I : Interpreter α W) (C : Codec) (h h' : Host α W) (packetId : ℕ) : Prop where
  asked : h'.asked = h.asked ++ [packetId]
  endpoint : h'.endpoint =
    { h.endpoint with received := h'.endpoint.received, loop := .replying packetId false }
  replied : ∃ h'', h'.step I C (.other .replied) = some h'' ∧
    h''.answers = h'.answers ++ [(Flags.exception ||| Flags.response, packetId)] ∧
    (h.endpoint.closed = false → h''.endpoint.loop = .receiving ∧
      h''.endpoint.calls = h.endpoint.calls ∧ h''.endpoint.streams = h.endpoint.streams)

/-- What the decoder makes of a packet that it refuses. -/
theorem decodePacket_refused {raw : Raw} {π : Permissions α} {text : String}
    (hrefused : DecoderRefuses I h raw π text) :
    ((π.process I).decodePacket h.world raw.payload raw.flags raw.packetId).1 =
      .ok (Endpoint.refusal raw text) := by
  unfold DecoderRefuses at hrefused
  unfold Process.decodePacket
  rcases hdecode : (π.process I).decodePayload h.world raw.flags raw.payload with ⟨out, world⟩
  rw [hdecode] at hrefused
  obtain rfl : out = .error (.permission text) := hrefused
  rfl

theorem decodePacket_accepted {raw : Raw} {π : Permissions α} {value : Decoded Bytes}
    (haccepted : ((π.process I).decodePayload h.world raw.flags raw.payload).1 = .ok value) :
    ((π.process I).decodePacket h.world raw.payload raw.flags raw.packetId).1 =
      .ok ⟨value, raw.flags, raw.packetId, raw.payload.length⟩ := by
  unfold Process.decodePacket
  rcases hdecode : (π.process I).decodePayload h.world raw.flags raw.payload with ⟨out, world⟩
  rw [hdecode] at haccepted
  obtain rfl : out = .ok value := haccepted
  rfl

theorem endpoint_packet (h : Host α W) (raw : Raw) (π : Permissions α) :
    (h.packet I C raw π).endpoint = h.endpoint.obtain C raw
      ((π.process I).decodePacket h.world raw.payload raw.flags raw.packetId).1 := rfl

theorem endpoint_packet_request {raw : Raw} {π : Permissions α} (hrefused : RefusedRequest I h raw π) :
    (h.packet I C raw π).endpoint = { h.endpoint with
      received := h.endpoint.received ++ [raw], loop := .replying raw.packetId false } := by
  obtain ⟨hrequest, -, ⟨text, htext⟩ | ⟨⟨value, hvalue⟩, hrefuses⟩⟩ := hrefused
  · rw [endpoint_packet, decodePacket_refused htext, Endpoint.obtain_refused_request C _ _ hrequest]
  · rw [endpoint_packet, decodePacket_accepted hvalue]
    exact Endpoint.obtain_refuses rfl hrefuses

theorem answers_packet {raw : Raw} {π : Permissions α} (hrefused : RefusedRequest I h raw π) :
    Answers I C h (h.packet I C raw π) raw.packetId := by
  have hendpoint := endpoint_packet_request (C := C) hrefused
  have hloop : (h.packet I C raw π).endpoint.loop = .replying raw.packetId false := by
    rw [hendpoint]
  refine ⟨?_, by rw [hendpoint], ?_⟩
  · change h.asked ++ (h.packet I C raw π).endpoint.loop.replyTo = _
    rw [hloop]
    rfl
  · refine ⟨_, by simp only [step, Endpoint.step, hloop]; rfl, ?_, fun hopen => ?_⟩
    · simp only [written, hloop]
      rfl
    · have hup : ((h.packet I C raw π).endpoint.log (.response raw.packetId)).closed = false := by
        rw [hendpoint]
        exact hopen
      have hproceed : ((h.packet I C raw π).endpoint.log (.response raw.packetId)).proceed =
          { (h.packet I C raw π).endpoint.log (.response raw.packetId) with
            loop := .receiving } := by
        simp [Endpoint.proceed, hup]
      simp only [hproceed]
      rw [hendpoint]
      exact ⟨trivial, rfl, rfl⟩

/-- A packet that is decoded keeps its number. -/
theorem packetId_decodePacket {p : Process Bytes (World α W)} {w : World α W} {raw : Raw}
    (packet : Packet Bytes)
    (hdecode : (p.decodePacket w raw.payload raw.flags raw.packetId).1 = .ok packet) :
    packet.packetId = raw.packetId := by
  unfold Process.decodePacket at hdecode
  split at hdecode
  · cases hdecode
    rfl
  · cases hdecode
    rfl
  · cases hdecode

/-- Permissions hold for every packet, whatever its flags and its payload, after every run of the
endpoint. Without `accept_code`, decoding installs nothing, loads nothing and resolves only
globals of the tables. A handler starts only with its permission. A refused request is answered
once, a refused response fails the call of its number or the stream, unless the stream has its
end already, and the loop goes on. -/
theorem permissions_hold (I : Interpreter α W) (C : Codec) (acceptCode acceptCalls : Bool)
    (world : World α W) {es : List (HostEvent α)} {h : Host α W}
    (hrun : Machine.run (step I C) (init acceptCode acceptCalls world) es = some h)
    (hloop : h.endpoint.loop = .receiving) (raw : Raw) (π : Permissions α) :
    (π.acceptCode = false → π.Confined h.world (h.packet I C raw π).world) ∧
      h.endpoint.Starts (h.packet I C raw π).endpoint raw.packetId ∧
      (RefusedRequest I h raw π → Answers I C h (h.packet I C raw π) raw.packetId) ∧
      (∀ text, RefusedResponse I h raw π text → h.endpoint.closed = false →
        h.endpoint.Fails (h.packet I C raw π).endpoint raw.packetId text) ∧
      (h.endpoint.closed = false →
        h.answers = h.asked.map fun packetId => (Flags.exception ||| Flags.response, packetId)) := by
  have hbalanced : h.Balanced := Machine.run_always Balanced
    (fun _ _ _ hb hstep => hb.step hstep) hrun (balanced_init acceptCode acceptCalls world)
  refine ⟨fun hcode => ?_, ?_, fun hrefused => answers_packet hrefused,
    fun text hrefused hopen => ?_, fun hopen => ?_⟩
  · exact Permissions.decodePacket_confined hcode raw.payload raw.flags raw.packetId
  · exact Endpoint.starts_obtain C h.endpoint raw packetId_decodePacket
  · obtain ⟨hresponse, hrequest, hdecoder⟩ := hrefused
    rw [endpoint_packet, decodePacket_refused hdecoder]
    exact Endpoint.obtain_refused_response hbalanced.ready C text hrequest hresponse hopen hloop
  · have hasked := hbalanced.answers hopen
    rw [hloop, show LoopPhase.receiving.replyTo = [] from rfl, List.append_nil] at hasked
    rw [hasked, List.map_map]
    refine (List.map_id _).symm.trans (List.map_congr_left fun answer hanswer => ?_)
    exact Prod.ext (hbalanced.flags answer hanswer) rfl

/-- A pickle that names `os.system`. -/
def systemPickle : Bytes := [99]

/-- A process whose other pickles name nothing. -/
def quietInterpreter : Interpreter Unit Unit where
  genops payload := (if payload = systemPickle then [.global "os" "system"] else [], .ok [])
  extension _ := none
  pickleLoads w payload := (.ok payload, w)
  call w _ _ := (.ok (), w)
  toolFromDict w _ := (.ok (), w)
  sysModules _ _ := none
  getattr _ object _ := object
  isTool _ := false
  envelope payload := .ok (∅, payload)
  install w _ := (.ok (), w)
  learn w _ := w

/-- An endpoint that accepts no code and has no globals in its tables. -/
def noCode : Permissions Unit where
  acceptCode := false
  safeGlobals := ⟨fun _ _ => none, nofun⟩
  registeredGlobals := ⟨fun _ _ => none, nofun⟩
  pickleAllowlist := fun _ _ => none

/-- A response with a forbidden global. -/
def forbidden : Raw := ⟨systemPickle, Flags.rpc ||| Flags.response, 1⟩

/-- A request to load a tool. -/
def loadTool : Raw := ⟨[], Flags.sync ||| Flags.request, 7⟩

/-- A call begins to wait. -/
def callWaits : List (HostEvent Unit) :=
  [.other .call, .other (.callStep 1 .write), .other (.callStep 1 .sent)]

theorem callWaits_permissions :
    ∃ h c, Machine.run (step quietInterpreter Codec.plain) (init false false ⟨(), []⟩) callWaits =
        some h ∧ h.endpoint.calls 1 = some c ∧ c.registered = true ∧
      noCode.Confined h.world (h.packet quietInterpreter Codec.plain forbidden noCode).world ∧
      (h.packet quietInterpreter Codec.plain forbidden noCode).endpoint.calls 1 =
        some { c with future := .raised "Pickle global os.system is forbidden",
                      registered := false } ∧
      Answers quietInterpreter Codec.plain h
        (h.packet quietInterpreter Codec.plain loadTool noCode) 7 := by
  obtain ⟨h, hrun⟩ : ∃ h, Machine.run (step quietInterpreter Codec.plain)
      (init false false ⟨(), []⟩) callWaits = some h := ⟨_, rfl⟩
  have hresponse := permissions_hold quietInterpreter Codec.plain false false ⟨(), []⟩ hrun
    (by cases hrun; rfl) forbidden noCode
  have hrequest := permissions_hold quietInterpreter Codec.plain false false ⟨(), []⟩ hrun
    (by cases hrun; rfl) loadTool noCode
  cases hrun
  refine ⟨_, _, rfl, rfl, rfl, hresponse.1 rfl, ?_, ?_⟩
  · exact (hresponse.2.2.2.1 "Pickle global os.system is forbidden"
      ⟨by decide, by decide, rfl⟩ rfl).call _ rfl rfl
  · exact hrequest.2.2.1 ⟨by decide, .inl (by decide), .inr ⟨⟨_, rfl⟩, by decide⟩⟩

/-- A stream that has received its response and has not come to it. -/
def streamAnswered : List (HostEvent Unit) :=
  [.other .stream, .other (.streamStep 1 .write), .other (.streamStep 1 .sent),
    .packet ⟨[], Flags.rpc ||| Flags.response, 1⟩ noCode, .other .respond]

/-- A refused response does not fail a registered stream whose end is in its queue. -/
theorem answered_stream_not_failed :
    ∃ h h' h'' w, Machine.run (step quietInterpreter Codec.plain) (init false false ⟨(), []⟩)
        streamAnswered = some h ∧
      h.endpoint.queue 1 = some w ∧
      RefusedResponse quietInterpreter h forbidden noCode "Pickle global os.system is forbidden" ∧
      h.step quietInterpreter Codec.plain (.packet forbidden noCode) = some h' ∧
      h'.step quietInterpreter Codec.plain (.other (.streamStep 1 .get)) = some h'' ∧
      (h''.endpoint.streams 1).map (fun w => w.consumer.phase) = some (.ended .complete) :=
  ⟨_, _, _, _, rfl, rfl, ⟨by decide, by decide, rfl⟩, rfl, rfl, rfl⟩

end Host

end Rmote
