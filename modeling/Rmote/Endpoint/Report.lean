import Rmote.Endpoint.Close
import Rmote.Endpoint.Stop

/-!
# The end of a consumer is reported

A consumer that ends tells its sender to stop, unless the sender has ended the stream
itself. `stream` keeps one boolean for this, and sets it for every exception that it takes
from its queue. The receive loop puts exceptions of its own there: the refusal of a packet
that it may not decode, and the report of a peer that ignored its permission. A consumer
that ends with one of these sends no stop, although its sender still runs. In the runs
without such an entry, and without a stop whose send is cancelled, every end is reported.
-/

namespace Rmote

/-- The packet ends a stream: an exception, or the ordinary response. -/
def Raw.final (r : Raw) : Bool :=
  r.flags.has Flags.response && (r.flags.has Flags.exception || !r.flags.has Flags.stream)

/-- The peer sent the end of the stream. -/
def Finished (received : List Raw) (packetId : ℕ) : Prop :=
  ∃ r ∈ received, r.packetId = packetId ∧ r.final = true

theorem Finished.mono {received received' : List Raw} {packetId : ℕ}
    (h : Finished received packetId) (hreceived : received ⊆ received') :
    Finished received' packetId := by
  obtain ⟨r, hr, hfinal⟩ := h
  exact ⟨r, hreceived hr, hfinal⟩

namespace Consumer

/-- The end of the stream came from the peer, and the end of the consumer is reported. -/
structure Reported (received : List Raw) (sent : List Message) (packetId : ℕ) (c : Consumer) :
    Prop where
  queue : ∀ e ∈ c.queue, e.ends = true → Finished received packetId
  finished : c.finished = true → Finished received packetId
  ended : ∀ ending, c.phase = .ended ending →
    Finished received packetId ∨ Message.stop packetId ∈ sent

variable {c : Consumer} {packetId : ℕ} {received received' : List Raw} {sent sent' : List Message}

theorem Reported.mono (h : c.Reported received sent packetId) (hreceived : received ⊆ received')
    (hsent : sent ⊆ sent') : c.Reported received' sent' packetId where
  queue e he hends := (h.queue e he hends).mono hreceived
  finished hfinished := (h.finished hfinished).mono hreceived
  ended ending hended := by
    rcases h.ended ending hended with hfinal | hstop
    · exact .inl (hfinal.mono hreceived)
    · exact .inr (hsent hstop)

theorem reported_init (received : List Raw) (sent : List Message) (packetId : ℕ) :
    init.Reported received sent packetId :=
  ⟨nofun, nofun, nofun⟩

/-- The end of the stream joins the queue. -/
theorem Reported.putEnd (h : c.Reported received sent packetId) (hfinal : Finished received packetId) (flags : Flags)
    (payload : Decoded Bytes) : (c.putEnd flags payload).Reported received sent packetId := by
  unfold Consumer.putEnd
  split_ifs
  · exact ⟨fun _ _ _ => hfinal, h.finished, h.ended⟩
  · exact h

/-- A packet of items that keeps to its permission joins the queue. -/
theorem Reported.handleStreamItem (h : c.Reported received sent packetId) {flags : Flags}
    {payload : Decoded Bytes} {size : ℕ} (hexception : flags.has Flags.exception = false)
    (hstream : flags.has Flags.stream = true)
    (hroom : c.overBudget = false → c.exceeds size = false) :
    (c.handleStreamItem packetId flags payload size).Reported received sent packetId := by
  unfold Consumer.handleStreamItem
  split_ifs with hdrop hexceeds
  · exact h
  · have hbudget : c.overBudget = false := by
      rw [Bool.or_eq_true, not_or] at hdrop
      simpa using hdrop.2
    rw [hroom hbudget] at hexceeds
    cases hexceeds
  · refine ⟨fun e he hends => ?_, h.finished, h.ended⟩
    rcases List.mem_append.mp he with he | he
    · exact h.queue e he hends
    · rw [List.mem_singleton.mp he] at hends
      simp [Entry.ends, hexception, hstream] at hends

/-- The generator leaves its loop: it has seen the end of the stream, or goes on to send
the stop. -/
theorem Reported.unwind (h : c.Reported received sent packetId) (ending : Ending) :
    (c.unwind false ending).Reported received sent packetId := by
  refine ⟨h.queue, h.finished, fun ending' hended => ?_⟩
  simp only [Consumer.unwind, Bool.or_false] at hended
  split_ifs at hended with hfinished
  exact .inl (h.finished hfinished)

/-- The generator goes on to another await. -/
theorem Reported.advance (h : c.Reported received sent packetId) (rest : List Bytes) (count size : ℕ) :
    (c.advance rest count size).Reported received sent packetId := by
  cases rest with
  | nil =>
      refine ⟨h.queue, h.finished, fun ending hended => ?_⟩
      simp only [Consumer.advance, Consumer.settle] at hended
      split_ifs at hended
  | cons item rest => exact ⟨h.queue, h.finished, nofun⟩

theorem Reported.get (h : c.Reported received sent packetId) {c' : Consumer} (hget : c.get false = some c') :
    c'.Reported received sent packetId := by
  obtain ⟨e, queue, hphase, hqueue, hcases⟩ := get_cases hget
  have hrest (buffered : ℕ) (finished : Bool) (hfinished : finished = true → Finished received packetId) :
      Reported received sent packetId
        { c with queue := queue, buffered := buffered, finished := finished } := by
    refine ⟨fun e' he' => h.queue e' ?_, hfinished, h.ended⟩
    rw [hqueue]
    exact List.mem_cons_of_mem e he'
  have hhead : e.ends = true → Finished received packetId := by
    refine h.queue e ?_
    rw [hqueue]
    exact List.mem_cons_self
  rcases hcases with ⟨hexception, rfl⟩ | ⟨hexception, hstream, rfl⟩ | ⟨hexception, hstream, rfl⟩
  · exact (hrest _ true fun _ => hhead (by simp [Entry.ends, hexception])).unwind _
  · exact (hrest _ c.finished h.finished).advance ..
  · exact (hrest _ true fun _ => hhead (by simp [Entry.ends, hstream])).unwind _

/-- A step of the generator that leaves the connection up. -/
theorem Reported.step {w : Stream} (h : w.consumer.Reported received sent packetId) {event : StreamEvent}
    {effect : StreamEffect} (hstep : w.step packetId false false event = some effect)
    (hcloses : effect.closes = false) (hstop : event ≠ .stopCancel false)
    (hsent : sent ⊆ sent') (hmessages : effect.messages ⊆ sent') :
    effect.stream.consumer.Reported received sent' packetId := by
  have hmono := h.mono (List.Subset.refl _) hsent
  cases event with
  | write =>
      simp only [Stream.step] at hstep
      split at hstep
      · cases hstep
        exact hmono
      · cases hstep
  | sent =>
      simp only [Stream.step] at hstep
      split at hstep
      · cases hstep
        exact ⟨hmono.queue, hmono.finished, fun ending hended => by cases hended⟩
      · cases hstep
  | fail error =>
      simp only [Stream.step] at hstep
      split at hstep
      · cases hstep
        exact hmono.unwind _
      · cases hstep
        cases hcloses
      · cases hstep
  | get =>
      obtain ⟨c', hget, rfl⟩ := Option.map_eq_some_iff.mp hstep
      exact hmono.get hget
  | next =>
      obtain ⟨c', hnext, rfl⟩ := Option.map_eq_some_iff.mp hstep
      obtain ⟨rest, count, size, -, rfl⟩ := next_cases hnext
      exact hmono.advance ..
  | returned =>
      obtain ⟨c', hreturned, rfl⟩ := Option.map_eq_some_iff.mp hstep
      obtain ⟨-, rfl⟩ := returned_cases hreturned
      exact ⟨hmono.queue, hmono.finished, fun ending hended => by cases hended⟩
  | leave draining =>
      obtain ⟨c', hleave, rfl⟩ := Option.map_eq_some_iff.mp hstep
      rw [leave_cases hleave]
      exact hmono.unwind _
  | stopped =>
      obtain ⟨c', hstopped, rfl⟩ := Option.map_eq_some_iff.mp hstep
      obtain ⟨ending, -, rfl⟩ := stopped_cases hstopped
      exact ⟨hmono.queue, hmono.finished, fun _ _ => .inr (hmessages List.mem_cons_self)⟩
  | stopFail =>
      obtain ⟨c', -, rfl⟩ := Option.map_eq_some_iff.mp hstep
      cases hcloses
  | stopCancel draining =>
      obtain ⟨c', -, rfl⟩ := Option.map_eq_some_iff.mp hstep
      have hdraining : draining = false := hcloses
      exact absurd (congrArg StreamEvent.stopCancel hdraining) hstop

end Consumer

namespace Endpoint

/-- While the connection is up, every consumer is reported, and the tasks of the responses
have their packets. -/
structure Reports (s : Endpoint) : Prop where
  streams : ∀ p w, s.streams p = some w → w.consumer.Reported s.received s.sent p
  responses : ∀ r ∈ s.responses, Finished s.received r.1

/-- Nothing has begun to close the connection. -/
structure Up (s : Endpoint) : Prop where
  opened : s.closed = false
  writing : s.writerClosing = false

variable {C : Codec} {s s' u : Endpoint} {e : EndpointEvent}

theorem reports_init (acceptCode acceptCalls : Bool) : Reports (init acceptCode acceptCalls) where
  streams _ _ h := by cases h
  responses _ h := absurd h List.not_mem_nil

theorem Reports.of_eq (h : s.Reports) (hstreams : s'.streams = s.streams)
    (hresponses : s'.responses = s.responses) (hreceived : s.received ⊆ s'.received)
    (hsent : s.sent ⊆ s'.sent) : s'.Reports := by
  constructor
  · rw [hstreams]
    exact fun p w hw => (h.streams p w hw).mono hreceived hsent
  · rw [hresponses]
    exact fun r hr => (h.responses r hr).mono hreceived

theorem Reports.frame (h : s.Reports) (hframe : Frame s s') (hopen : s'.closed = false) :
    s'.Reports := by
  refine h.of_eq hframe.streams (hframe.responses hopen) ?_ hframe.sent
  rw [hframe.received]
  exact List.Subset.refl _

theorem Frame.up (h : Frame s s') (hup : s'.Up) : s.Up := by
  refine ⟨h.closed.symm.trans hup.opened, ?_⟩
  cases hclosing : s.writerClosing with
  | false => rfl
  | true =>
      have hwriting := hup.writing
      rw [h.closing hclosing] at hwriting
      cases hwriting

theorem Reports.setConsumer (h : s.Reports) (packetId : ℕ) (w : Stream) {c : Consumer}
    (hc : c.Reported s.received s.sent packetId) : (s.setConsumer packetId w c).Reports := by
  refine ⟨fun p w' hw' => ?_, h.responses⟩
  simp only [Endpoint.setConsumer, setStream, Function.update_apply] at hw'
  split_ifs at hw' with hp
  · cases hw'
    rw [hp]
    exact hc
  · exact h.streams p w' hw'

/-- What the loop makes of a packet whose exceptions and responses are the end of their
stream and whose items keep to their permission. -/
theorem Reports.handled (h : s.Reports) (hopen : s.closed = false) {packet : Packet Bytes}
    {error : Option String} (hhandled : Handled C s packet s' error)
    (hexceptions : ∀ w, s.queue packet.packetId = some w → packet.flags.has Flags.exception = true →
      packet.flags.has Flags.response = true → Finished s.received packet.packetId)
    (hresponses : packet.flags.has Flags.exception = false →
      packet.flags.has Flags.stream = false → packet.flags.has Flags.response = true →
      Finished s.received packet.packetId)
    (hitems : ∀ w, s.queue packet.packetId = some w → packet.flags.has Flags.exception = false →
      packet.flags.has Flags.stream = true → w.consumer.overBudget = false →
      w.consumer.exceeds packet.size = false) : s'.Reports := by
  cases hhandled with
  | nothing => exact h
  | reply _ => exact h.frame (frame_loop _ _) hopen
  | exceptionStream w hqueue hexception hresponse =>
      have hreported := h.streams _ _ (queue_eq_some hqueue).1
      exact h.setConsumer _ w (hreported.putEnd (hexceptions w hqueue hexception hresponse) ..)
  | exceptionCall call text _ _ _ _ => exact ⟨h.streams, h.responses⟩
  | exceptionInvalid call error _ _ _ _ => exact ⟨h.streams, h.responses⟩
  | credit _ _ _ =>
      have hframe := frame_handleStreamCredit C s packet.payload packet.packetId
      exact h.frame hframe (hframe.closed.trans hopen)
  | item w hqueue hexception hstream _ =>
      have hreported := h.streams _ _ (queue_eq_some hqueue).1
      exact h.setConsumer _ w (hreported.handleStreamItem hexception hstream
        (hitems w hqueue hexception hstream))
  | execute kind _ => exact ⟨h.streams, h.responses⟩
  | response hexception hstream hresponse =>
      refine ⟨h.streams, fun r hr => ?_⟩
      rcases List.mem_append.mp hr with hr | hr
      · exact h.responses r hr
      · rw [List.mem_singleton.mp hr]
        exact hresponses hexception hstream hresponse

/-- A packet that may not be decoded is not the item of a registered stream, an item keeps
to its permission, and the send of a stop is not cancelled before it writes. -/
def Clean (C : Codec) (s : Endpoint) : EndpointEvent → Prop
  | .receive raw =>
      (∀ w text, s.queue raw.packetId = some w →
        decodePayload C.pickle s.acceptCode C.load raw.flags raw.payload =
          .error (.permission text) → raw.flags.has Flags.stream = false) ∧
      ∀ w, s.queue raw.packetId = some w → raw.flags.has Flags.stream = true →
        w.consumer.overBudget = false → w.consumer.exceeds raw.payload.length = false
  | .streamStep _ event => event ≠ .stopCancel false
  | _ => True

theorem Reports.obtained (h : s.Reports) (hopen : s.closed = false) {raw : Raw}
    (hclean : Clean C s (.receive raw))
    (hobtained : Obtained C { s with received := s.received ++ [raw] } raw s') : s'.Reports := by
  have hreceived : Reports { s with received := s.received ++ [raw] } :=
    h.of_eq rfl rfl (List.subset_append_left _ _) (List.Subset.refl _)
  cases hobtained with
  | nothing => exact hreceived
  | dispatched packet _ error hdecode hdispatched =>
      cases hdispatched with
      | nothing => exact hreceived
      | reply => exact hreceived.frame (frame_loop _ _) hopen
      | handled packet' _ _ hunpack hhandled =>
          obtain ⟨hid, hsize, hflags⟩ := unpackLog_spec hunpack
          obtain ⟨hid', hsize', hkind⟩ := decodePacket_cases hdecode
          have hnumber : packet'.packetId = raw.packetId := hid.trans hid'
          have hraw : packet'.flags.has Flags.response = raw.flags.has Flags.response :=
            (hflags Flags.response (by decide)).trans (has_response_of_decodePacket hdecode)
          have hexception := hflags Flags.exception (by decide)
          have hstream := hflags Flags.stream (by decide)
          have hfinished : raw.final = true →
              Finished (s.received ++ [raw]) packet'.packetId :=
            fun hfinal => ⟨raw, List.mem_append_right _ (List.mem_singleton.mpr rfl),
              hnumber.symm, hfinal⟩
          -- A packet without an exception is the one that the peer sent.
          have hsame : packet'.flags.has Flags.exception = false → packet.flags = raw.flags := by
            intro hnot
            rcases hkind with ⟨hkept, -⟩ | ⟨text, -, hrefused⟩
            · exact hkept
            · have hbit : Flags.exception.has Flags.exception = true := by decide
              rw [hexception, hrefused, Flags.has_or, hbit] at hnot
              cases hnot
          refine hreceived.handled hopen hhandled ?_ ?_ ?_
          · intro w hqueue hexc hresp
            refine hfinished ?_
            rw [hraw] at hresp
            rcases hkind with ⟨hkept, -⟩ | ⟨text, htext, -⟩
            · rw [hexception, hkept] at hexc
              simp [Raw.final, hexc, hresp]
            · have hitem := hclean.1 w text (hnumber ▸ hqueue) htext
              simp [Raw.final, hitem, hresp]
          · intro hexc hstr hresp
            refine hfinished ?_
            rw [hraw] at hresp
            rw [hstream, hsame hexc] at hstr
            simp [Raw.final, hstr, hresp]
          · intro w hqueue hexc hstr hbudget
            rw [hstream, hsame hexc] at hstr
            rw [hsize, hsize']
            exact hclean.2 w (hnumber ▸ hqueue) hstr hbudget

theorem Reports.respond (h : s.Reports) {packetId : ℕ} {response : Decoded Bytes}
    {responses : List (ℕ × Decoded Bytes)}
    (hresponses : s.responses = (packetId, response) :: responses) :
    ({ s with responses := responses }.handleRpcResponse response packetId).Reports := by
  have hpop : Reports { s with responses := responses } := by
    refine ⟨h.streams, fun r hr => h.responses r ?_⟩
    rw [hresponses]
    exact List.mem_cons_of_mem _ hr
  have hfinal : Finished s.received packetId := by
    refine h.responses (packetId, response) ?_
    rw [hresponses]
    exact List.mem_cons_self
  unfold handleRpcResponse
  split
  · rename_i w hqueue
    have hreported := h.streams _ _ (queue_eq_some hqueue).1
    exact hpop.setConsumer _ w (hreported.putEnd hfinal ..)
  · split
    · exact hpop
    · exact ⟨hpop.streams, hpop.responses⟩

/-- The loop closes nothing while it handles a packet. -/
theorem Obtained.up {raw : Raw} (h : Obtained C s raw s') (hup : s'.Up) : s.Up := by
  cases h with
  | nothing => exact hup
  | dispatched packet _ error _ hdispatched =>
      cases hdispatched with
      | handled packet' _ _ _ hhandled =>
          cases hhandled with
          | credit _ _ _ => exact (frame_handleStreamCredit ..).up hup
          | _ => exact ⟨hup.opened, hup.writing⟩
      | _ => exact ⟨hup.opened, hup.writing⟩

theorem up_of_handleRpcResponse {response : Decoded Bytes} {packetId : ℕ}
    (hup : (s.handleRpcResponse response packetId).Up) : s.Up := by
  unfold handleRpcResponse at hup
  split at hup
  · exact ⟨hup.opened, hup.writing⟩
  · split at hup <;> exact ⟨hup.opened, hup.writing⟩

/-- A call that ends a connection is not seen, and any other leaves the streams. -/
theorem Reports.applyCall (h : s.Up → s.Reports) {packetId : ℕ} {effect : CallEffect}
    (hup : (s.applyCall packetId effect).Up) : (s.applyCall packetId effect).Reports := by
  have hends := ends_exceptCall (s.closeIf effect.closes) effect.error
  have hexcept : ((s.closeIf effect.closes).exceptCall effect.error).Up :=
    ⟨hup.opened, hup.writing⟩
  have hframe := (frame_closeIf s effect.closes).trans (hends.frame_of_open hexcept.opened)
  have hreports := (h (hframe.up hexcept)).frame hframe hexcept.opened
  exact hreports.of_eq rfl rfl (List.Subset.refl _) (List.subset_append_left _ _)

/-- A step of a generator either closes the writer or is reported. -/
theorem Reports.applyStream (h : s.Up → s.Reports) {packetId : ℕ} {w : Stream}
    {event : StreamEvent} {effect : StreamEffect} (hstream : s.streams packetId = some w)
    (hstep : w.step packetId s.closed s.writerClosing event = some effect)
    (hstop : event ≠ .stopCancel false) (hup : (s.applyStream packetId effect).Up) :
    (s.applyStream packetId effect).Reports := by
  have hwriting : s.writerClosing = false ∧ effect.closes = false := by
    simpa [Endpoint.applyStream, setStream, closeIf] using hup.writing
  have hbefore : s.Up := ⟨hup.opened, hwriting.1⟩
  have hreports : ({ s with sent := s.sent ++ effect.messages } : Endpoint).Reports :=
    (h hbefore).of_eq rfl rfl (List.Subset.refl _) (List.subset_append_left _ _)
  rw [hbefore.opened, hbefore.writing] at hstep
  have hreported := ((h hbefore).streams packetId w hstream).step hstep hwriting.2 hstop
    (List.subset_append_left _ _) (List.subset_append_right _ _)
  have hset := hreports.setConsumer packetId effect.stream hreported
  exact ⟨hset.streams, hset.responses⟩

theorem Reports.step (h : s.Up → s.Reports) (hclean : Clean C s e) (hstep : s.step C e = some s')
    (hup : s'.Up) : s'.Reports := by
  cases step_spec hstep with
  | other hends =>
      have hframe := hends.frame_of_open hup.opened
      exact (h (hframe.up hup)).frame hframe hup.opened
  | receive raw u hobtained hends _ =>
      have hframe := hends.frame_of_open hup.opened
      have hbefore := hobtained.up (hframe.up hup)
      have hreports : s.Reports := h ⟨hbefore.opened, hbefore.writing⟩
      exact (hreports.obtained hbefore.opened hclean hobtained).frame hframe hup.opened
  | respond packetId response responses hresponses =>
      have hbefore := up_of_handleRpcResponse hup
      exact (h ⟨hbefore.opened, hbefore.writing⟩).respond hresponses
  | call hopen =>
      have hreports := h ⟨hup.opened, hup.writing⟩
      exact ⟨hreports.streams, hreports.responses⟩
  | callStep packetId event c effect _ _ => exact Reports.applyCall h hup
  | stream =>
      have hreports := h ⟨hup.opened, hup.writing⟩
      have hset := hreports.setConsumer (s.lastId + 1) Stream.init
        (Consumer.reported_init s.received s.sent (s.lastId + 1))
      exact ⟨hset.streams, hset.responses⟩
  | streamStep packetId event w effect hstream heffect =>
      exact Reports.applyStream h hstream heffect hclean hup

/-- What tells a sender that its stream is over: the stop, once the registry names the
handler, or the final response that it sent itself. -/
inductive Told (C : Codec) (s : Endpoint) (number : ℕ) (handler : Handler) : Endpoint → Prop where
  | stop {s' : Endpoint} (raw : Raw) (hstop : IsStop C handler.packetId raw)
      (hsender : s.senders handler.packetId = some number)
      (hstep : s.step C (.receive raw) = some s') : Told C s number handler s'
  | responded {s' : Endpoint} (hstep : s.step C (.handlerStep number .responded) = some s') :
      Told C s number handler s'

/-- A sender that was told does not wait for permission. -/
theorem Told.stops {number : ℕ} {handler : Handler} (h : Told C s number handler s')
    (hnumbered : s.Numbered) (hhandler : s.handlers number = some handler) :
    s'.Stops C number := by
  cases h with
  | stop raw hstop hsender hstep => exact stops_of_named hnumbered hhandler hstop hsender hstep
  | responded hstep =>
      have hstopped : ({ handler with phase := .done } : Handler).Stopped := .inl rfl
      refine stops_of_stopped (hnumbered.step hstep) ?_ hstopped
      simp only [Endpoint.step, hhandler, Option.bind_some, stepHandler] at hstep
      split at hstep
      · cases hstep
        exact Function.update_self ..
      · cases hstep

/-- In every run without a refused item, without an item above its permission and without a
stop whose send is cancelled before it writes, every consumer that ended on a connection
that is up has the final response of its peer, or its stop is sent; and a sender that was
told so does not wait for permission. -/
theorem end_reported (C : Codec) (acceptCode acceptCalls : Bool) {es : List EndpointEvent}
    {s : Endpoint} (hrun : Machine.run (step C) (init acceptCode acceptCalls) es = some s)
    (hclean : Machine.meets (step C) (Clean C) (init acceptCode acceptCalls) es) (hup : s.Up) :
    (∀ p w ending, s.streams p = some w → w.consumer.phase = .ended ending →
      Finished s.received p ∨ Message.stop p ∈ s.sent) ∧
    ∀ (D : Codec) (code calls : Bool) (fs : List EndpointEvent) (t t' : Endpoint) (number : ℕ)
      (handler : Handler), Machine.run (step D) (init code calls) fs = some t →
      t.handlers number = some handler → Told D t number handler t' → t'.Stops D number := by
  have h : s.Up → s.Reports := Machine.run_invariant (fun s => s.Up → s.Reports)
    (fun _ _ _ hreports hok hstep => Reports.step hreports hok hstep) hrun hclean
    (fun _ => reports_init acceptCode acceptCalls)
  refine ⟨fun p w ending hw hended => ((h hup).streams p w hw).ended ending hended, ?_⟩
  intro D code calls fs t t' number handler hrun' hhandler htold
  exact htold.stops (numbered_run hrun') hhandler

/-- The user leaves a stream after its first item. -/
def leftStream : List EndpointEvent :=
  [.stream, .streamStep 1 .write, .streamStep 1 .sent,
    .receive ⟨[78, 46], Flags.rpc ||| Flags.stream ||| Flags.response, 1⟩, .streamStep 1 .get,
    .streamStep 1 (.leave false), .streamStep 1 .stopped]

theorem leftStream_reported :
    ∃ s w, Machine.run (step Codec.plain) (init false false) leftStream = some s ∧ s.Up ∧
      s.streams 1 = some w ∧ w.consumer.phase = .ended .left ∧
      (Finished s.received 1 ∨ Message.stop 1 ∈ s.sent) := by
  have hclean : Machine.meets (step Codec.plain) (Clean Codec.plain) (init false false)
      leftStream := by
    refine ⟨trivial, fun s₁ h₁ => ?_⟩
    cases h₁
    refine ⟨nofun, fun s₂ h₂ => ?_⟩
    cases h₂
    refine ⟨nofun, fun s₃ h₃ => ?_⟩
    cases h₃
    refine ⟨⟨?_, ?_⟩, fun s₄ _ => Machine.meets_of_forall_mem s₄ (by simp [Clean])⟩
    · intro w text _ hrefused
      cases hrefused
    · intro w hqueue _ _
      cases hqueue
      rfl
  have hrun : Machine.run (step Codec.plain) (init false false) leftStream = some _ := rfl
  refine ⟨_, _, hrun, ⟨rfl, rfl⟩, rfl, rfl, ?_⟩
  exact (end_reported Codec.plain false false hrun hclean ⟨rfl, rfl⟩).1 1 _ .left rfl rfl

/-- The sources that an item needs. -/
def itemSources : Manifest := AList.insert "shapes" ⟨"class Shape: pass", "shapes.py", false⟩ ∅

/-- A packet of one item that brings its sources. -/
def refusedItem : Raw :=
  ⟨streamPayload Pickle.marked [[78, 46]] itemSources, streamFlags itemSources, 1⟩

/-- A consumer that accepts no code ends with the refusal of an item and sends no stop,
although its peer has not ended the stream. -/
theorem refused_item_not_reported :
    ∃ s w, Machine.run (step Codec.plain) (init false false) [.stream, .streamStep 1 .write,
        .streamStep 1 .sent, .receive refusedItem, .streamStep 1 .get] = some s ∧ s.Up ∧
      s.streams 1 = some w ∧
      w.consumer.phase = .ended (.failed "Peer module sources are disabled") ∧
      s.sent = [.request 1] ∧ ¬ (Finished s.received 1 ∨ Message.stop 1 ∈ s.sent) := by
  refine ⟨_, _, rfl, ⟨rfl, rfl⟩, rfl, rfl, rfl, ?_⟩
  rintro (⟨r, hr, -, hfinal⟩ | hstop)
  · cases List.mem_singleton.mp hr
    cases hfinal
  · cases List.mem_singleton.mp hstop

end Endpoint

end Rmote
