import Rmote.Endpoint.Step
import Rmote.Library.Machine

/-!
# Closing settles every waiter

`_finish_pending` settles the futures and the queues that the registries name at that
moment. A call that begins later is refused, because `_call` looks at `_closed`. `stream`
does not look: a stream that begins after the end of the receive loop registers a queue
that nobody completes, and only a writer that is closing stops it. In the runs without
such a stream every waiter of a closed connection is settled.
-/

namespace Rmote

namespace Call

/-- The call waits for nothing that is still open. -/
def Settled (c : Call) : Prop := c.phase.active = true → c.future.done = true

/-- A call that waits is registered or its future is done, and a connection that is over
names no call. -/
structure Kept (closed : Bool) (c : Call) : Prop where
  waits : c.phase.active = true → c.registered = true ∨ c.future.done = true
  past : closed = true → c.registered = false

theorem kept_init : init.Kept false := ⟨fun _ => .inl rfl, nofun⟩

theorem done_settle (c : Call) {future : Future} (h : future.done = true) :
    (c.settle future).future.done = true := by
  unfold settle
  cases hdone : c.future.done with
  | true => simp [hdone]
  | false => simp [h]

theorem kept_settle (c : Call) {future : Future} (h : future.done = true) (closed : Bool) :
    (c.settle future).Kept closed :=
  ⟨fun _ => .inr (c.done_settle h), fun _ => rfl⟩

theorem Kept.close {c : Call} {closed : Bool} (h : c.Kept closed) (text : String) :
    (c.close text).Kept true := by
  unfold Call.close
  split_ifs with hregistered
  · exact kept_settle c rfl true
  · exact ⟨h.waits, fun _ => by simpa using hregistered⟩

theorem Kept.obtain {c : Call} {closed : Bool} (h : c.Kept closed) (value : Decoded Bytes) :
    (c.obtain value).Kept closed := by
  unfold Call.obtain
  split_ifs
  · exact ⟨h.waits, h.past⟩
  · exact h

theorem kept_finish (c : Call) (outcome : CallOutcome) (closed : Bool) :
    (c.finish outcome).Kept closed :=
  ⟨nofun, fun _ => rfl⟩

end Call

namespace Stream

/-- The stream has its end in its queue, or it fails as soon as it sends. -/
def Settled (closing : Bool) (w : Stream) : Prop :=
  w.consumer.phase.active = true → (∃ e ∈ w.consumer.queue, e.ends = true) ∨
    (w.consumer.phase = .sending ∧ w.written = false ∧ closing = true)

/-- A stream that waits is registered or has its end in its queue, a connection that is
over names only streams that fail when they send, and the queue has room for an end. -/
structure Kept (closed closing : Bool) (w : Stream) : Prop where
  waits : w.consumer.phase.active = true → w.consumer.registered = true ∨
    ∃ e ∈ w.consumer.queue, e.ends = true
  late : closed = true → w.consumer.registered = true →
    w.consumer.phase = .sending ∧ w.written = false ∧ closing = true
  room : w.consumer.queue.countP (fun e => !e.ends) ≤ maxStreamBacklog

variable {w : Stream} {closed closing : Bool}

theorem Kept.settled (h : w.Kept true closing) : w.Settled closing := by
  intro hactive
  cases hregistered : w.consumer.registered with
  | true => exact .inr (h.late rfl hregistered)
  | false =>
      rcases h.waits hactive with hreg | hend
      · rw [hregistered] at hreg
        cases hreg
      · exact .inl hend

theorem Kept.mono {closing' : Bool} (h : w.Kept closed closing)
    (hclosing : closing = true → closing' = true) : w.Kept closed closing' :=
  ⟨h.waits, fun hclosed hregistered =>
    let ⟨hphase, hwritten, hc⟩ := h.late hclosed hregistered
    ⟨hphase, hwritten, hclosing hc⟩, h.room⟩

theorem kept_init (hopen : closed = false ∨ closing = true) : init.Kept closed closing where
  waits _ := .inl rfl
  late hclosed _ := by
    rcases hopen with hopen | hclosing
    · rw [hopen] at hclosed
      cases hclosed
    · exact ⟨rfl, rfl, hclosing⟩
  room := Nat.zero_le _

/-- A generator that left its loop waits for nothing. -/
theorem kept_unwind {c : Consumer} (ending : Ending) (overrun : Bool)
    (hroom : c.queue.countP (fun e => !e.ends) ≤ maxStreamBacklog) (written : Bool) :
    Kept closed closing ⟨c.unwind overrun ending, written⟩ where
  waits hactive := by
    simp only [Consumer.unwind] at hactive
    split_ifs at hactive <;> cases hactive
  late _ hregistered := nomatch hregistered
  room := hroom

/-- An end joins the queue. -/
theorem Kept.putEnd (h : w.Kept closed closing) {flags : Flags} (payload : Decoded Bytes)
    (hflags : Entry.ends ⟨flags, payload, 0⟩ = true) :
    Kept closed closing { w with consumer := w.consumer.putEnd flags payload } := by
  have hroom := Consumer.Room.putEnd h.room payload hflags
  refine ⟨fun hactive => ?_, by simpa using h.late, hroom⟩
  unfold Consumer.putEnd
  split_ifs with hput
  · exact .inr ⟨_, List.mem_append_right _ (List.mem_singleton.mpr rfl), hflags⟩
  · exact h.waits (by simpa using hactive)

/-- The end of the connection joins the queue, unless an end is there. -/
theorem Kept.close (h : w.Kept closed closing) (text : String) (closing' : Bool) :
    Kept true closing' { w with consumer := w.consumer.close text } := by
  have hput := h.putEnd (.error text) (ends_exception _)
  refine ⟨fun hactive => .inr ?_, nofun, hput.room⟩
  rw [Consumer.phase_close] at hactive
  change ∃ e ∈ (w.consumer.putEnd (Flags.exception ||| Flags.response) (.error text)).queue,
    e.ends = true
  rcases h.waits hactive with hregistered | ⟨e, he, hends⟩
  · unfold Consumer.putEnd
    split_ifs with hroom
    · exact ⟨_, List.mem_append_right _ (List.mem_singleton.mpr rfl), ends_exception _⟩
    · refine Consumer.Room.end_of_full h.room ?_
      simpa [hregistered] using hroom
  · unfold Consumer.putEnd
    split_ifs
    · exact ⟨e, List.mem_append_left _ he, hends⟩
    · exact ⟨e, he, hends⟩

/-- A packet of items joins the queue, or the report of a peer that ignored its
permission. -/
theorem Kept.handleStreamItem (h : w.Kept closed closing) (packetId : ℕ) (flags : Flags)
    (payload : Decoded Bytes) (size : ℕ) :
    Kept closed closing
      { w with consumer := w.consumer.handleStreamItem packetId flags payload size } := by
  refine ⟨?_, ?_, ?_⟩
  · simp only [Consumer.phase_handleStreamItem, Consumer.registered_handleStreamItem]
    intro hactive
    rcases h.waits hactive with hregistered | ⟨e, he, hends⟩
    · exact .inl hregistered
    · unfold Consumer.handleStreamItem
      split_ifs
      · exact .inr ⟨e, he, hends⟩
      · exact .inr ⟨e, List.mem_append_left _ he, hends⟩
      · exact .inr ⟨e, List.mem_append_left _ he, hends⟩
  · simpa using h.late
  · exact Consumer.Room.handleStreamItem h.room packetId flags payload size

/-- An active generator outside of its first send is not late. -/
theorem Kept.not_registered (h : w.Kept closed closing) (hphase : w.consumer.phase ≠ .sending)
    (hclosed : closed = true) : w.consumer.registered = false := by
  cases hregistered : w.consumer.registered with
  | false => rfl
  | true => exact absurd (h.late hclosed hregistered).1 hphase

/-- The generator goes on to another await. -/
theorem Kept.move (h : w.Kept closed closing) {c : Consumer}
    (hactive : w.consumer.phase.active = true) (hphase : w.consumer.phase ≠ .sending)
    (hregistered : c.registered = w.consumer.registered)
    (hends : ∀ e ∈ w.consumer.queue, e.ends = true → e ∈ c.queue)
    (hroom : c.queue.countP (fun e => !e.ends) ≤ maxStreamBacklog) :
    Kept closed closing { w with consumer := c } := by
  refine ⟨fun _ => ?_, fun hclosed hreg => ?_, hroom⟩
  · rcases h.waits hactive with hreg | ⟨e, he, hend⟩
    · exact .inl (hregistered.trans hreg)
    · exact .inr ⟨e, hends e he hend, hend⟩
  · have hoff := h.not_registered hphase hclosed
    rw [← hregistered, hreg] at hoff
    cases hoff

theorem Kept.get (h : w.Kept closed closing) {c : Consumer} {overrun : Bool}
    (hget : w.consumer.get overrun = some c) : Kept closed closing { w with consumer := c } := by
  have hroom := Consumer.Room.get h.room hget
  obtain ⟨e, queue, hphase, hqueue, hcases⟩ := Consumer.get_cases hget
  rcases hcases with ⟨-, rfl⟩ | ⟨hexception, hstream, rfl⟩ | ⟨-, -, rfl⟩
  · exact kept_unwind _ _ hroom _
  · refine h.move (by rw [hphase]; rfl) (by simp [hphase]) (by simp) ?_ hroom
    intro e' he' hend
    rw [hqueue] at he'
    rcases List.mem_cons.mp he' with rfl | he'
    · simp [Entry.ends, hexception, hstream] at hend
    · simpa using he'
  · exact kept_unwind _ _ hroom _

theorem Kept.stopped (h : w.Kept closed closing) {c : Consumer}
    (hstopped : w.consumer.stopped = some c) : Kept closed closing { w with consumer := c } := by
  obtain ⟨ending, hphase, rfl⟩ := Consumer.stopped_cases hstopped
  refine ⟨nofun, fun hclosed hregistered => ?_, h.room⟩
  have hsending := (h.late hclosed hregistered).1
  rw [hphase] at hsending
  cases hsending

theorem Kept.step (h : w.Kept closed closing) {packetId : ℕ} {event : StreamEvent}
    {effect : StreamEffect} (hstep : w.step packetId closed closing event = some effect) :
    effect.stream.Kept closed closing := by
  have hroom := h.room
  cases event with
  | write =>
      simp only [Stream.step] at hstep
      split at hstep
      · rename_i hphase hwritten
        split_ifs at hstep with hclosing
        · cases hstep
          exact kept_unwind _ _ hroom _
        · cases hstep
          refine ⟨h.waits, fun hclosed hregistered => ?_, hroom⟩
          exact absurd (h.late hclosed hregistered).2.2 hclosing
      · cases hstep
  | sent =>
      simp only [Stream.step] at hstep
      split at hstep
      · rename_i hphase hwritten
        cases hstep
        refine ⟨fun _ => h.waits (by rw [hphase]; rfl), fun hclosed hregistered => ?_, hroom⟩
        have hnot := (h.late hclosed hregistered).2.1
        rw [hwritten] at hnot
        cases hnot
      · cases hstep
  | fail error =>
      simp only [Stream.step] at hstep
      split at hstep
      · cases hstep
        exact kept_unwind _ _ hroom _
      · cases hstep
        exact kept_unwind _ _ hroom _
      · cases hstep
  | get =>
      obtain ⟨c, hget, rfl⟩ := Option.map_eq_some_iff.mp hstep
      exact h.get hget
  | next =>
      obtain ⟨c, hnext, rfl⟩ := Option.map_eq_some_iff.mp hstep
      obtain ⟨rest, count, size, hphase, rfl⟩ := Consumer.next_cases hnext
      exact h.move (by rw [hphase]; rfl) (by simp [hphase]) (by simp)
        (fun _ he _ => by simpa using he) (by simpa using hroom)
  | returned =>
      obtain ⟨c, hreturned, rfl⟩ := Option.map_eq_some_iff.mp hstep
      obtain ⟨hphase, rfl⟩ := Consumer.returned_cases hreturned
      exact h.move (by rw [hphase]; rfl) (by simp [hphase]) rfl (fun _ he _ => he) hroom
  | leave draining =>
      obtain ⟨c, hleave, rfl⟩ := Option.map_eq_some_iff.mp hstep
      rw [Consumer.leave_cases hleave]
      exact kept_unwind _ _ hroom _
  | stopped =>
      obtain ⟨c, hstopped, rfl⟩ := Option.map_eq_some_iff.mp hstep
      exact h.stopped hstopped
  | stopFail =>
      obtain ⟨c, hstopped, rfl⟩ := Option.map_eq_some_iff.mp hstep
      exact h.stopped hstopped
  | stopCancel draining =>
      obtain ⟨c, hstopped, rfl⟩ := Option.map_eq_some_iff.mp hstep
      exact h.stopped hstopped

end Stream

namespace Endpoint

/-- Every call and every stream is kept. -/
structure Kept (s : Endpoint) : Prop where
  calls : ∀ p c, s.calls p = some c → c.Kept s.closed
  streams : ∀ p w, s.streams p = some w → w.Kept s.closed s.writerClosing

variable {C : Codec} {s s' u : Endpoint} {e : EndpointEvent}

theorem kept_init (acceptCode acceptCalls : Bool) : Kept (init acceptCode acceptCalls) where
  calls _ _ h := by cases h
  streams _ _ h := by cases h

theorem Kept.frame (h : s.Kept) (hframe : Frame s s') : s'.Kept := by
  constructor
  · rw [hframe.calls, hframe.closed]
    exact h.calls
  · rw [hframe.streams, hframe.closed]
    exact fun p w hw => (h.streams p w hw).mono hframe.closing

theorem Kept.finishPending (h : s.Kept) (error : String) : (s.finishPending error).Kept := by
  constructor
  · intro p c hc
    obtain ⟨c', hc', rfl⟩ := Option.map_eq_some_iff.mp hc
    exact (h.calls p c' hc').close _
  · intro p w hw
    obtain ⟨w', hw', rfl⟩ := Option.map_eq_some_iff.mp hw
    exact (h.streams p w' hw').close _ _

theorem Kept.ends (h : s.Kept) (hends : Ends s s') : s'.Kept := by
  induction hends with
  | frame hframe => exact h.frame hframe
  | finish u error _ hafter ih => exact (ih.finishPending error).frame hafter

theorem Kept.setCall (h : s.Kept) (packetId : ℕ) {c : Call} (hc : c.Kept s.closed) :
    (s.setCall packetId c).Kept := by
  refine ⟨fun p c' hc' => ?_, h.streams⟩
  simp only [Endpoint.setCall, Function.update_apply] at hc'
  split_ifs at hc' with hp
  · cases hc'
    exact hc
  · exact h.calls p c' hc'

theorem Kept.setStream (h : s.Kept) (packetId : ℕ) {w : Stream}
    (hw : w.Kept s.closed s.writerClosing) : (s.setStream packetId w).Kept := by
  refine ⟨h.calls, fun p w' hw' => ?_⟩
  simp only [Endpoint.setStream, Function.update_apply] at hw'
  split_ifs at hw' with hp
  · cases hw'
    exact hw
  · exact h.streams p w' hw'

theorem Kept.modifyCall (h : s.Kept) (packetId : ℕ) {f : Call → Call}
    (hf : ∀ c, s.calls packetId = some c → (f c).Kept s.closed) :
    (s.modifyCall packetId f).Kept := by
  refine ⟨fun p c' hc' => ?_, h.streams⟩
  simp only [Endpoint.modifyCall, Function.update_apply] at hc'
  split_ifs at hc' with hp
  · obtain ⟨c, hc, rfl⟩ := Option.map_eq_some_iff.mp hc'
    exact hf c hc
  · exact h.calls p c' hc'

/-- An exception response holds an exception. -/
def Proper (C : Codec) (acceptCode : Bool) (raw : Raw) : Prop :=
  ∀ packet packet',
    decodePacket C.pickle acceptCode C.load raw.payload raw.flags raw.packetId = .ok packet →
    unpackLog C packet = some packet' → packet'.flags.has Flags.exception = true →
    ∃ text, C.look packet'.payload = .exception text

theorem Kept.handled (h : s.Kept) {packet : Packet Bytes} {error : Option String}
    (hhandled : Handled C s packet s' error)
    (hproper : packet.flags.has Flags.exception = true →
      ∃ text, C.look packet.payload = .exception text) : s'.Kept := by
  cases hhandled with
  | nothing => exact h
  | reply _ => exact h.frame (frame_loop _ _)
  | exceptionStream stream hqueue _ _ =>
      have hkept := h.streams _ _ (queue_eq_some hqueue).1
      exact h.setStream _ (hkept.putEnd _ (ends_exception _))
  | exceptionCall call text _ _ _ _ => exact h.setCall _ (Call.kept_settle call rfl _)
  | exceptionInvalid call error _ hexception _ hlook =>
      obtain ⟨text, htext⟩ := hproper hexception
      exact absurd htext (hlook text)
  | credit _ _ _ => exact h.frame (frame_handleStreamCredit ..)
  | item stream hqueue _ _ _ =>
      have hkept := h.streams _ _ (queue_eq_some hqueue).1
      exact h.setStream _ (hkept.handleStreamItem ..)
  | execute kind _ => exact h.frame (frame_execute ..)
  | response _ _ _ =>
      have hobtain := h.modifyCall packet.packetId
        (f := fun c => c.obtain packet.payload) fun c hc => (h.calls _ c hc).obtain _
      exact ⟨hobtain.calls, hobtain.streams⟩

theorem Kept.obtained (h : s.Kept) {raw : Raw} (hobtained : Obtained C s raw s')
    (hproper : Proper C s.acceptCode raw) : s'.Kept := by
  cases hobtained with
  | nothing => exact h
  | dispatched packet _ error hdecode hdispatched =>
      cases hdispatched with
      | nothing => exact h
      | reply => exact h.frame (frame_loop _ _)
      | handled packet' _ _ hunpack hhandled =>
          exact h.handled hhandled (hproper packet packet' hdecode hunpack)

theorem Kept.handleRpcResponse (h : s.Kept) (response : Decoded Bytes) (packetId : ℕ) :
    (s.handleRpcResponse response packetId).Kept := by
  unfold Endpoint.handleRpcResponse
  cases hqueue : s.queue packetId with
  | some stream =>
      have hkept := h.streams _ _ (queue_eq_some hqueue).1
      exact h.setStream _ (hkept.putEnd _ (ends_response _))
  | none =>
      cases hfuture : s.future packetId with
      | none => exact h
      | some call => exact h.setCall _ (Call.kept_settle call rfl _)

theorem Kept.applyCall (h : s.Kept) {packetId : ℕ} {event : CallEvent} {c : Call}
    {effect : CallEffect} (hcall : s.calls packetId = some c)
    (hstep : c.step packetId s.writerClosing event = some effect) :
    (s.applyCall packetId effect).Kept := by
  rcases Call.step_cases hstep with ⟨hactive, phase, messages, -, rfl⟩ | ⟨outcome, -, hupdate, -⟩
  · have hmodify := (h.frame (frame_closeIf s false)).modifyCall packetId
      (f := fun c => { c with phase := phase }) fun c' hc' => by
        obtain rfl := Option.some.inj (hcall.symm.trans hc')
        have hkept := h.calls _ _ hcall
        exact ⟨fun _ => hkept.waits hactive, hkept.past⟩
    exact ⟨hmodify.calls, hmodify.streams⟩
  · have hexcept := (h.frame (frame_closeIf s effect.closes)).ends
      (ends_exceptCall _ effect.error)
    have hmodify := hexcept.modifyCall packetId (f := effect.update) fun c' _ => by
      rw [hupdate]
      exact Call.kept_finish ..
    exact ⟨hmodify.calls, hmodify.streams⟩

theorem Kept.applyStream (h : s.Kept) {packetId : ℕ} {event : StreamEvent} {w : Stream}
    {effect : StreamEffect} (hstream : s.streams packetId = some w)
    (hstep : w.step packetId s.closed s.writerClosing event = some effect) :
    (s.applyStream packetId effect).Kept := by
  have hframe := frame_closeIf s effect.closes
  have hkept := ((h.streams _ _ hstream).step hstep).mono hframe.closing
  have hset := (h.frame hframe).setStream packetId hkept
  exact ⟨hset.calls, hset.streams⟩

/-- A stream begins only while the connection is up or once the writer is closing, and an
exception response holds an exception. -/
def Guarded (C : Codec) (s : Endpoint) : EndpointEvent → Prop
  | .stream => s.closed = false ∨ s.writerClosing = true
  | .receive raw => Proper C s.acceptCode raw
  | _ => True

theorem Kept.step (h : s.Kept) (hguarded : Guarded C s e) (hstep : s.step C e = some s') :
    s'.Kept := by
  cases step_spec hstep with
  | other hends => exact h.ends hends
  | receive raw u hobtained hends _ =>
      have hreceived : Kept { s with received := s.received ++ [raw] } := ⟨h.calls, h.streams⟩
      exact (hreceived.obtained hobtained hguarded).ends hends
  | respond packetId response responses _ =>
      have hpop : Kept { s with responses := responses } := ⟨h.calls, h.streams⟩
      exact hpop.handleRpcResponse ..
  | call hopen =>
      have hnext : Kept { s with lastId := s.lastId + 1 } := ⟨h.calls, h.streams⟩
      exact hnext.setCall _ (hopen ▸ Call.kept_init)
  | callStep packetId event c effect hcall heffect => exact h.applyCall hcall heffect
  | stream =>
      have hnext : Kept { s with lastId := s.lastId + 1 } := ⟨h.calls, h.streams⟩
      exact hnext.setStream _ (Stream.kept_init hguarded)
  | streamStep packetId event w effect hstream heffect => exact h.applyStream hstream heffect

/-- Nothing waits for a future or a queue that nobody completes. -/
structure Settled (s : Endpoint) : Prop where
  calls : ∀ p c, s.calls p = some c → c.Settled
  streams : ∀ p w, s.streams p = some w → w.Settled s.writerClosing

/-- In every run whose streams begin while the connection is up or the writer is closing,
and whose exception responses hold exceptions, a closed connection has settled every
waiter. -/
theorem closed_settled (C : Codec) (acceptCode acceptCalls : Bool) {es : List EndpointEvent}
    {s : Endpoint} (hrun : Machine.run (step C) (init acceptCode acceptCalls) es = some s)
    (hguarded : Machine.meets (step C) (Guarded C) (init acceptCode acceptCalls) es)
    (hclosed : s.closed = true) : s.Settled := by
  have h : s.Kept := Machine.run_invariant Kept
    (fun _ _ _ hkept hok hstep => hkept.step hok hstep) hrun hguarded
    (kept_init acceptCode acceptCalls)
  constructor
  · intro p c hc hactive
    have hkept := h.calls p c hc
    rcases hkept.waits hactive with hregistered | hdone
    · rw [hkept.past hclosed] at hregistered
      cases hregistered
    · exact hdone
  · intro p w hw
    have hkept := h.streams p w hw
    rw [hclosed] at hkept
    exact hkept.settled

/-- A stream and a call begin to wait, and the peer goes away. -/
def peerLeaves : List EndpointEvent :=
  [.stream, .call, .streamStep 1 .write, .streamStep 1 .sent, .callStep 2 .write,
    .callStep 2 .sent, .receiveFail "0 bytes read"]

theorem peerLeaves_settled :
    ∃ s w c, Machine.run (step Codec.plain) (init false false) peerLeaves = some s ∧
      s.closed = true ∧ s.streams 1 = some w ∧ w.consumer.phase.active = true ∧
      s.calls 2 = some c ∧ c.phase.active = true ∧ s.Settled := by
  have hguarded : Machine.meets (step Codec.plain) (Guarded Codec.plain) (init false false)
      peerLeaves :=
    ⟨.inl rfl, fun s _ => Machine.meets_of_forall_mem s (by simp [Guarded])⟩
  exact ⟨_, _, _, rfl, rfl, rfl, rfl, rfl, rfl,
    closed_settled Codec.plain false false rfl hguarded rfl⟩

/-- A stream that begins after the end of the receive loop waits at a queue that nobody
completes. -/
theorem late_stream_not_settled :
    ∃ es s w, Machine.run (step Codec.plain) (init false false) es = some s ∧
      s.closed = true ∧ s.loop = .ended ∧ s.responses = [] ∧ s.writerClosing = false ∧
      s.streams 1 = some w ∧ w.consumer.phase = .waiting ∧ w.consumer.queue = [] ∧
      ¬ s.Settled := by
  refine ⟨[.receiveFail "Invalid magic number", .stream, .streamStep 1 .write, .streamStep 1 .sent],
    _, _, rfl, rfl, rfl, rfl, rfl, rfl, rfl, rfl, fun hsettled => ?_⟩
  rcases hsettled.streams 1 _ rfl rfl with ⟨e, he, -⟩ | ⟨hphase, -⟩
  · cases he
  · cases hphase

end Endpoint

end Rmote
