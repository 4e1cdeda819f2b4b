import Rmote.Endpoint.Loop

/-!
# The steps of an endpoint

One event is one stretch of one task between two awaits, or an act of the environment:
a packet that arrives, a method that gives an item, a user that leaves, the transport
that breaks. The scheduler is free, so a run of events is one order of event-loop
steps. Only the tasks that hand over a response keep the order of their creation.
-/

namespace Rmote

/-- The steps of the task that serves a request. -/
inductive HandlerEvent where
  /-- The first step of the task. -/
  | start
  | produce (item : Item)
  /-- The generator is exhausted, or it raises. -/
  | exhaust
  /-- The permission event is set. -/
  | resume
  /-- The cancellation reaches the generator. -/
  | unwind
  /-- The writer of the stream is done. -/
  | written
  /-- A method that is not a generator returns or raises. -/
  | return
  /-- The response is sent. -/
  | responded
  /-- The send of the response raises, maybe in `drain`. -/
  | respondFail (error : String) (draining : Bool)
  /-- The cancellation reaches the task outside of the generator. -/
  | cancel (draining : Bool)

/-- The steps of an endpoint. -/
inductive EndpointEvent where
  | configure (acceptCode acceptCalls : Bool)
  | receive (raw : Raw)
  /-- `receive` raises: the stream of bytes ended, or a frame is malformed. -/
  | receiveFail (error : String)
  /-- The loop has sent a refusal. -/
  | replied
  | replyFail (error : String) (draining : Bool)
  | loopCancel (draining : Bool)
  /-- The first task that hands over a response runs. -/
  | respond
  /-- A call begins. -/
  | call
  | callStep (packetId : ℕ) (event : CallEvent)
  /-- A streaming call begins. -/
  | stream
  | streamStep (packetId : ℕ) (event : StreamEvent)
  | handlerStep (number : ℕ) (event : HandlerEvent)
  /-- `__aexit__` begins. -/
  | exit
  /-- `__aexit__` or the transport closes the writer. -/
  | closeWriter

namespace Call

/-- What ends a call. -/
inductive Ended (c : Call) (closing : Bool) (event : CallEvent) : CallOutcome → Prop where
  | cancelled : Ended c closing event .cancelled
  | value (value : Decoded Bytes) (hfuture : c.future = .result value) :
      Ended c closing event (.value value)
  | raised (text : String) (hfuture : c.future = .raised text) :
      Ended c closing event (.raised text)
  | failed (text : String) (hfuture : c.future = .failed text) :
      Ended c closing event (.failed text)
  /-- The send raised, or it found the writer closing. -/
  | send (text : String) (hsend : event = .fail text ∨ event = .write ∧ closing = true) :
      Ended c closing event (.failed text)

/-- A step of a call moves it to another await, or ends it. -/
theorem step_cases {c : Call} {packetId : ℕ} {closing : Bool} {event : CallEvent}
    {effect : CallEffect} (h : c.step packetId closing event = some effect) :
    (c.phase.active = true ∧ ∃ phase messages, phase.active = true ∧
        effect = move phase messages) ∨
      ∃ outcome, c.phase.active = true ∧ (effect.update = fun c => c.finish outcome) ∧
        c.Ended closing event outcome := by
  cases event with
  | write =>
      simp only [step] at h
      split at h
      · rename_i hphase
        split_ifs at h with hclosing
        · cases h
          exact .inr ⟨_, by rw [hphase]; rfl, rfl, .send _ (.inr ⟨rfl, hclosing⟩)⟩
        · cases h
          exact .inl ⟨by rw [hphase]; rfl, _, _, rfl, rfl⟩
      · cases h
  | sent =>
      simp only [step] at h
      split at h
      · rename_i hphase
        cases h
        exact .inl ⟨by rw [hphase]; rfl, _, _, rfl, rfl⟩
      · cases h
  | fail error =>
      simp only [step] at h
      split at h
      · rename_i hphase
        cases h
        exact .inr ⟨_, by rw [hphase]; rfl, rfl, .send _ (.inl rfl)⟩
      · rename_i hphase
        cases h
        exact .inr ⟨_, by rw [hphase]; rfl, rfl, .send _ (.inl rfl)⟩
      · cases h
  | cancel =>
      simp only [step] at h
      split at h
      · rename_i hphase
        cases h
        exact .inr ⟨_, by rw [hphase]; rfl, rfl, .cancelled⟩
      · rename_i hphase
        cases h
        exact .inr ⟨_, by rw [hphase]; rfl, rfl, .cancelled⟩
      · rename_i hphase
        cases h
        exact .inr ⟨_, by rw [hphase]; rfl, rfl, .cancelled⟩
      · cases h
  | resume =>
      simp only [step] at h
      split at h
      · rename_i value hphase hfuture
        cases h
        exact .inr ⟨_, by rw [hphase]; rfl, rfl, .value value hfuture⟩
      · rename_i text hphase hfuture
        cases h
        exact .inr ⟨_, by rw [hphase]; rfl, rfl, .raised text hfuture⟩
      · rename_i text hphase hfuture
        cases h
        exact .inr ⟨_, by rw [hphase]; rfl, rfl, .failed text hfuture⟩
      · cases h

end Call

namespace Endpoint

/-- A failed or cancelled `drain` closes the writer. -/
def closeIf (s : Endpoint) (closes : Bool) : Endpoint :=
  { s with writerClosing := s.writerClosing || closes }

/-- `_call` begins: a connection that is over refuses it. -/
def beginCall (s : Endpoint) : Endpoint :=
  if s.closed then
    s
  else
    { s with lastId := s.lastId + 1 }.setCall (s.lastId + 1) Call.init

/-- `stream` registers its queue. -/
def beginStream (s : Endpoint) : Endpoint :=
  { s with lastId := s.lastId + 1 }.setStream (s.lastId + 1) Stream.init

/-- The `except` block of `_call`. -/
def exceptCall (s : Endpoint) (error : Option String) : Endpoint :=
  match error with
  | none => s
  | some error => if s.writerClosing then s.finishPending error else s

def applyCall (s : Endpoint) (packetId : ℕ) (effect : CallEffect) : Endpoint :=
  let s := (s.closeIf effect.closes).exceptCall effect.error
  { s.modifyCall packetId effect.update with sent := s.sent ++ effect.messages }

def applyStream (s : Endpoint) (packetId : ℕ) (effect : StreamEffect) : Endpoint :=
  let s := s.closeIf effect.closes
  { s.setStream packetId effect.stream with sent := s.sent ++ effect.messages }

/-- The `finally` block of `send_stream` takes the number out of the registry, whoever is
registered there. -/
def unregister (s : Endpoint) (packetId : ℕ) : Endpoint :=
  { s with senders := Function.update s.senders packetId none }

/-- The handler left the loop over the items. -/
def leaveBody (s : Endpoint) (number : ℕ) (handler : Handler) (cancelled : Bool) : Endpoint :=
  (s.setHandler number { handler with phase := .finishing cancelled }).unregister
    handler.packetId

/-- The handler goes on after an item, and leaves the loop if it was told to. -/
def afterItem (s : Endpoint) (number : ℕ) (handler : Handler) : Endpoint :=
  match handler.phase with
  | .finishing cancelled => s.leaveBody number handler cancelled
  | _ => s.setHandler number handler

/-- The task of a handler is over. -/
def endHandler (s : Endpoint) (number : ℕ) (handler : Handler) : Endpoint :=
  { s.setHandler number { handler with phase := .done } with
    responsesPending := s.responsesPending - 1 }

/-- The first step of the task; a streaming one registers its credit. -/
def startHandler (s : Endpoint) (number : ℕ) (handler : Handler) : Endpoint :=
  let s := s.setHandler number handler.start
  match handler.kind with
  | .streaming => { s with senders := Function.update s.senders handler.packetId (some number) }
  | _ => s

/-- One stretch of the task that serves a request. -/
def stepHandler (s : Endpoint) (number : ℕ) (handler : Handler) : HandlerEvent → Option Endpoint
  | .start =>
      match handler.phase, handler.cancelling with
      | .created, false => some (s.startHandler number handler)
      | _, _ => none
  | .produce item =>
      match handler.phase with
      | .producing => some (s.afterItem number (handler.produce item))
      | _ => none
  | .exhaust =>
      match handler.phase with
      | .producing => some (s.leaveBody number handler false)
      | _ => none
  | .resume =>
      match handler.phase with
      | .spending item =>
          if handler.credit.ready then some (s.afterItem number (handler.spend item)) else none
      | _ => none
  | .unwind =>
      match handler.phase, handler.cancelling with
      | .producing, true => some (s.leaveBody number handler true)
      | .spending _, true => some (s.leaveBody number handler true)
      | _, _ => none
  | .written =>
      match handler.phase with
      | .finishing false => some (s.setHandler number { handler with phase := .responding false })
      -- A cancelled handler sends no response.
      | .finishing true => some (s.endHandler number handler)
      | _ => none
  | .return =>
      match handler.phase with
      | .running => some (s.setHandler number { handler with phase := .responding false })
      | _ => none
  | .responded =>
      match handler.phase with
      | .responding _ => some ((s.endHandler number handler).log (.response handler.packetId))
      | _ => none
  | .respondFail error draining =>
      match handler.phase with
      | .responding false =>
          let s := s.closeIf draining
          if s.writerClosing then
            some ((s.endHandler number handler).finishPending error)
          else
            some (s.setHandler number { handler with phase := .responding true })
      | .responding true => some (((s.endHandler number handler).closeIf true).finishPending error)
      | _ => none
  | .cancel draining =>
      match handler.phase, handler.cancelling with
      -- The body of a task that is cancelled before its first step never runs.
      | .created, true => some (s.setHandler number { handler with phase := .done })
      | .running, true => some (s.endHandler number handler)
      | .finishing _, true => some (s.endHandler number handler)
      | .responding _, true => some ((s.endHandler number handler).closeIf draining)
      | _, _ => none

/-- `__aexit__`: everything is settled, and the tasks are cancelled. A task that hands over
a response is cancelled before its first step. -/
def beginExit (s : Endpoint) : Endpoint :=
  let s := s.finishPending "Connection closed"
  { s with
    exiting := true
    responses := []
    handlers := fun n => (s.handlers n).map fun h => { h with cancelling := true } }

/-- One stretch of the event loop. -/
def step (C : Codec) (s : Endpoint) : EndpointEvent → Option Endpoint
  | .configure acceptCode acceptCalls =>
      some { s with acceptCode := acceptCode, acceptCalls := acceptCalls }
  | .receive raw =>
      match s.loop with
      | .receiving => some (s.receive C raw)
      | _ => none
  | .receiveFail error =>
      match s.loop with
      | .receiving => some (s.endLoop (some error))
      | _ => none
  | .replied =>
      match s.loop with
      | .replying packetId _ => some ((s.log (.response packetId)).proceed)
      | _ => none
  | .replyFail error draining =>
      match s.loop with
      | .replying packetId false =>
          let s := s.closeIf draining
          if s.writerClosing then
            some (s.finishPending error).proceed
          else
            some { s with loop := .replying packetId true }
      | .replying _ true => some ((s.closeIf true).finishPending error).proceed
      | _ => none
  | .loopCancel draining =>
      match s.loop, s.exiting with
      | .receiving, true => some (s.endLoop none)
      | .replying _ _, true => some ((s.closeIf draining).endLoop none)
      | _, _ => none
  | .respond => s.respond
  | .call => some s.beginCall
  | .callStep packetId event =>
      (s.calls packetId).bind fun c =>
        (c.step packetId s.writerClosing event).map fun effect => s.applyCall packetId effect
  | .stream => some s.beginStream
  | .streamStep packetId event =>
      (s.streams packetId).bind fun w =>
        (w.step packetId s.closed s.writerClosing event).map fun effect =>
          s.applyStream packetId effect
  | .handlerStep number event =>
      (s.handlers number).bind fun h => s.stepHandler number h event
  | .exit => if s.exiting then none else some s.beginExit
  | .closeWriter => some { s with writerClosing := true }

/-! ## What the calls and the streams see of a step -/

/-- The calls and the streams see no difference, except that the writer may be closing. -/
structure Frame (s s' : Endpoint) : Prop where
  calls : s'.calls = s.calls
  streams : s'.streams = s.streams
  lastId : s'.lastId = s.lastId
  closed : s'.closed = s.closed
  responses : s'.closed = false → s'.responses = s.responses
  received : s'.received = s.received
  sent : s.sent ⊆ s'.sent
  closing : s.writerClosing = true → s'.writerClosing = true

/-- The calls and the streams see nothing, or the end of the connection, maybe more than
once. -/
inductive Ends (s : Endpoint) : Endpoint → Prop where
  | frame {s' : Endpoint} (h : Frame s s') : Ends s s'
  | finish {s' : Endpoint} (u : Endpoint) (error : String) (hbefore : Ends s u)
      (hafter : Frame (u.finishPending error) s') : Ends s s'

variable {C : Codec} {s s' u : Endpoint} {e : EndpointEvent}

theorem Frame.refl (s : Endpoint) : Frame s s :=
  ⟨rfl, rfl, rfl, rfl, fun _ => rfl, rfl, List.Subset.refl _, id⟩

theorem Frame.trans (h : Frame s u) (h' : Frame u s') : Frame s s' where
  calls := h'.calls.trans h.calls
  streams := h'.streams.trans h.streams
  lastId := h'.lastId.trans h.lastId
  closed := h'.closed.trans h.closed
  responses hopen := (h'.responses hopen).trans (h.responses (h'.closed.symm.trans hopen))
  received := h'.received.trans h.received
  sent := List.Subset.trans h.sent h'.sent
  closing hclosing := h'.closing (h.closing hclosing)

theorem frame_closeIf (s : Endpoint) (closes : Bool) : Frame s (s.closeIf closes) := by
  refine ⟨rfl, rfl, rfl, rfl, fun _ => rfl, rfl, List.Subset.refl _, fun hclosing => ?_⟩
  simp [closeIf, hclosing]

theorem frame_log (s : Endpoint) (message : Message) : Frame s (s.log message) :=
  ⟨rfl, rfl, rfl, rfl, fun _ => rfl, rfl, List.subset_append_left _ _, id⟩

theorem frame_setHandler (s : Endpoint) (number : ℕ) (handler : Handler) :
    Frame s (s.setHandler number handler) :=
  ⟨rfl, rfl, rfl, rfl, fun _ => rfl, rfl, List.Subset.refl _, id⟩

theorem frame_leaveBody (s : Endpoint) (number : ℕ) (handler : Handler) (cancelled : Bool) :
    Frame s (s.leaveBody number handler cancelled) :=
  ⟨rfl, rfl, rfl, rfl, fun _ => rfl, rfl, List.Subset.refl _, id⟩

theorem frame_afterItem (s : Endpoint) (number : ℕ) (handler : Handler) :
    Frame s (s.afterItem number handler) := by
  unfold afterItem
  split
  · exact frame_leaveBody ..
  · exact frame_setHandler ..

theorem frame_endHandler (s : Endpoint) (number : ℕ) (handler : Handler) :
    Frame s (s.endHandler number handler) :=
  ⟨rfl, rfl, rfl, rfl, fun _ => rfl, rfl, List.Subset.refl _, id⟩

theorem frame_startHandler (s : Endpoint) (number : ℕ) (handler : Handler) :
    Frame s (s.startHandler number handler) := by
  unfold startHandler
  simp only
  split
  · exact ⟨rfl, rfl, rfl, rfl, fun _ => rfl, rfl, List.Subset.refl _, id⟩
  · exact frame_setHandler ..

theorem frame_loop (s : Endpoint) (loop : LoopPhase) : Frame s { s with loop := loop } :=
  ⟨rfl, rfl, rfl, rfl, fun _ => rfl, rfl, List.Subset.refl _, id⟩

theorem Ends.trans_frame (h : Ends s u) (h' : Frame u s') : Ends s s' := by
  cases h with
  | frame h => exact .frame (h.trans h')
  | finish v error hbefore hafter => exact .finish v error hbefore (hafter.trans h')

theorem Ends.finishPending (h : Ends s u) (error : String) : Ends s (u.finishPending error) :=
  .finish u error h (.refl _)

theorem Ends.endLoop (h : Ends s u) (error : Option String) : Ends s (u.endLoop error) :=
  .finish u _ h (frame_loop _ _)

theorem Ends.proceed (h : Ends s u) : Ends s u.proceed := by
  unfold Endpoint.proceed
  split_ifs
  · exact h.endLoop none
  · exact h.trans_frame (frame_loop _ _)

/-- A step that leaves the connection up did not end it. -/
theorem Ends.frame_of_open (h : Ends s s') (hopen : s'.closed = false) : Frame s s' := by
  cases h with
  | frame hframe => exact hframe
  | finish u error _ hafter =>
      have hclosed : s'.closed = true := hafter.closed.trans rfl
      rw [hopen] at hclosed
      cases hclosed

/-- The handlers touch the calls and the streams only when they end the connection. -/
theorem stepHandler_ends {number : ℕ} {handler : Handler} {event : HandlerEvent}
    (h : s.stepHandler number handler event = some s') : Ends s s' := by
  cases event with
  | start =>
      simp only [stepHandler] at h
      split at h
      · cases h
        exact .frame (frame_startHandler ..)
      · cases h
  | produce item =>
      simp only [stepHandler] at h
      split at h
      · cases h
        exact .frame (frame_afterItem ..)
      · cases h
  | exhaust =>
      simp only [stepHandler] at h
      split at h
      · cases h
        exact .frame (frame_leaveBody ..)
      · cases h
  | resume =>
      simp only [stepHandler] at h
      split at h
      · split_ifs at h
        cases h
        exact .frame (frame_afterItem ..)
      · cases h
  | unwind =>
      simp only [stepHandler] at h
      split at h
      · cases h
        exact .frame (frame_leaveBody ..)
      · cases h
        exact .frame (frame_leaveBody ..)
      · cases h
  | written =>
      simp only [stepHandler] at h
      split at h
      · cases h
        exact .frame (frame_setHandler ..)
      · cases h
        exact .frame (frame_endHandler ..)
      · cases h
  | «return» =>
      simp only [stepHandler] at h
      split at h
      · cases h
        exact .frame (frame_setHandler ..)
      · cases h
  | responded =>
      simp only [stepHandler] at h
      split at h
      · cases h
        exact .frame ((frame_endHandler ..).trans (frame_log ..))
      · cases h
  | respondFail error draining =>
      simp only [stepHandler] at h
      split at h
      · split_ifs at h
        · cases h
          exact (Ends.frame ((frame_closeIf s draining).trans
            (frame_endHandler ..))).finishPending error
        · cases h
          exact .frame ((frame_closeIf s draining).trans (frame_setHandler ..))
      · cases h
        exact (Ends.frame ((frame_endHandler s number handler).trans
          (frame_closeIf _ true))).finishPending error
      · cases h
  | cancel draining =>
      simp only [stepHandler] at h
      split at h
      · cases h
        exact .frame (frame_setHandler ..)
      · cases h
        exact .frame (frame_endHandler ..)
      · cases h
        exact .frame (frame_endHandler ..)
      · cases h
        exact .frame ((frame_endHandler ..).trans (frame_closeIf ..))
      · cases h

theorem frame_handleStreamCredit (C : Codec) (s : Endpoint) (returned : Decoded Bytes)
    (packetId : ℕ) : Frame s (s.handleStreamCredit C returned packetId) := by
  unfold handleStreamCredit
  split
  · exact .refl s
  · split
    · exact .refl s
    · split <;> exact frame_setHandler ..

theorem frame_execute (s : Endpoint) (packetId : ℕ) (kind : HandlerKind) :
    Frame s (s.execute packetId kind) :=
  ⟨rfl, rfl, rfl, rfl, fun _ => rfl, rfl, List.Subset.refl _, id⟩

theorem ends_exceptCall (s : Endpoint) (error : Option String) : Ends s (s.exceptCall error) := by
  unfold exceptCall
  split
  · exact .frame (.refl s)
  · split_ifs
    · exact (Ends.frame (.refl s)).finishPending _
    · exact .frame (.refl s)

theorem queue_eq_some {packetId : ℕ} {w : Stream} (h : s.queue packetId = some w) :
    s.streams packetId = some w ∧ w.consumer.registered = true := by
  rw [queue, Option.filter_eq_some_iff] at h
  exact h

theorem future_eq_some {packetId : ℕ} {c : Call} (h : s.future packetId = some c) :
    s.calls packetId = some c ∧ c.registered = true := by
  rw [future, Option.filter_eq_some_iff] at h
  exact h

theorem ends_beginExit (s : Endpoint) : Ends s s.beginExit :=
  .finish s _ (.frame (.refl s))
    ⟨rfl, rfl, rfl, rfl, nofun, rfl, List.Subset.refl _, id⟩

/-- Everything that one step can do to the calls and the streams. -/
inductive Step (C : Codec) (s : Endpoint) : EndpointEvent → Endpoint → Prop where
  | other {e : EndpointEvent} {s' : Endpoint} (hends : Ends s s') : Step C s e s'
  | receive {s' : Endpoint} (raw : Raw) (u : Endpoint)
      (hobtained : Obtained C { s with received := s.received ++ [raw] } raw u)
      (hends : Ends u s')
      (hover : s'.closed = true → u.closed = true ∨ u.responses = s.responses) :
      Step C s (.receive raw) s'
  | respond (packetId : ℕ) (response : Decoded Bytes) (responses : List (ℕ × Decoded Bytes))
      (hresponses : s.responses = (packetId, response) :: responses) :
      Step C s .respond ({ s with responses := responses }.handleRpcResponse response packetId)
  | call (hopen : s.closed = false) :
      Step C s .call ({ s with lastId := s.lastId + 1 }.setCall (s.lastId + 1) Call.init)
  | callStep (packetId : ℕ) (event : CallEvent) (c : Call) (effect : CallEffect)
      (hcall : s.calls packetId = some c)
      (hstep : c.step packetId s.writerClosing event = some effect) :
      Step C s (.callStep packetId event) (s.applyCall packetId effect)
  | stream : Step C s .stream s.beginStream
  | streamStep (packetId : ℕ) (event : StreamEvent) (w : Stream) (effect : StreamEffect)
      (hstream : s.streams packetId = some w)
      (hstep : w.step packetId s.closed s.writerClosing event = some effect) :
      Step C s (.streamStep packetId event) (s.applyStream packetId effect)

theorem step_spec (h : s.step C e = some s') : Step C s e s' := by
  cases e with
  | configure acceptCode acceptCalls =>
      cases h
      exact .other (.frame ⟨rfl, rfl, rfl, rfl, fun _ => rfl, rfl, List.Subset.refl _, id⟩)
  | receive raw =>
      simp only [step] at h
      split at h
      · cases h
        obtain ⟨u, hobtained, ⟨error, hend, hover⟩ | ⟨loop, hloop⟩⟩ := receive_spec C s raw
        · rw [hend]
          exact .receive raw u hobtained ((Ends.frame (.refl u)).endLoop error) fun _ => hover
        · rw [hloop]
          exact .receive raw u hobtained (.frame (frame_loop u loop)) fun hclosed => .inl hclosed
      · cases h
  | receiveFail error =>
      simp only [step] at h
      split at h
      · cases h
        exact .other ((Ends.frame (.refl s)).endLoop _)
      · cases h
  | replied =>
      simp only [step] at h
      split at h
      · cases h
        exact .other (Ends.frame (frame_log s _)).proceed
      · cases h
  | replyFail error draining =>
      simp only [step] at h
      split at h
      · split_ifs at h
        · cases h
          exact .other ((Ends.frame (frame_closeIf s draining)).finishPending error).proceed
        · cases h
          exact .other (.frame ((frame_closeIf s draining).trans (frame_loop _ _)))
      · cases h
        exact .other ((Ends.frame (frame_closeIf s true)).finishPending error).proceed
      · cases h
  | loopCancel draining =>
      simp only [step] at h
      split at h
      · cases h
        exact .other ((Ends.frame (.refl s)).endLoop none)
      · cases h
        exact .other ((Ends.frame (frame_closeIf s draining)).endLoop none)
      · cases h
  | respond =>
      simp only [step, Endpoint.respond] at h
      split at h
      · cases h
      · rename_i packetId response responses hresponses
        cases h
        exact .respond packetId response responses hresponses
  | call =>
      cases h
      unfold beginCall
      split_ifs with hclosed
      · exact .other (.frame (.refl s))
      · exact .call (by simpa using hclosed)
  | callStep packetId event =>
      obtain ⟨c, hcall, hstep⟩ := Option.bind_eq_some_iff.mp h
      obtain ⟨effect, heffect, rfl⟩ := Option.map_eq_some_iff.mp hstep
      exact .callStep packetId event c effect hcall heffect
  | stream =>
      cases h
      exact .stream
  | streamStep packetId event =>
      obtain ⟨w, hstream, hstep⟩ := Option.bind_eq_some_iff.mp h
      obtain ⟨effect, heffect, rfl⟩ := Option.map_eq_some_iff.mp hstep
      exact .streamStep packetId event w effect hstream heffect
  | handlerStep number event =>
      obtain ⟨handler, -, hstep⟩ := Option.bind_eq_some_iff.mp h
      exact .other (stepHandler_ends hstep)
  | exit =>
      simp only [step] at h
      split_ifs at h
      cases h
      exact .other (ends_beginExit s)
  | closeWriter =>
      cases h
      exact .other (.frame ⟨rfl, rfl, rfl, rfl, fun _ => rfl, rfl, List.Subset.refl _, fun _ => rfl⟩)

end Endpoint

end Rmote
