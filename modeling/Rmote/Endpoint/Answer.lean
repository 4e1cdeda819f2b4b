import Rmote.Endpoint.Step

/-!
# Where the answer of a call comes from

A call gets a value or an exception only from a packet that the receive loop obtained under
the number of the call and decoded to it. A step of the endpoint keeps the handlers and
their numbers, apart from the loop: it schedules a handler, or sends a refusal, only for
a request that it obtained.
-/

namespace Rmote

/-- The loop decodes a packet to what a future is set to. -/
inductive Resolves (C : Codec) (raw : Raw) : Future → Prop where
  | value (acceptCode : Bool) (packet packet' : Packet Bytes)
      (hdecode : decodePacket C.pickle acceptCode C.load raw.payload raw.flags raw.packetId =
        .ok packet)
      (hunpack : Endpoint.unpackLog C packet = some packet')
      (hresponse : raw.flags.has Flags.response = true)
      (hstream : raw.flags.has Flags.stream = false)
      (hexception : raw.flags.has Flags.exception = false) :
      Resolves C raw (.result packet'.payload)
  | raised (acceptCode : Bool) (packet packet' : Packet Bytes) (text : String)
      (hdecode : decodePacket C.pickle acceptCode C.load raw.payload raw.flags raw.packetId =
        .ok packet)
      (hunpack : Endpoint.unpackLog C packet = some packet')
      (hresponse : raw.flags.has Flags.response = true)
      (hlook : C.look packet'.payload = .exception text) :
      Resolves C raw (.raised text)

/-- A future that the peer settled. -/
def Future.answered : Future → Bool
  | .result _ => true
  | .raised _ => true
  | _ => false

/-- The future of a call that ended so. -/
def CallOutcome.future : CallOutcome → Future
  | .value response => .result response
  | .raised text => .raised text
  | .failed text => .failed text
  | .cancelled => .cancelled

namespace Call

/-- The peer settled the future, and the call ended, only with what is good. -/
structure Known (good : Future → Prop) (c : Call) : Prop where
  future : c.future.answered = true → good c.future
  done : ∀ outcome, c.phase = .done outcome → outcome.future.answered = true →
    good outcome.future

variable {good good' : Future → Prop} {c : Call}

theorem known_init : init.Known good := ⟨nofun, nofun⟩

theorem Known.mono (h : c.Known good) (himp : ∀ f, good f → good' f) : c.Known good' :=
  ⟨fun hanswered => himp _ (h.future hanswered),
    fun outcome hdone hanswered => himp _ (h.done outcome hdone hanswered)⟩

theorem Known.settle (h : c.Known good) {future : Future}
    (hfuture : future.answered = true → good future) : (c.settle future).Known good := by
  refine ⟨fun hanswered => ?_, h.done⟩
  simp only [Call.settle] at hanswered ⊢
  split_ifs at hanswered ⊢
  · exact h.future hanswered
  · exact hfuture hanswered

theorem Known.close (h : c.Known good) (text : String) : (c.close text).Known good := by
  unfold Call.close
  split_ifs
  · exact h.settle nofun
  · exact h

theorem Known.obtain (h : c.Known good) (value : Decoded Bytes) :
    (c.obtain value).Known good := by
  unfold Call.obtain
  split_ifs <;> exact ⟨h.future, h.done⟩

theorem Known.unregister (h : c.Known good) : Known good { c with registered := false } :=
  ⟨h.future, h.done⟩

/-- A call ends with what its future holds, or without an answer of the peer. -/
theorem Known.finish {c' : Call} (h : c.Known good) (h' : c'.Known good) {closing : Bool}
    {event : CallEvent} {outcome : CallOutcome} (hended : c.Ended closing event outcome) :
    (c'.finish outcome).Known good := by
  have hsettled : (c'.settle .cancelled).Known good :=
    h'.settle fun hcancelled => by cases hcancelled
  refine ⟨hsettled.future, fun outcome' hdone hanswered => ?_⟩
  obtain rfl : outcome = outcome' := CallPhase.done.inj hdone
  cases hended with
  | cancelled => cases hanswered
  | value value hfuture =>
      have hgood := h.future
      rw [hfuture] at hgood
      exact hgood rfl
  | raised text hfuture =>
      have hgood := h.future
      rw [hfuture] at hgood
      exact hgood rfl
  | failed text _ => cases hanswered
  | send text _ => cases hanswered

end Call

namespace Endpoint

/-- The loop obtained a packet under the number that it decodes to the future. -/
def Heard (C : Codec) (s : Endpoint) (packetId : ℕ) (future : Future) : Prop :=
  ∃ raw ∈ s.received, raw.packetId = packetId ∧ Resolves C raw future

/-- Everything that the calls know comes from a packet of the peer, and so do the
responses whose tasks wait. -/
structure Hears (C : Codec) (s : Endpoint) : Prop where
  calls : ∀ p c, s.calls p = some c → c.Known (s.Heard C p)
  responses : s.closed = false → ∀ r ∈ s.responses, s.Heard C r.1 (.result r.2)
  past : s.closed = true → ∀ p c, s.calls p = some c → c.registered = false

variable {C : Codec} {s s' u : Endpoint} {e : EndpointEvent}

theorem hears_init (C : Codec) (acceptCode acceptCalls : Bool) :
    Hears C (init acceptCode acceptCalls) where
  calls _ _ h := by cases h
  responses _ _ h := absurd h List.not_mem_nil
  past h := by cases h

theorem Heard.mono {p : ℕ} {future : Future} (h : s.Heard C p future)
    (hreceived : s.received ⊆ s'.received) : s'.Heard C p future := by
  obtain ⟨raw, hraw, hsettles⟩ := h
  exact ⟨raw, hreceived hraw, hsettles⟩

theorem Hears.frame (h : s.Hears C) (hframe : Frame s s') : s'.Hears C := by
  have hsub : s.received ⊆ s'.received := by rw [hframe.received]; exact List.Subset.refl _
  refine ⟨fun p c hc => ?_, fun hopen r hr => ?_, fun hclosed p c hc => ?_⟩
  · rw [hframe.calls] at hc
    exact (h.calls p c hc).mono fun _ hgood => hgood.mono hsub
  · rw [hframe.responses hopen] at hr
    exact (h.responses (hframe.closed.symm.trans hopen) r hr).mono hsub
  · rw [hframe.calls] at hc
    exact h.past (hframe.closed.symm.trans hclosed) p c hc

theorem registered_close (c : Call) (text : String) : (c.close text).registered = false := by
  unfold Call.close
  split_ifs with hregistered
  · rfl
  · simpa using hregistered

theorem Hears.finishPending (h : s.Hears C) (error : String) : (s.finishPending error).Hears C := by
  refine ⟨fun p c hc => ?_, nofun, fun _ p c hc => ?_⟩
  · obtain ⟨c', hc', rfl⟩ := Option.map_eq_some_iff.mp hc
    exact (h.calls p c' hc').close _
  · obtain ⟨c', -, rfl⟩ := Option.map_eq_some_iff.mp hc
    exact registered_close c' _

theorem Hears.ends (h : s.Hears C) (hends : Ends s s') : s'.Hears C := by
  induction hends with
  | frame hframe => exact h.frame hframe
  | finish u error _ hafter ih => exact (ih.finishPending error).frame hafter

/-- One call changes, and it knows only what the peer sent. -/
theorem Hears.setCall (h : s.Hears C) {packetId : ℕ} {c : Call}
    (hknown : c.Known (s.Heard C packetId)) (hpast : s.closed = true → c.registered = false) :
    (s.setCall packetId c).Hears C := by
  refine ⟨fun p c' hc' => ?_, h.responses, fun hclosed p c' hc' => ?_⟩
  · simp only [Endpoint.setCall, Function.update_apply] at hc'
    split_ifs at hc' with hp
    · obtain rfl := Option.some.inj hc'
      rw [hp]
      exact hknown
    · exact h.calls p c' hc'
  · simp only [Endpoint.setCall, Function.update_apply] at hc'
    split_ifs at hc' with hp
    · obtain rfl := Option.some.inj hc'
      exact hpast hclosed
    · exact h.past hclosed p c' hc'

theorem Hears.setStream (h : s.Hears C) (packetId : ℕ) (w : Stream) :
    (s.setStream packetId w).Hears C := ⟨h.calls, h.responses, h.past⟩

theorem Hears.withSent (h : s.Hears C) (sent : List Message) : Hears C { s with sent := sent } :=
  ⟨h.calls, h.responses, h.past⟩

/-- The task of a response is scheduled. -/
theorem Hears.executeResponse (h : s.Hears C) {packetId : ℕ} {response : Decoded Bytes}
    (hheard : s.Heard C packetId (.result response)) :
    (s.executeResponse packetId response).Hears C := by
  refine ⟨fun p c hc => ?_, fun hopen r hr => ?_, fun hclosed p c hc => ?_⟩
  · simp only [Endpoint.executeResponse, Function.update_apply] at hc
    split_ifs at hc with hp
    · obtain ⟨c', hc', rfl⟩ := Option.map_eq_some_iff.mp hc
      rw [hp]
      exact (h.calls packetId c' hc').obtain response
    · exact h.calls p c hc
  · rcases List.mem_append.mp hr with hr | hr
    · exact h.responses hopen r hr
    · rw [List.mem_singleton.mp hr]
      exact hheard
  · simp only [Endpoint.executeResponse, Function.update_apply] at hc
    split_ifs at hc with hp
    · obtain ⟨c', hc', rfl⟩ := Option.map_eq_some_iff.mp hc
      unfold Call.obtain
      split_ifs <;> exact h.past hclosed packetId c' hc'
    · exact h.past hclosed p c hc

/-- The loop hears an answer of the peer only from the packet that it decoded. -/
theorem Hears.handled (h : s.Hears C) {packet : Packet Bytes} {error : Option String}
    (hhandled : Handled C s packet s' error)
    (hvalue : packet.flags.has Flags.response = true → packet.flags.has Flags.stream = false →
      packet.flags.has Flags.exception = false →
      s.Heard C packet.packetId (.result packet.payload))
    (hraised : ∀ text, packet.flags.has Flags.response = true →
      C.look packet.payload = .exception text → s.Heard C packet.packetId (.raised text)) :
    s'.Hears C := by
  cases hhandled with
  | nothing => exact h
  | reply _ => exact h.frame (frame_loop _ _)
  | exceptionStream stream _ _ _ => exact h.setStream ..
  | exceptionCall call text hfuture _ hresponse hlook =>
      obtain ⟨hcall, -⟩ := future_eq_some hfuture
      exact h.setCall ((h.calls _ _ hcall).settle fun _ => hraised text hresponse hlook)
        fun _ => rfl
  | exceptionInvalid call error hfuture _ _ _ =>
      obtain ⟨hcall, -⟩ := future_eq_some hfuture
      exact h.setCall (h.calls _ _ hcall).unregister fun _ => rfl
  | credit _ _ _ => exact h.frame (frame_handleStreamCredit ..)
  | item stream _ _ _ _ => exact h.setStream ..
  | execute kind _ => exact h.frame (frame_execute ..)
  | response hexception hstream hresponse =>
      exact h.executeResponse (hvalue hresponse hstream hexception)

/-- A packet that is no report of a refused payload keeps its flags. -/
theorem flags_of_decodePacket {acceptCode : Bool} {raw : Raw} {packet : Packet Bytes}
    (hdecode : decodePacket C.pickle acceptCode C.load raw.payload raw.flags raw.packetId =
      .ok packet) (hexception : packet.flags.has Flags.exception = false) :
    packet.flags = raw.flags := by
  rcases (decodePacket_cases hdecode).2.2 with ⟨hflags, -⟩ | ⟨text, -, hflags⟩
  · exact hflags
  · have hset : Flags.exception.has Flags.exception = true := by decide
    rw [hflags, Flags.has_or, hset, Bool.true_or] at hexception
    cases hexception

theorem Hears.obtained (h : s.Hears C) {raw : Raw}
    (hobtained : Obtained C { s with received := s.received ++ [raw] } raw s') : s'.Hears C := by
  have hreceived : Hears C { s with received := s.received ++ [raw] } := by
    have hsub : s.received ⊆ s.received ++ [raw] := List.subset_append_left _ _
    refine ⟨fun p c hc => (h.calls p c hc).mono fun _ hgood => hgood.mono hsub,
      fun hopen r hr => (h.responses hopen r hr).mono hsub, h.past⟩
  have hmem : raw ∈ s.received ++ [raw] := by simp
  cases hobtained with
  | nothing => exact hreceived
  | dispatched packet _ error hdecode hdispatched =>
      cases hdispatched with
      | nothing => exact hreceived
      | reply => exact hreceived.frame (frame_loop _ _)
      | handled packet' _ _ hunpack hhandled =>
          obtain ⟨hid, -, hflags⟩ := unpackLog_spec hunpack
          have hnumber : raw.packetId = packet'.packetId :=
            (hid.trans (decodePacket_cases hdecode).1).symm
          have hraw : packet'.flags.has Flags.response = true →
              raw.flags.has Flags.response = true := by
            rw [← has_response_of_decodePacket hdecode, hflags Flags.response (by decide)]
            exact id
          refine hreceived.handled hhandled (fun hresponse hstream hexception => ?_)
            fun text hresponse hlook => ?_
          · rw [hflags Flags.exception (by decide)] at hexception
            rw [hflags Flags.stream (by decide)] at hstream
            have hsame := flags_of_decodePacket hdecode hexception
            rw [hsame] at hexception hstream
            exact ⟨raw, hmem, hnumber,
              .value _ packet packet' hdecode hunpack (hraw hresponse) hstream hexception⟩
          · exact ⟨raw, hmem, hnumber,
              .raised _ packet packet' text hdecode hunpack (hraw hresponse) hlook⟩

/-- The task of a response finds its call only while the connection is up. -/
theorem Hears.respond (h : s.Hears C) {packetId : ℕ} {response : Decoded Bytes}
    {responses : List (ℕ × Decoded Bytes)}
    (hresponses : s.responses = (packetId, response) :: responses) :
    ({ s with responses := responses }.handleRpcResponse response packetId).Hears C := by
  have hpop : Hears C { s with responses := responses } := by
    refine ⟨h.calls, fun hopen r hr => h.responses hopen r ?_, h.past⟩
    rw [hresponses]
    exact List.mem_cons_of_mem _ hr
  unfold Endpoint.handleRpcResponse
  cases hqueue : queue { s with responses := responses } packetId with
  | some stream => exact hpop.setStream ..
  | none =>
      cases hfuture : future { s with responses := responses } packetId with
      | none => exact hpop
      | some c =>
          obtain ⟨hcall, hregistered⟩ := future_eq_some hfuture
          have hopen : s.closed = false := by
            cases hclosed : s.closed with
            | false => rfl
            | true =>
                have hpast := h.past hclosed packetId c hcall
                rw [hregistered] at hpast
                cases hpast
          refine hpop.setCall ((hpop.calls packetId c hcall).settle fun _ => ?_) fun _ => rfl
          refine h.responses hopen (packetId, response) ?_
          rw [hresponses]
          exact List.mem_cons_self

theorem Hears.applyCall (h : s.Hears C) {packetId : ℕ} {event : CallEvent} {c : Call}
    {effect : CallEffect} (hcall : s.calls packetId = some c)
    (hstep : c.step packetId s.writerClosing event = some effect) :
    (s.applyCall packetId effect).Hears C := by
  have hmodify : ∀ {t : Endpoint} {c' : Call} {f : Call → Call}, t.Hears C →
      t.calls packetId = some c' → (f c').Known (t.Heard C packetId) →
      (t.closed = true → (f c').registered = false) → (t.modifyCall packetId f).Hears C := by
    intro t c' f ht hc' hknown hpast
    have heq : t.modifyCall packetId f = t.setCall packetId (f c') := by
      simp only [Endpoint.modifyCall, Endpoint.setCall, hc', Option.map_some]
    rw [heq]
    exact ht.setCall hknown hpast
  rcases Call.step_cases hstep with
    ⟨-, phase, messages, hphase, rfl⟩ | ⟨outcome, -, hupdate, hended⟩
  · have hknown := h.calls packetId c hcall
    refine (hmodify (h.frame (frame_closeIf s false)) hcall ⟨hknown.future, ?_⟩
      fun hclosed => h.past hclosed packetId c hcall).withSent _
    rintro outcome rfl
    cases hphase
  · have hends := ends_exceptCall (s.closeIf effect.closes) effect.error
    have hclosed := h.frame (frame_closeIf s effect.closes)
    have hexcept := hclosed.ends hends
    have hcalls : ∃ c', ((s.closeIf effect.closes).exceptCall effect.error).calls packetId =
        some c' := by
      unfold exceptCall
      split
      · exact ⟨c, hcall⟩
      · split_ifs
        · exact ⟨_, congrArg (Option.map _) hcall⟩
        · exact ⟨c, hcall⟩
    have hreceived : ((s.closeIf effect.closes).exceptCall effect.error).received =
        s.received := by
      unfold exceptCall
      split
      · rfl
      · split_ifs <;> rfl
    obtain ⟨c', hc'⟩ := hcalls
    refine (hmodify hexcept hc' ?_ fun _ => by rw [hupdate]; rfl).withSent _
    rw [hupdate]
    refine Call.Known.finish ((h.calls packetId c hcall).mono fun _ hgood => hgood.mono ?_)
      (hexcept.calls packetId c' hc') hended
    rw [hreceived]
    exact List.Subset.refl _

/-- No step makes up an answer. -/
theorem Hears.step (h : s.Hears C) (hstep : s.step C e = some s') : s'.Hears C := by
  cases step_spec hstep with
  | other hends => exact h.ends hends
  | receive raw u hobtained hends _ => exact (h.obtained hobtained).ends hends
  | respond packetId response responses hresponses => exact h.respond hresponses
  | call hopen =>
      have hnext : Hears C { s with lastId := s.lastId + 1 } := ⟨h.calls, h.responses, h.past⟩
      refine hnext.setCall Call.known_init fun hclosed => ?_
      rw [hopen] at hclosed
      cases hclosed
  | callStep packetId event c effect hcall heffect => exact h.applyCall hcall heffect
  | stream => exact ⟨h.calls, h.responses, h.past⟩
  | streamStep packetId event w effect _ _ =>
      exact ((h.frame (frame_closeIf s effect.closes)).setStream packetId effect.stream).withSent _

end Endpoint

end Rmote
