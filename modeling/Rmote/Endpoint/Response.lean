import Rmote.Endpoint.Step
import Rmote.Library.Machine

/-!
# A response against the end of the connection

The loop hands a successful response to a task of its own and goes on to the next
packet, but it settles the futures itself when the connection ends. A response whose
task has not run is lost then: its call ends with the error of the connection. The
responses are safe in the runs in which the connection never ends before the tasks of
the responses that the loop obtained.
-/

namespace Rmote

/-- The first response under a number that waits for its task. -/
def awaited (responses : List (ℕ × Decoded Bytes)) (packetId : ℕ) : Option (ℕ × Decoded Bytes) :=
  responses.find? fun r => r.1 == packetId

theorem awaited_append {responses : List (ℕ × Decoded Bytes)} {packetId : ℕ}
    {r : ℕ × Decoded Bytes} (h : awaited responses packetId = some r)
    (more : List (ℕ × Decoded Bytes)) : awaited (responses ++ more) packetId = some r := by
  rw [awaited, List.find?_append]
  rw [awaited] at h
  rw [h]
  rfl

theorem awaited_snoc {responses : List (ℕ × Decoded Bytes)} {packetId : ℕ}
    (h : ∀ r ∈ responses, r.1 ≠ packetId) (value : Decoded Bytes) :
    awaited (responses ++ [(packetId, value)]) packetId = some (packetId, value) := by
  have hnone : responses.find? (fun r => r.1 == packetId) = none := by
    rw [List.find?_eq_none]
    intro r hr
    simpa using h r hr
  rw [awaited, List.find?_append, hnone]
  simp

theorem awaited_tail {responses : List (ℕ × Decoded Bytes)} {packetId : ℕ}
    {r : ℕ × Decoded Bytes} (hne : r.1 ≠ packetId) :
    awaited (r :: responses) packetId = awaited responses packetId := by
  rw [awaited, awaited, List.find?_cons_of_neg]
  simpa using hne

namespace Call

/-- A call whose response the loop obtained ends with the value of the response, unless its
caller is cancelled: its future holds the value, or the future is registered and the task
of the response is to come. -/
structure Tracked (responses : List (ℕ × Decoded Bytes)) (packetId : ℕ) (closed : Bool)
    (c : Call) : Prop where
  past : closed = true → c.registered = false
  live : c.registered = true → c.phase.active = true ∧ c.future = .pending
  unanswered : c.registered = true → c.answer = none → ∀ r ∈ responses, r.1 ≠ packetId
  active : ∀ value, c.answer = some value → c.phase.active = true →
    c.future = .result value ∨
      (c.registered = true ∧ awaited responses packetId = some (packetId, value))
  done : ∀ value outcome, c.answer = some value → c.phase = .done outcome →
    outcome = .value value ∨ outcome = .cancelled

variable {c : Call} {responses responses' : List (ℕ × Decoded Bytes)} {packetId : ℕ}
  {closed : Bool}

theorem tracked_init (h : ∀ r ∈ responses, r.1 ≠ packetId) :
    init.Tracked responses packetId false :=
  ⟨nofun, fun _ => ⟨rfl, rfl⟩, fun _ _ => h, nofun, nofun⟩

/-- A call that is not registered does not look at the tasks. -/
theorem Tracked.unregistered (h : c.Tracked responses packetId closed)
    (hregistered : c.registered = false) (closed' : Bool) :
    c.Tracked responses' packetId closed' := by
  refine ⟨fun _ => hregistered, ?_, ?_, ?_, h.done⟩
  · simp [hregistered]
  · simp [hregistered]
  · intro value hanswer hactive
    rcases h.active value hanswer hactive with hresult | ⟨hreg, -⟩
    · exact .inl hresult
    · rw [hregistered] at hreg
      cases hreg

/-- The end of the connection fails the calls whose response is not obtained. -/
theorem Tracked.close (h : c.Tracked responses packetId closed)
    (hquiet : c.registered = true → ∀ r ∈ responses, r.1 ≠ packetId) (text : String) :
    (c.close text).Tracked responses packetId true := by
  unfold Call.close
  split_ifs with hregistered
  · have hnone : c.answer = none := by
      cases hanswer : c.answer with
      | none => rfl
      | some value =>
          rcases h.active value hanswer (h.live hregistered).1 with hresult | ⟨-, hawaited⟩
          · rw [(h.live hregistered).2] at hresult
            cases hresult
          · have hmem := List.mem_of_find?_eq_some hawaited
            exact absurd rfl (hquiet hregistered _ hmem)
    refine ⟨fun _ => rfl, nofun, nofun, ?_, ?_⟩
    · intro value hanswer
      rw [Call.settle, hnone] at hanswer
      cases hanswer
    · intro value outcome hanswer
      rw [Call.settle, hnone] at hanswer
      cases hanswer
  · exact h.unregistered (by simpa using hregistered) true

/-- A response without an answer before it leaves the future. -/
theorem tracked_of_unanswered (hanswer : c.answer = none) (hregistered : c.registered = false) :
    c.Tracked responses packetId closed := by
  refine ⟨fun _ => hregistered, ?_, ?_, ?_, ?_⟩ <;> simp [hanswer, hregistered]

/-- The task of a response hands it to the future. -/
theorem Tracked.answer {value : Decoded Bytes}
    (h : c.Tracked ((packetId, value) :: responses) packetId closed)
    (hregistered : c.registered = true) :
    (c.settle (.result value)).Tracked responses packetId closed := by
  obtain ⟨hactive, hpending⟩ := h.live hregistered
  have hfuture : (c.settle (.result value)).future = .result value := by
    rw [Call.settle, hpending]
    rfl
  refine ⟨fun _ => rfl, nofun, nofun, fun value' hanswer _ => ?_, fun value' outcome _ hdone => ?_⟩
  · rcases h.active value' hanswer hactive with hresult | ⟨-, hawaited⟩
    · rw [hpending] at hresult
      cases hresult
    · rw [awaited, List.find?_cons_of_pos (by simp)] at hawaited
      cases hawaited
      exact .inl hfuture
  · have hphase : c.phase = .done outcome := hdone
    rw [hphase] at hactive
    cases hactive

@[simp] theorem registered_obtain (c : Call) (value : Decoded Bytes) :
    (c.obtain value).registered = c.registered := by
  unfold Call.obtain
  split_ifs <;> rfl

/-- The loop obtains a response and schedules its task. -/
theorem Tracked.obtain (h : c.Tracked responses packetId closed) (value : Decoded Bytes) :
    (c.obtain value).Tracked (responses ++ [(packetId, value)]) packetId closed := by
  unfold Call.obtain
  split_ifs with hfirst
  · obtain ⟨hregistered, hnone⟩ := Bool.and_eq_true_iff.mp hfirst
    have hanswer : c.answer = none := by simpa using hnone
    obtain ⟨hactive, hpending⟩ := h.live hregistered
    refine ⟨h.past, h.live, nofun, fun value' heq _ => .inr ⟨hregistered, ?_⟩,
      fun value' outcome _ hdone => ?_⟩
    · cases heq
      exact awaited_snoc (h.unanswered hregistered hanswer) value
    · have hphase : c.phase = .done outcome := hdone
      rw [hphase] at hactive
      cases hactive
  · refine ⟨h.past, h.live, fun hregistered hanswer => ?_, fun value' hanswer hactive => ?_,
      h.done⟩
    · simp [hregistered, hanswer] at hfirst
    · rcases h.active value' hanswer hactive with hresult | ⟨hregistered, hawaited⟩
      · exact .inl hresult
      · exact .inr ⟨hregistered, awaited_append hawaited _⟩

/-- The task of another response is scheduled. -/
theorem Tracked.other (h : c.Tracked responses packetId closed) {r : ℕ × Decoded Bytes}
    (hne : r.1 ≠ packetId) : c.Tracked (responses ++ [r]) packetId closed := by
  refine ⟨h.past, h.live, fun hregistered hanswer r' hr' => ?_, fun value hanswer hactive => ?_,
    h.done⟩
  · rcases List.mem_append.mp hr' with hr' | hr'
    · exact h.unanswered hregistered hanswer r' hr'
    · rw [List.mem_singleton.mp hr']
      exact hne
  · rcases h.active value hanswer hactive with hresult | ⟨hregistered, hawaited⟩
    · exact .inl hresult
    · exact .inr ⟨hregistered, awaited_append hawaited _⟩

/-- The task of another response runs. -/
theorem Tracked.tail {r : ℕ × Decoded Bytes} (h : c.Tracked (r :: responses) packetId closed)
    (hne : r.1 ≠ packetId) : c.Tracked responses packetId closed := by
  refine ⟨h.past, h.live, fun hregistered hanswer r' hr' => ?_, fun value hanswer hactive => ?_,
    h.done⟩
  · exact h.unanswered hregistered hanswer r' (List.mem_cons_of_mem r hr')
  · rcases h.active value hanswer hactive with hresult | ⟨hregistered, hawaited⟩
    · exact .inl hresult
    · rw [awaited_tail hne] at hawaited
      exact .inr ⟨hregistered, hawaited⟩

/-- A call that ends has the value of its response, or its caller was cancelled. -/
theorem Tracked.finish {c' : Call} (h : c.Tracked responses packetId closed) {closing : Bool}
    {event : CallEvent} {outcome : CallOutcome} (hended : c.Ended closing event outcome)
    (hactive : c.phase.active = true) (hanswer : c'.answer = c.answer)
    (hsend : ∀ text, event = .fail text ∨ event = .write ∧ closing = true → c.answer = none)
    (closed' : Bool) : (c'.finish outcome).Tracked responses packetId closed' := by
  refine ⟨fun _ => rfl, nofun, nofun, nofun, ?_⟩
  intro value outcome' hvalue hdone
  cases hdone
  have hvalue' : c.answer = some value := hanswer.symm.trans hvalue
  have hfuture : ∀ future, c.future = future → (∀ v, future ≠ .result v) → future ≠ .pending →
      False := by
    intro future heq hresult hpending
    rcases h.active value hvalue' hactive with hres | ⟨hregistered, -⟩
    · exact hresult value (heq.symm.trans hres)
    · exact hpending (heq.symm.trans (h.live hregistered).2)
  cases hended with
  | cancelled => exact .inr rfl
  | value value' hres =>
      rcases h.active value hvalue' hactive with hresult | ⟨hregistered, -⟩
      · rw [hres] at hresult
        cases hresult
        exact .inl rfl
      · rw [(h.live hregistered).2] at hres
        cases hres
  | raised text hres => exact (hfuture _ hres nofun nofun).elim
  | failed text hres => exact (hfuture _ hres nofun nofun).elim
  | send text heq =>
      rw [hsend text heq] at hvalue'
      cases hvalue'

end Call

namespace Endpoint

/-- Every call is tracked, calls and streams have numbers of their own, and the loop
obtained what a call has for an answer. -/
structure Tracked (s : Endpoint) : Prop where
  calls : ∀ p c, s.calls p = some c → c.Tracked s.responses p s.closed
  numbers : ∀ p, s.lastId < p → s.calls p = none ∧ s.streams p = none
  distinct : ∀ p c, s.calls p = some c → s.streams p = none
  pending : s.closed = false → ∀ r ∈ s.responses, r.1 ≤ s.lastId
  known : ∀ p c, s.calls p = some c → c.answer ≠ none →
    ∃ r ∈ s.received, r.packetId = p ∧ r.flags.has Flags.response = true

/-- No response waits for its task while its call is registered. -/
def Quiet (s : Endpoint) : Prop := ∀ r ∈ s.responses, s.future r.1 = none

variable {C : Codec} {s s' u : Endpoint} {e : EndpointEvent}

theorem calls_init (acceptCode acceptCalls : Bool) (p : ℕ) :
    (init acceptCode acceptCalls).calls p = none := rfl

theorem tracked_init (acceptCode acceptCalls : Bool) : Tracked (init acceptCode acceptCalls) := by
  have hnone {p : ℕ} {c : Call} : (init acceptCode acceptCalls).calls p ≠ some c := by
    rw [calls_init]
    exact (Option.some_ne_none c).symm
  exact ⟨fun _ _ h => absurd h hnone, fun _ _ => ⟨rfl, rfl⟩, fun _ _ h => absurd h hnone, nofun,
    fun _ _ h => absurd h hnone⟩

theorem Quiet.not_mem (h : s.Quiet) {p : ℕ} {c : Call} (hcall : s.calls p = some c)
    (hregistered : c.registered = true) : ∀ r ∈ s.responses, r.1 ≠ p := by
  rintro r hr rfl
  have hnone := h r hr
  rw [future, hcall, Option.filter_some, if_pos hregistered] at hnone
  cases hnone

theorem Tracked.frame (h : s.Tracked) (hframe : Frame s s') : s'.Tracked := by
  constructor
  · rw [hframe.calls]
    intro p c hc
    have htracked := h.calls p c hc
    cases hclosed : s'.closed with
    | false =>
        rw [hframe.responses hclosed, ← hclosed, hframe.closed]
        exact htracked
    | true => exact htracked.unregistered (htracked.past (hframe.closed.symm.trans hclosed)) true
  · rw [hframe.calls, hframe.streams, hframe.lastId]
    exact h.numbers
  · rw [hframe.calls, hframe.streams]
    exact h.distinct
  · intro hopen
    rw [hframe.responses hopen, hframe.lastId]
    exact h.pending (hframe.closed.symm.trans hopen)
  · rw [hframe.calls, hframe.received]
    exact h.known

theorem Tracked.finishPending (h : s.Tracked) (hquiet : s.closed = true ∨ s.Quiet)
    (error : String) : (s.finishPending error).Tracked := by
  constructor
  · intro p c hc
    obtain ⟨c', hc', rfl⟩ := Option.map_eq_some_iff.mp hc
    refine (h.calls p c' hc').close (fun hregistered => ?_) _
    rcases hquiet with hclosed | hquiet
    · rw [(h.calls p c' hc').past hclosed] at hregistered
      cases hregistered
    · exact hquiet.not_mem hc' hregistered
  · intro p hp
    obtain ⟨hcalls, hstreams⟩ := h.numbers p hp
    simp [Endpoint.finishPending, hcalls, hstreams]
  · intro p c hc
    obtain ⟨c', hc', rfl⟩ := Option.map_eq_some_iff.mp hc
    simp [Endpoint.finishPending, h.distinct p c' hc']
  · intro hopen
    cases hopen
  · intro p c hc hanswer
    obtain ⟨c', hc', rfl⟩ := Option.map_eq_some_iff.mp hc
    refine h.known p c' hc' ?_
    unfold Call.close at hanswer
    split_ifs at hanswer <;> exact hanswer

/-- A connection that is over stays so, and a frame schedules nothing. -/
theorem Ends.quiet (h : Ends s s') (hquiet : s.closed = true ∨ s.Quiet) :
    s'.closed = true ∨ s'.Quiet := by
  cases h with
  | frame hframe =>
      cases hclosed : s'.closed with
      | true => exact .inl rfl
      | false =>
          refine .inr ?_
          rcases hquiet with hover | hquiet
          · rw [← hframe.closed, hclosed] at hover
            cases hover
          · rw [Quiet, hframe.responses hclosed]
            intro r hr
            rw [future, hframe.calls]
            exact hquiet r hr
  | finish u error _ hafter => exact .inl (hafter.closed.trans rfl)

theorem Tracked.ends (h : s.Tracked) (hends : Ends s s')
    (hquiet : s'.closed = true → s.closed = true ∨ s.Quiet) : s'.Tracked := by
  induction hends with
  | frame hframe => exact h.frame hframe
  | finish u error hbefore hafter ih =>
      have hcalm := hquiet (hafter.closed.trans rfl)
      exact ((ih fun _ => hcalm).finishPending (hbefore.quiet hcalm) error).frame hafter

/-- One call changes, and has no answer that it did not have. -/
theorem Tracked.setCall (h : s.Tracked) {packetId : ℕ} {c c' : Call}
    (hcall : s.calls packetId = some c) (htracked : c'.Tracked s.responses packetId s.closed)
    (hanswer : c'.answer = c.answer) : (s.setCall packetId c').Tracked := by
  constructor
  · intro p c'' hc''
    simp only [Endpoint.setCall, Function.update_apply] at hc''
    split_ifs at hc'' with hp
    · cases hc''
      rw [hp]
      exact htracked
    · exact h.calls p c'' hc''
  · intro p hp
    obtain ⟨hcalls, hstreams⟩ := h.numbers p hp
    refine ⟨?_, hstreams⟩
    simp only [Endpoint.setCall, Function.update_apply]
    split_ifs with heq
    · rw [heq, hcall] at hcalls
      cases hcalls
    · exact hcalls
  · intro p c'' hc''
    simp only [Endpoint.setCall, Function.update_apply] at hc''
    split_ifs at hc'' with hp
    · rw [hp]
      exact h.distinct packetId c hcall
    · exact h.distinct p c'' hc''
  · exact h.pending
  · intro p c'' hc'' hsome
    simp only [Endpoint.setCall, Function.update_apply] at hc''
    split_ifs at hc'' with hp
    · cases hc''
      rw [hanswer] at hsome
      rw [hp]
      exact h.known packetId c hcall hsome
    · exact h.known p c'' hc'' hsome

/-- One stream changes. -/
theorem Tracked.setStream (h : s.Tracked) {packetId : ℕ} {w : Stream}
    (hstream : s.streams packetId = some w) (w' : Stream) : (s.setStream packetId w').Tracked := by
  refine ⟨h.calls, fun p hp => ?_, fun p c hc => ?_, h.pending, h.known⟩
  · obtain ⟨hcalls, hstreams⟩ := h.numbers p hp
    refine ⟨hcalls, ?_⟩
    simp only [Endpoint.setStream, Function.update_apply]
    split_ifs with heq
    · rw [heq, hstream] at hstreams
      cases hstreams
    · exact hstreams
  · have hnone := h.distinct p c hc
    simp only [Endpoint.setStream, Function.update_apply]
    split_ifs with heq
    · rw [heq, hstream] at hnone
      cases hnone
    · exact hnone

/-- The task of a response is scheduled. -/
theorem Tracked.executeResponse (h : s.Tracked) {packetId : ℕ} (hnumber : packetId ≤ s.lastId)
    (hreceived : ∃ r ∈ s.received, r.packetId = packetId ∧ r.flags.has Flags.response = true)
    (response : Decoded Bytes) : (s.executeResponse packetId response).Tracked := by
  constructor
  · intro p c hc
    simp only [Endpoint.executeResponse, Function.update_apply] at hc
    split_ifs at hc with hp
    · obtain ⟨c', hc', rfl⟩ := Option.map_eq_some_iff.mp hc
      rw [hp]
      exact (h.calls packetId c' hc').obtain response
    · exact (h.calls p c hc).other (Ne.symm hp)
  · intro p hp
    obtain ⟨hcalls, hstreams⟩ := h.numbers p hp
    refine ⟨?_, hstreams⟩
    simp only [Endpoint.executeResponse, Function.update_apply]
    split_ifs with heq
    · rw [← heq, hcalls]
      rfl
    · exact hcalls
  · intro p c hc
    simp only [Endpoint.executeResponse, Function.update_apply] at hc
    split_ifs at hc with hp
    · obtain ⟨c', hc', rfl⟩ := Option.map_eq_some_iff.mp hc
      rw [hp]
      exact h.distinct packetId c' hc'
    · exact h.distinct p c hc
  · intro hopen r hr
    rcases List.mem_append.mp hr with hr | hr
    · exact h.pending hopen r hr
    · rw [List.mem_singleton.mp hr]
      exact hnumber
  · intro p c hc hanswer
    simp only [Endpoint.executeResponse, Function.update_apply] at hc
    split_ifs at hc with hp
    · rw [hp]
      exact hreceived
    · exact h.known p c hc hanswer

/-- A response under the number of a call is the only one, and the number is in use. -/
def OneResponse (s : Endpoint) (raw : Raw) : Prop :=
  raw.flags.has Flags.response = true → s.streams raw.packetId = none →
    raw.packetId ≤ s.lastId ∧ ∀ r ∈ s.received, r.packetId = raw.packetId →
      r.flags.has Flags.response = false

theorem Tracked.handled (h : s.Tracked) {packet : Packet Bytes} {error : Option String}
    (hhandled : Handled C s packet s' error)
    (hresponse : packet.flags.has Flags.response = true → packet.packetId ≤ s.lastId ∧
      (∀ c, s.calls packet.packetId = some c → c.answer = none) ∧
      ∃ r ∈ s.received, r.packetId = packet.packetId ∧ r.flags.has Flags.response = true) :
    s'.Tracked := by
  cases hhandled with
  | nothing => exact h
  | reply _ => exact h.frame (frame_loop _ _)
  | exceptionStream stream hqueue _ _ => exact h.setStream (queue_eq_some hqueue).1 _
  | exceptionCall call text hfuture _ hflags _ =>
      obtain ⟨hcall, -⟩ := future_eq_some hfuture
      have hnone := (hresponse hflags).2.1 call hcall
      exact h.setCall hcall (Call.tracked_of_unanswered hnone rfl) rfl
  | exceptionInvalid call error hfuture _ hflags _ =>
      obtain ⟨hcall, -⟩ := future_eq_some hfuture
      have hnone := (hresponse hflags).2.1 call hcall
      exact h.setCall hcall (Call.tracked_of_unanswered hnone rfl) rfl
  | credit _ _ _ => exact h.frame (frame_handleStreamCredit ..)
  | item stream hqueue _ _ _ => exact h.setStream (queue_eq_some hqueue).1 _
  | execute kind _ => exact h.frame (frame_execute ..)
  | response _ _ hflags =>
      obtain ⟨hnumber, -, hreceived⟩ := hresponse hflags
      exact h.executeResponse hnumber hreceived _

theorem Tracked.obtained (h : s.Tracked) {raw : Raw} (hone : OneResponse s raw)
    (hobtained : Obtained C { s with received := s.received ++ [raw] } raw s') : s'.Tracked := by
  have hreceived : Tracked { s with received := s.received ++ [raw] } := by
    refine ⟨h.calls, h.numbers, h.distinct, h.pending, fun p c hc hanswer => ?_⟩
    obtain ⟨r, hr, hkind⟩ := h.known p c hc hanswer
    exact ⟨r, List.mem_append_left _ hr, hkind⟩
  cases hobtained with
  | nothing => exact hreceived
  | dispatched packet _ error hdecode hdispatched =>
      cases hdispatched with
      | nothing => exact hreceived
      | reply => exact hreceived.frame (frame_loop _ _)
      | handled packet' _ _ hunpack hhandled =>
          obtain ⟨hid, -, hflags⟩ := unpackLog_spec hunpack
          have hnumber : packet'.packetId = raw.packetId :=
            hid.trans (decodePacket_cases hdecode).1
          refine hreceived.handled hhandled fun hresponse => ?_
          have hraw : raw.flags.has Flags.response = true := by
            rw [← has_response_of_decodePacket hdecode, ← hflags Flags.response (by decide)]
            exact hresponse
          rw [hnumber]
          refine ⟨?_, ?_, raw, List.mem_append_right _ (List.mem_singleton.mpr rfl), rfl, hraw⟩
          · cases hstream : s.streams raw.packetId with
            | none => exact (hone hraw hstream).1
            | some w =>
                by_contra hlarge
                have hnone := (h.numbers raw.packetId (not_le.mp hlarge)).2
                rw [hstream] at hnone
                cases hnone
          · intro c hc
            cases hanswer : c.answer with
            | none => rfl
            | some value =>
                have hc' : s.calls raw.packetId = some c := hc
                obtain ⟨r, hr, hid, hkind⟩ := h.known _ c hc' (by simp [hanswer])
                have hnot := (hone hraw (h.distinct _ c hc')).2 r hr hid
                rw [hkind] at hnot
                cases hnot

theorem future_setCall_of_unregistered {packetId : ℕ} {c : Call} (hc : c.registered = false)
    {p : ℕ} (h : s.future p = none) : (s.setCall packetId c).future p = none := by
  simp only [future, Endpoint.setCall, Function.update_apply]
  split_ifs
  · simp [Option.filter_some, hc]
  · exact h

/-- A packet registers no call, and only an exception ends the loop. -/
theorem Handled.future_eq_none {packet : Packet Bytes} {error : Option String}
    (h : Handled C s packet s' error) :
    s'.closed = s.closed ∧ ∀ p, s.future p = none → s'.future p = none := by
  cases h with
  | nothing => exact ⟨rfl, fun _ hp => hp⟩
  | reply _ => exact ⟨rfl, fun _ hp => hp⟩
  | exceptionStream stream _ _ _ => exact ⟨rfl, fun _ hp => hp⟩
  | exceptionCall call text _ _ _ _ =>
      exact ⟨rfl, fun _ hp => future_setCall_of_unregistered rfl hp⟩
  | exceptionInvalid call error _ _ _ _ =>
      exact ⟨rfl, fun _ hp => future_setCall_of_unregistered rfl hp⟩
  | credit _ _ _ =>
      have hframe := frame_handleStreamCredit C s packet.payload packet.packetId
      refine ⟨hframe.closed, fun p hp => ?_⟩
      rw [future, hframe.calls]
      exact hp
  | item stream _ _ _ _ => exact ⟨rfl, fun _ hp => hp⟩
  | execute kind _ => exact ⟨rfl, fun _ hp => hp⟩
  | response _ _ _ =>
      refine ⟨rfl, fun p hp => ?_⟩
      simp only [future, Endpoint.executeResponse, Function.update_apply]
      split_ifs with heq
      · rw [future, heq] at hp
        cases hcall : s.calls packet.packetId with
        | none => rfl
        | some c =>
            rw [hcall] at hp
            simpa using hp
      · exact hp

theorem Obtained.future_eq_none {raw : Raw} (h : Obtained C s raw s') :
    s'.closed = s.closed ∧ ∀ p, s.future p = none → s'.future p = none := by
  cases h with
  | nothing => exact ⟨rfl, fun _ hp => hp⟩
  | dispatched packet _ error _ hdispatched =>
      cases hdispatched with
      | nothing => exact ⟨rfl, fun _ hp => hp⟩
      | reply => exact ⟨rfl, fun _ hp => hp⟩
      | handled packet' _ _ _ hhandled => exact hhandled.future_eq_none

/-- The task of a response leaves the list, before it hands the response over. -/
theorem Tracked.pop (h : s.Tracked) {packetId : ℕ} {response : Decoded Bytes}
    {responses : List (ℕ × Decoded Bytes)}
    (hresponses : s.responses = (packetId, response) :: responses)
    (hcall : ∀ c, s.calls packetId = some c → c.Tracked responses packetId s.closed) :
    Tracked { s with responses := responses } := by
  refine ⟨fun p c hc => ?_, h.numbers, h.distinct, fun hopen r hr => ?_, h.known⟩
  · by_cases hp : packetId = p
    · subst hp
      exact hcall c hc
    · have htracked := h.calls p c hc
      rw [hresponses] at htracked
      exact htracked.tail hp
  · refine h.pending hopen r ?_
    rw [hresponses]
    exact List.mem_cons_of_mem _ hr

/-- The task of a response finds its call. -/
theorem Tracked.respond (h : s.Tracked) {packetId : ℕ} {response : Decoded Bytes}
    {responses : List (ℕ × Decoded Bytes)}
    (hresponses : s.responses = (packetId, response) :: responses) :
    ({ s with responses := responses }.handleRpcResponse response packetId).Tracked := by
  unfold Endpoint.handleRpcResponse
  cases hqueue : queue { s with responses := responses } packetId with
  | some stream =>
      have hstream : s.streams packetId = some stream := (queue_eq_some hqueue).1
      have hpop := h.pop hresponses fun c hc => by
        have hnone := h.distinct packetId c hc
        rw [hstream] at hnone
        cases hnone
      exact hpop.setStream hstream _
  | none =>
      cases hfuture : future { s with responses := responses } packetId with
      | none =>
          refine h.pop hresponses fun c hc => ?_
          refine (h.calls packetId c hc).unregistered ?_ _
          have hcall : (s.calls packetId).filter (fun c => c.registered) = none := hfuture
          rw [hc, Option.filter_some] at hcall
          simpa using hcall
      | some c =>
          obtain ⟨hcall, hregistered⟩ := future_eq_some hfuture
          have htracked := h.calls packetId c hcall
          rw [hresponses] at htracked
          have hsettled := htracked.answer hregistered
          refine (h.setCall hcall (hsettled.unregistered rfl s.closed) rfl).pop hresponses ?_
          intro c' hc'
          simp only [Endpoint.setCall, Function.update_self] at hc'
          cases hc'
          exact hsettled

/-- A call begins under a new number. -/
theorem Tracked.beginCall (h : s.Tracked) (hopen : s.closed = false) :
    ({ s with lastId := s.lastId + 1 }.setCall (s.lastId + 1) Call.init).Tracked := by
  constructor
  · intro p c hc
    simp only [Endpoint.setCall, Function.update_apply] at hc
    split_ifs at hc with hp
    · cases hc
      have hinit : Call.init.Tracked s.responses p false :=
        Call.tracked_init fun r hr => by
          have hr' := h.pending hopen r hr
          omega
      exact hopen ▸ hinit
    · exact h.calls p c hc
  · intro p hp
    have hlarge : s.lastId + 1 < p := hp
    obtain ⟨hcalls, hstreams⟩ := h.numbers p (Nat.lt_of_succ_lt hlarge)
    refine ⟨?_, hstreams⟩
    simp only [Endpoint.setCall, Function.update_apply]
    rw [if_neg hlarge.ne']
    exact hcalls
  · intro p c hc
    simp only [Endpoint.setCall, Function.update_apply] at hc
    split_ifs at hc with hp
    · rw [hp]
      exact (h.numbers _ (Nat.lt_succ_self _)).2
    · exact h.distinct p c hc
  · exact fun _ r hr => (h.pending hopen r hr).trans (Nat.le_succ _)
  · intro p c hc hanswer
    simp only [Endpoint.setCall, Function.update_apply] at hc
    split_ifs at hc with hp
    · cases hc
      exact absurd rfl hanswer
    · exact h.known p c hc hanswer

/-- A stream begins under a new number. -/
theorem Tracked.beginStream (h : s.Tracked) : s.beginStream.Tracked := by
  refine ⟨h.calls, fun p hp => ?_, fun p c hc => ?_,
    fun hopen r hr => (h.pending hopen r hr).trans (Nat.le_succ _), h.known⟩
  · have hlarge : s.lastId + 1 < p := hp
    obtain ⟨hcalls, hstreams⟩ := h.numbers p (Nat.lt_of_succ_lt hlarge)
    refine ⟨hcalls, ?_⟩
    simp only [Endpoint.beginStream, Endpoint.setStream, Function.update_apply]
    rw [if_neg hlarge.ne']
    exact hstreams
  · simp only [Endpoint.beginStream, Endpoint.setStream, Function.update_apply]
    split_ifs with hp
    · have hnone := (h.numbers (s.lastId + 1) (Nat.lt_succ_self _)).1
      have hc' : s.calls p = some c := hc
      rw [hp, hnone] at hc'
      cases hc'
    · exact h.distinct p c hc

/-- Only the log of the messages changes. -/
theorem Tracked.withSent (h : s.Tracked) (sent : List Message) : Tracked { s with sent := sent } :=
  ⟨h.calls, h.numbers, h.distinct, h.pending, h.known⟩

theorem Tracked.applyStream (h : s.Tracked) {packetId : ℕ} {w : Stream}
    (hstream : s.streams packetId = some w) (effect : StreamEffect) :
    (s.applyStream packetId effect).Tracked :=
  ((h.frame (frame_closeIf s effect.closes)).setStream hstream effect.stream).withSent _

/-- The end of the connection keeps the calls and what they have for an answer. -/
theorem Ends.call (h : Ends s s') {packetId : ℕ} {c : Call} (hcall : s.calls packetId = some c) :
    ∃ c', s'.calls packetId = some c' ∧ c'.answer = c.answer := by
  induction h with
  | frame hframe => exact ⟨c, hframe.calls ▸ hcall, rfl⟩
  | finish u error _ hafter ih =>
      obtain ⟨c', hc', hanswer⟩ := ih
      refine ⟨c'.close (u.closeError.getD error), ?_, ?_⟩
      · rw [hafter.calls]
        simp [Endpoint.finishPending, hc']
      · rw [← hanswer]
        unfold Call.close
        split_ifs <;> rfl

theorem Tracked.modifyCall (h : s.Tracked) {packetId : ℕ} {c : Call} {f : Call → Call}
    (hcall : s.calls packetId = some c)
    (htracked : (f c).Tracked s.responses packetId s.closed) (hanswer : (f c).answer = c.answer) :
    (s.modifyCall packetId f).Tracked := by
  have heq : s.modifyCall packetId f = s.setCall packetId (f c) := by
    simp only [Endpoint.modifyCall, Endpoint.setCall, hcall, Option.map_some]
  rw [heq]
  exact h.setCall hcall htracked hanswer

theorem Tracked.applyCall (h : s.Tracked) {packetId : ℕ} {event : CallEvent} {c : Call}
    {effect : CallEffect} (hcall : s.calls packetId = some c)
    (hstep : c.step packetId s.writerClosing event = some effect)
    (hquiet : (s.applyCall packetId effect).closed = true → s.closed = true ∨ s.Quiet)
    (hsend : ∀ text, event = .fail text ∨ event = .write ∧ s.writerClosing = true →
      c.answer = none) :
    (s.applyCall packetId effect).Tracked := by
  rcases Call.step_cases hstep with
    ⟨hactive, phase, messages, hphase, rfl⟩ | ⟨outcome, hactive, hupdate, hended⟩
  · have htracked := h.calls packetId c hcall
    have hmoved : Call.Tracked s.responses packetId s.closed { c with phase := phase } := by
      refine ⟨htracked.past, fun hregistered => ⟨hphase, (htracked.live hregistered).2⟩,
        htracked.unanswered, fun value hanswer _ => htracked.active value hanswer hactive,
        fun value outcome _ hdone => ?_⟩
      have hdone' : phase = .done outcome := hdone
      rw [hdone'] at hphase
      cases hphase
    exact ((h.frame (frame_closeIf s false)).modifyCall (f := fun c => { c with phase := phase })
      hcall hmoved rfl).withSent _
  · have hends := ends_exceptCall (s.closeIf effect.closes) effect.error
    obtain ⟨c', hc', hanswer⟩ := hends.call hcall
    have hexcept := (h.frame (frame_closeIf s effect.closes)).ends hends hquiet
    have hfinished := (h.calls packetId c hcall).finish hended hactive hanswer hsend s.closed
    refine (hexcept.modifyCall (f := effect.update) hc' ?_ ?_).withSent _
    · rw [hupdate]
      exact hfinished.unregistered rfl _
    · rw [hupdate]
      rfl

/-- The connection does not end while a response waits for its task, the peer answers a
call once, and no send fails whose response is obtained. -/
structure Prompt (C : Codec) (s : Endpoint) (e : EndpointEvent) : Prop where
  quiet : ∀ s', s.step C e = some s' → s.closed = false → s'.closed = true → s.Quiet
  once : ∀ raw, e = .receive raw → OneResponse s raw
  sends : ∀ p text c, e = .callStep p (.fail text) ∨
    e = .callStep p .write ∧ s.writerClosing = true → s.calls p = some c → c.answer = none

/-- A step is prompt while the writer is open and no response waits. -/
theorem prompt_of_quiet (hquiet : s.Quiet) (hwriter : s.writerClosing = false)
    (honce : ∀ raw, e = .receive raw → OneResponse s raw)
    (hsends : ∀ p text, e ≠ .callStep p (.fail text)) : Prompt C s e := by
  refine ⟨fun _ _ _ _ => hquiet, honce, fun p text c hfails _ => ?_⟩
  rcases hfails with hfails | ⟨-, hclosing⟩
  · exact absurd hfails (hsends p text)
  · rw [hwriter] at hclosing
    cases hclosing

theorem Tracked.step (h : s.Tracked) (hprompt : Prompt C s e) (hstep : s.step C e = some s') :
    s'.Tracked := by
  have hquiet : s'.closed = true → s.closed = true ∨ s.Quiet := by
    intro hclosed
    cases hopen : s.closed with
    | true => exact .inl rfl
    | false => exact .inr (hprompt.quiet s' hstep hopen hclosed)
  cases step_spec hstep with
  | other hends => exact h.ends hends hquiet
  | receive raw u hobtained hends hover =>
      refine (h.obtained (hprompt.once raw rfl) hobtained).ends hends fun hclosed => ?_
      obtain ⟨hsame, hfuture⟩ := hobtained.future_eq_none
      rcases hover hclosed with hover | hresponses
      · exact .inl hover
      · rcases hquiet hclosed with hover | hcalm
        · exact .inl (hsame.trans hover)
        · refine .inr fun r hr => hfuture r.1 ?_
          rw [hresponses] at hr
          exact hcalm r hr
  | respond packetId response responses hresponses => exact h.respond hresponses
  | call hopen => exact h.beginCall hopen
  | callStep packetId event c effect hcall heffect =>
      refine h.applyCall hcall heffect hquiet fun text hevent => ?_
      refine hprompt.sends packetId text c ?_ hcall
      rcases hevent with rfl | ⟨rfl, hclosing⟩
      · exact .inl rfl
      · exact .inr ⟨rfl, hclosing⟩
  | stream => exact h.beginStream
  | streamStep packetId event w effect hstream _ => exact h.applyStream hstream effect

/-- The call gets the value of its response: it ended with it unless its caller was
cancelled, and while it waits its future holds the value or, as long as the connection is
up, the task of the response is to come. -/
structure Delivers (s : Endpoint) (packetId : ℕ) (c : Call) (value : Decoded Bytes) : Prop where
  done : ∀ outcome, c.phase = .done outcome → outcome = .value value ∨ outcome = .cancelled
  past : s.closed = true → c.phase.active = true → c.future = .result value
  task : c.phase.active = true → c.future = .result value ∨
    (c.registered = true ∧ awaited s.responses packetId = some (packetId, value))

/-- In every run in which the connection ends only when the tasks of the responses are done,
the peer answers a call once and no send fails whose response is obtained, a call whose
response the loop obtained gets the value of the response. -/
theorem response_delivered (C : Codec) (acceptCode acceptCalls : Bool) {es : List EndpointEvent}
    {s : Endpoint} (hrun : Machine.run (step C) (init acceptCode acceptCalls) es = some s)
    (hprompt : Machine.meets (step C) (Prompt C) (init acceptCode acceptCalls) es)
    {packetId : ℕ} {c : Call} (hcall : s.calls packetId = some c) {value : Decoded Bytes}
    (hanswer : c.answer = some value) : s.Delivers packetId c value := by
  have h : s.Tracked := Machine.run_invariant Tracked
    (fun _ _ _ htracked hok hstep => htracked.step hok hstep) hrun hprompt
    (tracked_init acceptCode acceptCalls)
  have htracked := h.calls packetId c hcall
  refine ⟨fun outcome => htracked.done value outcome hanswer, fun hclosed hactive => ?_,
    htracked.active value hanswer⟩
  rcases htracked.active value hanswer hactive with hresult | ⟨hregistered, -⟩
  · exact hresult
  · rw [htracked.past hclosed] at hregistered
    cases hregistered

/-- A call, and the packet that answers it. -/
def callAnswered : List EndpointEvent :=
  [.call, .callStep 1 .write, .callStep 1 .sent,
    .receive ⟨[78, 46], Flags.rpc ||| Flags.response, 1⟩]

/-- The task of the response runs before the peer goes away. -/
def taskFirst : List EndpointEvent :=
  callAnswered ++ [.respond, .receiveFail "0 bytes read", .callStep 1 .resume]

/-- The loop sees the end before the task of the response runs. -/
def endFirst : List EndpointEvent :=
  callAnswered ++ [.receiveFail "0 bytes read", .respond, .callStep 1 .resume]

theorem taskFirst_delivered :
    ∃ s c, Machine.run (step Codec.plain) (init false false) taskFirst = some s ∧
      s.closed = true ∧ s.calls 1 = some c ∧ c.answer = some (.value [78, 46]) ∧
      c.phase = .done (.value (.value [78, 46])) ∧ s.Delivers 1 c (.value [78, 46]) := by
  have hprompt : Machine.meets (step Codec.plain) (Prompt Codec.plain) (init false false)
      taskFirst := by
    refine ⟨prompt_of_quiet nofun rfl nofun nofun, fun s₁ h₁ => ?_⟩
    cases h₁
    refine ⟨prompt_of_quiet nofun rfl nofun nofun, fun s₂ h₂ => ?_⟩
    cases h₂
    refine ⟨prompt_of_quiet nofun rfl nofun nofun, fun s₃ h₃ => ?_⟩
    cases h₃
    refine ⟨prompt_of_quiet nofun rfl ?_ nofun, fun s₄ h₄ => ?_⟩
    · rintro raw ⟨⟩ - -
      exact ⟨le_refl 1, nofun⟩
    cases h₄
    refine ⟨⟨?_, nofun, fun p text c hfails => ?_⟩, fun s₅ h₅ => ?_⟩
    · rintro s' ⟨⟩ - hclosed
      cases hclosed
    · rcases hfails with hfails | ⟨hfails, -⟩ <;> cases hfails
    cases h₅
    refine ⟨prompt_of_quiet nofun rfl nofun nofun, fun s₆ h₆ => ?_⟩
    cases h₆
    exact ⟨prompt_of_quiet nofun rfl nofun nofun, fun _ _ => trivial⟩
  exact ⟨_, _, rfl, rfl, rfl, rfl, rfl,
    response_delivered Codec.plain false false rfl hprompt rfl rfl⟩

/-- A call fails with the end of the connection although the loop obtained its response. -/
theorem endFirst_not_delivered :
    ∃ s c, Machine.run (step Codec.plain) (init false false) endFirst = some s ∧
      s.calls 1 = some c ∧ c.answer = some (.value [78, 46]) ∧
      c.phase = .done (.failed "0 bytes read") ∧ ¬ s.Delivers 1 c (.value [78, 46]) := by
  refine ⟨_, _, rfl, rfl, rfl, rfl, fun h => ?_⟩
  rcases h.done _ rfl with h | h
  · cases h
  · cases h

end Endpoint

end Rmote
