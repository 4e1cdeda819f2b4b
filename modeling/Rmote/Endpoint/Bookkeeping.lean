import Mathlib.Algebra.Order.Ring.Int
import Rmote.Endpoint.Requests

/-!
# Every request is answered once

A step of a task changes its own request only. `Request.Ok` says what a request is in each phase,
`Moves` what one step makes of it, and `Sound` adds up the requests: the responses on the wire are
those of the requests that are over, and `responses_pending` counts the tasks that are not.
-/

namespace Rmote

namespace Requests

/-- A result that becomes a response. -/
def answerable : Result → Bool
  | .error (.escape _) => false
  | _ => true

/-- The response that a result becomes. -/
inductive Carries (kind : Kind) : Result → Flags × Body → Prop where
  | value (object : Object) (logged : Bool) :
      Carries kind (.ok object)
        (Request.withLog (kind.flags ||| Flags.response) logged, .value object)
  | exception (error : Object) (logged : Bool) :
      Carries kind (.error (.exception error))
        (Request.withLog (Flags.exception ||| Flags.response) logged, .exception error)

theorem Carries.answerable {kind : Kind} {result : Result} {a : Flags × Body}
    (h : Carries kind result a) : Requests.answerable result = true := by
  cases h <;> rfl

/-- The final response to a request with this result: the result itself, or the report that it
cannot be serialized. -/
def Final (kind : Kind) (result : Result) (a : Flags × Body) : Prop :=
  Carries kind result a ∨
    ∃ type, answerable result = true ∧ a = (Flags.exception ||| Flags.response, .fallback type)

namespace Request

/-- What a request is in each phase. -/
def Ok (closed : Bool) (r : Request) : Prop :=
  match r.phase with
  | .created | .running | .streaming | .unwinding _ => r.outcome = none
  | .sending flags body => ∃ result, r.outcome = some result ∧ Carries r.kind result (flags, body)
  | .reporting _ => ∃ result, r.outcome = some result ∧ answerable result = true
  | .done (some a) => ∃ result, r.outcome = some result ∧ Final r.kind result a
  | .done none => closed = false → ∃ e, r.outcome = some (.error (.escape e))

/-- The responses that were sent for a request. -/
def answers (r : Request) (number : ℕ) : List Answer :=
  match r.phase with
  | .done (some a) => [⟨number, r.packetId, a.1, a.2⟩]
  | _ => []

/-- What one step makes of a request. -/
structure Moves (r : Request) (effect : Effect) : Prop where
  packetId : effect.request.packetId = r.packetId
  served : effect.request.served = r.served
  unfinished : r.phase.isDone = false
  ok : effect.request.Ok effect.closes
  answer : ∀ number, effect.request.answers number =
    (effect.answer.map fun a => ⟨number, r.packetId, a.1, a.2⟩).toList

variable {r : Request} {effect : Effect} {closed : Bool}

/-- After the end of the connection less is said of a request. -/
theorem Ok.mono {closed' : Bool} (h : r.Ok closed) (himp : closed = true → closed' = true) :
    r.Ok closed' := by
  have hopen : closed' = false → closed = false := by
    intro hclosed'
    by_contra hclosed
    rw [himp (by simpa using hclosed)] at hclosed'
    cases hclosed'
  unfold Ok at h ⊢
  split at h
  all_goals simp_all

theorem answers_of_unfinished (h : r.phase.isDone = false) (number : ℕ) :
    r.answers number = [] := by
  unfold answers
  split
  · rename_i hphase
    rw [hphase] at h
    cases h
  · rfl

/-- The handler ends. -/
theorem moves_conclude (h : r.phase.isDone = false) (result : Result) (logged : Bool) :
    r.Moves (r.conclude result logged) := by
  match result with
  | .ok value => exact ⟨rfl, rfl, h, ⟨_, rfl, .value value logged⟩, fun _ => rfl⟩
  | .error (.exception error) => exact ⟨rfl, rfl, h, ⟨_, rfl, .exception error logged⟩, fun _ => rfl⟩
  | .error (.escape e) => exact ⟨rfl, rfl, h, fun _ => ⟨e, rfl⟩, fun _ => rfl⟩

/-- A task that is not over has a next step. -/
theorem exists_step (h : r.phase.isDone = false) : ∃ event effect, r.step event = some effect := by
  obtain ⟨packetId, kind, served, stopped, phase, outcome⟩ := r
  cases phase with
  | created =>
      cases kind with
      | sync => exact ⟨.start false, _, rfl⟩
      | rpc => exact ⟨.start false, _, rfl⟩
  | running => exact ⟨.ended (.ok .none) false, _, rfl⟩
  | streaming => exact ⟨.streamEnded none, _, rfl⟩
  | unwinding raised =>
      cases raised with
      | none => exact ⟨.unwound none false, _, rfl⟩
      | some raised => exact ⟨.unwound none false, _, rfl⟩
  | sending flags body => exact ⟨.send .sent, _, rfl⟩
  | reporting type => exact ⟨.send .sent, _, rfl⟩
  | done answer => cases h

theorem step_sent {flags : Flags} {body : Body} (h : r.phase = .sending flags body) :
    r.step (.send .sent) = some (r.deliver flags body) := by
  cases r
  cases h
  rfl

/-- A response that cannot be serialized is reported. -/
theorem step_failed {flags : Flags} {body : Body} (h : r.phase = .sending flags body)
    (type : String) : r.step (.send (.failed type false)) = some (r.move (.reporting type)) := by
  cases r
  cases h
  rfl

theorem moves_send {event : SendEvent} (hok : r.Ok false) (h : r.send event = some effect) :
    r.Moves effect := by
  unfold send at h
  split at h
  · rename_i flags body hphase
    rw [Ok, hphase] at hok
    obtain ⟨result, hresult, hcarries⟩ := hok
    cases h
    exact ⟨rfl, rfl, by rw [hphase]; rfl, ⟨result, hresult, .inl hcarries⟩, fun _ => rfl⟩
  · rename_i flags body type closing hphase
    rw [Ok, hphase] at hok
    obtain ⟨result, hresult, hcarries⟩ := hok
    split_ifs at h
    · cases h
      exact ⟨rfl, rfl, by rw [hphase]; rfl, nofun, fun _ => rfl⟩
    · cases h
      exact ⟨rfl, rfl, by rw [hphase]; rfl, ⟨result, hresult, hcarries.answerable⟩, fun _ => rfl⟩
  · rename_i type hphase
    rw [Ok, hphase] at hok
    obtain ⟨result, hresult, hanswerable⟩ := hok
    cases h
    exact ⟨rfl, rfl, by rw [hphase]; rfl, ⟨result, hresult, .inr ⟨type, hanswerable, rfl⟩⟩,
      fun _ => rfl⟩
  · rename_i hphase
    cases h
    exact ⟨rfl, rfl, by rw [hphase]; rfl, nofun, fun _ => rfl⟩
  · rename_i e hphase
    cases h
    exact ⟨rfl, rfl, by rw [hphase]; rfl, fun _ => ⟨e, rfl⟩, fun _ => rfl⟩
  · rename_i e hphase
    cases h
    exact ⟨rfl, rfl, by rw [hphase]; rfl, fun _ => ⟨e, rfl⟩, fun _ => rfl⟩
  · cases h

/-- What a step of a task does, with the registration that goes with it. -/
theorem moves_step {event : TaskEvent} (hok : r.Ok false) (h : r.step event = some effect) :
    r.Moves effect := by
  unfold step at h
  split at h
  · rename_i streaming hphase
    have hmoves : ∀ phase, phase = .streaming ∨ phase = .running → r.Moves (r.move phase) := by
      rw [Ok, hphase] at hok
      rintro phase (rfl | rfl)
      · exact ⟨rfl, rfl, by rw [hphase]; rfl, hok, fun _ => rfl⟩
      · exact ⟨rfl, rfl, by rw [hphase]; rfl, hok, fun _ => rfl⟩
    split at h
    · cases h
      exact hmoves _ (.inl rfl)
    · cases h
    · cases h
      exact hmoves _ (.inr rfl)
  · rename_i result logged hphase
    cases h
    exact moves_conclude (by rw [hphase]; rfl) result logged
  · rename_i raised hphase
    rw [Ok, hphase] at hok
    cases h
    exact ⟨rfl, rfl, by rw [hphase]; rfl, hok, fun _ => rfl⟩
  · rename_i raised later logged hphase
    have hunfinished : r.phase.isDone = false := by rw [hphase]; rfl
    split at h
    · cases h
      exact moves_conclude hunfinished _ logged
    · cases h
      exact moves_conclude hunfinished _ logged
  · exact moves_send hok h
  · cases h

end Request

/-! ## All requests together -/

namespace Server

structure Sound (s : Server) : Prop where
  pending : s.responsesPending = (s.requests.countP Request.active : ℤ)
  ok : ∀ r ∈ s.requests, r.Ok s.closed
  answers : ∀ n r, s.requests[n]? = some r → s.answersTo n = r.answers n
  fresh : ∀ a ∈ s.wire, a.number < s.requests.length
  senders : ∀ p n, s.senders p = some n →
    ∃ r, s.requests[n]? = some r ∧ r.served = true ∧ r.phase = .streaming ∧ r.packetId = p

variable {s s' : Server} {r : Request} {n : ℕ} {effect : Effect}

theorem sound_new (acceptCode acceptCalls : Bool) : (new acceptCode acceptCalls).Sound where
  pending := rfl
  ok _ hr := absurd hr List.not_mem_nil
  answers _ _ hr := by cases hr
  fresh _ ha := absurd ha List.not_mem_nil
  senders _ _ hsender := by cases hsender

theorem mem_of_number (h : s.requests[n]? = some r) : r ∈ s.requests := List.mem_of_getElem? h

/-- A new request that has no response yet. -/
theorem Sound.append (h : s.Sound) (hok : r.Ok false)
    (hunfinished : r.phase.isDone = false) {pending : ℤ}
    (hpending : pending = s.responsesPending + if r.active then 1 else 0) (loop : Loop) :
    Sound { s with requests := s.requests ++ [r], responsesPending := pending, loop := loop } where
  pending := by
    dsimp only
    rw [hpending, h.pending, List.countP_append, List.countP_singleton]
    push_cast
    split_ifs <;> rfl
  ok r' hr' := by
    rcases List.mem_append.mp hr' with hr' | hr'
    · exact h.ok r' hr'
    · rw [List.mem_singleton.mp hr']
      exact hok.mono (by simp)
  answers m r' hr' := by
    dsimp only at hr'
    rcases lt_or_ge m s.requests.length with hm | hm
    · rw [List.getElem?_append_left hm] at hr'
      exact h.answers m r' hr'
    · rw [List.getElem?_append_right hm] at hr'
      have hlast : m - s.requests.length < 1 := (List.getElem?_eq_some_iff.mp hr').1
      have hnew : r' = r := by
        rw [show m - s.requests.length = 0 by omega] at hr'
        exact (Option.some.inj hr').symm
      rw [hnew, Request.answers_of_unfinished hunfinished]
      refine List.filter_eq_nil_iff.mpr fun a ha => ?_
      have hfresh := h.fresh a ha
      rw [decide_eq_true_eq]
      omega
  fresh a ha := by
    rw [List.length_append]
    exact (h.fresh a ha).trans_le (Nat.le_add_right _ _)
  senders p m hm := by
    obtain ⟨r', hr', hstreaming⟩ := h.senders p m hm
    have hlt := (List.getElem?_eq_some_iff.mp hr').1
    exact ⟨r', by rw [List.getElem?_append_left hlt]; exact hr', hstreaming⟩

/-- A request that moved; the registry and the loop may change with it. -/
theorem Sound.applied (h : s.Sound) (hr : s.requests[n]? = some r) (hm : r.Moves effect)
    {t : Server} (hrequests : t.requests = (s.apply n r effect).requests)
    (hpending : t.responsesPending = (s.apply n r effect).responsesPending)
    (hwire : t.wire = (s.apply n r effect).wire)
    (hclosed : (s.apply n r effect).closed = true → t.closed = true)
    (hsenders : ∀ p m, t.senders p = some m →
      ∃ r, t.requests[m]? = some r ∧ r.served = true ∧ r.phase = .streaming ∧ r.packetId = p) :
    t.Sound where
  pending := by
    have hlt := (List.getElem?_eq_some_iff.mp hr).1
    have hget : s.requests[n] = r := (List.getElem?_eq_some_iff.mp hr).2
    have hpos : r.active = true → 0 < s.requests.countP Request.active := fun hactive =>
      List.countP_pos_iff.mpr ⟨r, mem_of_number hr, hactive⟩
    have hlater : effect.request.active = true → r.active = true := by
      rw [Request.active, Request.active, hm.served, hm.unfinished, Bool.and_eq_true]
      exact fun hactive => by rw [hactive.1]; rfl
    rw [hpending, hrequests]
    dsimp only [apply]
    rw [List.countP_set hlt, hget, h.pending]
    cases hbefore : r.active <;> cases hafter : effect.request.active
    · simp
    · rw [hbefore] at hlater
      cases hlater hafter
    · have hone := hpos hbefore
      simp only [Bool.not_false, Bool.and_self, if_true, Bool.false_eq_true, if_false]
      omega
    · have hone := hpos hbefore
      simp only [Bool.not_true, Bool.and_false, Bool.false_eq_true, if_false, if_true]
      omega
  ok r' hr' := by
    rw [hrequests] at hr'
    rcases List.mem_or_eq_of_mem_set hr' with hr' | rfl
    · refine (h.ok r' hr').mono fun hs => hclosed ?_
      simp [apply, hs]
    · refine hm.ok.mono fun hcloses => hclosed ?_
      simp [apply, hcloses]
  answers m r' hr' := by
    have hsplit : t.answersTo m = s.answersTo m ++ if n = m then
        ((effect.answer.map fun a => (⟨n, r.packetId, a.1, a.2⟩ : Answer)).toList) else [] := by
      rw [answersTo, hwire, apply, List.filter_append, ← answersTo]
      congr 1
      cases effect.answer with
      | none => simp
      | some a => simp [List.filter_cons]
    rw [hrequests] at hr'
    dsimp only [apply] at hr'
    rw [List.getElem?_set] at hr'
    rw [hsplit]
    by_cases hnm : n = m
    · subst hnm
      rw [if_pos rfl, if_pos (List.getElem?_eq_some_iff.mp hr).1] at hr'
      cases hr'
      rw [if_pos rfl, h.answers n r hr, Request.answers_of_unfinished hm.unfinished, hm.answer]
      rfl
    · rw [if_neg hnm] at hr'
      rw [if_neg hnm, List.append_nil]
      exact h.answers m r' hr'
  fresh a ha := by
    rw [hrequests, apply, List.length_set]
    rw [hwire, apply] at ha
    rcases List.mem_append.mp ha with ha | ha
    · exact h.fresh a ha
    · rw [Option.mem_toList, Option.map_eq_some_iff] at ha
      obtain ⟨b, -, rfl⟩ := ha
      exact (List.getElem?_eq_some_iff.mp hr).1
  senders := hsenders

/-- The registry names other requests after a step of this one. -/
theorem Sound.senders_set (h : s.Sound) (hr : s.requests[n]? = some r)
    {p m : ℕ} (hm : s.senders p = some m) (hother : r.phase = .streaming → p ≠ r.packetId)
    (r' : Request) :
    ∃ q, (s.requests.set n r')[m]? = some q ∧ q.served = true ∧ q.phase = .streaming ∧
      q.packetId = p := by
  obtain ⟨q, hq, hserved, hstreaming, hpacketId⟩ := h.senders p m hm
  have hne : n ≠ m := by
    rintro rfl
    cases hr.symm.trans hq
    exact hother hstreaming hpacketId.symm
  exact ⟨q, by rw [List.getElem?_set_ne hne]; exact hq, hserved, hstreaming, hpacketId⟩

theorem Sound.receive (h : s.Sound) (incoming : Incoming) : (s.receive incoming).Sound := by
  have hrefuse : ∀ error, (s.refuse incoming error).Sound := by
    intro error
    let r : Request := ⟨incoming.packetId, incoming.kind, false, false, .created, none⟩
    have hmoves : r.Moves (r.conclude (.error (.exception error)) incoming.logged) :=
      Request.moves_conclude rfl _ _
    exact h.append hmoves.ok rfl (add_zero _).symm (.replying s.requests.length)
  unfold Server.receive
  split_ifs
  · exact hrefuse _
  · split
    · exact hrefuse _
    · split
      · exact ⟨h.pending, fun r hr => (h.ok r hr).mono fun _ => rfl, h.answers, h.fresh, h.senders⟩
      · let r : Request := ⟨incoming.packetId, incoming.kind, true, false, .created, none⟩
        have hok : r.Ok false := rfl
        exact h.append hok rfl rfl s.loop

theorem Sound.handleStop (h : s.Sound) (p : ℕ) : (s.handleStop p).Sound := by
  unfold Server.handleStop
  cases hsender : s.senders p with
  | none => exact h
  | some n =>
      obtain ⟨r, hr, hserved, hstreaming, hpacketId⟩ := h.senders p n hsender
      dsimp only
      rw [hr]
      have hmoves : r.Moves ⟨{ r with stopped := true }, none, s.closed, false⟩ := by
        have hok := h.ok r (mem_of_number hr)
        exact ⟨rfl, rfl, by rw [hstreaming]; rfl, hok, fun n => Request.answers_of_unfinished (by rw [hstreaming]; rfl) n⟩
      refine h.applied hr hmoves rfl ?_ (List.append_nil _).symm ?_ fun p' m hm => ?_
      · have hactive : Request.active { r with stopped := true } = r.active := rfl
        simp [apply, hactive]
      · simp [apply]
      · by_cases hmn : n = m
        · subst hmn
          obtain ⟨q, hq, hq'⟩ := h.senders p' n hm
          cases hr.symm.trans hq
          refine ⟨{ r with stopped := true }, ?_, hq'⟩
          exact List.getElem?_set_self (List.getElem?_eq_some_iff.mp hr).1
        · obtain ⟨q, hq, hq'⟩ := h.senders p' m hm
          exact ⟨q, by dsimp only; rw [List.getElem?_set_ne hmn]; exact hq, hq'⟩

/-- The loop of a stream is left by its own step only. -/
theorem step_streaming {event : TaskEvent} (h : r.step event = some effect)
    (hphase : r.phase = .streaming) : ∃ raised, event = .streamEnded raised := by
  unfold Request.step at h
  rw [hphase] at h
  cases event with
  | streamEnded raised => exact ⟨raised, rfl⟩
  | send event =>
      dsimp only at h
      unfold Request.send at h
      rw [hphase] at h
      cases event <;> cases h
  | _ => cases h

theorem step_start (h : r.step (.start true) = some effect) :
    r.phase = .created ∧ effect.request = { r with phase := .streaming } := by
  unfold Request.step at h
  cases hphase : r.phase with
  | created =>
      rw [hphase] at h
      cases hkind : r.kind with
      | sync =>
          rw [hkind] at h
          cases h
      | rpc =>
          rw [hkind] at h
          cases h
          exact ⟨rfl, by rw [Request.move, hkind]⟩
  | _ =>
      rw [hphase] at h
      cases h

theorem send_not_streaming {event : SendEvent} (h : r.send event = some effect) :
    r.phase ≠ .streaming := by
  intro hphase
  unfold Request.send at h
  rw [hphase] at h
  cases event <;> cases h

/-- A step of a task, with the registry. -/
theorem Sound.task (h : s.Sound) (hopen : s.closed = false) (hr : s.requests[n]? = some r)
    (hserved : r.served = true) {event : TaskEvent} (hstep : r.step event = some effect) :
    ((s.apply n r effect).register n r.packetId event).Sound := by
  have hok := h.ok r (mem_of_number hr)
  rw [hopen] at hok
  have hmoves := Request.moves_step hok hstep
  have hlt := (List.getElem?_eq_some_iff.mp hr).1
  by_cases hstart : event = .start true
  · subst hstart
    have hphase := step_start hstep
    refine h.applied hr hmoves rfl rfl rfl id fun p m hm => ?_
    dsimp only [register] at hm ⊢
    by_cases hp : p = r.packetId
    · rw [hp, Function.update_self] at hm
      cases hm
      refine ⟨effect.request, List.getElem?_set_self hlt, ?_⟩
      rw [hphase.2, hp]
      exact ⟨hserved, rfl, rfl⟩
    · rw [Function.update_of_ne hp] at hm
      exact h.senders_set hr hm (by rw [hphase.1]; exact nofun) _
  · by_cases hend : ∃ raised, event = .streamEnded raised
    · obtain ⟨raised, rfl⟩ := hend
      refine h.applied hr hmoves rfl rfl rfl id fun p m hm => ?_
      dsimp only [register] at hm ⊢
      by_cases hp : p = r.packetId
      · rw [hp, Function.update_self] at hm
        cases hm
      · rw [Function.update_of_ne hp] at hm
        exact h.senders_set hr hm (fun _ => hp) _
    · have hregister : (s.apply n r effect).register n r.packetId event = s.apply n r effect := by
        unfold register
        split
        · exact absurd rfl hstart
        · exact absurd ⟨_, rfl⟩ hend
        · rfl
      rw [hregister]
      refine h.applied hr hmoves rfl rfl rfl id fun p m hm => ?_
      exact h.senders_set hr hm (fun hphase => absurd (step_streaming hstep hphase) hend) _

/-- A refusal that the loop sends. -/
theorem Sound.reply (h : s.Sound) (hopen : s.closed = false) (hr : s.requests[n]? = some r)
    {event : SendEvent} (hsend : r.send event = some effect) :
    ((s.apply n r effect).afterReply effect event).Sound := by
  have hok := h.ok r (mem_of_number hr)
  rw [hopen] at hok
  have hmoves := Request.moves_send hok hsend
  have hsenders : ∀ p m, s.senders p = some m → ∃ q, (s.requests.set n effect.request)[m]? = some q ∧
      q.served = true ∧ q.phase = .streaming ∧ q.packetId = p :=
    fun p m hm => h.senders_set hr hm (fun hphase => absurd hphase (send_not_streaming hsend)) _
  unfold afterReply
  split
  · exact h.applied hr hmoves rfl rfl rfl (fun _ => rfl) hsenders
  · split_ifs
    · exact h.applied hr hmoves rfl rfl rfl id hsenders
    · exact h.applied hr hmoves rfl rfl rfl id hsenders

theorem Sound.step (h : s.Sound) {event : Event} (hstep : s.step event = some s') : s'.Sound := by
  unfold Server.step at hstep
  split_ifs at hstep with hover
  rw [Bool.or_eq_true, not_or, Bool.not_eq_true, Bool.not_eq_true] at hover
  cases event with
  | configure acceptCode acceptCalls =>
      cases hstep
      exact ⟨h.pending, h.ok, h.answers, h.fresh, h.senders⟩
  | request incoming =>
      dsimp only [act] at hstep
      split at hstep
      · cases hstep
        exact h.receive incoming
      · cases hstep
  | stop packetId =>
      dsimp only [act] at hstep
      split at hstep
      · cases hstep
        exact h.handleStop packetId
      · cases hstep
  | reply event =>
      dsimp only [act] at hstep
      split at hstep
      · cases hstep
      · obtain ⟨r, hr, hsend⟩ := Option.bind_eq_some_iff.mp hstep
        obtain ⟨effect, heffect, rfl⟩ := Option.map_eq_some_iff.mp hsend
        exact h.reply hover.1 hr heffect
  | task number event =>
      obtain ⟨r, hr, htask⟩ := Option.bind_eq_some_iff.mp hstep
      obtain ⟨hserved, htask⟩ := Option.ite_none_right_eq_some.mp htask
      obtain ⟨effect, heffect, rfl⟩ := Option.map_eq_some_iff.mp htask
      exact h.task hover.1 hr hserved heffect
  | close =>
      cases hstep
      exact ⟨h.pending, fun r hr => (h.ok r hr).mono fun _ => rfl, h.answers, h.fresh, h.senders⟩

theorem sound_run {acceptCode acceptCalls : Bool} {events : List Event}
    (hrun : Machine.run step (new acceptCode acceptCalls) events = some s) : s.Sound :=
  Machine.run_always Sound (fun _ _ _ h hstep => h.step hstep) hrun (sound_new _ _)

/-- A step that ends the connection or leaves the event loop: the peer or the transport ends it, a
call is no mapping, a send fails while the writer is closing, the report of a response fails, or
something other than an `Exception` ends the loop or exits. -/
def Ending (s : Server) : Event → Prop
  | .close => True
  | .request incoming => incoming.kind = .rpc ∧ incoming.mapping = false
  | .reply (.interrupted _) => True
  | .reply (.failed _ closing) => closing = true ∨
      ∃ n r type, s.loop = .replying n ∧ s.requests[n]? = some r ∧ r.phase = .reporting type
  | .task n (.send (.failed _ closing)) => closing = true ∨
      ∃ r type, s.requests[n]? = some r ∧ r.phase = .reporting type
  | .task _ (.send (.interrupted e)) => e = .exit
  | .task _ (.ended result _) => result = .error (.escape .exit)
  | .task n (.unwound later _) => ∃ r raised, s.requests[n]? = some r ∧
      r.phase = .unwinding raised ∧ later.or raised = some (.escape .exit)
  | _ => False

theorem conclude_closes (r : Request) (result : Result) (logged : Bool) :
    (r.conclude result logged).closes = false ∧
      ((r.conclude result logged).halts = true → result = .error (.escape .exit)) := by
  match result with
  | .ok value => exact ⟨rfl, nofun⟩
  | .error (.exception error) => exact ⟨rfl, nofun⟩
  | .error (.escape e) =>
      refine ⟨rfl, fun hhalts => ?_⟩
      rw [of_decide_eq_true hhalts]

theorem send_closes {event : SendEvent} (h : r.send event = some effect) :
    (effect.closes = true → ∃ type closing, event = .failed type closing ∧
      (closing = true ∨ ∃ type, r.phase = .reporting type)) ∧
    (effect.halts = true → event = .interrupted .exit) := by
  unfold Request.send at h
  split at h
  · cases h
    exact ⟨nofun, nofun⟩
  · split_ifs at h with hclosing
    · cases h
      exact ⟨fun _ => ⟨_, _, rfl, .inl hclosing⟩, nofun⟩
    · cases h
      exact ⟨nofun, nofun⟩
  · cases h
    exact ⟨nofun, nofun⟩
  · rename_i hphase
    cases h
    exact ⟨fun _ => ⟨_, _, rfl, .inr ⟨_, hphase⟩⟩, nofun⟩
  · cases h
    exact ⟨nofun, fun hhalts => by rw [of_decide_eq_true hhalts]⟩
  · cases h
    exact ⟨nofun, fun hhalts => by rw [of_decide_eq_true hhalts]⟩
  · cases h

theorem task_ending (hr : s.requests[n]? = some r) {event : TaskEvent}
    (hstep : r.step event = some effect) (h : effect.closes = true ∨ effect.halts = true) :
    s.Ending (.task n event) := by
  unfold Request.step at hstep
  split at hstep
  · split at hstep <;> cases hstep
    all_goals rcases h with h | h <;> cases h
  · cases hstep
    rcases h with h | h
    · rw [(conclude_closes _ _ _).1] at h
      cases h
    · exact (conclude_closes _ _ _).2 h
  · cases hstep
    rcases h with h | h <;> cases h
  · rename_i hphase
    split at hstep
    · rename_i raised hraised
      cases hstep
      rcases h with h | h
      · rw [(conclude_closes _ _ _).1] at h
        cases h
      · cases (conclude_closes _ _ _).2 h
        exact ⟨r, _, hr, hphase, hraised⟩
    · cases hstep
      rcases h with h | h
      · rw [(conclude_closes _ _ _).1] at h
        cases h
      · cases (conclude_closes _ _ _).2 h
  · rename_i event
    obtain ⟨hcloses, hhalts⟩ := send_closes hstep
    rcases h with h | h
    · obtain ⟨type, closing, rfl, hclosing | ⟨type, hphase⟩⟩ := hcloses h
      · exact .inl hclosing
      · exact .inr ⟨r, type, hr, hphase⟩
    · rw [hhalts h]
      rfl
  · cases hstep

/-- Only such a step ends the receive loop. -/
theorem open_step {event : Event} (hstep : s.step event = some s') (hevent : ¬ s.Ending event) :
    s'.closed = false ∧ s'.halted = false := by
  unfold Server.step at hstep
  split_ifs at hstep with hover
  rw [Bool.or_eq_true, not_or, Bool.not_eq_true, Bool.not_eq_true] at hover
  cases event with
  | configure acceptCode acceptCalls =>
      cases hstep
      exact hover
  | request incoming =>
      dsimp only [act] at hstep
      split at hstep
      · cases hstep
        unfold Server.receive
        split_ifs
        · exact hover
        · split
          · exact hover
          · split
            · rename_i hkind hmapping
              exact absurd ⟨hkind, hmapping⟩ hevent
            · exact hover
      · cases hstep
  | stop packetId =>
      dsimp only [act] at hstep
      split at hstep
      · cases hstep
        unfold Server.handleStop
        split
        · exact hover
        · split <;> exact hover
      · cases hstep
  | reply event =>
      dsimp only [act] at hstep
      split at hstep
      · cases hstep
      · rename_i n hloop
        obtain ⟨r, hr, hsend⟩ := Option.bind_eq_some_iff.mp hstep
        obtain ⟨effect, heffect, rfl⟩ := Option.map_eq_some_iff.mp hsend
        obtain ⟨hcloses, hhalts⟩ := send_closes heffect
        have hopen : effect.closes = false := by
          by_contra hclosed
          obtain ⟨type, closing, rfl, hending⟩ := hcloses (by simpa using hclosed)
          exact hevent (hending.imp id fun ⟨type, hphase⟩ => ⟨n, r, type, hloop, hr, hphase⟩)
        have hstays : effect.halts = false := by
          by_contra hhalted
          rw [hhalts (by simpa using hhalted)] at hevent
          exact hevent trivial
        have happly : (s.apply n r effect).closed = false ∧ (s.apply n r effect).halted = false := by
          simp [apply, hover, hopen, hstays]
        unfold afterReply
        split
        · exact absurd trivial hevent
        · split_ifs <;> exact happly
  | task number event =>
      obtain ⟨r, hr, htask⟩ := Option.bind_eq_some_iff.mp hstep
      obtain ⟨hserved, htask⟩ := Option.ite_none_right_eq_some.mp htask
      obtain ⟨effect, heffect, rfl⟩ := Option.map_eq_some_iff.mp htask
      have hnot : ¬ (effect.closes = true ∨ effect.halts = true) :=
        fun h => hevent (task_ending hr heffect h)
      rw [not_or, Bool.not_eq_true, Bool.not_eq_true] at hnot
      have happly : (s.apply number r effect).closed = false ∧
          (s.apply number r effect).halted = false := by
        simp [apply, hover, hnot]
      unfold register
      split <;> exact happly
  | close => exact absurd trivial hevent

/-- The responses to a request that is open to a response, and to one that is not. -/
theorem Sound.answered (h : s.Sound) (hopen : s.closed = false) (hr : s.requests[n]? = some r) :
    (∀ result, r.outcome = some result → answerable result = true → r.phase.isDone = true →
      ∃ a, s.answersTo n = [⟨n, r.packetId, a.1, a.2⟩] ∧ Final r.kind result a) ∧
    (r.phase.isDone = false → s.answersTo n = []) ∧
    ∀ e, r.outcome = some (.error (.escape e)) → s.answersTo n = [] := by
  have hok := h.ok r (mem_of_number hr)
  rw [hopen] at hok
  rw [h.answers n r hr]
  refine ⟨fun result hresult hanswerable hdone => ?_,
    fun hunfinished => Request.answers_of_unfinished hunfinished n, fun e he => ?_⟩
  · unfold Request.Ok at hok
    split at hok
    case h_7 a hphase =>
        obtain ⟨result', hresult', hfinal⟩ := hok
        cases hresult.symm.trans hresult'
        exact ⟨a, by rw [Request.answers, hphase], hfinal⟩
    case h_8 hphase =>
        obtain ⟨e, he⟩ := hok rfl
        cases hresult.symm.trans he
        cases hanswerable
    all_goals
      rename_i hphase
      rw [hphase] at hdone
      cases hdone
  · unfold Request.Ok at hok
    unfold Request.answers
    split
    · rename_i a hphase
      rw [hphase] at hok
      obtain ⟨result, hresult, hfinal⟩ := hok
      cases he.symm.trans hresult
      rcases hfinal with hcarries | ⟨type, hanswerable, -⟩
      · cases hcarries
      · cases hanswerable
    · rfl

theorem step_task (hopen : s.closed = false) (hhalted : s.halted = false)
    (hr : s.requests[n]? = some r) (hserved : r.served = true) {event : TaskEvent}
    (hstep : r.step event = some effect) :
    s.step (.task n event) = some ((s.apply n r effect).register n r.packetId event) := by
  simp [Server.step, act, hopen, hhalted, hr, hserved, hstep]

/-- A task that is not over can always go on. -/
theorem exists_step (hopen : s.closed = false) (hhalted : s.halted = false)
    (hr : s.requests[n]? = some r) (hactive : r.active = true) :
    ∃ event t, s.step (.task n event) = some t := by
  obtain ⟨hserved, hunfinished⟩ := Bool.and_eq_true_iff.mp hactive
  rw [Bool.not_eq_true'] at hunfinished
  obtain ⟨event, effect, heffect⟩ := Request.exists_step hunfinished
  exact ⟨event, _, step_task hopen hhalted hr hserved heffect⟩

/-- A response that is under way is sent, or the report of it. -/
theorem Sound.send_answers (h : s.Sound) (hopen : s.closed = false) (hhalted : s.halted = false)
    (hr : s.requests[n]? = some r) (hserved : r.served = true) {flags : Flags} {body : Body}
    (hphase : r.phase = .sending flags body) :
    (∃ t, s.step (.task n (.send .sent)) = some t ∧
      t.answersTo n = [⟨n, r.packetId, flags, body⟩]) ∧
    ∀ type, ∃ t u, s.step (.task n (.send (.failed type false))) = some t ∧
      t.step (.task n (.send .sent)) = some u ∧
      u.answersTo n = [⟨n, r.packetId, Flags.exception ||| Flags.response, .fallback type⟩] := by
  have hlt := (List.getElem?_eq_some_iff.mp hr).1
  constructor
  · have hsent := Request.step_sent hphase
    refine ⟨_, step_task hopen hhalted hr hserved hsent, ?_⟩
    have hnext := h.task hopen hr hserved hsent
    exact hnext.answers n _ (List.getElem?_set_self hlt)
  · intro type
    have hfailed := Request.step_failed hphase type
    have hnext := h.task hopen hr hserved hfailed
    have hr' : (s.apply n r (r.move (.reporting type))).requests[n]? =
        some { r with phase := .reporting type } := List.getElem?_set_self hlt
    have hsent : Request.step { r with phase := .reporting type } (.send .sent) =
        some (Request.deliver { r with phase := .reporting type }
          (Flags.exception ||| Flags.response) (.fallback type)) := rfl
    have hopen' : (s.apply n r (r.move (.reporting type))).closed = false ∧
        (s.apply n r (r.move (.reporting type))).halted = false := by
      simp [apply, Request.move, hopen, hhalted]
    refine ⟨_, _, step_task hopen hhalted hr hserved hfailed,
      step_task hopen'.1 hopen'.2 hr' hserved hsent, ?_⟩
    have hlast := hnext.task hopen'.1 hr' hserved hsent
    exact hlast.answers n _ (List.getElem?_set_self (List.getElem?_eq_some_iff.mp hr').1)

/-- In every run, the counter is the number of tasks that are not over, a stop reaches only streams
that still produce, and nothing but the steps of `Ending` ends the receive loop. On an open
connection a request whose handler ended with a value or an `Exception` has exactly one response
when it is over and none before, a request whose task ended with something else has none, and a
task that is not over can go on and its response reaches the wire. -/
theorem bookkeeping_exact (acceptCode acceptCalls : Bool) (events : List Event) (s : Server)
    (hrun : Machine.run step (new acceptCode acceptCalls) events = some s) :
    s.responsesPending = (s.requests.countP Request.active : ℤ) ∧ 0 ≤ s.responsesPending ∧
    (∀ p n, s.senders p = some n → ∃ r, s.requests[n]? = some r ∧ r.served = true ∧
      r.phase = .streaming ∧ r.packetId = p) ∧
    (Machine.meets step (fun s e => ¬ s.Ending e) (new acceptCode acceptCalls) events →
      s.closed = false ∧ s.halted = false) ∧
    (s.closed = false → ∀ n r, s.requests[n]? = some r →
      (∀ result, r.outcome = some result → answerable result = true → r.phase.isDone = true →
        ∃ a, s.answersTo n = [⟨n, r.packetId, a.1, a.2⟩] ∧ Final r.kind result a) ∧
      (r.phase.isDone = false → s.answersTo n = []) ∧
      ∀ e, r.outcome = some (.error (.escape e)) → s.answersTo n = []) ∧
    (s.closed = false → s.halted = false → ∀ n r, s.requests[n]? = some r → r.active = true →
      (∃ event t, s.step (.task n event) = some t) ∧
      ∀ flags body, r.phase = .sending flags body →
        (∃ t, s.step (.task n (.send .sent)) = some t ∧
          t.answersTo n = [⟨n, r.packetId, flags, body⟩]) ∧
        ∀ type, ∃ t u, s.step (.task n (.send (.failed type false))) = some t ∧
          t.step (.task n (.send .sent)) = some u ∧
          u.answersTo n =
            [⟨n, r.packetId, Flags.exception ||| Flags.response, .fallback type⟩]) := by
  have hsound := sound_run hrun
  refine ⟨hsound.pending, ?_, hsound.senders, fun hmeets => ?_, fun hopen n r hr => ?_,
    fun hopen hhalted n r hr hactive => ⟨?_, fun flags body hphase => ?_⟩⟩
  · rw [hsound.pending]
    exact Int.natCast_nonneg _
  · exact Machine.run_invariant (fun s => s.closed = false ∧ s.halted = false)
      (fun _ _ _ _ hevent hstep => open_step hstep hevent) hrun hmeets ⟨rfl, rfl⟩
  · exact hsound.answered hopen hr
  · exact exists_step hopen hhalted hr hactive
  · exact hsound.send_answers hopen hhalted hr (Bool.and_eq_true_iff.mp hactive).1 hphase

/-- A call of a method. -/
def call : Incoming := ⟨7, .rpc, none, true, false⟩

/-- The value of a method cannot be serialized, and the report of it is sent. -/
def reportedRun : List Event :=
  [.request call, .task 0 (.start false), .task 0 (.ended (.ok (.value 1)) false),
    .task 0 (.send (.failed "PicklingError" false)), .task 0 (.send .sent)]

theorem report_answers :
    ∃ s, Machine.run step (new true true) reportedRun = some s ∧ s.responsesPending = 0 ∧
      ∃ a, s.answersTo 0 = [⟨0, 7, a.1, a.2⟩] ∧ Final .rpc (.ok (.value 1)) a := by
  have hview : (Machine.run step (new true true) reportedRun).map (fun s => (s.closed,
      s.requests.map fun r => (r.packetId, r.kind, r.served))) = some (false, [(7, .rpc, true)]) := by
    decide +kernel
  have hresults : (Machine.run step (new true true) reportedRun).map (fun s =>
      s.requests.map fun r => (r.outcome.map Except.toOption, r.phase.isDone)) =
      some [(some (some (.value 1)), true)] := by
    decide +kernel
  obtain ⟨s, hrun, hs⟩ := Option.map_eq_some_iff.mp hview
  rw [hrun, Option.map_some, Option.some.injEq] at hresults
  obtain ⟨hclosed, hrequests⟩ := Prod.mk.inj hs
  obtain ⟨r, rest, hcons, hr, hrest⟩ := List.map_eq_cons_iff.mp hrequests
  rw [List.map_eq_nil_iff] at hrest
  subst hrest
  rw [hcons, List.map_singleton, List.singleton_inj, Prod.mk.injEq] at hresults
  obtain ⟨result, houtcome, hvalue⟩ := Option.map_eq_some_iff.mp hresults.1
  have hresult : result = .ok (.value 1) := by
    cases result with
    | error raised => cases hvalue
    | ok value =>
        cases hvalue
        rfl
  rw [hresult] at houtcome
  have hdone := hresults.2
  simp only [Prod.mk.injEq] at hr
  obtain ⟨hpacketId, hkind, hserved⟩ := hr
  obtain ⟨hpending, -, -, -, hanswers, -⟩ := bookkeeping_exact true true reportedRun s hrun
  obtain ⟨a, ha, hfinal⟩ :=
    (hanswers hclosed 0 r (by rw [hcons]; rfl)).1 (.ok (.value 1)) houtcome rfl hdone
  rw [hpacketId] at ha
  rw [hkind] at hfinal
  refine ⟨s, hrun, ?_, a, ha, hfinal⟩
  rw [hpending, hcons]
  simp [Request.active, hserved, hdone]

/-- A stream is stopped and its generator swallows the cancellation. -/
def stoppedRun : List Event :=
  [.request call, .task 0 (.start true), .stop 7, .task 0 (.streamEnded none),
    .task 0 (.unwound none false), .task 0 (.send .sent)]

/-- A method raises `CancelledError` by itself. -/
def escapedRun : List Event :=
  [.request call, .task 0 (.start false), .task 0 (.ended (.error (.escape .cancelled)) false)]

/-- The stopped stream has a response, and the request that nobody cancelled has none. -/
theorem stopped_answered_escaped_not :
    (Machine.run step (new true true) stoppedRun).map (fun s =>
      (s.closed, s.requests.map fun r => r.stopped, (s.answersTo 0).map fun a => a.packetId)) =
      some (false, [true], [7]) ∧
    (Machine.run step (new true true) escapedRun).map (fun s =>
      (s.closed, s.requests.map fun r => (r.stopped, r.phase.isDone), s.answersTo 0)) =
      some (false, [(false, true)], []) := by
  decide +kernel

end Server

end Requests

end Rmote
