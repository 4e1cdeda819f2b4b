import Rmote.Endpoint.Step

/-!
# The numbers of an endpoint

A call and a stream take a packet number that was never given out, and keep it. A step
that begins neither leaves the numbers as they are, and a request that is written stays
so. The handlers keep the packet number of their request, and only the loop adds one: a
packet without a request neither schedules a handler nor makes the loop send a refusal.
-/

namespace Rmote

/-- The request of the call is written, or the call ended. -/
def CallPhase.asked : CallPhase → Bool
  | .sending => false
  | _ => true

namespace Call

@[simp] theorem phase_settle (c : Call) (future : Future) : (c.settle future).phase = c.phase :=
  rfl

@[simp] theorem phase_close (c : Call) (text : String) : (c.close text).phase = c.phase := by
  unfold Call.close
  split_ifs <;> rfl

@[simp] theorem phase_obtain (c : Call) (value : Decoded Bytes) :
    (c.obtain value).phase = c.phase := by
  unfold Call.obtain
  split_ifs <;> rfl

/-- Every step of a call leaves its request written. -/
theorem asked_step {c c' : Call} {packetId : ℕ} {closing : Bool} {event : CallEvent}
    {effect : CallEffect} (h : c.step packetId closing event = some effect) :
    (effect.update c').phase.asked = true := by
  cases event with
  | write =>
      simp only [step] at h
      split at h
      · split_ifs at h <;> (cases h; rfl)
      · cases h
  | sent =>
      simp only [step] at h
      split at h
      · cases h
        rfl
      · cases h
  | fail error =>
      simp only [step] at h
      split at h
      · cases h
        rfl
      · cases h
        rfl
      · cases h
  | cancel =>
      simp only [step] at h
      split at h
      · cases h
        rfl
      · cases h
        rfl
      · cases h
        rfl
      · cases h
  | resume =>
      simp only [step] at h
      split at h
      · cases h
        rfl
      · cases h
        rfl
      · cases h
        rfl
      · cases h

end Call

namespace Stream

/-- A request that is written stays so. -/
theorem written_step {w : Stream} {packetId : ℕ} {closed closing : Bool} {event : StreamEvent}
    {effect : StreamEffect} (h : w.step packetId closed closing event = some effect)
    (hwritten : w.written = true) : effect.stream.written = true := by
  cases event with
  | write =>
      simp only [step] at h
      split at h
      · rename_i hnot
        rw [hwritten] at hnot
        cases hnot
      · cases h
  | sent =>
      simp only [step] at h
      split at h
      · cases h
        exact hwritten
      · cases h
  | fail error =>
      simp only [step] at h
      split at h
      · cases h
        exact hwritten
      · cases h
        exact hwritten
      · cases h
  | get =>
      obtain ⟨c, -, rfl⟩ := Option.map_eq_some_iff.mp h
      exact hwritten
  | next =>
      obtain ⟨c, -, rfl⟩ := Option.map_eq_some_iff.mp h
      exact hwritten
  | returned =>
      obtain ⟨c, -, rfl⟩ := Option.map_eq_some_iff.mp h
      exact hwritten
  | leave draining =>
      obtain ⟨c, -, rfl⟩ := Option.map_eq_some_iff.mp h
      exact hwritten
  | stopped =>
      obtain ⟨c, -, rfl⟩ := Option.map_eq_some_iff.mp h
      exact hwritten
  | stopFail =>
      obtain ⟨c, -, rfl⟩ := Option.map_eq_some_iff.mp h
      exact hwritten
  | stopCancel draining =>
      obtain ⟨c, -, rfl⟩ := Option.map_eq_some_iff.mp h
      exact hwritten

end Stream

namespace Endpoint

/-- The request under the number is written, or its call ended. -/
def asked (s : Endpoint) (packetId : ℕ) : Bool :=
  (s.calls packetId).any (fun c => c.phase.asked) || (s.streams packetId).any fun w => w.written

/-- The numbers stand for what they stood for, and no request is taken back. -/
structure Same (s s' : Endpoint) : Prop where
  calls : ∀ p, (s'.calls p).isSome = (s.calls p).isSome
  streams : ∀ p, (s'.streams p).isSome = (s.streams p).isSome
  last : s'.lastId = s.lastId
  asked : ∀ p, s.asked p = true → s'.asked p = true

variable {C : Codec} {s s' u : Endpoint} {e : EndpointEvent}

theorem Same.refl (s : Endpoint) : Same s s := ⟨fun _ => rfl, fun _ => rfl, rfl, fun _ => id⟩

theorem Same.trans (h : Same s u) (h' : Same u s') : Same s s' where
  calls p := (h'.calls p).trans (h.calls p)
  streams p := (h'.streams p).trans (h.streams p)
  last := h'.last.trans h.last
  asked p hasked := h'.asked p (h.asked p hasked)

theorem same_of_eq (hcalls : s'.calls = s.calls) (hstreams : s'.streams = s.streams)
    (hlast : s'.lastId = s.lastId) : Same s s' := by
  refine ⟨fun p => by rw [hcalls], fun p => by rw [hstreams], hlast, fun p hasked => ?_⟩
  rw [asked, hcalls, hstreams]
  exact hasked

theorem Frame.same (h : Frame s s') : Same s s' := same_of_eq h.calls h.streams h.lastId

/-- The calls and the streams change one by one. -/
theorem same_of_map {f : ℕ → Call → Call} {g : ℕ → Stream → Stream}
    (hcalls : ∀ p, s'.calls p = (s.calls p).map (f p))
    (hstreams : ∀ p, s'.streams p = (s.streams p).map (g p)) (hlast : s'.lastId = s.lastId)
    (hf : ∀ p c, s.calls p = some c → c.phase.asked = true → (f p c).phase.asked = true)
    (hg : ∀ p w, s.streams p = some w → w.written = true → (g p w).written = true) :
    Same s s' := by
  refine ⟨fun p => by rw [hcalls, Option.isSome_map], fun p => by rw [hstreams, Option.isSome_map],
    hlast, fun p hasked => ?_⟩
  rw [asked, hcalls, hstreams]
  rcases Bool.or_eq_true_iff.mp hasked with hcall | hstream
  · obtain ⟨c, hc, hphase⟩ := (Option.any_eq_true _ _).mp hcall
    rw [hc]
    simp [hf p c hc hphase]
  · obtain ⟨w, hw, hwritten⟩ := (Option.any_eq_true _ _).mp hstream
    rw [hw]
    simp [hg p w hw hwritten]

theorem same_finishPending (s : Endpoint) (error : String) : Same s (s.finishPending error) := by
  refine same_of_map (f := fun _ c => c.close (s.closeError.getD error))
    (g := fun _ w => { w with consumer := w.consumer.close (s.closeError.getD error) })
    (fun _ => rfl) (fun _ => rfl) rfl (fun p c _ hphase => ?_) fun _ _ _ hwritten => hwritten
  rw [Call.phase_close]
  exact hphase

theorem Ends.same (h : Ends s s') : Same s s' := by
  induction h with
  | frame hframe => exact hframe.same
  | finish u error _ hafter ih => exact (ih.trans (same_finishPending u error)).trans hafter.same

theorem same_setCall {packetId : ℕ} {c c' : Call} (hcall : s.calls packetId = some c)
    (hphase : c.phase.asked = true → c'.phase.asked = true) :
    Same s (s.setCall packetId c') := by
  refine same_of_map (f := fun p d => if p = packetId then c' else d) (g := fun _ w => w)
    (fun p => ?_) (fun p => by simp [setCall]) rfl (fun p d hd hasked => ?_) fun _ _ _ => id
  · simp only [setCall, Function.update_apply]
    split_ifs with hp
    · rw [hp, hcall]
      rfl
    · simp
  · split_ifs with hp
    · rw [hp, hcall] at hd
      obtain rfl := Option.some.inj hd
      exact hphase hasked
    · exact hasked

theorem same_setStream {packetId : ℕ} {w w' : Stream} (hstream : s.streams packetId = some w)
    (hwritten : w.written = true → w'.written = true) : Same s (s.setStream packetId w') := by
  refine same_of_map (f := fun _ c => c) (g := fun p v => if p = packetId then w' else v)
    (fun p => by simp [setStream]) (fun p => ?_) rfl (fun _ _ _ => id) fun p v hv hasked => ?_
  · simp only [setStream, Function.update_apply]
    split_ifs with hp
    · rw [hp, hstream]
      rfl
    · simp
  · split_ifs with hp
    · rw [hp, hstream] at hv
      obtain rfl := Option.some.inj hv
      exact hwritten hasked
    · exact hasked

theorem same_executeResponse (s : Endpoint) (packetId : ℕ) (response : Decoded Bytes) :
    Same s (s.executeResponse packetId response) := by
  refine same_of_map (f := fun p c => if p = packetId then c.obtain response else c)
    (g := fun _ w => w) (fun p => ?_) (fun p => by simp [executeResponse]) rfl
    (fun p c _ hphase => ?_) fun _ _ _ => id
  · simp only [executeResponse, Function.update_apply]
    split_ifs with hp
    · rw [hp]
    · simp
  · split_ifs
    · rw [Call.phase_obtain]
      exact hphase
    · exact hphase

theorem Handled.same {packet : Packet Bytes} {error : Option String}
    (h : Handled C s packet s' error) : Same s s' := by
  cases h with
  | nothing => exact .refl s
  | reply _ => exact (frame_loop _ _).same
  | exceptionStream stream hqueue _ _ => exact same_setStream (queue_eq_some hqueue).1 id
  | exceptionCall call text hfuture _ _ _ => exact same_setCall (future_eq_some hfuture).1 id
  | exceptionInvalid call error hfuture _ _ _ => exact same_setCall (future_eq_some hfuture).1 id
  | credit _ _ _ => exact (frame_handleStreamCredit ..).same
  | item stream hqueue _ _ _ => exact same_setStream (queue_eq_some hqueue).1 id
  | execute kind _ => exact (frame_execute ..).same
  | response _ _ _ => exact same_executeResponse ..

theorem Obtained.same {raw : Raw} (h : Obtained C s raw s') : Same s s' := by
  cases h with
  | nothing => exact .refl s
  | dispatched packet _ error _ hdispatched =>
      cases hdispatched with
      | nothing => exact .refl s
      | reply => exact (frame_loop _ _).same
      | handled packet' _ _ _ hhandled => exact hhandled.same

theorem same_handleRpcResponse (s : Endpoint) (response : Decoded Bytes) (packetId : ℕ) :
    Same s (s.handleRpcResponse response packetId) := by
  unfold handleRpcResponse
  cases hqueue : s.queue packetId with
  | some stream => exact same_setStream (queue_eq_some hqueue).1 id
  | none =>
      cases hfuture : s.future packetId with
      | none => exact .refl s
      | some call => exact same_setCall (future_eq_some hfuture).1 id

theorem same_applyCall {packetId : ℕ} {event : CallEvent} {c : Call} {effect : CallEffect}
    (hstep : c.step packetId s.writerClosing event = some effect) :
    Same s (s.applyCall packetId effect) := by
  have hends : Same s ((s.closeIf effect.closes).exceptCall effect.error) :=
    (frame_closeIf s effect.closes).same.trans (ends_exceptCall _ _).same
  refine hends.trans (same_of_map (f := fun p d => if p = packetId then effect.update d else d)
    (g := fun _ w => w) (fun p => ?_) (fun p => by simp [applyCall, modifyCall]) rfl
    (fun p d _ hphase => ?_) fun _ _ _ => id)
  · simp only [applyCall, modifyCall, Function.update_apply]
    split_ifs with hp
    · rw [hp]
    · simp
  · split_ifs
    · exact Call.asked_step hstep
    · exact hphase

theorem same_applyStream {packetId : ℕ} {event : StreamEvent} {w : Stream} {effect : StreamEffect}
    (hstream : s.streams packetId = some w)
    (hstep : w.step packetId s.closed s.writerClosing event = some effect) :
    Same s (s.applyStream packetId effect) :=
  (frame_closeIf s effect.closes).same.trans ((same_setStream (s := s.closeIf effect.closes)
    hstream (Stream.written_step hstep)).trans (same_of_eq rfl rfl rfl))

/-- A step begins a call or a stream under the next number, or changes no number. -/
theorem step_same (h : s.step C e = some s') :
    Same s s' ∨
      s' = { s with lastId := s.lastId + 1 }.setCall (s.lastId + 1) Call.init ∨
      s' = s.beginStream := by
  cases step_spec h with
  | other hends => exact .inl hends.same
  | receive raw u hobtained hends _ =>
      have hbefore : Same s { s with received := s.received ++ [raw] } := same_of_eq rfl rfl rfl
      exact .inl ((hbefore.trans hobtained.same).trans hends.same)
  | respond packetId response responses _ =>
      have hbefore : Same s { s with responses := responses } := same_of_eq rfl rfl rfl
      exact .inl (hbefore.trans (same_handleRpcResponse _ response packetId))
  | call _ => exact .inr (.inl rfl)
  | callStep packetId event c effect _ hstep => exact .inl (same_applyCall hstep)
  | stream => exact .inr (.inr rfl)
  | streamStep packetId event w effect hstream hstep => exact .inl (same_applyStream hstream hstep)

/-- The numbers beyond the last one are free, and no number stands for two requests. -/
structure Distinct (s : Endpoint) : Prop where
  fresh : ∀ p, s.lastId < p → s.calls p = none ∧ s.streams p = none
  apart : ∀ p, (s.calls p).isSome = true → (s.streams p).isSome = false

theorem distinct_init (acceptCode acceptCalls : Bool) : (init acceptCode acceptCalls).Distinct :=
  ⟨fun _ _ => ⟨rfl, rfl⟩, fun _ hsome => by cases hsome⟩

theorem Distinct.same (h : s.Distinct) (hsame : Same s s') : s'.Distinct := by
  refine ⟨fun p hp => ?_, fun p hp => ?_⟩
  · rw [hsame.last] at hp
    obtain ⟨hcalls, hstreams⟩ := h.fresh p hp
    have hcall := hsame.calls p
    have hstream := hsame.streams p
    rw [hcalls] at hcall
    rw [hstreams] at hstream
    exact ⟨Option.isSome_eq_false_iff.mp hcall |> Option.isNone_iff_eq_none.mp,
      Option.isSome_eq_false_iff.mp hstream |> Option.isNone_iff_eq_none.mp⟩
  · rw [hsame.calls] at hp
    rw [hsame.streams]
    exact h.apart p hp

theorem Distinct.step (h : s.Distinct) (hstep : s.step C e = some s') : s'.Distinct := by
  obtain ⟨hnocall, hnostream⟩ := h.fresh (s.lastId + 1) (Nat.lt_succ_self _)
  rcases step_same hstep with hsame | rfl | rfl
  · exact h.same hsame
  · refine ⟨fun p hp => ?_, fun p hp => ?_⟩
    · have hlarge : s.lastId + 1 < p := hp
      obtain ⟨hcalls, hstreams⟩ := h.fresh p (Nat.lt_of_succ_lt hlarge)
      refine ⟨?_, hstreams⟩
      simp only [setCall, Function.update_apply]
      rw [if_neg hlarge.ne']
      exact hcalls
    · simp only [setCall, Function.update_apply] at hp ⊢
      split_ifs at hp with heq
      · rw [heq, hnostream]
        rfl
      · exact h.apart p hp
  · refine ⟨fun p hp => ?_, fun p hp => ?_⟩
    · have hlarge : s.lastId + 1 < p := hp
      obtain ⟨hcalls, hstreams⟩ := h.fresh p (Nat.lt_of_succ_lt hlarge)
      refine ⟨hcalls, ?_⟩
      simp only [beginStream, setStream, Function.update_apply]
      rw [if_neg hlarge.ne']
      exact hstreams
    · simp only [beginStream, setStream, Function.update_apply] at hp ⊢
      split_ifs with heq
      · rw [heq, hnocall] at hp
        cases hp
      · exact h.apart p hp

/-- A request that is written stays so in every step. -/
theorem Distinct.asked (h : s.Distinct) (hstep : s.step C e = some s') {p : ℕ}
    (hasked : s.asked p = true) : s'.asked p = true := by
  obtain ⟨hnocall, hnostream⟩ := h.fresh (s.lastId + 1) (Nat.lt_succ_self _)
  have hne : p ≠ s.lastId + 1 := by
    rintro rfl
    rw [Endpoint.asked, hnocall, hnostream] at hasked
    cases hasked
  rcases step_same hstep with hsame | rfl | rfl
  · exact hsame.asked p hasked
  · simp only [Endpoint.asked, setCall, Function.update_of_ne hne]
    exact hasked
  · simp only [Endpoint.asked, beginStream, setStream, Function.update_of_ne hne]
    exact hasked

/-- A number stands for a call for good. -/
theorem Distinct.call (h : s.Distinct) (hstep : s.step C e = some s') {p : ℕ}
    (hstream : (s.streams p).isSome = true) : (s'.streams p).isSome = true := by
  obtain ⟨-, hnostream⟩ := h.fresh (s.lastId + 1) (Nat.lt_succ_self _)
  have hne : p ≠ s.lastId + 1 := by
    rintro rfl
    rw [hnostream] at hstream
    cases hstream
  rcases step_same hstep with hsame | rfl | rfl
  · rw [hsame.streams]
    exact hstream
  · exact hstream
  · simp only [beginStream, setStream, Function.update_of_ne hne]
    exact hstream

/-- The write of a request is the only one under its number. -/
theorem Distinct.write (h : s.Distinct) (hwriter : s.writerClosing = false) {packetId : ℕ}
    {streaming : Bool}
    (hstep : s.step C (if streaming then .streamStep packetId .write
      else .callStep packetId .write) = some s') :
    s.asked packetId = false ∧ s'.asked packetId = true := by
  cases streaming with
  | false =>
      obtain ⟨c, hcall, hmap⟩ := Option.bind_eq_some_iff.mp hstep
      obtain ⟨effect, heffect, rfl⟩ := Option.map_eq_some_iff.mp hmap
      simp only [Call.step, hwriter] at heffect
      split at heffect
      · rename_i hphase
        have hstream : s.streams packetId = none := by
          have hapart := h.apart packetId (by rw [hcall]; rfl)
          exact Option.isNone_iff_eq_none.mp (Option.isSome_eq_false_iff.mp hapart)
        cases heffect
        refine ⟨by simp [Endpoint.asked, hcall, hstream, hphase, CallPhase.asked], ?_⟩
        simp [Endpoint.asked, applyCall, Call.move, exceptCall, closeIf, modifyCall, hcall,
          CallPhase.asked]
      · cases heffect
  | true =>
      obtain ⟨w, hstream, hmap⟩ := Option.bind_eq_some_iff.mp hstep
      obtain ⟨effect, heffect, rfl⟩ := Option.map_eq_some_iff.mp hmap
      simp only [Stream.step, hwriter] at heffect
      split at heffect
      · rename_i hwritten
        have hcall : s.calls packetId = none := by
          cases hcall : s.calls packetId with
          | none => rfl
          | some c =>
              have hapart := h.apart packetId (by rw [hcall]; rfl)
              rw [hstream] at hapart
              cases hapart
        cases heffect
        refine ⟨by simp [Endpoint.asked, hcall, hstream, hwritten], ?_⟩
        simp [Endpoint.asked, applyStream, closeIf, setStream]
      · cases heffect

/-! ## The handlers -/

/-- The handlers keep their numbers, and the loop begins no refusal. -/
structure Serves (s s' : Endpoint) : Prop where
  handlers : ∀ n, (s'.handlers n).map Handler.packetId = (s.handlers n).map Handler.packetId
  last : s'.lastHandler = s.lastHandler
  loop : ∀ p fallback, s'.loop = .replying p fallback → ∃ before, s.loop = .replying p before

theorem Serves.refl (s : Endpoint) : Serves s s :=
  ⟨fun _ => rfl, rfl, fun _ fallback h => ⟨fallback, h⟩⟩

theorem Serves.trans (h : Serves s u) (h' : Serves u s') : Serves s s' where
  handlers n := (h'.handlers n).trans (h.handlers n)
  last := h'.last.trans h.last
  loop p fallback hloop := by
    obtain ⟨between, hbetween⟩ := h'.loop p fallback hloop
    exact h.loop p between hbetween

theorem serves_of_eq (hhandlers : s'.handlers = s.handlers) (hlast : s'.lastHandler = s.lastHandler)
    (hloop : s'.loop = s.loop) : Serves s s' := by
  refine ⟨fun n => by rw [hhandlers], hlast, fun p fallback h => ⟨fallback, ?_⟩⟩
  rw [← hloop]
  exact h

theorem Serves.after (h : Serves u s') (hhandlers : u.handlers = s.handlers)
    (hlast : u.lastHandler = s.lastHandler) (hloop : u.loop = s.loop) : Serves s s' :=
  (serves_of_eq hhandlers hlast hloop).trans h

theorem serves_finishPending (s : Endpoint) (error : String) :
    Serves s (s.finishPending error) := by
  refine ⟨fun n => ?_, rfl, fun p fallback h => ⟨fallback, h⟩⟩
  simp only [finishPending, Option.map_map]
  congr 1
  funext h
  simp only [Function.comp]
  split_ifs <;> rfl

/-- The loop goes on or ends. -/
theorem serves_loop (s : Endpoint) {loop : LoopPhase}
    (h : ∀ p fallback, loop ≠ .replying p fallback) : Serves s { s with loop := loop } :=
  ⟨fun _ => rfl, rfl, fun p fallback heq => absurd heq (h p fallback)⟩

theorem serves_endLoop (s : Endpoint) (error : Option String) : Serves s (s.endLoop error) :=
  (serves_finishPending s _).trans (serves_loop _ fun _ _ h => by cases h)

theorem serves_proceed (s : Endpoint) : Serves s s.proceed := by
  unfold proceed
  split_ifs
  · exact serves_endLoop s none
  · exact serves_loop s fun _ _ h => by cases h

theorem serves_setHandler {number : ℕ} {h h' : Handler} (hh : s.handlers number = some h)
    (hid : h'.packetId = h.packetId) : Serves s (s.setHandler number h') := by
  refine ⟨fun n => ?_, rfl, fun p fallback h => ⟨fallback, h⟩⟩
  simp only [setHandler, Function.update_apply]
  split_ifs with hn
  · rw [hn, hh, Option.map_some, Option.map_some, hid]
  · rfl

@[simp] theorem Handler.packetId_giveBack (h : Handler) (size items : ℤ) :
    (h.giveBack size items).packetId = h.packetId := by
  unfold Handler.giveBack
  split <;> rfl

@[simp] theorem Handler.packetId_spend (h : Handler) (item : Item) :
    (h.spend item).packetId = h.packetId := by
  unfold Handler.spend
  split <;> rfl

@[simp] theorem Handler.packetId_produce (h : Handler) (item : Item) :
    (h.produce item).packetId = h.packetId := by
  unfold Handler.produce
  split_ifs
  · rfl
  · exact Handler.packetId_spend h item

@[simp] theorem Handler.packetId_start (h : Handler) : h.start.packetId = h.packetId := by
  unfold Handler.start
  split <;> rfl

theorem serves_handleStreamCredit (C : Codec) (s : Endpoint) (returned : Decoded Bytes)
    (packetId : ℕ) : Serves s (s.handleStreamCredit C returned packetId) := by
  unfold handleStreamCredit
  split
  · exact .refl s
  · split
    · exact .refl s
    · rename_i handler hhandler
      split
      · exact serves_setHandler hhandler rfl
      · exact serves_setHandler hhandler (Handler.packetId_giveBack ..)
      · exact serves_setHandler hhandler rfl

theorem serves_handleRpcResponse (s : Endpoint) (response : Decoded Bytes) (packetId : ℕ) :
    Serves s (s.handleRpcResponse response packetId) := by
  unfold handleRpcResponse
  split
  · exact serves_of_eq rfl rfl rfl
  · split <;> exact serves_of_eq rfl rfl rfl

theorem serves_applyCall (s : Endpoint) (packetId : ℕ) (effect : CallEffect) :
    Serves s (s.applyCall packetId effect) := by
  have hexcept : Serves s ((s.closeIf effect.closes).exceptCall effect.error) := by
    have hbefore : Serves s (s.closeIf effect.closes) := serves_of_eq rfl rfl rfl
    unfold exceptCall
    split
    · exact hbefore
    · split_ifs
      · exact hbefore.trans (serves_finishPending ..)
      · exact hbefore
  exact hexcept.trans (serves_of_eq rfl rfl rfl)

theorem serves_beginExit (s : Endpoint) : Serves s s.beginExit := by
  refine (serves_finishPending s "Connection closed").trans ⟨fun n => ?_, rfl,
    fun p fallback h => ⟨fallback, h⟩⟩
  simp only [beginExit, Option.map_map]
  rfl

theorem serves_afterItem {number : ℕ} {handler handler' : Handler}
    (hh : s.handlers number = some handler) (hid : handler'.packetId = handler.packetId) :
    Serves s (s.afterItem number handler') := by
  unfold afterItem
  split
  · rename_i cancelled _
    have hset : Serves s (s.setHandler number { handler' with phase := .finishing cancelled }) :=
      serves_setHandler hh hid
    exact hset.trans (serves_of_eq rfl rfl rfl)
  · exact serves_setHandler hh hid

theorem serves_startHandler {number : ℕ} {handler : Handler}
    (hh : s.handlers number = some handler) : Serves s (s.startHandler number handler) := by
  have hset := serves_setHandler hh (Handler.packetId_start handler)
  unfold startHandler
  simp only
  split
  · exact hset.trans (serves_of_eq rfl rfl rfl)
  · exact hset

/-- A handler changes its phase, and the registries may change. -/
theorem serves_phase {number : ℕ} {handler : Handler} {phase : HandlerPhase}
    (hh : s.handlers number = some handler)
    (hhandlers : s'.handlers = (s.setHandler number { handler with phase := phase }).handlers)
    (hlast : s'.lastHandler = s.lastHandler) (hloop : s'.loop = s.loop) : Serves s s' := by
  have hset : Serves s (s.setHandler number { handler with phase := phase }) :=
    serves_setHandler hh rfl
  exact hset.trans (serves_of_eq hhandlers hlast hloop)

theorem stepHandler_serves {number : ℕ} {handler : Handler} {event : HandlerEvent}
    (hh : s.handlers number = some handler)
    (h : s.stepHandler number handler event = some s') : Serves s s' := by
  cases event with
  | start =>
      simp only [stepHandler] at h
      split at h
      · cases h
        exact serves_startHandler hh
      · cases h
  | produce item =>
      simp only [stepHandler] at h
      split at h
      · cases h
        exact serves_afterItem hh (Handler.packetId_produce ..)
      · cases h
  | exhaust =>
      simp only [stepHandler] at h
      split at h
      · cases h
        exact serves_phase hh rfl rfl rfl
      · cases h
  | resume =>
      simp only [stepHandler] at h
      split at h
      · split_ifs at h
        cases h
        exact serves_afterItem hh (Handler.packetId_spend ..)
      · cases h
  | unwind =>
      simp only [stepHandler] at h
      split at h
      · cases h
        exact serves_phase hh rfl rfl rfl
      · cases h
        exact serves_phase hh rfl rfl rfl
      · cases h
  | written =>
      simp only [stepHandler] at h
      split at h
      · cases h
        exact serves_phase hh rfl rfl rfl
      · cases h
        exact serves_phase hh rfl rfl rfl
      · cases h
  | «return» =>
      simp only [stepHandler] at h
      split at h
      · cases h
        exact serves_phase hh rfl rfl rfl
      · cases h
  | responded =>
      simp only [stepHandler] at h
      split at h
      · cases h
        exact serves_phase hh rfl rfl rfl
      · cases h
  | respondFail error draining =>
      simp only [stepHandler] at h
      split at h
      · split_ifs at h
        · cases h
          have hdone : Serves s ((s.closeIf draining).endHandler number handler) :=
            serves_phase hh rfl rfl rfl
          exact hdone.trans (serves_finishPending _ error)
        · cases h
          exact serves_phase hh rfl rfl rfl
      · cases h
        have hdone : Serves s ((s.endHandler number handler).closeIf true) :=
          serves_phase hh rfl rfl rfl
        exact hdone.trans (serves_finishPending _ error)
      · cases h
  | cancel draining =>
      simp only [stepHandler] at h
      split at h
      · cases h
        exact serves_phase hh rfl rfl rfl
      · cases h
        exact serves_phase hh rfl rfl rfl
      · cases h
        exact serves_phase hh rfl rfl rfl
      · cases h
        exact serves_phase hh rfl rfl rfl
      · cases h

/-- What a request makes of the endpoint. -/
inductive Accepts (s : Endpoint) (packetId : ℕ) (s' : Endpoint) : Prop where
  /-- The loop goes on to a refusal. -/
  | refused (fallback : Bool) (hloop : s'.loop = .replying packetId fallback)
      (hhandlers : ∀ n, (s'.handlers n).map Handler.packetId =
        (s.handlers n).map Handler.packetId)
      (hlast : s'.lastHandler = s.lastHandler)
  /-- A new handler serves it. -/
  | scheduled (hloop : ∀ p fallback, s'.loop ≠ .replying p fallback)
      (hhandlers : ∀ n, (s'.handlers n).map Handler.packetId =
        if n = s.lastHandler + 1 then some packetId else (s.handlers n).map Handler.packetId)
      (hlast : s'.lastHandler = s.lastHandler + 1)

theorem Accepts.serves {packetId : ℕ} (h : Accepts s packetId u) (hserves : Serves u s')
    (hloop : ∀ p fallback, u.loop = .replying p fallback → s'.loop = u.loop) :
    Accepts s packetId s' := by
  cases h with
  | refused fallback hu hhandlers hlast =>
      refine .refused fallback ((hloop _ _ hu).trans hu) (fun n => ?_) (hserves.last.trans hlast)
      exact (hserves.handlers n).trans (hhandlers n)
  | scheduled hu hhandlers hlast =>
      refine .scheduled (fun p fallback heq => ?_) (fun n => ?_) (hserves.last.trans hlast)
      · obtain ⟨before, hbefore⟩ := hserves.loop p fallback heq
        exact hu p before hbefore
      · exact (hserves.handlers n).trans (hhandlers n)

/-- A refusal or a new handler is what a request makes of a loop that receives. -/
theorem Handled.serves {packet : Packet Bytes} {error : Option String}
    (h : Handled C s packet s' error) (hloop : ∀ p fallback, s.loop ≠ .replying p fallback) :
    Serves s s' ∨
      (error = none ∧ packet.flags.has Flags.request = true ∧ Accepts s packet.packetId s') := by
  cases h with
  | nothing => exact .inl (.refl s)
  | reply hrequest => exact .inr ⟨rfl, hrequest, .refused false rfl (fun _ => rfl) rfl⟩
  | exceptionStream stream _ _ _ => exact .inl (serves_of_eq rfl rfl rfl)
  | exceptionCall call text _ _ _ _ => exact .inl (serves_of_eq rfl rfl rfl)
  | exceptionInvalid call error _ _ _ _ => exact .inl (serves_of_eq rfl rfl rfl)
  | credit _ _ _ => exact .inl (serves_handleStreamCredit ..)
  | item stream _ _ _ _ => exact .inl (serves_of_eq rfl rfl rfl)
  | execute kind hrequest =>
      refine .inr ⟨rfl, hrequest, .scheduled hloop (fun n => ?_) rfl⟩
      simp only [Endpoint.execute, Function.update_apply]
      split_ifs <;> rfl
  | response _ _ _ => exact .inl (serves_of_eq rfl rfl rfl)

theorem dispatch_serves (C : Codec) {s : Endpoint} (packet : Packet Bytes)
    (hloop : ∀ p fallback, s.loop ≠ .replying p fallback) :
    Serves s (s.dispatch C packet).1 ∨
      ((s.dispatch C packet).2 = none ∧ packet.flags.has Flags.request = true ∧
        Accepts s packet.packetId (s.dispatch C packet).1) := by
  unfold dispatch
  split_ifs with hrefuses
  · simp only [refuses, Bool.and_eq_true] at hrefuses
    exact .inr ⟨rfl, hrefuses.1.1, .refused false rfl (fun _ => rfl) rfl⟩
  · cases hunpack : unpackLog C packet with
    | none => exact .inl (.refl s)
    | some packet' =>
        obtain ⟨hid, -, hflags⟩ := unpackLog_spec hunpack
        rcases (handle_spec C s packet').serves hloop with h | ⟨herror, hrequest, haccepts⟩
        · exact .inl h
        · rw [hflags Flags.request (by decide)] at hrequest
          rw [hid] at haccepts
          exact .inr ⟨herror, hrequest, haccepts⟩

/-- Only a request is decoded to a request. -/
theorem has_request_of_decodePacket {acceptCode : Bool} {raw : Raw} {packet : Packet Bytes}
    (h : decodePacket C.pickle acceptCode C.load raw.payload raw.flags raw.packetId = .ok packet) :
    packet.flags.has Flags.request = raw.flags.has Flags.request := by
  have hexception : Flags.exception.has Flags.request = false := by decide
  have hkept : (Flags.request ||| Flags.response) &&& Flags.request = Flags.request := by decide
  rcases (decodePacket_cases h).2.2 with ⟨hflags, -⟩ | ⟨text, -, hflags⟩
  · rw [hflags]
  · rw [hflags, Flags.has_or, hexception, Bool.false_or, Flags.has_and_of_kept raw.flags hkept]

/-- The loop obtained a packet: only a request makes it refuse or schedule. -/
theorem receive_serves (C : Codec) {s : Endpoint} (raw : Raw) (hloop : s.loop = .receiving) :
    Serves s (s.receive C raw) ∨
      (raw.flags.has Flags.request = true ∧ Accepts s raw.packetId (s.receive C raw)) := by
  have hbefore : Serves s { s with received := s.received ++ [raw] } := serves_of_eq rfl rfl rfl
  have hreceiving : ∀ p fallback, s.loop ≠ .replying p fallback := by
    intro p fallback heq
    rw [hloop] at heq
    cases heq
  unfold receive
  simp only
  split
  · exact .inl (hbefore.trans (serves_endLoop ..))
  · rename_i packet hdecode
    have hid : packet.packetId = raw.packetId := (decodePacket_cases hdecode).1
    have hdispatch := dispatch_serves C (s := { s with received := s.received ++ [raw] }) packet
      hreceiving
    rw [has_request_of_decodePacket hdecode, hid] at hdispatch
    split
    · rename_i s' error heq
      rw [heq] at hdispatch
      rcases hdispatch with h | ⟨hnone, -, -⟩
      · exact .inl ((hbefore.trans h).trans (serves_endLoop ..))
      · cases hnone
    · rename_i s' heq
      rw [heq] at hdispatch
      rcases hdispatch with h | ⟨-, hrequest, haccepts⟩
      · split
        · exact .inl (hbefore.trans h)
        · exact .inl ((hbefore.trans h).trans (serves_proceed s'))
      · refine .inr ⟨hrequest, ?_⟩
        split
        · cases haccepts with
          | refused fallback hu hhandlers hlast => exact .refused fallback hu hhandlers hlast
          | scheduled hu hhandlers hlast => exact .scheduled hu hhandlers hlast
        · rename_i hnot
          cases haccepts with
          | refused fallback hu _ _ => exact absurd hu (hnot _ _)
          | scheduled hu hhandlers hlast =>
              have hscheduled : Accepts s raw.packetId s' := .scheduled hu hhandlers hlast
              exact hscheduled.serves (serves_proceed s') fun p fallback hp =>
                absurd hp (hu p fallback)

/-- Every other step serves no request. -/
theorem step_serves (h : s.step C e = some s') (hreceive : ∀ raw, e ≠ .receive raw) :
    Serves s s' := by
  cases e with
  | configure acceptCode acceptCalls =>
      cases h
      exact serves_of_eq rfl rfl rfl
  | receive raw => exact absurd rfl (hreceive raw)
  | receiveFail error =>
      simp only [step] at h
      split at h
      · cases h
        exact serves_endLoop ..
      · cases h
  | replied =>
      simp only [step] at h
      split at h
      · cases h
        exact (serves_proceed _).after rfl rfl rfl
      · cases h
  | replyFail error draining =>
      simp only [step] at h
      split at h
      · rename_i p hloop
        split_ifs at h
        · cases h
          exact ((serves_finishPending _ error).trans (serves_proceed _)).after rfl rfl rfl
        · cases h
          refine ⟨fun _ => rfl, rfl, fun q fallback heq => ⟨false, ?_⟩⟩
          cases heq
          exact hloop
      · cases h
        exact ((serves_finishPending _ error).trans (serves_proceed _)).after rfl rfl rfl
      · cases h
  | loopCancel draining =>
      simp only [step] at h
      split at h
      · cases h
        exact serves_endLoop ..
      · cases h
        exact (serves_endLoop _ none).after rfl rfl rfl
      · cases h
  | respond =>
      simp only [step, Endpoint.respond] at h
      split at h
      · cases h
      · rename_i packetId response responses _
        cases h
        exact (serves_handleRpcResponse _ response packetId).after rfl rfl rfl
  | call =>
      cases h
      unfold beginCall
      split_ifs <;> exact serves_of_eq rfl rfl rfl
  | callStep packetId event =>
      obtain ⟨c, _, hstep⟩ := Option.bind_eq_some_iff.mp h
      obtain ⟨effect, _, rfl⟩ := Option.map_eq_some_iff.mp hstep
      exact serves_applyCall ..
  | stream =>
      cases h
      exact serves_of_eq rfl rfl rfl
  | streamStep packetId event =>
      obtain ⟨w, _, hstep⟩ := Option.bind_eq_some_iff.mp h
      obtain ⟨effect, _, rfl⟩ := Option.map_eq_some_iff.mp hstep
      exact serves_of_eq rfl rfl rfl
  | handlerStep number event =>
      obtain ⟨handler, hhandler, hstep⟩ := Option.bind_eq_some_iff.mp h
      exact stepHandler_serves hhandler hstep
  | exit =>
      simp only [step] at h
      split_ifs at h
      cases h
      exact serves_beginExit s
  | closeWriter =>
      cases h
      exact serves_of_eq rfl rfl rfl

/-! ## What the loop obtained -/

theorem Ends.received_eq (h : Ends s s') : s'.received = s.received := by
  induction h with
  | frame hframe => exact hframe.received
  | finish u error _ hafter ih => exact hafter.received.trans ih

theorem Obtained.received_eq {raw : Raw} (h : Obtained C s raw s') :
    s'.received = s.received := by
  cases h with
  | nothing => rfl
  | dispatched packet _ error _ hdispatched =>
      cases hdispatched with
      | nothing => rfl
      | reply => rfl
      | handled packet' _ _ _ hhandled =>
          cases hhandled with
          | credit _ _ _ => exact (frame_handleStreamCredit ..).received
          | _ => rfl

/-- The loop keeps what it obtained. -/
theorem received_receive (C : Codec) (s : Endpoint) (raw : Raw) :
    (s.receive C raw).received = s.received ++ [raw] := by
  obtain ⟨u, hobtained, ⟨error, heq, -⟩ | ⟨loop, heq⟩⟩ := receive_spec C s raw
  · rw [heq]
    exact hobtained.received_eq
  · rw [heq]
    exact hobtained.received_eq

/-- Every other step obtains nothing. -/
theorem step_received (h : s.step C e = some s') (hreceive : ∀ raw, e ≠ .receive raw) :
    s'.received = s.received := by
  cases step_spec h with
  | other hends => exact hends.received_eq
  | receive raw u _ _ _ => exact absurd rfl (hreceive raw)
  | respond packetId response responses _ =>
      unfold handleRpcResponse
      split
      · rfl
      · split <;> rfl
  | call _ => rfl
  | callStep packetId event c effect _ _ =>
      exact (ends_exceptCall (s.closeIf effect.closes) effect.error).received_eq
  | stream => rfl
  | streamStep packetId event w effect _ _ => rfl

end Endpoint

end Rmote
