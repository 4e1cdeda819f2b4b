import Rmote.Endpoint.Step
import Rmote.Library.Machine

/-!
# The stop of a streaming consumer

The loop looks for the credit of a stream when the stop of its consumer arrives, but the
task that serves the request registers the credit in its own first step. A stop that the
loop processes before this step finds nobody and is dropped, and the stream goes on
although nobody reads it. A stop that finds the credit stops the stream for good.
-/

namespace Rmote

namespace Handler

/-- What the loop, the end of the connection and `__aexit__` do to a handler. -/
inductive Touched (h : Handler) : Handler → Prop where
  | refl : Touched h h
  | stop {h' : Handler} (ht : Touched h h') : Touched h h'.stop
  | giveBack {h' : Handler} (ht : Touched h h') (size items : ℤ) :
      Touched h (h'.giveBack size items)
  | release {h' : Handler} (ht : Touched h h') : Touched h h'.release
  | cancel {h' : Handler} (ht : Touched h h') : Touched h { h' with cancelling := true }

/-- What a handler does in one stretch of its own. -/
inductive Moved (h : Handler) : Handler → Prop where
  | start (hphase : h.phase = .created) (hcancelling : h.cancelling = false) : Moved h h.start
  | produce (item : Item) (hphase : h.phase = .producing) : Moved h (h.produce item)
  | resume (item : Item) (hphase : h.phase = .spending item) : Moved h (h.spend item)
  | leave (phase : HandlerPhase) (hended : phase.ended = true) : Moved h { h with phase := phase }

/-- The handler sends no more items and does not wait for permission: its loop is over, or
it is cancelled and its credit, if it has one, is released. -/
def Stopped (h : Handler) : Prop :=
  h.phase.ended = true ∨
    (h.cancelling = true ∧
      (h.phase = .created ∨ (h.credit.released = true ∧ h.credit.ready = true)))

variable {h h' : Handler}

theorem Touched.trans {h'' : Handler} (ht : Touched h h') (ht' : Touched h' h'') :
    Touched h h'' := by
  induction ht' with
  | refl => exact ht
  | stop _ ih => exact ih.stop
  | giveBack _ size items ih => exact ih.giveBack size items
  | release _ ih => exact ih.release
  | cancel _ ih => exact ih.cancel

theorem stopped_stop (h : Handler) : h.stop.Stopped := .inr ⟨rfl, .inr ⟨rfl, rfl⟩⟩

theorem Stopped.release (hs : h.Stopped) : h.release.Stopped := by
  rcases hs with hended | ⟨hcancelling, -⟩
  · exact .inl hended
  · exact .inr ⟨hcancelling, .inr ⟨rfl, rfl⟩⟩

/-- A permission that comes too late does not take the release back. -/
theorem Stopped.giveBack (hs : h.Stopped) (size items : ℤ) : (h.giveBack size items).Stopped := by
  unfold Handler.giveBack
  split
  · rename_i credit hcredit
    rcases hs with hended | ⟨hcancelling, hcreated | ⟨hreleased, -⟩⟩
    · exact .inl hended
    · exact .inr ⟨hcancelling, .inl hcreated⟩
    · refine .inr ⟨hcancelling, .inr ?_⟩
      unfold StreamCredit.giveBack at hcredit
      split_ifs at hcredit
      cases hcredit
      exact ⟨hreleased, rfl⟩
  · exact hs.release

@[simp] theorem pushed_giveBack (h : Handler) (size items : ℤ) :
    (h.giveBack size items).pushed = h.pushed := by
  unfold Handler.giveBack
  split <;> rfl

theorem Stopped.touched (hs : h.Stopped) (ht : h.Touched h') :
    h'.Stopped ∧ h'.pushed = h.pushed := by
  induction ht with
  | refl => exact ⟨hs, rfl⟩
  | stop _ ih => exact ⟨stopped_stop _, ih.2⟩
  | giveBack _ size items ih => exact ⟨ih.1.giveBack size items, by simpa using ih.2⟩
  | release _ ih => exact ⟨ih.1.release, ih.2⟩
  | cancel _ ih =>
      refine ⟨?_, ih.2⟩
      rcases ih.1 with hended | ⟨-, hcredit⟩
      · exact .inl hended
      · exact .inr ⟨rfl, hcredit⟩

theorem spend_of_released (hreleased : h.credit.released = true) (item : Item) :
    h.spend item = { h with phase := .finishing false } := by
  simp [Handler.spend, StreamCredit.spend, hreleased]

theorem produce_of_released (hreleased : h.credit.released = true) (item : Item) :
    h.produce item = { h with phase := .finishing false } := by
  unfold Handler.produce
  split_ifs
  · rfl
  · exact spend_of_released hreleased item

theorem Stopped.moved (hs : h.Stopped) (hm : h.Moved h') : h'.Stopped ∧ h'.pushed = h.pushed := by
  cases hm with
  | start hphase hcancelling =>
      rcases hs with hended | ⟨hcancelled, -⟩
      · rw [hphase] at hended
        cases hended
      · rw [hcancelling] at hcancelled
        cases hcancelled
  | produce item hphase =>
      rcases hs with hended | ⟨-, hcreated | ⟨hreleased, -⟩⟩
      · rw [hphase] at hended
        cases hended
      · rw [hphase] at hcreated
        cases hcreated
      · rw [produce_of_released hreleased]
        exact ⟨.inl rfl, rfl⟩
  | resume item hphase =>
      rcases hs with hended | ⟨-, hcreated | ⟨hreleased, -⟩⟩
      · rw [hphase] at hended
        cases hended
      · rw [hphase] at hcreated
        cases hcreated
      · rw [spend_of_released hreleased]
        exact ⟨.inl rfl, rfl⟩
  | leave phase hended => exact ⟨.inl hended, rfl⟩

end Handler

namespace Endpoint

/-! ## What the handlers see of a step -/

/-- The handlers are touched only from outside, and new ones have new numbers. -/
structure Touches (s s' : Endpoint) : Prop where
  handlers : ∀ n h, n ≤ s.lastHandler → s.handlers n = some h →
    ∃ h', s'.handlers n = some h' ∧ h.Touched h'
  numbers : (∀ n, s.lastHandler < n → s.handlers n = none) →
    ∀ n, s'.lastHandler < n → s'.handlers n = none
  last : s.lastHandler ≤ s'.lastHandler

variable {C : Codec} {s s' u : Endpoint} {e : EndpointEvent}

theorem touches_of_eq (hhandlers : s'.handlers = s.handlers)
    (hlast : s'.lastHandler = s.lastHandler) : Touches s s' := by
  refine ⟨fun n h _ hh => ⟨h, ?_, .refl⟩, fun hnumbers => ?_, hlast.ge⟩
  · rw [hhandlers]
    exact hh
  · rw [hhandlers, hlast]
    exact hnumbers

theorem Touches.trans (h : Touches s u) (h' : Touches u s') : Touches s s' where
  handlers n handler hn hh := by
    obtain ⟨h₁, hh₁, ht₁⟩ := h.handlers n handler hn hh
    obtain ⟨h₂, hh₂, ht₂⟩ := h'.handlers n h₁ (hn.trans h.last) hh₁
    exact ⟨h₂, hh₂, ht₁.trans ht₂⟩
  numbers hnumbers := h'.numbers (h.numbers hnumbers)
  last := h.last.trans h'.last

theorem Touches.after (h : Touches u s') (hhandlers : u.handlers = s.handlers)
    (hlast : u.lastHandler = s.lastHandler) : Touches s s' :=
  (touches_of_eq hhandlers hlast).trans h

theorem touches_finishPending (s : Endpoint) (error : String) :
    Touches s (s.finishPending error) := by
  refine ⟨fun n h _ hh => ?_, fun hnumbers n hn => ?_, le_rfl⟩
  · refine ⟨if s.names n h then h.release else h, by simp [finishPending, hh], ?_⟩
    split_ifs
    · exact .release .refl
    · exact .refl
  · simp [finishPending, hnumbers n hn]

theorem touches_endLoop (s : Endpoint) (error : Option String) : Touches s (s.endLoop error) :=
  (touches_finishPending s (error.getD "Remote process closed the connection")).trans
    (touches_of_eq rfl rfl)

theorem touches_proceed (s : Endpoint) : Touches s s.proceed := by
  unfold proceed
  split_ifs
  · exact touches_endLoop s none
  · exact touches_of_eq rfl rfl

theorem touches_setHandler {number : ℕ} {h h' : Handler} (hh : s.handlers number = some h)
    (ht : h.Touched h') : Touches s (s.setHandler number h') := by
  refine ⟨fun n h₁ _ hh₁ => ?_, fun hnumbers n hn => ?_, le_rfl⟩
  · simp only [setHandler, Function.update_apply]
    split_ifs with heq
    · rw [heq, hh] at hh₁
      cases hh₁
      exact ⟨h', rfl, ht⟩
    · exact ⟨h₁, hh₁, .refl⟩
  · have hnone := hnumbers n hn
    simp only [setHandler, Function.update_apply]
    split_ifs with heq
    · rw [heq, hh] at hnone
      cases hnone
    · exact hnone

theorem touches_handleStreamCredit (C : Codec) (s : Endpoint) (returned : Decoded Bytes)
    (packetId : ℕ) : Touches s (s.handleStreamCredit C returned packetId) := by
  unfold handleStreamCredit
  split
  · exact touches_of_eq rfl rfl
  · split
    · exact touches_of_eq rfl rfl
    · rename_i number _ handler hhandler
      split
      · exact touches_setHandler hhandler (.stop .refl)
      · exact touches_setHandler hhandler (.giveBack .refl _ _)
      · exact touches_setHandler hhandler (.release .refl)

theorem touches_execute (s : Endpoint) (packetId : ℕ) (kind : HandlerKind) :
    Touches s (s.execute packetId kind) := by
  refine ⟨fun n h hn hh => ⟨h, ?_, .refl⟩, fun hnumbers n hn => ?_, Nat.le_succ _⟩
  · simp only [execute, Function.update_apply]
    rw [if_neg (Nat.lt_succ_of_le hn).ne]
    exact hh
  · have hlarge : s.lastHandler + 1 < n := hn
    simp only [execute, Function.update_apply]
    rw [if_neg hlarge.ne']
    exact hnumbers n (Nat.lt_of_succ_lt hlarge)

theorem touches_handled {packet : Packet Bytes} {error : Option String}
    (h : Handled C s packet s' error) : Touches s s' := by
  cases h with
  | credit _ _ _ => exact touches_handleStreamCredit ..
  | execute kind _ => exact touches_execute ..
  | _ => exact touches_of_eq rfl rfl

theorem touches_obtained {raw : Raw} (h : Obtained C s raw s') : Touches s s' := by
  cases h with
  | nothing => exact touches_of_eq rfl rfl
  | dispatched packet _ error _ hdispatched =>
      cases hdispatched with
      | handled packet' _ _ _ hhandled => exact touches_handled hhandled
      | _ => exact touches_of_eq rfl rfl

theorem touches_receive (C : Codec) (s : Endpoint) (raw : Raw) : Touches s (s.receive C raw) := by
  obtain ⟨u, hobtained, hend⟩ := receive_spec C s raw
  have hu : Touches s u := (touches_obtained hobtained).after rfl rfl
  rcases hend with ⟨error, heq, -⟩ | ⟨loop, heq⟩
  · rw [heq]
    exact hu.trans (touches_endLoop u error)
  · rw [heq]
    exact hu.trans (touches_of_eq rfl rfl)

theorem touches_handleRpcResponse (s : Endpoint) (response : Decoded Bytes) (packetId : ℕ) :
    Touches s (s.handleRpcResponse response packetId) := by
  unfold handleRpcResponse
  split
  · exact touches_of_eq rfl rfl
  · split <;> exact touches_of_eq rfl rfl

theorem touches_exceptCall (s : Endpoint) (error : Option String) :
    Touches s (s.exceptCall error) := by
  unfold exceptCall
  split
  · exact touches_of_eq rfl rfl
  · split_ifs
    · exact touches_finishPending ..
    · exact touches_of_eq rfl rfl

theorem touches_applyCall (s : Endpoint) (packetId : ℕ) (effect : CallEffect) :
    Touches s (s.applyCall packetId effect) := by
  have hexcept := (touches_exceptCall (s.closeIf effect.closes) effect.error).after (s := s) rfl rfl
  exact hexcept.trans (touches_of_eq rfl rfl)

theorem touches_beginExit (s : Endpoint) : Touches s s.beginExit := by
  refine (touches_finishPending s "Connection closed").trans
    ⟨fun n h _ hh => ?_, fun hnumbers n hn => ?_, le_rfl⟩
  · exact ⟨{ h with cancelling := true }, by simp [beginExit, hh], .cancel .refl⟩
  · simp [beginExit, hnumbers n hn]

/-- A handler that left its loop is written back as it is. -/
theorem touches_afterItem (s : Endpoint) (number : ℕ) (handler : Handler) :
    Touches (s.setHandler number handler) (s.afterItem number handler) := by
  unfold afterItem
  split
  · rename_i cancelled hphase
    have heq : { handler with phase := .finishing cancelled } = handler := by rw [← hphase]
    rw [leaveBody, heq]
    exact touches_of_eq rfl rfl
  · exact touches_of_eq rfl rfl

/-- One stretch of a handler moves it, and touches the others only when it ends the
connection. -/
theorem stepHandler_moved {number : ℕ} {handler : Handler} {event : HandlerEvent}
    (h : s.stepHandler number handler event = some s') :
    ∃ handler', handler.Moved handler' ∧ Touches (s.setHandler number handler') s' := by
  cases event with
  | start =>
      simp only [stepHandler] at h
      split at h
      · rename_i hphase hcancelling
        cases h
        refine ⟨_, .start hphase hcancelling, ?_⟩
        unfold startHandler
        simp only
        split <;> exact touches_of_eq rfl rfl
      · cases h
  | produce item =>
      simp only [stepHandler] at h
      split at h
      · rename_i hphase
        cases h
        exact ⟨_, .produce item hphase, touches_afterItem ..⟩
      · cases h
  | exhaust =>
      simp only [stepHandler] at h
      split at h
      · cases h
        exact ⟨_, .leave _ rfl, touches_of_eq rfl rfl⟩
      · cases h
  | resume =>
      simp only [stepHandler] at h
      split at h
      · rename_i item hphase
        split_ifs at h
        cases h
        exact ⟨_, .resume item hphase, touches_afterItem ..⟩
      · cases h
  | unwind =>
      simp only [stepHandler] at h
      split at h
      · cases h
        exact ⟨_, .leave _ rfl, touches_of_eq rfl rfl⟩
      · cases h
        exact ⟨_, .leave _ rfl, touches_of_eq rfl rfl⟩
      · cases h
  | written =>
      simp only [stepHandler] at h
      split at h
      · cases h
        exact ⟨_, .leave _ rfl, touches_of_eq rfl rfl⟩
      · cases h
        exact ⟨_, .leave _ rfl, touches_of_eq rfl rfl⟩
      · cases h
  | «return» =>
      simp only [stepHandler] at h
      split at h
      · cases h
        exact ⟨_, .leave _ rfl, touches_of_eq rfl rfl⟩
      · cases h
  | responded =>
      simp only [stepHandler] at h
      split at h
      · cases h
        exact ⟨_, .leave _ rfl, touches_of_eq rfl rfl⟩
      · cases h
  | respondFail error draining =>
      simp only [stepHandler] at h
      split at h
      · split_ifs at h
        · cases h
          exact ⟨_, .leave .done rfl, (touches_finishPending _ error).after rfl rfl⟩
        · cases h
          exact ⟨_, .leave _ rfl, touches_of_eq rfl rfl⟩
      · cases h
        exact ⟨_, .leave .done rfl, (touches_finishPending _ error).after rfl rfl⟩
      · cases h
  | cancel draining =>
      simp only [stepHandler] at h
      split at h
      · cases h
        exact ⟨_, .leave _ rfl, touches_of_eq rfl rfl⟩
      · cases h
        exact ⟨_, .leave _ rfl, touches_of_eq rfl rfl⟩
      · cases h
        exact ⟨_, .leave _ rfl, touches_of_eq rfl rfl⟩
      · cases h
        exact ⟨_, .leave _ rfl, touches_of_eq rfl rfl⟩
      · cases h

/-- A step touches the handlers, after one of them may have moved. -/
theorem step_handlers (h : s.step C e = some s') :
    Touches s s' ∨ ∃ number handler handler', s.handlers number = some handler ∧
      handler.Moved handler' ∧ Touches (s.setHandler number handler') s' := by
  cases e with
  | configure acceptCode acceptCalls =>
      cases h
      exact .inl (touches_of_eq rfl rfl)
  | receive raw =>
      simp only [step] at h
      split at h
      · cases h
        exact .inl (touches_receive C s raw)
      · cases h
  | receiveFail error =>
      simp only [step] at h
      split at h
      · cases h
        exact .inl (touches_endLoop ..)
      · cases h
  | replied =>
      simp only [step] at h
      split at h
      · cases h
        exact .inl ((touches_proceed _).after rfl rfl)
      · cases h
  | replyFail error draining =>
      simp only [step] at h
      split at h
      · split_ifs at h
        · cases h
          exact .inl (((touches_finishPending _ error).trans (touches_proceed _)).after rfl rfl)
        · cases h
          exact .inl (touches_of_eq rfl rfl)
      · cases h
        exact .inl (((touches_finishPending _ error).trans (touches_proceed _)).after rfl rfl)
      · cases h
  | loopCancel draining =>
      simp only [step] at h
      split at h
      · cases h
        exact .inl (touches_endLoop ..)
      · cases h
        exact .inl ((touches_endLoop _ none).after rfl rfl)
      · cases h
  | respond =>
      simp only [step, Endpoint.respond] at h
      split at h
      · cases h
      · rename_i packetId response responses _
        cases h
        exact .inl ((touches_handleRpcResponse _ response packetId).after rfl rfl)
  | call =>
      cases h
      unfold beginCall
      split_ifs <;> exact .inl (touches_of_eq rfl rfl)
  | callStep packetId event =>
      obtain ⟨c, _, hstep⟩ := Option.bind_eq_some_iff.mp h
      obtain ⟨effect, _, rfl⟩ := Option.map_eq_some_iff.mp hstep
      exact .inl (touches_applyCall ..)
  | stream =>
      cases h
      exact .inl (touches_of_eq rfl rfl)
  | streamStep packetId event =>
      obtain ⟨w, _, hstep⟩ := Option.bind_eq_some_iff.mp h
      obtain ⟨effect, _, rfl⟩ := Option.map_eq_some_iff.mp hstep
      exact .inl (touches_of_eq rfl rfl)
  | handlerStep number event =>
      obtain ⟨handler, hhandler, hstep⟩ := Option.bind_eq_some_iff.mp h
      obtain ⟨handler', hmoved, htouches⟩ := stepHandler_moved hstep
      exact .inr ⟨number, handler, handler', hhandler, hmoved, htouches⟩
  | exit =>
      simp only [step] at h
      split_ifs at h
      cases h
      exact .inl (touches_beginExit s)
  | closeWriter =>
      cases h
      exact .inl (touches_of_eq rfl rfl)

/-- The handlers have the numbers that were given out. -/
def Numbered (s : Endpoint) : Prop := ∀ n, s.lastHandler < n → s.handlers n = none

theorem Numbered.le (h : s.Numbered) {n : ℕ} {handler : Handler}
    (hhandler : s.handlers n = some handler) : n ≤ s.lastHandler := by
  by_contra hlarge
  rw [h n (not_le.mp hlarge)] at hhandler
  cases hhandler

theorem Numbered.setHandler (h : s.Numbered) {n : ℕ} {handler : Handler}
    (hhandler : s.handlers n = some handler) (handler' : Handler) :
    (s.setHandler n handler').Numbered := by
  intro m hm
  have hne : m ≠ n := by
    rintro rfl
    exact absurd (h.le hhandler) (not_le.mpr hm)
  simp only [Endpoint.setHandler, Function.update_apply]
  rw [if_neg hne]
  exact h m hm

theorem Numbered.step (h : s.Numbered) (hstep : s.step C e = some s') : s'.Numbered := by
  rcases step_handlers hstep with htouches | ⟨n, handler, handler', hhandler, -, htouches⟩
  · exact htouches.numbers h
  · exact htouches.numbers (h.setHandler hhandler handler')

/-! ## The stop -/

/-- A stopped handler stays stopped, and pushes nothing. -/
theorem stopped_step {number : ℕ} {handler : Handler} (hnumbered : s.Numbered)
    (hhandler : s.handlers number = some handler) (hstopped : handler.Stopped)
    (hstep : s.step C e = some s') :
    ∃ handler', s'.handlers number = some handler' ∧ handler'.Stopped ∧
      handler'.pushed = handler.pushed := by
  rcases step_handlers hstep with htouches | ⟨n, h, h', hh, hmoved, htouches⟩
  · obtain ⟨handler', hhandler', htouched⟩ :=
      htouches.handlers number handler (hnumbered.le hhandler) hhandler
    exact ⟨handler', hhandler', hstopped.touched htouched⟩
  · have hmove : ∃ h₁, (s.setHandler n h').handlers number = some h₁ ∧ h₁.Stopped ∧
        h₁.pushed = handler.pushed := by
      simp only [setHandler, Function.update_apply]
      split_ifs with heq
      · rw [← heq, hhandler] at hh
        cases hh
        exact ⟨h', rfl, hstopped.moved hmoved⟩
      · exact ⟨handler, hhandler, hstopped, rfl⟩
    obtain ⟨h₁, hh₁, hstopped₁, hpushed₁⟩ := hmove
    obtain ⟨handler', hhandler', htouched⟩ :=
      htouches.handlers number h₁ ((hnumbered.setHandler hh h').le hh₁) hh₁
    obtain ⟨hstopped', hpushed⟩ := hstopped₁.touched htouched
    exact ⟨handler', hhandler', hstopped', hpushed.trans hpushed₁⟩

/-- From here on the handler is stopped, and it hands no item to its writer. -/
def Stops (C : Codec) (s : Endpoint) (number : ℕ) : Prop :=
  ∃ handler, s.handlers number = some handler ∧
    ∀ es u, Machine.run (step C) s es = some u → ∃ handler', u.handlers number = some handler' ∧
      handler'.Stopped ∧ handler'.pushed = handler.pushed

theorem Stops.stopped {number : ℕ} {handler : Handler} (h : s.Stops C number)
    (hhandler : s.handlers number = some handler) : handler.Stopped := by
  obtain ⟨_, _, hruns⟩ := h
  obtain ⟨handler', hhandler', hstopped, -⟩ := hruns [] s rfl
  obtain rfl := Option.some.inj (hhandler.symm.trans hhandler')
  exact hstopped

theorem stops_of_stopped {number : ℕ} {handler : Handler} (hnumbered : s.Numbered)
    (hhandler : s.handlers number = some handler) (hstopped : handler.Stopped) :
    s.Stops C number := by
  refine ⟨handler, hhandler, fun es u hrun => ?_⟩
  have h : u.Numbered ∧ ∃ handler', u.handlers number = some handler' ∧ handler'.Stopped ∧
      handler'.pushed = handler.pushed := by
    refine Machine.run_always (fun u => u.Numbered ∧ ∃ handler', u.handlers number = some handler' ∧
      handler'.Stopped ∧ handler'.pushed = handler.pushed) ?_ hrun
      ⟨hnumbered, handler, hhandler, hstopped, rfl⟩
    rintro v e w ⟨hnumbered', h₁, hh₁, hstopped₁, hpushed₁⟩ hstep
    obtain ⟨h₂, hh₂, hstopped₂, hpushed₂⟩ := stopped_step hnumbered' hh₁ hstopped₁ hstep
    exact ⟨hnumbered'.step hstep, h₂, hh₂, hstopped₂, hpushed₂.trans hpushed₁⟩
  exact h.2

/-- The message with which the consumer of a stream leaves. -/
structure IsStop (C : Codec) (packetId : ℕ) (raw : Raw) : Prop where
  number : raw.packetId = packetId
  stream : raw.flags.has Flags.stream = true
  request : raw.flags.has Flags.request = true
  response : raw.flags.has Flags.response = false
  exception : raw.flags.has Flags.exception = false
  modules : raw.flags.has Flags.modules = false
  batch : raw.flags.has Flags.batch = false
  payload : ∃ value, C.load raw.payload = .ok value ∧ C.look (.value value) = .none

theorem loop_handleStreamCredit (C : Codec) (s : Endpoint) (returned : Decoded Bytes)
    (packetId : ℕ) : (s.handleStreamCredit C returned packetId).loop = s.loop := by
  unfold handleStreamCredit
  split
  · rfl
  · split
    · rfl
    · split <;> rfl

/-- The loop looks for the credit of the stream. -/
theorem step_stop {packetId : ℕ} {raw : Raw} (h : IsStop C packetId raw)
    (hstep : s.step C (.receive raw) = some s') :
    ∃ payload, C.look payload = .none ∧
      s' = ({ s with received := s.received ++ [raw] }.handleStreamCredit C payload
        packetId).proceed := by
  obtain ⟨value, hload, hlook⟩ := h.payload
  simp only [step] at hstep
  split at hstep
  case h_2 => cases hstep
  rename_i hloop
  cases hstep
  refine ⟨.value value, hlook, ?_⟩
  have hdecode : decodePacket C.pickle s.acceptCode C.load raw.payload raw.flags raw.packetId =
      .ok ⟨.value value, raw.flags, packetId, raw.payload.length⟩ := by
    simp [decodePacket, decodePayload, openEnvelope, h.modules, h.batch, hload, h.number, Except.map]
  have hdispatch : dispatch C { s with received := s.received ++ [raw] }
      ⟨.value value, raw.flags, packetId, raw.payload.length⟩ =
        ({ s with received := s.received ++ [raw] }.handleStreamCredit C (.value value) packetId,
          none) := by
    simp [dispatch, refuses, unpackLog, handle, h.stream, h.request, h.response, h.exception]
  have hstill := (loop_handleStreamCredit C { s with received := s.received ++ [raw] }
    (.value value) packetId).trans hloop
  unfold receive
  simp only [hdecode, hdispatch, hstill]

/-- The stop reaches the handler that the registry names. -/
theorem stopped_of_named {packetId number : ℕ} {handler : Handler} {returned : Decoded Bytes}
    (hlook : C.look returned = .none) (hnumbered : s.Numbered)
    (hsender : s.senders packetId = some number) (hhandler : s.handlers number = some handler) :
    ∃ handler', (s.handleStreamCredit C returned packetId).proceed.handlers number = some handler' ∧
      handler'.Stopped := by
  have hset : s.handleStreamCredit C returned packetId = s.setHandler number handler.stop := by
    simp only [handleStreamCredit, hsender, hhandler, hlook]
  have hstop : (s.setHandler number handler.stop).handlers number = some handler.stop :=
    Function.update_self ..
  obtain ⟨handler', hhandler', htouched⟩ := (touches_proceed (s.setHandler number handler.stop)).handlers
    number handler.stop (hnumbered.le hhandler) hstop
  rw [hset]
  exact ⟨handler', hhandler', (handler.stopped_stop.touched htouched).1⟩

/-- Nobody else sees the permission. -/
theorem handlers_handleStreamCredit_of_ne {packetId number : ℕ} (returned : Decoded Bytes)
    (hsender : s.senders packetId ≠ some number) :
    (s.handleStreamCredit C returned packetId).handlers number = s.handlers number ∧
      (s.handleStreamCredit C returned packetId).senders = s.senders := by
  unfold handleStreamCredit
  split
  · exact ⟨rfl, rfl⟩
  · rename_i number' hnumber'
    have hne : number ≠ number' := by
      rintro rfl
      exact hsender hnumber'
    split
    · exact ⟨rfl, rfl⟩
    · split <;> exact ⟨Function.update_of_ne hne .., rfl⟩

/-- The end of the connection does not reach a handler that the registry does not name. -/
theorem handlers_proceed_of_not_named {number : ℕ} {handler : Handler}
    (hhandler : s.handlers number = some handler)
    (hsender : s.senders handler.packetId ≠ some number) :
    s.proceed.handlers number = some handler := by
  have hnames : s.names number handler = false := by simpa [names] using hsender
  unfold proceed
  split_ifs
  · simp [endLoop, finishPending, hhandler, hnames]
  · exact hhandler

/-- The stop for a handler that the registry names stops it for good. -/
theorem stops_of_named {number : ℕ} {handler : Handler} (hnumbered : s.Numbered)
    (hhandler : s.handlers number = some handler) {raw : Raw}
    (hstop : IsStop C handler.packetId raw) (hsender : s.senders handler.packetId = some number)
    (hstep : s.step C (.receive raw) = some s') : s'.Stops C number := by
  obtain ⟨payload, hlook, rfl⟩ := step_stop hstop hstep
  obtain ⟨handler', hhandler', hstopped'⟩ := stopped_of_named
    (s := { s with received := s.received ++ [raw] }) hlook hnumbered hsender hhandler
  exact stops_of_stopped (hnumbered.step hstep) hhandler' hstopped'

theorem numbered_run {acceptCode acceptCalls : Bool} {es : List EndpointEvent}
    (hrun : Machine.run (step C) (init acceptCode acceptCalls) es = some s) : s.Numbered :=
  Machine.run_always Numbered (fun _ _ _ h hstep => h.step hstep) hrun fun _ _ => rfl

/-- The stop of a consumer stops the stream for good exactly if the registry names its
handler when the loop processes the stop, or if the handler is stopped already. -/
theorem stop_stops_iff (C : Codec) (acceptCode acceptCalls : Bool) {es : List EndpointEvent}
    {s s' : Endpoint} (hrun : Machine.run (step C) (init acceptCode acceptCalls) es = some s)
    {number : ℕ} {handler : Handler} (hhandler : s.handlers number = some handler) {raw : Raw}
    (hstop : IsStop C handler.packetId raw) (hstep : s.step C (.receive raw) = some s') :
    s'.Stops C number ↔ s.senders handler.packetId = some number ∨ handler.Stopped := by
  have hnumbered := numbered_run hrun
  constructor
  · intro hstops
    by_contra hnot
    obtain ⟨hsender, hstopped⟩ := not_or.mp hnot
    obtain ⟨payload, -, rfl⟩ := step_stop hstop hstep
    obtain ⟨hsame, hsenders⟩ := handlers_handleStreamCredit_of_ne (C := C)
      (s := { s with received := s.received ++ [raw] }) payload hsender
    refine hstopped (hstops.stopped (handlers_proceed_of_not_named (hsame.trans hhandler) ?_))
    rw [hsenders]
    exact hsender
  · rintro (hsender | hstopped)
    · exact stops_of_named hnumbered hhandler hstop hsender hstep
    · obtain ⟨handler', hhandler', hstopped', -⟩ :=
        stopped_step hnumbered hhandler hstopped hstep
      exact stops_of_stopped (hnumbered.step hstep) hhandler' hstopped'

/-- The pickle of a call of a method without arguments. -/
def itemsRequest : Bytes :=
  "(dVmethod\nVt.Tool.items\nsVargs\n(tsVkwargs\n(ds.".toUTF8.data.toList

/-- The pickle of `None`. -/
def pickledNone : Bytes := [78, 46]

/-- A codec that can tell these two apart; the method is an async generator. -/
def itemsCodec : Codec where
  pickle := Pickle.marked
  load := .ok
  view
    | .value value =>
        if value = pickledNone then .none
        else if value = itemsRequest then .request true
        else .other
    | _ => .other

/-- The peer calls the method. -/
def callItems : EndpointEvent := .receive ⟨itemsRequest, Flags.rpc ||| Flags.request, 1⟩

/-- The peer leaves the stream. -/
def leaveItems : Raw := ⟨pickledNone, Flags.rpc ||| Flags.stream ||| Flags.request, 1⟩

theorem isStop_leaveItems : IsStop itemsCodec 1 leaveItems :=
  ⟨rfl, rfl, rfl, rfl, rfl, rfl, rfl, pickledNone, rfl, rfl⟩

/-- The method gave its first item. -/
def itemsStarted : List EndpointEvent :=
  [callItems, .handlerStep 1 .start, .handlerStep 1 (.produce ⟨pickledNone, ∅⟩)]

theorem started_stops :
    ∃ s s' handler, Machine.run (step itemsCodec) (init false true) itemsStarted = some s ∧
      s.handlers 1 = some handler ∧ handler.kind = .streaming ∧
      s.step itemsCodec (.receive leaveItems) = some s' ∧ s'.Stops itemsCodec 1 := by
  have hrun : Machine.run (step itemsCodec) (init false true) itemsStarted = some _ := rfl
  exact ⟨_, _, _, hrun, rfl, rfl, rfl,
    (stop_stops_iff itemsCodec false true hrun rfl isStop_leaveItems rfl).mpr (.inl rfl)⟩

/-- A stop that the loop processes before the first step of the handler is lost: the stream
goes on. -/
theorem buffered_stop_lost :
    ∃ s s' u handler, Machine.run (step itemsCodec) (init false true) [callItems] = some s ∧
      s.step itemsCodec (.receive leaveItems) = some s' ∧
      Machine.run (step itemsCodec) s' [.handlerStep 1 .start,
        .handlerStep 1 (.produce ⟨pickledNone, ∅⟩), .handlerStep 1 (.produce ⟨pickledNone, ∅⟩)] =
        some u ∧
      u.handlers 1 = some handler ∧ handler.phase = .producing ∧ handler.pushed.length = 2 ∧
      handler.credit.released = false ∧ handler.cancelling = false ∧ ¬ s'.Stops itemsCodec 1 := by
  refine ⟨_, _, _, _, rfl, rfl, rfl, rfl, rfl, rfl, rfl, rfl, fun hstops => ?_⟩
  have hstopped := hstops.stopped rfl
  rcases hstopped with hended | ⟨hcancelling, -⟩
  · cases hended
  · cases hcancelling

end Endpoint

end Rmote
