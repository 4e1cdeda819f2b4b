import Mathlib.Algebra.Ring.Nat
import Rmote.Library.Machine

/-!
# The handler that sends log records to the peer

Records wait in `pending`. They leave inside a response that detaches them, or in a packet
that a drain task sends. The handler knows what it has scheduled through `draining`,
`sending` and `timer`. What the event loop holds for it is part of the state too: the
callbacks of `start`, the timers that are armed, the drain tasks that are about to take a
batch, and the batches that tasks and responses carry.

`emit` runs in any thread, and every other step on the loop. A step of a task ends where
the task waits. Nothing but a step with a closed connection cancels a task.
-/

namespace Rmote

namespace Log

/-- A record that travels. `serial` is the identity of the local record beside it. -/
structure Record where
  serial : ℕ
  message : String
  traceback : Option String
  deriving DecidableEq, Repr

/-- The text of a record, as an estimate of its size. -/
def Record.weight (record : Record) : ℕ :=
  record.message.length + (record.traceback.getD "").length

def attachRecords : ℕ := 64

def attachBytes : ℕ := 16 * 1024

/-- The handler, what the event loop holds for it, and the history of the records.

`orphans` are armed timers that `timer` no longer names. `drains` counts the tasks at the
top of their loop, `carried` are the batches of the tasks that wait for their packet, and
`responses` are the batches that responses carry. -/
structure RemoteLogHandler where
  pending : List Record
  draining : Bool
  sending : Bool
  paused : Bool
  timer : Bool
  closed : Bool
  loopClosed : Bool
  responsesPending : ℕ
  starts : ℕ
  orphans : ℕ
  drains : ℕ
  carried : List (List Record)
  responses : List (List Record)
  emitted : List Record
  wire : List Record
  reported : List Record
  dropped : List Record

/-- One step: a record is emitted, the loop runs a callback, a task or a response goes on, or
the connection changes. -/
inductive Event where
  | emit (message : String) (traceback : Option String)
  | start
  | timer
  | orphan
  | drain
  | drainSent (index : ℕ)
  | drainFailed (index : ℕ)
  | detach
  | sent (index : ℕ)
  | restore (index : ℕ)
  | owe
  | paid
  | enter
  | close
  | closeLoop
  | cancelDrain
  | cancelCarried (index : ℕ)
  | cancelResponse (index : ℕ)

namespace RemoteLogHandler

def new (paused : Bool) : RemoteLogHandler where
  pending := []
  draining := false
  sending := false
  paused := paused
  timer := false
  closed := false
  loopClosed := false
  responsesPending := 0
  starts := 0
  orphans := 0
  drains := 0
  carried := []
  responses := []
  emitted := []
  wire := []
  reported := []
  dropped := []

/-- The records that wait are dropped. -/
def clear (h : RemoteLogHandler) : RemoteLogHandler :=
  { h with draining := false, pending := [], dropped := h.dropped ++ h.pending }

/-- A record joins the ones that wait. -/
def append (h : RemoteLogHandler) (message : String) (traceback : Option String) :
    RemoteLogHandler :=
  { h with
    pending := h.pending ++ [⟨h.emitted.length, message, traceback⟩]
    emitted := h.emitted ++ [⟨h.emitted.length, message, traceback⟩] }

/-- The first record that waits schedules `start`; a closed loop refuses that. -/
def schedule (h : RemoteLogHandler) : RemoteLogHandler :=
  if h.draining then
    h
  else if h.loopClosed then
    h.clear
  else
    { h with draining := true, starts := h.starts + 1 }

def emit (h : RemoteLogHandler) (message : String) (traceback : Option String) :
    RemoteLogHandler :=
  (h.append message traceback).schedule

/-- Send the records that wait in a packet of their own. A timer that is armed is forgotten,
not cancelled. -/
def sendAlone (h : RemoteLogHandler) : RemoteLogHandler :=
  { h with
    timer := false
    orphans := if h.timer then h.orphans + 1 else h.orphans
    drains := h.drains + 1 }

/-- Choose how the records that wait travel. -/
def start (h : RemoteLogHandler) : RemoteLogHandler :=
  if h.closed then
    h.clear
  else if h.paused then
    h
  else if 0 < h.responsesPending ∧ h.timer = false then
    { h with timer := true }
  else
    h.sendAlone

/-- A response takes the records that wait. -/
def detach (h : RemoteLogHandler) : RemoteLogHandler :=
  if h.sending = true ∨ h.pending = [] ∨ attachRecords < h.pending.length then
    h
  else if attachBytes < (h.pending.map Record.weight).sum then
    h
  else
    { h with
      pending := []
      sending := true
      timer := false
      responses := h.responses ++ [h.pending] }

/-- Free the wire for the next batch, and send what waits. -/
def resume (h : RemoteLogHandler) (batch : List Record) : RemoteLogHandler :=
  if batch ++ h.pending = [] then
    { h with sending := false, pending := batch ++ h.pending, draining := false }
  else if h.draining then
    { h with sending := false, pending := batch ++ h.pending }
  else
    start { h with sending := false, pending := batch ++ h.pending, draining := true }

/-- A drain task at the top of its loop takes what gathered, or ends. -/
def drain (h : RemoteLogHandler) : RemoteLogHandler :=
  if h.sending = true ∨ h.pending = [] then
    { h with draining := false, drains := h.drains - 1 }
  else
    { h with
      pending := []
      sending := true
      drains := h.drains - 1
      carried := h.carried ++ [h.pending] }

/-- The packet of a drain task is written, and the task goes to the top of its loop. -/
def drainSent (h : RemoteLogHandler) (index : ℕ) (batch : List Record) : RemoteLogHandler :=
  { h with
    sending := false
    drains := h.drains + 1
    carried := h.carried.eraseIdx index
    wire := h.wire ++ batch }

/-- The packet of a drain task could not be sent, and the task ends. -/
def drainFailed (h : RemoteLogHandler) (index : ℕ) (batch : List Record) : RemoteLogHandler :=
  { h with
    sending := false
    draining := false
    carried := h.carried.eraseIdx index
    reported := h.reported ++ batch }

/-- A response with its batch is written. -/
def sent (h : RemoteLogHandler) (index : ℕ) (batch : List Record) : RemoteLogHandler :=
  resume { h with responses := h.responses.eraseIdx index, wire := h.wire ++ batch } []

/-- A response with its batch could not be serialized. -/
def restore (h : RemoteLogHandler) (index : ℕ) (batch : List Record) : RemoteLogHandler :=
  resume { h with responses := h.responses.eraseIdx index } batch

/-- Both boundaries are exchanged, and the receive loop starts. -/
def enter (h : RemoteLogHandler) : RemoteLogHandler :=
  if h.pending = [] then { h with paused := false } else start { h with paused := false }

/-- What a step of the loop does. -/
def stepLoop (h : RemoteLogHandler) : Event → Option RemoteLogHandler
  | .start => if 0 < h.starts then some (start { h with starts := h.starts - 1 }) else none
  | .timer => if h.timer then some (sendAlone { h with timer := false }) else none
  | .orphan => if 0 < h.orphans then some (sendAlone { h with orphans := h.orphans - 1 }) else none
  | .drain => if 0 < h.drains then some h.drain else none
  | .drainSent index => h.carried[index]?.map (h.drainSent index)
  | .drainFailed index => h.carried[index]?.map (h.drainFailed index)
  | .detach => if h.paused then none else some h.detach
  | .sent index => h.responses[index]?.map (h.sent index)
  | .restore index => h.responses[index]?.map (h.restore index)
  | .owe =>
      if h.paused then none else some { h with responsesPending := h.responsesPending + 1 }
  | .paid =>
      if 0 < h.responsesPending then some { h with responsesPending := h.responsesPending - 1 }
      else none
  | .enter => if h.paused then some h.enter else none
  | .close => some { h with closed := true }
  | .closeLoop => some { h with loopClosed := true }
  | .cancelDrain => if h.closed ∧ 0 < h.drains then some { h with drains := h.drains - 1 } else none
  | .cancelCarried index =>
      if h.closed then
        h.carried[index]?.map fun batch =>
          { h with carried := h.carried.eraseIdx index, dropped := h.dropped ++ batch }
      else
        none
  | .cancelResponse index =>
      if h.closed then
        h.responses[index]?.map fun batch =>
          { h with responses := h.responses.eraseIdx index, dropped := h.dropped ++ batch }
      else
        none
  | .emit _ _ => none

/-- Records come from any thread, and everything else needs the loop. -/
def step (h : RemoteLogHandler) : Event → Option RemoteLogHandler
  | .emit message traceback => some (h.emit message traceback)
  | event => if h.loopClosed then none else h.stepLoop event

/-- What one step can do. -/
inductive Moves (h : RemoteLogHandler) : Event → RemoteLogHandler → Prop where
  | emit (message : String) (traceback : Option String) :
      Moves h (.emit message traceback) (h.emit message traceback)
  | start (hloop : h.loopClosed = false) (hstarts : 0 < h.starts) :
      Moves h .start (RemoteLogHandler.start { h with starts := h.starts - 1 })
  | timer (hloop : h.loopClosed = false) (htimer : h.timer = true) :
      Moves h .timer (sendAlone { h with timer := false })
  | orphan (hloop : h.loopClosed = false) (horphans : 0 < h.orphans) :
      Moves h .orphan (sendAlone { h with orphans := h.orphans - 1 })
  | drain (hloop : h.loopClosed = false) (hdrains : 0 < h.drains) : Moves h .drain h.drain
  | drainSent {index : ℕ} {batch : List Record} (hloop : h.loopClosed = false)
      (hbatch : h.carried[index]? = some batch) :
      Moves h (.drainSent index) (h.drainSent index batch)
  | drainFailed {index : ℕ} {batch : List Record} (hloop : h.loopClosed = false)
      (hbatch : h.carried[index]? = some batch) :
      Moves h (.drainFailed index) (h.drainFailed index batch)
  | detach (hloop : h.loopClosed = false) (hpaused : h.paused = false) : Moves h .detach h.detach
  | sent {index : ℕ} {batch : List Record} (hloop : h.loopClosed = false)
      (hbatch : h.responses[index]? = some batch) : Moves h (.sent index) (h.sent index batch)
  | restore {index : ℕ} {batch : List Record} (hloop : h.loopClosed = false)
      (hbatch : h.responses[index]? = some batch) :
      Moves h (.restore index) (h.restore index batch)
  | owe (hloop : h.loopClosed = false) (hpaused : h.paused = false) :
      Moves h .owe { h with responsesPending := h.responsesPending + 1 }
  | paid (hloop : h.loopClosed = false) (howed : 0 < h.responsesPending) :
      Moves h .paid { h with responsesPending := h.responsesPending - 1 }
  | enter (hloop : h.loopClosed = false) (hpaused : h.paused = true) : Moves h .enter h.enter
  | close (hloop : h.loopClosed = false) : Moves h .close { h with closed := true }
  | closeLoop (hloop : h.loopClosed = false) : Moves h .closeLoop { h with loopClosed := true }
  | cancelDrain (hloop : h.loopClosed = false) (hclosed : h.closed = true) (hdrains : 0 < h.drains) :
      Moves h .cancelDrain { h with drains := h.drains - 1 }
  | cancelCarried {index : ℕ} {batch : List Record} (hloop : h.loopClosed = false)
      (hclosed : h.closed = true) (hbatch : h.carried[index]? = some batch) :
      Moves h (.cancelCarried index)
        { h with carried := h.carried.eraseIdx index, dropped := h.dropped ++ batch }
  | cancelResponse {index : ℕ} {batch : List Record} (hloop : h.loopClosed = false)
      (hclosed : h.closed = true) (hbatch : h.responses[index]? = some batch) :
      Moves h (.cancelResponse index)
        { h with responses := h.responses.eraseIdx index, dropped := h.dropped ++ batch }

theorem step_moves {h t : RemoteLogHandler} {event : Event} (hstep : h.step event = some t) :
    h.Moves event t := by
  cases event with
  | emit message traceback =>
      cases hstep
      exact .emit message traceback
  | start =>
      simp only [step, stepLoop, Option.ite_none_left_eq_some, Option.ite_none_right_eq_some] at hstep
      obtain ⟨hloop, hstarts, ⟨⟩⟩ := hstep
      exact .start (by simpa using hloop) hstarts
  | timer =>
      simp only [step, stepLoop, Option.ite_none_left_eq_some, Option.ite_none_right_eq_some] at hstep
      obtain ⟨hloop, htimer, ⟨⟩⟩ := hstep
      exact .timer (by simpa using hloop) htimer
  | orphan =>
      simp only [step, stepLoop, Option.ite_none_left_eq_some, Option.ite_none_right_eq_some] at hstep
      obtain ⟨hloop, horphans, ⟨⟩⟩ := hstep
      exact .orphan (by simpa using hloop) horphans
  | drain =>
      simp only [step, stepLoop, Option.ite_none_left_eq_some, Option.ite_none_right_eq_some] at hstep
      obtain ⟨hloop, hdrains, ⟨⟩⟩ := hstep
      exact .drain (by simpa using hloop) hdrains
  | drainSent index =>
      simp only [step, stepLoop, Option.ite_none_left_eq_some, Option.map_eq_some_iff] at hstep
      obtain ⟨hloop, batch, hbatch, rfl⟩ := hstep
      exact .drainSent (by simpa using hloop) hbatch
  | drainFailed index =>
      simp only [step, stepLoop, Option.ite_none_left_eq_some, Option.map_eq_some_iff] at hstep
      obtain ⟨hloop, batch, hbatch, rfl⟩ := hstep
      exact .drainFailed (by simpa using hloop) hbatch
  | detach =>
      simp only [step, stepLoop, Option.ite_none_left_eq_some] at hstep
      obtain ⟨hloop, hpaused, ⟨⟩⟩ := hstep
      exact .detach (by simpa using hloop) (by simpa using hpaused)
  | sent index =>
      simp only [step, stepLoop, Option.ite_none_left_eq_some, Option.map_eq_some_iff] at hstep
      obtain ⟨hloop, batch, hbatch, rfl⟩ := hstep
      exact .sent (by simpa using hloop) hbatch
  | restore index =>
      simp only [step, stepLoop, Option.ite_none_left_eq_some, Option.map_eq_some_iff] at hstep
      obtain ⟨hloop, batch, hbatch, rfl⟩ := hstep
      exact .restore (by simpa using hloop) hbatch
  | owe =>
      simp only [step, stepLoop, Option.ite_none_left_eq_some] at hstep
      obtain ⟨hloop, hpaused, ⟨⟩⟩ := hstep
      exact .owe (by simpa using hloop) (by simpa using hpaused)
  | paid =>
      simp only [step, stepLoop, Option.ite_none_left_eq_some, Option.ite_none_right_eq_some] at hstep
      obtain ⟨hloop, howed, ⟨⟩⟩ := hstep
      exact .paid (by simpa using hloop) howed
  | enter =>
      simp only [step, stepLoop, Option.ite_none_left_eq_some, Option.ite_none_right_eq_some] at hstep
      obtain ⟨hloop, hpaused, ⟨⟩⟩ := hstep
      exact .enter (by simpa using hloop) hpaused
  | close =>
      simp only [step, stepLoop, Option.ite_none_left_eq_some] at hstep
      obtain ⟨hloop, ⟨⟩⟩ := hstep
      exact .close (by simpa using hloop)
  | closeLoop =>
      simp only [step, stepLoop, Option.ite_none_left_eq_some] at hstep
      obtain ⟨hloop, ⟨⟩⟩ := hstep
      exact .closeLoop (by simpa using hloop)
  | cancelDrain =>
      simp only [step, stepLoop, Option.ite_none_left_eq_some, Option.ite_none_right_eq_some] at hstep
      obtain ⟨hloop, ⟨hclosed, hdrains⟩, ⟨⟩⟩ := hstep
      exact .cancelDrain (by simpa using hloop) hclosed hdrains
  | cancelCarried index =>
      simp only [step, stepLoop, Option.ite_none_left_eq_some, Option.ite_none_right_eq_some,
        Option.map_eq_some_iff] at hstep
      obtain ⟨hloop, hclosed, batch, hbatch, rfl⟩ := hstep
      exact .cancelCarried (by simpa using hloop) hclosed hbatch
  | cancelResponse index =>
      simp only [step, stepLoop, Option.ite_none_left_eq_some, Option.ite_none_right_eq_some,
        Option.map_eq_some_iff] at hstep
      obtain ⟨hloop, hclosed, batch, hbatch, rfl⟩ := hstep
      exact .cancelResponse (by simpa using hloop) hclosed hbatch

/-! ## The wire -/

/-- Everything that decides which batches are on the wire. -/
def traffic (h : RemoteLogHandler) : Bool × List (List Record) × List (List Record) × Bool :=
  (h.sending, h.carried, h.responses, h.closed)

/-- One batch is on the wire at a time, and `sending` tells so. -/
structure Flight (h : RemoteLogHandler) : Prop where
  one : h.carried.length + h.responses.length ≤ 1
  busy : h.carried ≠ [] ∨ h.responses ≠ [] → h.sending = true
  idle : h.closed = false → h.sending = true → h.carried ≠ [] ∨ h.responses ≠ []

variable {h t : RemoteLogHandler}

theorem Flight.of_traffic (hflight : h.Flight) (heq : t.traffic = h.traffic) : t.Flight := by
  cases h
  cases t
  cases heq
  exact ⟨hflight.one, hflight.busy, hflight.idle⟩

@[simp] theorem traffic_emit (h : RemoteLogHandler) (message : String) (traceback : Option String) :
    (h.emit message traceback).traffic = h.traffic := by
  unfold emit schedule
  split_ifs <;> rfl

@[simp] theorem traffic_start (h : RemoteLogHandler) : h.start.traffic = h.traffic := by
  unfold start
  split_ifs <;> rfl

@[simp] theorem traffic_enter (h : RemoteLogHandler) : h.enter.traffic = h.traffic := by
  unfold enter
  split_ifs
  · rfl
  · rw [traffic_start]
    rfl

@[simp] theorem traffic_resume (h : RemoteLogHandler) (batch : List Record) :
    (h.resume batch).traffic = (false, h.carried, h.responses, h.closed) := by
  unfold resume
  split_ifs
  · rfl
  · rfl
  · rw [traffic_start]
    rfl

/-- A batch that is on the wire is the only one. -/
theorem Flight.carried_eq (hflight : h.Flight) {index : ℕ} {batch : List Record}
    (hbatch : h.carried[index]? = some batch) :
    h.carried = [batch] ∧ h.responses = [] ∧ h.carried.eraseIdx index = [] := by
  obtain ⟨hlt, hget⟩ := List.getElem?_eq_some_iff.mp hbatch
  have hone := hflight.one
  obtain ⟨first, hfirst⟩ := List.length_eq_one_iff.mp (show h.carried.length = 1 by omega)
  have hresponses : h.responses = [] := List.eq_nil_of_length_eq_zero (by omega)
  obtain rfl : index = 0 := by omega
  simp only [hfirst, List.getElem_cons_zero] at hget
  rw [hfirst, hget]
  exact ⟨rfl, hresponses, rfl⟩

theorem Flight.responses_eq (hflight : h.Flight) {index : ℕ} {batch : List Record}
    (hbatch : h.responses[index]? = some batch) :
    h.responses = [batch] ∧ h.carried = [] ∧ h.responses.eraseIdx index = [] := by
  obtain ⟨hlt, hget⟩ := List.getElem?_eq_some_iff.mp hbatch
  have hone := hflight.one
  obtain ⟨first, hfirst⟩ := List.length_eq_one_iff.mp (show h.responses.length = 1 by omega)
  have hcarried : h.carried = [] := List.eq_nil_of_length_eq_zero (by omega)
  obtain rfl : index = 0 := by omega
  simp only [hfirst, List.getElem_cons_zero] at hget
  rw [hfirst, hget]
  exact ⟨rfl, hcarried, rfl⟩

/-- A wire that is free carries nothing. -/
theorem Flight.free (hflight : h.Flight) (hsending : h.sending = false) :
    h.carried = [] ∧ h.responses = [] := by
  by_contra hsome
  rw [not_and_or] at hsome
  rw [hflight.busy hsome] at hsending
  cases hsending

theorem flight_free (closed : Bool) (heq : t.traffic = (false, [], [], closed)) : t.Flight := by
  cases t
  cases heq
  exact ⟨Nat.zero_le 1, by simp, nofun⟩

theorem Flight.detach (hflight : h.Flight) : h.detach.Flight := by
  unfold RemoteLogHandler.detach
  split_ifs with hkeep hheavy
  · exact hflight
  · exact hflight
  · obtain ⟨hcarried, hresponses⟩ := hflight.free (by simpa using (not_or.mp hkeep).1)
    refine ⟨?_, fun _ => rfl, fun _ _ => .inr ?_⟩
    · simp [hcarried, hresponses]
    · simp

theorem Flight.drain (hflight : h.Flight) : h.drain.Flight := by
  unfold RemoteLogHandler.drain
  split_ifs with hstop
  · exact hflight.of_traffic rfl
  · obtain ⟨hcarried, hresponses⟩ := hflight.free (by simpa using (not_or.mp hstop).1)
    refine ⟨?_, fun _ => rfl, fun _ _ => .inl ?_⟩
    · simp [hcarried, hresponses]
    · simp

theorem Flight.step (hflight : h.Flight) {event : Event} (hstep : h.step event = some t) :
    t.Flight := by
  cases step_moves hstep with
  | emit message traceback => exact hflight.of_traffic (traffic_emit ..)
  | start _ _ => exact hflight.of_traffic (traffic_start _)
  | timer _ _ => exact hflight.of_traffic rfl
  | orphan _ _ => exact hflight.of_traffic rfl
  | drain _ _ => exact hflight.drain
  | drainSent _ hbatch =>
      obtain ⟨-, hresponses, hrest⟩ := hflight.carried_eq hbatch
      exact flight_free h.closed (by simp [traffic, RemoteLogHandler.drainSent, hrest, hresponses])
  | drainFailed _ hbatch =>
      obtain ⟨-, hresponses, hrest⟩ := hflight.carried_eq hbatch
      exact flight_free h.closed (by simp [traffic, RemoteLogHandler.drainFailed, hrest, hresponses])
  | detach _ _ => exact hflight.detach
  | sent _ hbatch =>
      obtain ⟨-, hcarried, hrest⟩ := hflight.responses_eq hbatch
      exact flight_free h.closed (by simp [RemoteLogHandler.sent, hrest, hcarried])
  | restore _ hbatch =>
      obtain ⟨-, hcarried, hrest⟩ := hflight.responses_eq hbatch
      exact flight_free h.closed (by simp [RemoteLogHandler.restore, hrest, hcarried])
  | owe _ _ => exact hflight.of_traffic rfl
  | paid _ _ => exact hflight.of_traffic rfl
  | enter _ _ => exact hflight.of_traffic (traffic_enter h)
  | close _ => exact ⟨hflight.one, hflight.busy, nofun⟩
  | closeLoop _ => exact hflight.of_traffic rfl
  | cancelDrain _ _ _ => exact hflight.of_traffic rfl
  | cancelCarried _ hclosed hbatch =>
      obtain ⟨-, hresponses, hrest⟩ := hflight.carried_eq hbatch
      refine ⟨by simp [hrest, hresponses], by simp [hrest, hresponses], fun hopen => ?_⟩
      exact absurd (hclosed.symm.trans hopen) (by simp)
  | cancelResponse _ hclosed hbatch =>
      obtain ⟨-, hcarried, hrest⟩ := hflight.responses_eq hbatch
      refine ⟨by simp [hrest, hcarried], by simp [hrest, hcarried], fun hopen => ?_⟩
      exact absurd (hclosed.symm.trans hopen) (by simp)

theorem flight_new (paused : Bool) : (new paused).Flight := flight_free false rfl

end RemoteLogHandler

end Log

end Rmote
