import Mathlib.Data.Int.Notation
import Rmote.Library.Machine

/-!
# The worker that delivers remote records

The loop thread leaves records in a bounded queue, and one worker hands them to the local
handlers. They share two flags and an event, and no lock: the worker says with `idle` that it
is about to wait, and only then a new record sets `wake`. Each access to what they share is a
step of its own, and the steps of the two threads interleave freely.
-/

namespace Rmote

namespace Log

/-- A record as it travels. -/
structure LogRecord where
  name : String
  levelno : ℤ
  pathname : String
  lineno : ℤ
  message : String
  traceback : Option String
  deriving DecidableEq

/-- Where the thread that calls `deliver` and `stop` stands. -/
inductive Caller where
  | ready
  /-- The records are filtered. -/
  | filtered (records : List LogRecord)
  /-- The room is known. -/
  | measured (records : List LogRecord) (room : ℕ)
  /-- The losses are counted. -/
  | counted (records : List LogRecord)
  /-- The records are in the queue. -/
  | extended
  /-- It found the worker idle. -/
  | calling
  /-- It is about to see whether there is a worker. -/
  | starting
  /-- `stop` took the worker. -/
  | stopping
  /-- `stop` said that it closes. -/
  | closed
  | joining
  | stopped
  deriving DecidableEq

/-- Where the worker stands in `run`. -/
inductive Worker where
  | absent
  | popping
  | emitting (record : LogRecord)
  | reporting
  | counting
  | logging (lost : ℕ)
  /-- It found the queue empty. -/
  | testing
  | drowsy
  /-- It is idle and looks for records again. -/
  | looking
  /-- It found none and looks whether it has to close. -/
  | hesitating
  | waiting
  | waking
  | clearing
  | ended
  deriving DecidableEq

/-- The delivery, its two threads, and the history of its records. -/
structure LogDelivery where
  limit : ℕ
  records : List LogRecord
  wake : Bool
  /-- `worker` is set. -/
  started : Bool
  lost : ℕ
  idle : Bool
  closing : Bool
  caller : Caller
  thread : Worker
  /-- The local variable of `run`. -/
  reported : ℕ
  /-- The enabled records that were offered. -/
  offered : List LogRecord
  accepted : List LogRecord
  emitted : List LogRecord
  /-- The losses that were logged. -/
  reports : List ℕ

/-- A call begins, or a thread takes its next step. -/
inductive DeliveryEvent where
  | deliver (records : List LogRecord) (enabled : String → ℤ → Bool)
  | stop
  | caller
  | worker

namespace LogDelivery

def new (limit : ℕ) : LogDelivery :=
  ⟨limit, [], false, false, 0, false, false, .ready, .absent, 0, [], [], [], []⟩

/-- `deliver` drops what no handler accepts. -/
def filter (d : LogDelivery) (records : List LogRecord) : LogDelivery :=
  if records = [] then d
  else { d with caller := .filtered records, offered := d.offered ++ records }

/-- Take the worker, if there is one. -/
def takeWorker (d : LogDelivery) : LogDelivery :=
  if d.started then { d with started := false, caller := .stopping }
  else { d with caller := .stopped }

/-- Count what there is no room for. -/
def count (d : LogDelivery) (records : List LogRecord) (room : ℕ) : LogDelivery :=
  if room < records.length then
    { d with caller := .counted (records.take room), lost := d.lost + (records.length - room) }
  else { d with caller := .counted records }

/-- Start the worker on the first batch. -/
def start (d : LogDelivery) : LogDelivery :=
  if d.started = false ∧ d.closing = false then
    { d with started := true, caller := .ready, thread := .popping, reported := 0 }
  else { d with caller := .ready }

/-- The next step of the call that is under way. -/
def callerStep (d : LogDelivery) : Option LogDelivery :=
  match d.caller with
  | .ready => none
  | .filtered records => some { d with caller := .measured records (d.limit - d.records.length) }
  | .measured records room => some (d.count records room)
  | .counted records => some { d with
      caller := .extended, records := d.records ++ records, accepted := d.accepted ++ records }
  | .extended => some { d with caller := if d.idle then .calling else .starting }
  | .calling => some { d with caller := .starting, wake := true }
  | .starting => some d.start
  | .stopping => some { d with caller := .closed, closing := true }
  | .closed => some { d with caller := .joining, wake := true }
  | .joining => some { d with caller := .stopped }
  | .stopped => none

/-- Take the first record, or find that there is none. -/
def popleft (d : LogDelivery) : LogDelivery :=
  match d.records with
  | [] => { d with thread := .testing }
  | record :: records => { d with thread := .emitting record, records := records }

/-- The next step of the worker. -/
def workerStep (d : LogDelivery) : Option LogDelivery :=
  match d.thread with
  | .absent => none
  | .popping => some d.popleft
  | .emitting record => some { d with thread := .reporting, emitted := d.emitted ++ [record] }
  | .reporting => some { d with thread := if d.reported < d.lost then .counting else .popping }
  | .counting => some { d with thread := .logging (d.lost - d.reported) }
  | .logging lost => some { d with
      thread := .popping, reported := d.lost, reports := d.reports ++ [lost] }
  | .testing => some { d with thread := if d.closing then .ended else .drowsy }
  | .drowsy => some { d with thread := .looking, idle := true }
  | .looking => some { d with thread := if d.records = [] then .hesitating else .waking }
  | .hesitating => some { d with thread := if d.closing then .waking else .waiting }
  | .waiting => if d.wake then some { d with thread := .waking } else none
  | .waking => some { d with thread := .clearing, idle := false }
  | .clearing => some { d with thread := .popping, wake := false }
  | .ended => none

def step (d : LogDelivery) : DeliveryEvent → Option LogDelivery
  | .deliver records enabled =>
      if d.caller = .ready then
        some (d.filter (records.filter fun record => enabled record.name record.levelno))
      else none
  | .stop => if d.caller = .ready then some d.takeWorker else none
  | .caller => d.callerStep
  | .worker => d.workerStep

end LogDelivery

/-- The records that a call has in its hands. -/
def Caller.inHand : Caller → List LogRecord
  | .filtered records => records
  | .measured records _ => records
  | .counted records => records
  | _ => []

/-- The room that a call has measured and not used. -/
def Caller.reserved : Caller → ℕ
  | .measured _ room => room
  | .counted records => records.length
  | _ => 0

/-- A call of `stop` has said that it closes. -/
def Caller.Late : Caller → Prop
  | .closed => True
  | .joining => True
  | .stopped => True
  | _ => False

/-- The record that the worker has in its hands. -/
def Worker.inHand : Worker → List LogRecord
  | .emitting record => [record]
  | _ => []

namespace LogDelivery

/-- The worker waits for the event. -/
def Blocked (d : LogDelivery) : Prop := d.thread = .waiting ∧ d.wake = false

/-- The state after `n` more steps of the call that is under way. -/
def callerSteps (d : LogDelivery) : ℕ → LogDelivery
  | 0 => d
  | n + 1 => callerSteps (d.callerStep.getD d) n

/-- The worker waits though it has something to do, and no step that remains wakes it. -/
structure Missed (d : LogDelivery) : Prop where
  blocked : d.Blocked
  work : d.records ≠ [] ∨ d.closing = true
  forgotten : ∀ n, (d.callerSteps n).wake = false

/-- Nothing is missed, reordered or miscounted. -/
structure Faithful (d : LogDelivery) : Prop where
  heard : ¬ d.Missed
  bounded : d.records.length ≤ d.limit
  ordered : d.emitted <+: d.accepted
  complete : d.thread = .ended → d.emitted = d.accepted
  balanced : d.accepted.length + d.lost + d.caller.inHand.length = d.offered.length

/-- The worker that found the queue empty does not learn that it has to close while records
came in between. -/
def Leaves (d : LogDelivery) : DeliveryEvent → Prop
  | .worker => d.thread = .testing → d.closing = true → d.records = []
  | _ => True

instance (d : LogDelivery) : ∀ event, Decidable (d.Leaves event)
  | .worker => inferInstanceAs (Decidable (_ → _ → _))
  | .deliver _ _ => isTrue trivial
  | .stop => isTrue trivial
  | .caller => isTrue trivial

/-- What every interleaving keeps. -/
structure Sound (d : LogDelivery) : Prop where
  history : d.accepted = d.emitted ++ d.thread.inHand ++ d.records
  room : d.caller.reserved + d.records.length ≤ d.limit
  balanced : d.accepted.length + d.lost + d.caller.inHand.length = d.offered.length
  idle : d.thread = .looking ∨ d.thread = .hesitating ∨ d.thread = .waiting → d.idle = true
  seen : d.thread = .hesitating ∨ d.thread = .waiting →
    d.records = [] ∨ d.wake = true ∨ d.caller = .extended ∨ d.caller = .calling
  late : d.closing = true → d.caller.Late
  woken : d.thread = .waiting → d.closing = true → d.wake = true ∨ d.caller = .closed
  single : d.started = false → d.thread = .absent ∨ d.caller = .stopping ∨ d.caller.Late
  ended : d.thread = .ended → d.closing = true

theorem sound_new (limit : ℕ) : (new limit).Sound where
  history := rfl
  room := Nat.zero_le limit
  balanced := rfl
  idle := by simp [new]
  seen := by simp [new]
  late := by simp [new]
  woken := by simp [new]
  single := fun _ => .inl rfl
  ended := by simp [new]

variable {d t : LogDelivery} {event : DeliveryEvent}

/-- A worker that waits with work to do is about to be woken. -/
theorem Sound.not_missed (h : d.Sound) : ¬ d.Missed := by
  rintro ⟨⟨hwaiting, hwake⟩, hwork, hforgotten⟩
  have hidle := h.idle (.inr (.inr hwaiting))
  rcases hwork with hrecords | hclosing
  · rcases h.seen (.inr hwaiting) with hempty | hset | hcaller | hcaller
    · exact hrecords hempty
    · rw [hset] at hwake
      cases hwake
    · have htwo := hforgotten 2
      simp [callerSteps, callerStep, hcaller, hidle] at htwo
    · have hone := hforgotten 1
      simp [callerSteps, callerStep, hcaller] at hone
  · rcases h.woken hwaiting hclosing with hset | hcaller
    · rw [hset] at hwake
      cases hwake
    · have hone := hforgotten 1
      simp [callerSteps, callerStep, hcaller] at hone

theorem Sound.faithful (h : d.Sound) (hended : d.thread = .ended → d.records = []) :
    d.Faithful where
  heard := h.not_missed
  bounded := Nat.le_trans (Nat.le_add_left _ _) h.room
  ordered := by
    rw [h.history, List.append_assoc]
    exact List.prefix_append _ _
  complete hthread := by
    rw [h.history, hthread, hended hthread]
    simp [Worker.inHand]
  balanced := h.balanced

/-- What one step can do. -/
inductive Moves (d : LogDelivery) : DeliveryEvent → LogDelivery → Prop where
  | nothing {offers : List LogRecord} {enabled : String → ℤ → Bool}
      (hready : d.caller = .ready) : Moves d (.deliver offers enabled) d
  | filter {offers records : List LogRecord} {enabled : String → ℤ → Bool}
      (hready : d.caller = .ready) : Moves d (.deliver offers enabled)
        { d with caller := .filtered records, offered := d.offered ++ records }
  | stopEarly (hready : d.caller = .ready) (hstarted : d.started = false) :
      Moves d .stop { d with caller := .stopped }
  | takeWorker (hready : d.caller = .ready) (hstarted : d.started = true) :
      Moves d .stop { d with started := false, caller := .stopping }
  | measure {records : List LogRecord} (hcaller : d.caller = .filtered records) :
      Moves d .caller { d with caller := .measured records (d.limit - d.records.length) }
  | count {records : List LogRecord} {room : ℕ} (hcaller : d.caller = .measured records room) :
      Moves d .caller { d with
        caller := .counted (records.take room), lost := d.lost + (records.length - room) }
  | extend {records : List LogRecord} (hcaller : d.caller = .counted records) :
      Moves d .caller { d with
        caller := .extended, records := d.records ++ records, accepted := d.accepted ++ records }
  | call (hcaller : d.caller = .extended) (hidle : d.idle = true) :
      Moves d .caller { d with caller := .calling }
  | pass (hcaller : d.caller = .extended) (hidle : d.idle = false) :
      Moves d .caller { d with caller := .starting }
  | wake (hcaller : d.caller = .calling) :
      Moves d .caller { d with caller := .starting, wake := true }
  | start (hcaller : d.caller = .starting) (hstarted : d.started = false) :
      Moves d .caller { d with started := true, caller := .ready, thread := .popping, reported := 0 }
  | leave (hcaller : d.caller = .starting) : Moves d .caller { d with caller := .ready }
  | close (hcaller : d.caller = .stopping) :
      Moves d .caller { d with caller := .closed, closing := true }
  | last (hcaller : d.caller = .closed) :
      Moves d .caller { d with caller := .joining, wake := true }
  | join (hcaller : d.caller = .joining) : Moves d .caller { d with caller := .stopped }
  | empty (hthread : d.thread = .popping) (hrecords : d.records = []) :
      Moves d .worker { d with thread := .testing }
  | pop {record : LogRecord} {records : List LogRecord} (hthread : d.thread = .popping)
      (hrecords : d.records = record :: records) :
      Moves d .worker { d with thread := .emitting record, records := records }
  | emit {record : LogRecord} (hthread : d.thread = .emitting record) :
      Moves d .worker { d with thread := .reporting, emitted := d.emitted ++ [record] }
  | report (hthread : d.thread = .reporting) : Moves d .worker { d with thread := .counting }
  | again (hthread : d.thread = .reporting) : Moves d .worker { d with thread := .popping }
  | compare (hthread : d.thread = .counting) :
      Moves d .worker { d with thread := .logging (d.lost - d.reported) }
  | log {lost : ℕ} (hthread : d.thread = .logging lost) :
      Moves d .worker { d with thread := .popping, reported := d.lost, reports := d.reports ++ [lost] }
  | finish (hthread : d.thread = .testing) (hclosing : d.closing = true) :
      Moves d .worker { d with thread := .ended }
  | doze (hthread : d.thread = .testing) (hclosing : d.closing = false) :
      Moves d .worker { d with thread := .drowsy }
  | rest (hthread : d.thread = .drowsy) :
      Moves d .worker { d with thread := .looking, idle := true }
  | hesitate (hthread : d.thread = .looking) (hrecords : d.records = []) :
      Moves d .worker { d with thread := .hesitating }
  | found (hthread : d.thread = .looking) : Moves d .worker { d with thread := .waking }
  | told (hthread : d.thread = .hesitating) : Moves d .worker { d with thread := .waking }
  | wait (hthread : d.thread = .hesitating) (hclosing : d.closing = false) :
      Moves d .worker { d with thread := .waiting }
  | resume (hthread : d.thread = .waiting) (hwake : d.wake = true) :
      Moves d .worker { d with thread := .waking }
  | rise (hthread : d.thread = .waking) :
      Moves d .worker { d with thread := .clearing, idle := false }
  | clear (hthread : d.thread = .clearing) :
      Moves d .worker { d with thread := .popping, wake := false }

theorem callerStep_moves (hstep : d.callerStep = some t) : d.Moves .caller t := by
  unfold callerStep at hstep
  split at hstep
  · cases hstep
  · cases hstep
    exact .measure ‹_›
  · rename_i records room hcaller
    cases hstep
    unfold LogDelivery.count
    split_ifs with hroom
    · exact .count hcaller
    · have hmoves := Moves.count hcaller
      rwa [List.take_of_length_le (Nat.not_lt.mp hroom), Nat.sub_eq_zero_of_le (Nat.not_lt.mp hroom)]
        at hmoves
  · cases hstep
    exact .extend ‹_›
  · rename_i hcaller
    cases hstep
    split_ifs with hidle
    · exact .call hcaller hidle
    · exact .pass hcaller (by simpa using hidle)
  · cases hstep
    exact .wake ‹_›
  · rename_i hcaller
    cases hstep
    unfold LogDelivery.start
    split_ifs with hstarted
    · exact .start hcaller hstarted.1
    · exact .leave hcaller
  · cases hstep
    exact .close ‹_›
  · cases hstep
    exact .last ‹_›
  · cases hstep
    exact .join ‹_›
  · cases hstep

theorem workerStep_moves (hstep : d.workerStep = some t) : d.Moves .worker t := by
  unfold workerStep at hstep
  split at hstep
  · cases hstep
  · rename_i hthread
    cases hstep
    unfold popleft
    split
    · exact .empty hthread ‹_›
    · exact .pop hthread ‹_›
  · cases hstep
    exact .emit ‹_›
  · rename_i hthread
    cases hstep
    split_ifs
    · exact .report hthread
    · exact .again hthread
  · cases hstep
    exact .compare ‹_›
  · cases hstep
    exact .log ‹_›
  · rename_i hthread
    cases hstep
    split_ifs with hclosing
    · exact .finish hthread hclosing
    · exact .doze hthread (by simpa using hclosing)
  · cases hstep
    exact .rest ‹_›
  · rename_i hthread
    cases hstep
    split_ifs with hrecords
    · exact .hesitate hthread hrecords
    · exact .found hthread
  · rename_i hthread
    cases hstep
    split_ifs with hclosing
    · exact .told hthread
    · exact .wait hthread (by simpa using hclosing)
  · rename_i hthread
    simp only [Option.ite_none_right_eq_some] at hstep
    obtain ⟨hwake, ⟨⟩⟩ := hstep
    exact .resume hthread hwake
  · cases hstep
    exact .rise ‹_›
  · cases hstep
    exact .clear ‹_›
  · cases hstep

theorem step_moves (hstep : d.step event = some t) : d.Moves event t := by
  cases event with
  | deliver records enabled =>
      simp only [step, Option.ite_none_right_eq_some] at hstep
      obtain ⟨hready, ⟨⟩⟩ := hstep
      unfold filter
      split_ifs
      · exact .nothing hready
      · exact .filter hready
  | stop =>
      simp only [step, Option.ite_none_right_eq_some] at hstep
      obtain ⟨hready, ⟨⟩⟩ := hstep
      unfold takeWorker
      split_ifs with hstarted
      · exact .takeWorker hready hstarted
      · exact .stopEarly hready (by simpa using hstarted)
  | caller => exact callerStep_moves hstep
  | worker => exact workerStep_moves hstep

/-! ## What a step keeps -/

theorem Sound.history_moves (h : d.Sound) (hmoves : d.Moves event t) :
    t.accepted = t.emitted ++ t.thread.inHand ++ t.records := by
  have hhistory := h.history
  cases hmoves with
  | extend hcaller => simp [hhistory]
  | start hcaller hstarted =>
      rcases h.single hstarted with hthread | hcaller' | hcaller'
      · simpa [hthread, Worker.inHand] using hhistory
      · rw [hcaller] at hcaller'
        cases hcaller'
      · rw [hcaller] at hcaller'
        cases hcaller'
  | pop hthread hrecords => simpa [hthread, hrecords, Worker.inHand] using hhistory
  | emit hthread => simpa [hthread, Worker.inHand] using hhistory
  | _ => simp_all [Worker.inHand]

theorem Sound.room_moves (h : d.Sound) (hmoves : d.Moves event t) :
    t.caller.reserved + t.records.length ≤ t.limit := by
  have hroom := h.room
  cases hmoves with
  | measure hcaller =>
      rw [hcaller] at hroom
      simp only [Caller.reserved] at hroom ⊢
      omega
  | count hcaller =>
      rw [hcaller] at hroom
      simp only [Caller.reserved, List.length_take] at hroom ⊢
      omega
  | extend hcaller =>
      rw [hcaller] at hroom
      simp only [Caller.reserved, List.length_append] at hroom ⊢
      omega
  | pop hthread hrecords =>
      rw [hrecords, List.length_cons] at hroom
      dsimp only
      omega
  | _ => simp_all [Caller.reserved]

theorem Sound.balanced_moves (h : d.Sound) (hmoves : d.Moves event t) :
    t.accepted.length + t.lost + t.caller.inHand.length = t.offered.length := by
  have hbalanced := h.balanced
  cases hmoves with
  | filter hcaller =>
      rw [hcaller] at hbalanced
      simp only [Caller.inHand, List.length_append, List.length_nil] at hbalanced ⊢
      omega
  | count hcaller =>
      rw [hcaller] at hbalanced
      simp only [Caller.inHand, List.length_take] at hbalanced ⊢
      omega
  | extend hcaller =>
      rw [hcaller] at hbalanced
      simp only [Caller.inHand, List.length_append, List.length_nil] at hbalanced ⊢
      omega
  | _ => simp_all [Caller.inHand]

theorem Sound.idle_moves (h : d.Sound) (hmoves : d.Moves event t) :
    t.thread = .looking ∨ t.thread = .hesitating ∨ t.thread = .waiting → t.idle = true := by
  have hidle := h.idle
  cases hmoves with
  | hesitate hthread hrecords => exact fun _ => hidle (.inl hthread)
  | wait hthread hclosing => exact fun _ => hidle (.inr (.inl hthread))
  | _ => simp_all

/-- A record that comes after the worker looked finds it idle. -/
theorem Sound.seen_moves (h : d.Sound) (hmoves : d.Moves event t) :
    t.thread = .hesitating ∨ t.thread = .waiting →
      t.records = [] ∨ t.wake = true ∨ t.caller = .extended ∨ t.caller = .calling := by
  have hseen := h.seen
  cases hmoves with
  | extend hcaller => exact fun _ => .inr (.inr (.inl rfl))
  | call hcaller hidle => exact fun _ => .inr (.inr (.inr rfl))
  | pass hcaller hidle =>
      intro hthread
      rw [h.idle (.inr hthread)] at hidle
      cases hidle
  | wake hcaller => exact fun _ => .inr (.inl rfl)
  | last hcaller => exact fun _ => .inr (.inl rfl)
  | hesitate hthread hrecords => exact fun _ => .inl hrecords
  | wait hthread hclosing => exact fun _ => hseen (.inl hthread)
  | _ => simp_all

theorem Sound.late_moves (h : d.Sound) (hmoves : d.Moves event t) : t.closing = true → t.caller.Late := by
  have hlate := h.late
  cases hmoves with
  | _ => simp_all [Caller.Late]

theorem Sound.woken_moves (h : d.Sound) (hmoves : d.Moves event t) :
    t.thread = .waiting → t.closing = true → t.wake = true ∨ t.caller = .closed := by
  have hwoken := h.woken
  have hlate := h.late
  cases hmoves with
  | _ => simp_all [Caller.Late]

theorem Sound.single_moves (h : d.Sound) (hmoves : d.Moves event t) :
    t.started = false → t.thread = .absent ∨ t.caller = .stopping ∨ t.caller.Late := by
  have hsingle := h.single
  cases hmoves with
  | _ => simp_all [Caller.Late]

theorem Sound.ended_moves (h : d.Sound) (hmoves : d.Moves event t) :
    t.thread = .ended → t.closing = true := by
  have hended := h.ended
  cases hmoves with
  | _ => simp_all

theorem Sound.moves (h : d.Sound) (hmoves : d.Moves event t) : t.Sound where
  history := h.history_moves hmoves
  room := h.room_moves hmoves
  balanced := h.balanced_moves hmoves
  idle := h.idle_moves hmoves
  seen := h.seen_moves hmoves
  late := h.late_moves hmoves
  woken := h.woken_moves hmoves
  single := h.single_moves hmoves
  ended := h.ended_moves hmoves

/-- A worker that has ended leaves nothing behind. -/
def Drained (d : LogDelivery) : Prop := d.thread = .ended → d.records = []

/-- Only the last look at `closing` can leave records behind. -/
theorem drained_step (h : d.Sound) (hdrained : d.Drained) (hleaves : d.Leaves event)
    (hstep : d.step event = some t) : t.Drained := by
  have hlate : d.thread = .ended → d.caller.Late := fun hended => h.late (h.ended hended)
  cases step_moves hstep with
  | extend hcaller =>
      intro hended
      have hlate := hlate hended
      rw [hcaller] at hlate
      cases hlate
  | finish hthread hclosing => exact fun _ => hleaves hthread hclosing
  | _ => simp_all [Drained]

/-- In every interleaving the worker is heard, nothing is reordered or miscounted and nothing is
left behind, if and only if the worker never learns that it has to close while records came
after it found the queue empty. -/
theorem never_misses_iff (limit : ℕ) (events : List DeliveryEvent)
    (hrun : ∃ t, Machine.run step (new limit) events = some t) :
    (∀ before, before <+: events → ∀ d, Machine.run step (new limit) before = some d →
      d.Faithful) ↔ Machine.meets step Leaves (new limit) events := by
  obtain ⟨t, hrun⟩ := hrun
  have hsound : ∀ {before d}, Machine.run step (new limit) before = some d → d.Sound :=
    fun hbefore => Machine.run_always Sound (fun _ _ _ h hstep => h.moves (step_moves hstep))
      hbefore (sound_new limit)
  constructor
  · intro h
    by_contra hnot
    obtain ⟨before, after, event, d, d', rfl, hbefore, -, hleft, hstep, -⟩ :=
      Machine.exists_first_failure hrun hnot
    have hafter : Machine.run step (new limit) (before ++ [event]) = some d' :=
      Machine.run_append_eq_some.mpr ⟨d, hbefore, by simp [Machine.run_cons, hstep]⟩
    have hfaithful := h (before ++ [event]) ⟨after, by simp⟩ d' hafter
    cases event with
    | worker =>
        simp only [Leaves, Classical.not_imp] at hleft
        obtain ⟨hthread, hclosing, hrecords⟩ := hleft
        simp only [step, workerStep, hthread, hclosing, if_true, Option.some.injEq] at hstep
        subst hstep
        have hcomplete := hfaithful.complete rfl
        rw [(hsound hafter).history] at hcomplete
        simp [Worker.inHand, hrecords] at hcomplete
    | _ => exact hleft trivial
  · rintro hmeets before ⟨after, rfl⟩ d hd
    have hbefore := ((Machine.meets_append hd).mp hmeets).1
    have hinvariant : d.Sound ∧ d.Drained := by
      refine Machine.run_invariant (fun d => d.Sound ∧ d.Drained) ?_ hd hbefore
        ⟨sound_new limit, fun hended => by cases hended⟩
      intro u event v hu hleaves hstep
      exact ⟨hu.1.moves (step_moves hstep), drained_step hu.1 hu.2 hleaves hstep⟩
    exact hinvariant.1.faithful hinvariant.2

/-- How many records may wait. -/
def queueLimit : ℕ := 10000

/-- A record for a call. -/
def greeting (message : String) : LogRecord := ⟨"app", 20, "app.py", 1, message, none⟩

/-- A whole call of `deliver`, without a wake-up. -/
def deliverOne (message : String) : List DeliveryEvent :=
  [.deliver [greeting message] fun _ _ => true, .caller, .caller, .caller, .caller, .caller]

/-- The worker takes a record, delivers it and finds the queue empty. -/
def handleOne : List DeliveryEvent := [.worker, .worker, .worker, .worker]

/-- The second record comes before the worker sleeps, and `stop` after that. -/
def promptRun : List DeliveryEvent :=
  deliverOne "one" ++ handleOne ++ deliverOne "two" ++
    [.worker, .worker, .worker, .worker, .worker] ++ handleOne ++
    [.stop, .caller, .caller, .worker]

theorem prompt_delivered :
    ∃ d, Machine.run step (new queueLimit) promptRun = some d ∧ d.thread = .ended ∧
      d.emitted = [greeting "one", greeting "two"] ∧ d.Faithful := by
  have hview : (Machine.run step (new queueLimit) promptRun).map
      (fun d => (d.thread, d.emitted)) = some (.ended, [greeting "one", greeting "two"]) := by
    decide +kernel
  obtain ⟨d, hd, hd'⟩ := Option.map_eq_some_iff.mp hview
  obtain ⟨hthread, hemitted⟩ := Prod.mk.inj hd'
  have hmeets : Machine.meets step Leaves (new queueLimit) promptRun := by decide +kernel
  exact ⟨d, hd, hthread, hemitted,
    (never_misses_iff queueLimit promptRun ⟨d, hd⟩).mpr hmeets promptRun (List.prefix_refl _) d hd⟩

/-- The second record and `stop` come between the empty queue and the look at `closing`. -/
def lateRun : List DeliveryEvent :=
  deliverOne "one" ++ handleOne ++ deliverOne "two" ++ [.stop, .caller, .worker]

theorem late_record_left :
    ∃ d, Machine.run step (new queueLimit) lateRun = some d ∧ d.thread = .ended ∧
      d.accepted = [greeting "one", greeting "two"] ∧ d.emitted = [greeting "one"] ∧
      ¬ d.Faithful := by
  have hview : (Machine.run step (new queueLimit) lateRun).map
      (fun d => (d.thread, d.accepted, d.emitted)) =
        some (.ended, [greeting "one", greeting "two"], [greeting "one"]) := by
    decide +kernel
  obtain ⟨d, hd, hd'⟩ := Option.map_eq_some_iff.mp hview
  obtain ⟨hthread, hlists⟩ := Prod.mk.inj hd'
  obtain ⟨haccepted, hemitted⟩ := Prod.mk.inj hlists
  refine ⟨d, hd, hthread, haccepted, hemitted, fun h => ?_⟩
  have hcomplete := h.complete hthread
  rw [haccepted, hemitted] at hcomplete
  simp at hcomplete

end LogDelivery

end Log

end Rmote
