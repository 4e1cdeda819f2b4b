import Rmote.Log.Delivery
import Rmote.Log.Order

/-!
# A record from the remote logger to the local handler

The remote handler batches the records, the connection carries the batches in order, and the
receive loop gives each one to the delivery of the local side. A packet may be read before the
step of the sender that learns of it. A connection that breaks loses what is on it, and a packet
that fails after it was read breaks the connection.
-/

namespace Rmote

namespace Log

/-- What a step of the handler says about the packet in flight. -/
inductive Fate where
  | written
  | failed
  | flying
  deriving DecidableEq

def Event.fate : Event → Fate
  | drainSent _ => .written
  | sent _ => .written
  | drainFailed _ => .failed
  | restore _ => .failed
  | cancelCarried _ => .failed
  | cancelResponse _ => .failed
  | _ => .flying

/-- Both ends. `transit` are the batches that are written and not read, `early` says that the
packet in flight is read already, `read` is the history of what was read, and `refused` counts
what no local handler accepts. -/
structure Pipeline where
  handler : RemoteLogHandler
  transit : List (List Record)
  early : Bool
  broken : Bool
  read : List Record
  refused : ℕ
  delivery : LogDelivery

inductive PipelineEvent where
  | remote (event : Event)
  /-- The receive loop reads the packet in flight. -/
  | overtake (enabled : String → ℤ → Bool)
  | receive (enabled : String → ℤ → Bool)
  | caller
  | worker
  | stop
  /-- The connection breaks. -/
  | cut

namespace Pipeline

def new (paused : Bool) (limit : ℕ) : Pipeline :=
  ⟨.new paused, [], false, false, [], 0, .new limit⟩

/-- The remote side goes on. -/
def remote (p : Pipeline) (event : Event) (handler : RemoteLogHandler) : Pipeline :=
  match event.fate with
  | .written => { p with
      handler := handler
      early := false
      transit := if p.early ∨ p.broken then p.transit else p.transit ++ [p.handler.flying] }
  | .failed => { p with handler := handler, early := false, broken := p.broken || p.early }
  | .flying => { p with handler := handler }

/-- The receive loop has a batch. -/
def deliver (travels : Record → LogRecord) (p : Pipeline) (batch : List Record)
    (enabled : String → ℤ → Bool) : Option Pipeline :=
  (p.delivery.step (.deliver (batch.map travels) enabled)).map fun delivery =>
    { p with
      delivery := delivery
      read := p.read ++ batch
      refused := p.refused +
        ((batch.map travels).filter fun record => !enabled record.name record.levelno).length }

def step (travels : Record → LogRecord) (p : Pipeline) : PipelineEvent → Option Pipeline
  | .remote event => (p.handler.step event).map (p.remote event)
  | .overtake enabled =>
      if p.early = false ∧ p.broken = false ∧ p.transit = [] ∧ p.handler.flying ≠ [] then
        deliver travels { p with early := true } p.handler.flying enabled
      else
        none
  | .receive enabled =>
      match p.transit with
      | [] => none
      | batch :: rest => deliver travels { p with transit := rest } batch enabled
  | .caller => (p.delivery.step .caller).map fun delivery => { p with delivery := delivery }
  | .worker => (p.delivery.step .worker).map fun delivery => { p with delivery := delivery }
  | .stop => (p.delivery.step .stop).map fun delivery => { p with delivery := delivery }
  | .cut => some { p with transit := [], broken := true }

end Pipeline

/-! ## What the sender does to the wire -/

namespace RemoteLogHandler

variable {h t : RemoteLogHandler} {event : Event}

@[simp] theorem wire_start (h : RemoteLogHandler) : h.start.wire = h.wire := by
  unfold start
  split_ifs <;> rfl

@[simp] theorem wire_resume (h : RemoteLogHandler) (batch : List Record) :
    (h.resume batch).wire = h.wire := by
  unfold resume
  split_ifs
  · rfl
  · rfl
  · rw [wire_start]

theorem flying_of_traffic (heq : t.traffic = h.traffic) : t.flying = h.flying := by
  cases h
  cases t
  cases heq
  rfl

@[simp] theorem flying_resume (h : RemoteLogHandler) (batch : List Record) :
    (h.resume batch).flying = h.flying := by
  unfold resume
  split_ifs
  · rfl
  · rfl
  · exact (flying_of_traffic (traffic_start _)).trans rfl

/-- A packet that is written is the one that was in flight. -/
theorem wire_written (hflight : h.Flight) (hmoves : h.Moves event t)
    (hfate : event.fate = .written) : t.wire = h.wire ++ h.flying ∧ t.flying = [] := by
  cases hmoves with
  | drainSent hloop hbatch =>
      obtain ⟨hcarried, hresponses, hrest⟩ := hflight.carried_eq hbatch
      rw [flying_carried hcarried hresponses]
      exact ⟨rfl, flying_free hrest hresponses⟩
  | sent hloop hbatch =>
      obtain ⟨hresponses, hcarried, hrest⟩ := hflight.responses_eq hbatch
      rw [flying_responses hcarried hresponses]
      refine ⟨by simp [RemoteLogHandler.sent], ?_⟩
      rw [RemoteLogHandler.sent, flying_resume]
      exact flying_free hcarried hrest
  | _ => cases hfate

theorem wire_failed (hmoves : h.Moves event t) (hfate : event.fate = .failed) :
    t.wire = h.wire := by
  cases hmoves with
  | drainFailed _ _ => rfl
  | restore _ _ => simp [RemoteLogHandler.restore]
  | cancelCarried _ _ _ => rfl
  | cancelResponse _ _ _ => rfl
  | _ => cases hfate

/-- Any other step leaves a packet in flight alone. -/
theorem wire_flying (hflight : h.Flight) (hmoves : h.Moves event t)
    (hfate : event.fate = .flying) :
    t.wire = h.wire ∧ (h.flying ≠ [] → t.flying = h.flying) := by
  have hsending : h.flying ≠ [] → h.sending = true := by
    intro hflying
    by_contra hfree
    obtain ⟨hcarried, hresponses⟩ := hflight.free (by simpa using hfree)
    exact hflying (flying_free hcarried hresponses)
  cases hmoves with
  | emit message traceback =>
      refine ⟨?_, fun _ => flying_of_traffic (traffic_emit ..)⟩
      unfold RemoteLogHandler.emit schedule
      split_ifs <;> rfl
  | start _ _ => exact ⟨wire_start _, fun _ => flying_of_traffic (traffic_start _)⟩
  | drain _ _ =>
      unfold RemoteLogHandler.drain
      split_ifs with hstop
      · exact ⟨rfl, fun _ => rfl⟩
      · exact ⟨rfl, fun hflying => absurd (.inl (hsending hflying)) hstop⟩
  | detach _ _ =>
      unfold RemoteLogHandler.detach
      split_ifs with hkeep hheavy
      · exact ⟨rfl, fun _ => rfl⟩
      · exact ⟨rfl, fun _ => rfl⟩
      · exact ⟨rfl, fun hflying => absurd (.inl (hsending hflying)) hkeep⟩
  | enter _ _ =>
      refine ⟨?_, fun _ => flying_of_traffic (traffic_enter h)⟩
      unfold RemoteLogHandler.enter
      split_ifs
      · rfl
      · exact wire_start _
  | timer _ _ => exact ⟨rfl, fun _ => rfl⟩
  | orphan _ _ => exact ⟨rfl, fun _ => rfl⟩
  | owe _ _ => exact ⟨rfl, fun _ => rfl⟩
  | paid _ _ => exact ⟨rfl, fun _ => rfl⟩
  | close _ => exact ⟨rfl, fun _ => rfl⟩
  | closeLoop _ => exact ⟨rfl, fun _ => rfl⟩
  | cancelDrain _ _ _ => exact ⟨rfl, fun _ => rfl⟩
  | _ => cases hfate

/-- The history of the records only grows. -/
theorem emitted_prefix (hmoves : h.Moves event t) : h.emitted <+: t.emitted := by
  cases hmoves with
  | emit message traceback =>
      unfold RemoteLogHandler.emit schedule
      split_ifs <;> exact List.prefix_append _ _
  | start _ _ => simp
  | drain _ _ =>
      unfold RemoteLogHandler.drain
      split_ifs <;> exact List.prefix_refl _
  | detach _ _ =>
      unfold RemoteLogHandler.detach
      split_ifs <;> exact List.prefix_refl _
  | sent _ _ => simp [RemoteLogHandler.sent]
  | restore _ _ => simp [RemoteLogHandler.restore]
  | enter _ _ =>
      unfold RemoteLogHandler.enter
      split_ifs <;> simp
  | _ => exact List.prefix_refl _

end RemoteLogHandler

/-! ## What the receiver does to the order -/

namespace LogDelivery

variable {d t : LogDelivery} {event : DeliveryEvent}

/-- What is accepted, and what a call still has, is offered in this order. -/
def Queued (d : LogDelivery) : Prop :=
  (d.accepted ++ d.caller.inHand).Sublist d.offered

theorem Queued.moves (h : d.Queued) (hmoves : d.Moves event t) : t.Queued := by
  rw [Queued] at h ⊢
  cases hmoves with
  | filter hready =>
      rw [hready] at h
      simpa [Caller.inHand] using h
  | count hcaller =>
      rw [hcaller] at h
      exact ((List.take_sublist _ _).append_left _).trans h
  | extend hcaller =>
      rw [hcaller] at h
      simpa [Caller.inHand] using h
  | _ => simp_all [Caller.inHand]

/-- Only a new call changes what is offered. -/
theorem offered_moves (hmoves : d.Moves event t) (hother : ∀ records enabled,
    event ≠ .deliver records enabled) : t.offered = d.offered := by
  cases hmoves with
  | nothing _ => exact absurd rfl (hother _ _)
  | filter _ => exact absurd rfl (hother _ _)
  | _ => rfl

theorem offered_deliver {records : List LogRecord} {enabled : String → ℤ → Bool}
    (hstep : d.step (.deliver records enabled) = some t) :
    t.offered = d.offered ++ records.filter fun record => enabled record.name record.levelno := by
  simp only [step, Option.ite_none_right_eq_some] at hstep
  obtain ⟨-, ⟨⟩⟩ := hstep
  unfold filter
  split_ifs with hempty
  · rw [hempty, List.append_nil]
  · rfl

end LogDelivery

/-! ## Both ends -/

namespace Pipeline

/-- What holds in every state. -/
structure Sound (travels : Record → LogRecord) (p : Pipeline) : Prop where
  handler : p.handler.Ordered
  delivery : p.delivery.Sound
  queued : p.delivery.Queued
  offered : p.delivery.offered.Sublist (p.read.map travels)
  counted : p.delivery.offered.length + p.refused = p.read.length
  inOrder : (p.read ++ p.transit.flatten).Sublist p.handler.emitted
  whole : p.broken = false →
    p.read ++ p.transit.flatten = p.handler.wire ++ if p.early then p.handler.flying else []
  early : p.early = true → p.handler.flying ≠ []

variable {travels : Record → LogRecord} {p p' : Pipeline}

theorem sound_new (travels : Record → LogRecord) (paused : Bool) (limit : ℕ) :
    (new paused limit).Sound travels where
  handler := RemoteLogHandler.ordered_new paused
  delivery := LogDelivery.sound_new limit
  queued := List.Sublist.refl _
  offered := List.Sublist.refl _
  counted := rfl
  inOrder := List.nil_sublist _
  whole _ := rfl
  early := by rintro ⟨⟩

/-- What is on the wire and what waits behind it is emitted in this order. -/
theorem wire_sublist {h : RemoteLogHandler} (hordered : h.Ordered) :
    (h.wire ++ h.flying).Sublist h.emitted := by
  refine (List.sublist_append_left _ h.pending).trans ?_
  rw [hordered.account]
  exact List.filter_sublist

/-- The remote side goes on. -/
theorem Sound.remote (hp : p.Sound travels) {event : Event} {handler : RemoteLogHandler}
    (hstep : p.handler.step event = some handler) : (p.remote event handler).Sound travels := by
  have hmoves := RemoteLogHandler.step_moves hstep
  have hordered := hp.handler.step hstep
  have hemitted := RemoteLogHandler.emitted_prefix hmoves
  have hkeep := hp.inOrder.trans hemitted.sublist
  rw [Pipeline.remote]
  rcases hfate : event.fate with _ | _ | _
  · obtain ⟨hwire, hflying⟩ := RemoteLogHandler.wire_written hp.handler.flight hmoves hfate
    dsimp only
    split_ifs with hskip
    · refine ⟨hordered, hp.delivery, hp.queued, hp.offered, hp.counted, hkeep, fun hopen => ?_,
        by rintro ⟨⟩⟩
      rcases hskip with hearly | hbroken
      · have hwhole := hp.whole hopen
        rw [if_pos hearly] at hwhole
        simpa [hwire] using hwhole
      · rw [hbroken] at hopen
        cases hopen
    · obtain ⟨hearly, hbroken⟩ := not_or.mp hskip
      have hwhole := hp.whole (by simpa using hbroken)
      rw [if_neg hearly, List.append_nil] at hwhole
      have hmore : p.read ++ (p.transit ++ [p.handler.flying]).flatten = handler.wire := by
        rw [List.flatten_append, List.flatten_singleton, ← List.append_assoc, hwhole, hwire]
      refine ⟨hordered, hp.delivery, hp.queued, hp.offered, hp.counted, ?_, fun _ => ?_,
        by rintro ⟨⟩⟩
      · rw [hmore]
        exact (List.sublist_append_left _ _).trans (wire_sublist hordered)
      · simpa using hmore
  · refine ⟨hordered, hp.delivery, hp.queued, hp.offered, hp.counted, hkeep, fun hopen => ?_,
      by rintro ⟨⟩⟩
    obtain ⟨hbroken, hearly⟩ := Bool.or_eq_false_iff.mp hopen
    have hwhole := hp.whole hbroken
    rw [hearly] at hwhole
    simpa [RemoteLogHandler.wire_failed hmoves hfate] using hwhole
  · obtain ⟨hwire, hflying⟩ := RemoteLogHandler.wire_flying hp.handler.flight hmoves hfate
    refine ⟨hordered, hp.delivery, hp.queued, hp.offered, hp.counted, hkeep, fun hopen => ?_,
      fun hearly => ?_⟩
    · have hwhole := hp.whole hopen
      dsimp only
      by_cases hearly : p.early = true
      · rw [hwire, hflying (hp.early hearly)]
        exact hwhole
      · rw [if_neg hearly] at hwhole ⊢
        rw [hwire]
        exact hwhole
    · dsimp only
      rw [hflying (hp.early hearly)]
      exact hp.early hearly

/-- The receive loop gives a batch to the local side. -/
theorem Sound.deliver (hp : p.Sound travels) {batch : List Record}
    {enabled : String → ℤ → Bool} {delivery : LogDelivery}
    (hstep : p.delivery.step (.deliver (batch.map travels) enabled) = some delivery) :
    delivery.Sound ∧ delivery.Queued ∧ delivery.offered.Sublist ((p.read ++ batch).map travels) ∧
      delivery.offered.length + (p.refused + ((batch.map travels).filter fun record =>
        !enabled record.name record.levelno).length) = (p.read ++ batch).length := by
  have hmoves := LogDelivery.step_moves hstep
  have hoffered := LogDelivery.offered_deliver hstep
  refine ⟨hp.delivery.moves hmoves, hp.queued.moves hmoves, ?_, ?_⟩
  · rw [hoffered, List.map_append]
    exact hp.offered.append List.filter_sublist
  · have hsplit := List.length_eq_length_filter_add (l := batch.map travels)
      fun record => enabled record.name record.levelno
    have hcounted := hp.counted
    rw [List.length_map] at hsplit
    rw [hoffered, List.length_append, List.length_append]
    omega

theorem Sound.overtake (hp : p.Sound travels) {enabled : String → ℤ → Bool}
    (hstep : p.step travels (.overtake enabled) = some p') : p'.Sound travels := by
  rw [Pipeline.step] at hstep
  split_ifs at hstep with hguard
  obtain ⟨hearly, hbroken, htransit, hflying⟩ := hguard
  obtain ⟨delivery, hdeliver, rfl⟩ := Option.map_eq_some_iff.mp hstep
  obtain ⟨hsound, hqueued, hoffered, hcounted⟩ := hp.deliver hdeliver
  have hwhole := hp.whole hbroken
  rw [hearly, htransit] at hwhole
  have hread : p.read ++ p.handler.flying = p.handler.wire ++ p.handler.flying := by
    simpa using hwhole
  refine ⟨hp.handler, hsound, hqueued, hoffered, hcounted, ?_, fun _ => ?_, fun _ => hflying⟩
  · simp only [htransit, List.flatten_nil, List.append_nil]
    rw [hread]
    exact wire_sublist hp.handler
  · simpa [htransit] using hread

theorem Sound.receive (hp : p.Sound travels) {enabled : String → ℤ → Bool}
    (hstep : p.step travels (.receive enabled) = some p') : p'.Sound travels := by
  rw [Pipeline.step] at hstep
  rcases htransit : p.transit with _ | ⟨batch, rest⟩
  · rw [htransit] at hstep
    cases hstep
  · rw [htransit] at hstep
    obtain ⟨delivery, hdeliver, rfl⟩ := Option.map_eq_some_iff.mp hstep
    obtain ⟨hsound, hqueued, hoffered, hcounted⟩ := hp.deliver hdeliver
    have hmove : p.read ++ batch ++ rest.flatten = p.read ++ p.transit.flatten := by
      rw [htransit, List.flatten_cons, List.append_assoc]
    refine ⟨hp.handler, hsound, hqueued, hoffered, hcounted, ?_, fun hopen => ?_, hp.early⟩
    · simp only [hmove]
      exact hp.inOrder
    · simp only [hmove]
      exact hp.whole hopen

/-- A thread of the local side goes on. -/
theorem Sound.local (hp : p.Sound travels) {event : DeliveryEvent} {delivery : LogDelivery}
    (hstep : p.delivery.step event = some delivery)
    (hother : ∀ records enabled, event ≠ .deliver records enabled) :
    Sound travels { p with delivery := delivery } := by
  have hmoves := LogDelivery.step_moves hstep
  have hoffered := LogDelivery.offered_moves hmoves hother
  refine ⟨hp.handler, hp.delivery.moves hmoves, hp.queued.moves hmoves, ?_, ?_, hp.inOrder,
    hp.whole, hp.early⟩
  · rw [hoffered]
    exact hp.offered
  · rw [hoffered]
    exact hp.counted

theorem Sound.step (hp : p.Sound travels) {event : PipelineEvent}
    (hstep : p.step travels event = some p') : p'.Sound travels := by
  cases event with
  | remote event =>
      obtain ⟨handler, hhandler, rfl⟩ := Option.map_eq_some_iff.mp hstep
      exact hp.remote hhandler
  | overtake enabled => exact hp.overtake hstep
  | receive enabled => exact hp.receive hstep
  | caller =>
      obtain ⟨delivery, hdelivery, rfl⟩ := Option.map_eq_some_iff.mp hstep
      exact hp.local hdelivery (by rintro _ _ ⟨⟩)
  | worker =>
      obtain ⟨delivery, hdelivery, rfl⟩ := Option.map_eq_some_iff.mp hstep
      exact hp.local hdelivery (by rintro _ _ ⟨⟩)
  | stop =>
      obtain ⟨delivery, hdelivery, rfl⟩ := Option.map_eq_some_iff.mp hstep
      exact hp.local hdelivery (by rintro _ _ ⟨⟩)
  | cut =>
      cases hstep
      refine ⟨hp.handler, hp.delivery, hp.queued, hp.offered, hp.counted, ?_, by rintro ⟨⟩,
        hp.early⟩
      refine List.Sublist.trans ?_ hp.inOrder
      rw [List.flatten_nil, List.append_nil]
      exact List.sublist_append_left _ _

/-! ## From end to end -/

/-- The records that are under way on either side. -/
def underWay (p : Pipeline) : ℕ :=
  p.handler.pending.length + (if p.early then 0 else p.handler.flying.length) +
    p.transit.flatten.length + p.delivery.caller.inHand.length + p.delivery.records.length +
    p.delivery.thread.inHand.length

/-- What becomes of the records. -/
structure EndToEnd (travels : Record → LogRecord) (p : Pipeline) : Prop where
  /-- The local handlers get records in their order, and none of them twice. -/
  ordered : ∃ records : List Record, records.Sublist p.handler.emitted ∧
    p.delivery.emitted = records.map travels
  once : p.handler.emitted.Nodup
  /-- While the connection holds, a record is handled, under way, counted as lost for want of
  room, refused by the local levels, or given up by the remote handler. -/
  account : p.broken = false →
    (p.handler.emitted.filter p.handler.kept).length =
      p.delivery.emitted.length + p.underWay + p.delivery.lost + p.refused
  /-- So everything arrives that nobody gave up. -/
  complete : p.broken = false → p.underWay = 0 → p.delivery.lost = 0 → p.refused = 0 →
    p.handler.reported = [] → p.handler.dropped = [] →
    p.delivery.emitted = p.handler.emitted.map travels

theorem Sound.emitted_sublist (hp : p.Sound travels) :
    p.delivery.emitted.Sublist (p.handler.emitted.map travels) := by
  have haccepted : p.delivery.emitted.Sublist p.delivery.accepted := by
    rw [hp.delivery.history, List.append_assoc]
    exact List.sublist_append_left _ _
  have hread : p.read.Sublist p.handler.emitted :=
    (List.sublist_append_left _ _).trans hp.inOrder
  exact ((haccepted.trans (List.sublist_append_left _ _)).trans hp.queued).trans
    (hp.offered.trans (hread.map travels))

theorem Sound.account (hp : p.Sound travels) (hopen : p.broken = false) :
    (p.handler.emitted.filter p.handler.kept).length =
      p.delivery.emitted.length + p.underWay + p.delivery.lost + p.refused := by
  have hwhole := congrArg List.length (hp.whole hopen)
  have haccount := congrArg List.length hp.handler.account
  have hhistory := congrArg List.length hp.delivery.history
  have hbalanced := hp.delivery.balanced
  have hcounted := hp.counted
  simp only [List.length_append] at hwhole haccount hhistory
  rw [underWay]
  by_cases hearly : p.early = true
  · rw [if_pos hearly] at hwhole ⊢
    omega
  · rw [if_neg hearly] at hwhole ⊢
    simp only [List.length_nil] at hwhole
    omega

theorem Sound.endToEnd (hp : p.Sound travels) : p.EndToEnd travels where
  ordered := by
    obtain ⟨records, hsub, heq⟩ := List.sublist_map_iff.mp hp.emitted_sublist
    exact ⟨records, hsub, heq⟩
  once := hp.handler.nodup
  account := hp.account
  complete hopen hway hlost hrefused hreported hdropped := by
    refine hp.emitted_sublist.eq_of_length ?_
    have haccount := hp.account hopen
    have hkept : p.handler.emitted.filter p.handler.kept = p.handler.emitted := by
      refine List.filter_eq_self.mpr fun record _ => ?_
      simp [RemoteLogHandler.kept, hreported, hdropped]
    rw [hkept] at haccount
    rw [List.length_map]
    omega

/-- In every run of both ends, over a connection that may break at any time. -/
theorem always_endToEnd (travels : Record → LogRecord) (paused : Bool) (limit : ℕ)
    {events : List PipelineEvent}
    (hrun : Machine.run (step travels) (new paused limit) events = some p) :
    p.EndToEnd travels :=
  (Machine.run_always (Sound travels) (fun _ _ _ hp hstep => hp.step hstep) hrun
    (sound_new travels paused limit)).endToEnd

/-- A response that carries a record is read before its sender knows, and the worker handles the
record. -/
def carried : List PipelineEvent :=
  [.remote .enter, .remote .owe, .remote (.emit "first" none), .remote .start, .remote .detach,
    .overtake fun _ _ => true, .remote (.sent 0), .caller, .caller, .caller, .caller, .caller,
    .worker, .worker]

theorem carried_endToEnd :
    ∃ p, Machine.run (step fun record => ⟨"app", 20, "app.py", 1, record.message, none⟩)
        (new true 10) carried = some p ∧ p.delivery.emitted.length = 1 ∧
      p.EndToEnd fun record => ⟨"app", 20, "app.py", 1, record.message, none⟩ :=
  ⟨_, rfl, rfl, @always_endToEnd _ _ true 10 carried rfl⟩

end Pipeline

end Log

end Rmote
