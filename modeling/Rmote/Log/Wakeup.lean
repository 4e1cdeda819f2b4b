import Rmote.Log.Handler

/-!
# Records that nobody sends

A record waits for something that was scheduled for it: a callback, a timer, a task, or a
response that goes on with what is left. `draining` promises that, and a record that finds
it set schedules nothing. A response that detaches a batch cancels the timer and leaves
`draining` set, so until that batch is off the wire nothing stands behind the promise. A
packet that fails ends its task, and what gathered behind it waits too. These are the only
ways to strand a record.
-/

namespace Rmote

namespace Log

namespace RemoteLogHandler

/-- The connection is open, and records may travel. -/
structure Live (h : RemoteLogHandler) : Prop where
  opened : h.closed = false
  entered : h.paused = false
  loop : h.loopClosed = false

/-- A start callback, a timer or a drain task exists. -/
def Scheduled (h : RemoteLogHandler) : Prop :=
  0 < h.starts ∨ h.timer = true ∨ 0 < h.orphans ∨ 0 < h.drains ∨ h.carried ≠ []

/-- A response carries a batch, and its completion schedules the rest. -/
def Resumes (h : RemoteLogHandler) : Prop :=
  ∃ index batch, h.responses[index]? = some batch ∧ (h.sent index batch).Scheduled ∧
    (h.restore index batch).Scheduled

/-- Records wait, and nothing will send them. -/
structure Stranded (h : RemoteLogHandler) : Prop where
  live : h.Live
  waiting : h.pending ≠ []
  unscheduled : ¬ h.Scheduled
  unresumed : ¬ h.Resumes

/-- A response carries a batch, and `draining` promises a step that nothing will do. -/
structure Deaf (h : RemoteLogHandler) : Prop where
  live : h.Live
  carrying : h.responses ≠ []
  promised : h.draining = true
  unscheduled : ¬ h.Scheduled

/-- No record comes or comes back while nothing hears it, and no packet fails while records
wait that nothing else sends. -/
def Heard (h : RemoteLogHandler) : Event → Prop
  | .emit _ _ => ¬ h.Deaf
  | .restore _ => ¬ h.Deaf
  | .drainFailed index =>
      h.Live → h.pending = [] ∨ Scheduled { h with carried := h.carried.eraseIdx index }
  | _ => True

variable {h t : RemoteLogHandler}

theorem scheduled_sendAlone (h : RemoteLogHandler) : h.sendAlone.Scheduled :=
  .inr (.inr (.inr (.inl (Nat.succ_pos _))))

/-- A live handler that starts has a timer or a task. -/
theorem scheduled_start (hopen : h.closed = false) (hentered : h.paused = false) :
    h.start.Scheduled := by
  unfold start
  rw [hopen, hentered]
  simp only [Bool.false_eq_true, if_false]
  split_ifs
  · exact .inr (.inl rfl)
  · exact h.scheduled_sendAlone

/-- A response that is done with a handler that promises nothing goes on with what waits. -/
theorem scheduled_resume {batch : List Record} (hlive : h.Live) (hdraining : h.draining = false)
    (hwaiting : batch ++ h.pending ≠ []) : (h.resume batch).Scheduled := by
  unfold resume
  rw [if_neg hwaiting, if_neg (by simp [hdraining])]
  exact scheduled_start hlive.opened hlive.entered

/-- A handler that promises schedules nothing when a response is done. -/
theorem scheduled_resume_of_draining {batch : List Record} (hdraining : h.draining = true) :
    (h.resume batch).Scheduled ↔ h.Scheduled := by
  unfold resume
  rw [if_pos hdraining]
  split_ifs <;> rfl

theorem resumes_of_quiet (hlive : h.Live) (hwaiting : h.pending ≠ []) (hdraining : h.draining = false)
    (hcarrying : h.responses ≠ []) : h.Resumes := by
  cases hresponses : h.responses with
  | nil => exact absurd hresponses hcarrying
  | cons batch rest =>
      refine ⟨0, batch, by rw [hresponses]; rfl, ?_, ?_⟩
      · exact scheduled_resume ⟨hlive.opened, hlive.entered, hlive.loop⟩ hdraining hwaiting
      · refine scheduled_resume ⟨hlive.opened, hlive.entered, hlive.loop⟩ hdraining ?_
        simp [hwaiting]

theorem not_resumes_of_draining (hdraining : h.draining = true) (hunscheduled : ¬ h.Scheduled) :
    ¬ h.Resumes := by
  rintro ⟨index, batch, -, hsent, -⟩
  have hafter := (scheduled_resume_of_draining (h := { h with
    responses := h.responses.eraseIdx index, wire := h.wire ++ batch }) hdraining).mp hsent
  exact hunscheduled hafter

/-! ## What a step keeps -/

/-- What stands behind the promise of an open handler. Before the connection is entered
nothing but callbacks can be scheduled, and then `draining` tells whether records wait. -/
structure Awake (h : RemoteLogHandler) : Prop where
  flight : h.Flight
  batches : ∀ batch ∈ h.responses, batch ≠ []
  before : h.closed = false → h.loopClosed = false → h.paused = true →
    h.timer = false ∧ h.orphans = 0 ∧ h.drains = 0 ∧ h.carried = [] ∧ h.responses = [] ∧
      (h.draining = true ↔ h.pending ≠ [])
  promise : h.Live → h.draining = true → h.Scheduled ∨ h.responses ≠ []
  waiting : h.Live → h.pending ≠ [] → h.Scheduled ∨ (h.responses ≠ [] ∧ h.draining = false)

theorem Awake.not_stranded (hawake : h.Awake) : ¬ h.Stranded := by
  intro hstranded
  rcases hawake.waiting hstranded.live hstranded.waiting with hscheduled | ⟨hcarrying, hdraining⟩
  · exact hstranded.unscheduled hscheduled
  · exact hstranded.unresumed
      (resumes_of_quiet hstranded.live hstranded.waiting hdraining hcarrying)

/-- A handler that is entered and has something scheduled is awake. -/
theorem awake_of_scheduled (hflight : t.Flight) (hbatches : ∀ batch ∈ t.responses, batch ≠ [])
    (hentered : t.closed = false → t.paused = false) (hscheduled : t.Live → t.Scheduled) :
    t.Awake := by
  refine ⟨hflight, hbatches, fun hopen _ hpaused => ?_, fun hlive _ => .inl (hscheduled hlive),
    fun hlive _ => .inl (hscheduled hlive)⟩
  rw [hentered hopen] at hpaused
  cases hpaused

/-- Nothing is asked of a handler whose connection or loop is closed. -/
theorem awake_of_closed (hflight : t.Flight) (hbatches : ∀ batch ∈ t.responses, batch ≠ [])
    (hclosed : t.closed = true ∨ t.loopClosed = true) : t.Awake := by
  have hdead : ¬ (t.closed = false ∧ t.loopClosed = false) := by
    rintro ⟨hopen, hloop⟩
    rw [hopen, hloop] at hclosed
    simp at hclosed
  exact ⟨hflight, hbatches, fun hopen hloop _ => absurd ⟨hopen, hloop⟩ hdead,
    fun hlive _ => absurd ⟨hlive.opened, hlive.loop⟩ hdead,
    fun hlive _ => absurd ⟨hlive.opened, hlive.loop⟩ hdead⟩

theorem Awake.emit (hawake : h.Awake) (hheard : ¬ h.Deaf) (message : String)
    (traceback : Option String) : (h.emit message traceback).Awake := by
  have hflight : (h.emit message traceback).Flight := hawake.flight.of_traffic (traffic_emit ..)
  unfold RemoteLogHandler.emit schedule at hflight ⊢
  split_ifs at hflight ⊢ with hdraining hloop
  · refine ⟨hflight, hawake.batches, fun hopen hloop hpaused => ?_, fun hlive hpromise => ?_,
      fun hlive _ => .inl ?_⟩
    · obtain ⟨htimer, horphans, hdrains, hcarried, hresponses, -⟩ := hawake.before hopen hloop hpaused
      refine ⟨htimer, horphans, hdrains, hcarried, hresponses, ?_⟩
      simpa [append] using hdraining
    · exact hawake.promise ⟨hlive.opened, hlive.entered, hlive.loop⟩ hpromise
    · have hlive' : h.Live := ⟨hlive.opened, hlive.entered, hlive.loop⟩
      by_contra hunscheduled
      rcases hawake.promise hlive' hdraining with hscheduled | hcarrying
      · exact hunscheduled hscheduled
      · exact hheard ⟨hlive', hcarrying, hdraining, hunscheduled⟩
  · exact awake_of_closed hflight hawake.batches (.inr hloop)
  · refine ⟨hflight, hawake.batches, fun hopen hloop hpaused => ?_,
      fun _ _ => .inl (.inl (Nat.succ_pos _)), fun _ _ => .inl (.inl (Nat.succ_pos _))⟩
    obtain ⟨htimer, horphans, hdrains, hcarried, hresponses, -⟩ := hawake.before hopen hloop hpaused
    refine ⟨htimer, horphans, hdrains, hcarried, hresponses, ?_⟩
    simp [append]

@[simp] theorem paused_start (h : RemoteLogHandler) : h.start.paused = h.paused := by
  unfold start
  split_ifs <;> rfl

@[simp] theorem closed_start (h : RemoteLogHandler) : h.start.closed = h.closed := by
  unfold start
  split_ifs <;> rfl

@[simp] theorem responses_start (h : RemoteLogHandler) : h.start.responses = h.responses := by
  unfold start
  split_ifs <;> rfl

/-- A handler that is entered and starts is awake. -/
theorem awake_start (hflight : h.Flight) (hbatches : ∀ batch ∈ h.responses, batch ≠ [])
    (hentered : h.paused = false) : h.start.Awake := by
  refine awake_of_scheduled (hflight.of_traffic h.traffic_start) ?_ ?_ ?_
  · rw [responses_start]
    exact hbatches
  · rw [paused_start]
    exact fun _ => hentered
  · intro hlive
    have hopen := hlive.opened
    rw [closed_start] at hopen
    exact scheduled_start hopen hentered

/-- A callback that finds a handler that is not entered leaves it as it is. -/
theorem Awake.starts (hawake : h.Awake) (hpaused : h.paused = true) (starts : ℕ) :
    (start { h with starts := starts }).Awake := by
  have hflight : Flight { h with starts := starts } := hawake.flight.of_traffic rfl
  unfold start
  split_ifs with hclosed
  · exact awake_of_closed (hflight.of_traffic rfl) hawake.batches (.inl hclosed)
  · refine ⟨hflight, hawake.batches, hawake.before, fun hlive => ?_, fun hlive => ?_⟩
    · exact absurd (hlive.entered.symm.trans hpaused) (by simp)
    · exact absurd (hlive.entered.symm.trans hpaused) (by simp)

/-- A handler with a timer, a task or a response on its way is entered. -/
theorem Awake.entered (hawake : h.Awake) (hloop : h.loopClosed = false)
    (hbusy : h.timer = true ∨ 0 < h.orphans ∨ 0 < h.drains ∨ h.carried ≠ [] ∨ h.responses ≠ []) :
    h.closed = false → h.paused = false := by
  intro hopen
  by_contra hpaused
  obtain ⟨htimer, horphans, hdrains, hcarried, hresponses, -⟩ :=
    hawake.before hopen hloop (by simpa using hpaused)
  rw [htimer, horphans, hdrains, hcarried, hresponses] at hbusy
  simp at hbusy

theorem Awake.drain (hawake : h.Awake) (hloop : h.loopClosed = false) (hdrains : 0 < h.drains) :
    h.drain.Awake := by
  have hentered := hawake.entered hloop (.inr (.inr (.inl hdrains)))
  have hflight := hawake.flight.drain
  unfold RemoteLogHandler.drain at hflight ⊢
  split_ifs at hflight ⊢ with hstop
  · refine ⟨hflight, hawake.batches, fun hopen _ hpaused => ?_, nofun, fun hlive hwaiting => ?_⟩
    · exact absurd (hpaused.symm.trans (hentered hopen)) (by simp)
    · have hsending : h.sending = true := hstop.resolve_right hwaiting
      rcases hawake.flight.idle hlive.opened hsending with hcarried | hresponses
      · exact .inl (.inr (.inr (.inr (.inr hcarried))))
      · exact .inr ⟨hresponses, rfl⟩
  · refine awake_of_scheduled hflight hawake.batches hentered fun _ => ?_
    exact .inr (.inr (.inr (.inr (by simp))))

theorem Awake.drainFailed (hawake : h.Awake) (hloop : h.loopClosed = false) {index : ℕ}
    {batch : List Record} (hbatch : h.carried[index]? = some batch)
    (hflight : (h.drainFailed index batch).Flight) (hheard : h.Heard (.drainFailed index)) :
    (h.drainFailed index batch).Awake := by
  have hentered := hawake.entered hloop (.inr (.inr (.inr (.inl (List.ne_nil_of_mem
    (List.mem_of_getElem? hbatch))))))
  refine ⟨hflight, hawake.batches, fun hopen _ hpaused => ?_, nofun, fun hlive hwaiting => ?_⟩
  · exact absurd (hpaused.symm.trans (hentered hopen)) (by simp)
  · rcases hheard ⟨hlive.opened, hlive.entered, hlive.loop⟩ with hnothing | hscheduled
    · exact absurd hnothing hwaiting
    · exact .inl hscheduled

theorem Awake.detach (hawake : h.Awake) (hpaused : h.paused = false) : h.detach.Awake := by
  have hflight := hawake.flight.detach
  unfold RemoteLogHandler.detach at hflight ⊢
  split_ifs at hflight ⊢ with hkeep hheavy
  · exact hawake
  · exact hawake
  · refine ⟨hflight, ?_, fun _ _ hpaused' => ?_, fun _ _ => .inr (by simp), fun _ h => absurd rfl h⟩
    · intro batch hmem
      rcases List.mem_append.mp hmem with hmem | hmem
      · exact hawake.batches batch hmem
      · rw [List.mem_singleton.mp hmem]
        exact (not_or.mp (not_or.mp hkeep).2).1
    · exact absurd (hpaused'.symm.trans hpaused) (by simp)

/-- A response that is done leaves the handler awake, unless `draining` promises what nothing
will do. -/
theorem awake_resume {batch : List Record} (hflight : (h.resume batch).Flight)
    (hresponses : h.responses = []) (hentered : h.closed = false → h.paused = false)
    (hheard : h.Live → h.draining = true → batch ++ h.pending ≠ [] → h.Scheduled) :
    (h.resume batch).Awake := by
  unfold resume at hflight ⊢
  split_ifs at hflight ⊢ with hnothing hdraining
  · refine ⟨hflight, ?_, fun hopen _ hpaused => ?_, nofun, fun _ hwaiting => absurd hnothing hwaiting⟩
    · rw [hresponses]
      exact nofun
    · exact absurd (hpaused.symm.trans (hentered hopen)) (by simp)
  · refine awake_of_scheduled hflight ?_ hentered fun hlive => ?_
    · rw [hresponses]
      exact nofun
    · exact hheard ⟨hlive.opened, hlive.entered, hlive.loop⟩ hdraining hnothing
  · have hbatches : ∀ kept ∈ h.responses, kept ≠ [] := by
      rw [hresponses]
      exact nofun
    rcases Bool.eq_false_or_eq_true h.closed with hclosed | hopen
    · refine awake_of_closed hflight ?_ (.inl ?_)
      · rw [responses_start]
        exact hbatches
      · rw [closed_start]
        exact hclosed
    · refine awake_of_scheduled hflight ?_ (fun _ => ?_) fun _ => ?_
      · rw [responses_start]
        exact hbatches
      · rw [paused_start]
        exact hentered hopen
      · exact scheduled_start hopen (hentered hopen)

theorem Awake.step (hawake : h.Awake) {event : Event} (hheard : h.Heard event)
    (hstep : h.step event = some t) : t.Awake := by
  have hflight := hawake.flight.step hstep
  cases step_moves hstep with
  | emit message traceback => exact hawake.emit hheard message traceback
  | start _ _ =>
      rcases Bool.eq_false_or_eq_true h.paused with hpaused | hentered
      · exact hawake.starts hpaused _
      · exact awake_start (hawake.flight.of_traffic rfl) hawake.batches hentered
  | timer hloop htimer =>
      exact awake_of_scheduled hflight hawake.batches (hawake.entered hloop (.inl htimer))
        fun _ => scheduled_sendAlone _
  | orphan hloop horphans =>
      exact awake_of_scheduled hflight hawake.batches (hawake.entered hloop (.inr (.inl horphans)))
        fun _ => scheduled_sendAlone _
  | drain hloop hdrains => exact hawake.drain hloop hdrains
  | drainSent hloop hbatch =>
      refine awake_of_scheduled hflight hawake.batches (hawake.entered hloop ?_) fun _ => ?_
      · exact .inr (.inr (.inr (.inl (List.ne_nil_of_mem (List.mem_of_getElem? hbatch)))))
      · exact .inr (.inr (.inr (.inl (Nat.succ_pos _))))
  | drainFailed hloop hbatch => exact hawake.drainFailed hloop hbatch hflight hheard
  | detach _ hpaused => exact hawake.detach hpaused
  | sent hloop hbatch =>
      obtain ⟨hresponses, -, hrest⟩ := hawake.flight.responses_eq hbatch
      refine awake_resume hflight hrest (hawake.entered hloop ?_) fun hlive hdraining hwaiting => ?_
      · exact .inr (.inr (.inr (.inr (List.ne_nil_of_mem (List.mem_of_getElem? hbatch)))))
      · rcases hawake.waiting ⟨hlive.opened, hlive.entered, hlive.loop⟩ hwaiting with
          hscheduled | ⟨-, hquiet⟩
        · exact hscheduled
        · exact absurd (hquiet.symm.trans hdraining) (by simp)
  | restore hloop hbatch =>
      obtain ⟨hresponses, -, hrest⟩ := hawake.flight.responses_eq hbatch
      have hcarrying : h.responses ≠ [] := List.ne_nil_of_mem (List.mem_of_getElem? hbatch)
      refine awake_resume hflight hrest (hawake.entered hloop (.inr (.inr (.inr (.inr hcarrying)))))
        fun hlive hdraining _ => ?_
      by_contra hunscheduled
      exact hheard ⟨⟨hlive.opened, hlive.entered, hlive.loop⟩, hcarrying, hdraining, hunscheduled⟩
  | owe _ _ =>
      exact ⟨hflight, hawake.batches, hawake.before,
        fun hlive => hawake.promise ⟨hlive.opened, hlive.entered, hlive.loop⟩,
        fun hlive => hawake.waiting ⟨hlive.opened, hlive.entered, hlive.loop⟩⟩
  | paid _ _ =>
      exact ⟨hflight, hawake.batches, hawake.before,
        fun hlive => hawake.promise ⟨hlive.opened, hlive.entered, hlive.loop⟩,
        fun hlive => hawake.waiting ⟨hlive.opened, hlive.entered, hlive.loop⟩⟩
  | enter hloop hpaused =>
      unfold RemoteLogHandler.enter at hflight ⊢
      split_ifs at hflight ⊢ with hnothing
      · refine ⟨hflight, hawake.batches, nofun, fun hlive hpromise => ?_,
          fun _ hwaiting => absurd hnothing hwaiting⟩
        obtain ⟨-, -, -, -, -, hiff⟩ := hawake.before hlive.opened hloop hpaused
        exact absurd hnothing (hiff.mp hpromise)
      · exact awake_start (hawake.flight.of_traffic rfl) hawake.batches rfl
  | close _ => exact awake_of_closed hflight hawake.batches (.inl rfl)
  | closeLoop _ => exact awake_of_closed hflight hawake.batches (.inr rfl)
  | cancelDrain _ hclosed _ => exact awake_of_closed hflight hawake.batches (.inl hclosed)
  | cancelCarried _ hclosed _ => exact awake_of_closed hflight hawake.batches (.inl hclosed)
  | cancelResponse _ hclosed hbatch =>
      obtain ⟨-, -, hrest⟩ := hawake.flight.responses_eq hbatch
      refine awake_of_closed hflight ?_ (.inl hclosed)
      rw [hrest]
      exact nofun

theorem not_resumes_of_nil (hresponses : h.responses = []) : ¬ h.Resumes := by
  rintro ⟨index, batch, hbatch, -⟩
  rw [hresponses] at hbatch
  cases hbatch

/-- A step that is not heard strands a record. -/
theorem Awake.stranded (hawake : h.Awake) {event : Event} (hheard : ¬ h.Heard event)
    (hstep : h.step event = some t) : t.Stranded := by
  cases step_moves hstep with
  | emit message traceback =>
      have hdeaf : h.Deaf := not_not.mp hheard
      have hemit : h.emit message traceback = h.append message traceback := by
        unfold RemoteLogHandler.emit schedule
        rw [if_pos (show (h.append message traceback).draining = true from hdeaf.promised)]
      rw [hemit]
      refine ⟨⟨hdeaf.live.opened, hdeaf.live.entered, hdeaf.live.loop⟩, by simp [append],
        hdeaf.unscheduled, ?_⟩
      exact not_resumes_of_draining hdeaf.promised hdeaf.unscheduled
  | @drainFailed index batch hloop hbatch =>
      obtain ⟨hlive, hfails⟩ := Classical.not_imp.mp hheard
      obtain ⟨hwaiting, hunscheduled⟩ := not_or.mp hfails
      obtain ⟨-, hresponses, -⟩ := hawake.flight.carried_eq hbatch
      exact ⟨⟨hlive.opened, hlive.entered, hlive.loop⟩, hwaiting, hunscheduled,
        not_resumes_of_nil hresponses⟩
  | @restore index batch hloop hbatch =>
      have hdeaf : h.Deaf := not_not.mp hheard
      have hsome : batch ++ h.pending ≠ [] := by
        have hbatch' := hawake.batches batch (List.mem_of_getElem? hbatch)
        simp [hbatch']
      have hrestore : h.restore index batch = { h with
          responses := h.responses.eraseIdx index
          sending := false
          pending := batch ++ h.pending } := by
        unfold RemoteLogHandler.restore resume
        rw [if_neg hsome]
        exact if_pos hdeaf.promised
      rw [hrestore]
      refine ⟨⟨hdeaf.live.opened, hdeaf.live.entered, hdeaf.live.loop⟩, hsome, hdeaf.unscheduled, ?_⟩
      exact not_resumes_of_draining hdeaf.promised hdeaf.unscheduled
  | _ => exact absurd trivial hheard

/-! ## Runs -/

theorem awake_new (paused : Bool) : (new paused).Awake :=
  ⟨flight_new paused, nofun, fun _ _ _ => ⟨rfl, rfl, rfl, rfl, rfl, by simp [new]⟩, nofun,
    fun _ hwaiting => absurd rfl hwaiting⟩

/-- In a run no record is ever stranded exactly when no record comes or comes back while
nothing hears it, and no packet fails while records wait that nothing else sends. -/
theorem never_stranded_iff (paused : Bool) {events : List Event} {last : RemoteLogHandler}
    (hrun : Machine.run step (new paused) events = some last) :
    (∀ before after h, events = before ++ after →
      Machine.run step (new paused) before = some h → ¬ h.Stranded) ↔
    Machine.meets step Heard (new paused) events := by
  constructor
  · intro hnever
    by_contra hfails
    obtain ⟨before, after, event, h, t, rfl, hbefore, hmeets, hheard, hstep, -⟩ :=
      Machine.exists_first_failure hrun hfails
    have hawake : h.Awake := Machine.run_invariant Awake
      (fun _ _ _ hawake hheard hstep => hawake.step hheard hstep) hbefore hmeets (awake_new paused)
    refine hnever (before ++ [event]) after t (by simp) ?_ (hawake.stranded hheard hstep)
    exact Machine.run_append_eq_some.mpr
      ⟨h, hbefore, Machine.run_cons_eq_some.mpr ⟨t, hstep, rfl⟩⟩
  · rintro hmeets before after h rfl hbefore
    have hinitial := ((Machine.meets_append hbefore).mp hmeets).1
    have hawake : h.Awake := Machine.run_invariant Awake
      (fun _ _ _ hawake hheard hstep => hawake.step hheard hstep) hbefore hinitial (awake_new paused)
    exact hawake.not_stranded

/-- A call writes a record, and its response carries it. -/
def attached : List Event := [.enter, .owe, .emit "attached" none, .start, .detach, .sent 0, .paid]

theorem attached_never_stranded :
    ∃ last, Machine.run step (new true) attached = some last ∧
      ∀ before after h, attached = before ++ after →
        Machine.run step (new true) before = some h → ¬ h.Stranded := by
  obtain ⟨last, hrun⟩ : ∃ last, Machine.run step (new true) attached = some last := ⟨_, rfl⟩
  refine ⟨last, hrun, (never_stranded_iff true hrun).mpr ?_⟩
  refine ⟨trivial, ?_⟩
  rintro _ ⟨⟩
  refine ⟨trivial, ?_⟩
  rintro _ ⟨⟩
  refine ⟨fun hdeaf => hdeaf.carrying rfl, ?_⟩
  rintro _ ⟨⟩
  exact ⟨trivial, fun _ _ => ⟨trivial, fun _ _ => ⟨trivial, fun _ _ => ⟨trivial, fun _ _ => trivial⟩⟩⟩⟩

/-- A call writes a record, and a second record comes while the response carries the first. -/
def overtaken : List Event :=
  [.enter, .owe, .emit "first" none, .start, .detach, .emit "second" none, .sent 0, .paid]

/-- The second record waits, and nothing is left that sends it. -/
theorem overtaken_stranded :
    ∃ last, Machine.run step (new true) overtaken = some last ∧
      last.pending.map Record.message = ["second"] ∧ last.Stranded := by
  obtain ⟨last, hrun⟩ : ∃ last, Machine.run step (new true) overtaken = some last := ⟨_, rfl⟩
  refine ⟨last, hrun, ?_⟩
  cases hrun
  refine ⟨rfl, ⟨rfl, rfl, rfl⟩, by decide, ?_, not_resumes_of_nil rfl⟩
  rintro (h | h | h | h | h)
  · cases h
  · cases h
  · cases h
  · cases h
  · exact h rfl

end RemoteLogHandler

end Log

end Rmote
