import Rmote.Library.Machine

/-!
# The loop thread of the synchronous client

Any number of threads submit requests, cancel them and wait for them, while one thread runs the
event loop and shuts it down. `submit` takes no lock: it publishes its future, then looks whether
the runtime is open, then hands the request to the loop, and the shutdown may come between any two
of these steps. Each access to what the threads share is a step of its own.

The loop may run its callbacks in any order, and the thread that settles a future may run the done
callback at any later time. Both only add interleavings.
-/

namespace Rmote

namespace Client

/-- The state that `submit` and `close` look at. -/
inductive Phase where
  | starting
  | opened
  | closing
  | closed
  deriving DecidableEq

/-- Where the loop thread stands. -/
inductive Stage where
  | starting
  /-- The loop exists. -/
  | created
  /-- `_main` waits for the stop event. -/
  | serving
  /-- `_main` has ended, and the runner shuts the loop down. -/
  | leaving
  /-- The loop is closed. -/
  | exited
  /-- The state is closed. -/
  | ended
  /-- The requests are copied, and the futures of the copy are being settled. -/
  | sweeping
  /-- `_finished` is done. -/
  | finished
  deriving DecidableEq

/-- Callbacks can be handed to the loop. -/
def Stage.open : Stage → Bool
  | .created => true
  | .serving => true
  | .leaving => true
  | _ => false

/-- The loop runs callbacks and tasks. -/
def Stage.running : Stage → Bool
  | .serving => true
  | .leaving => true
  | _ => false

/-- Where a call of `submit` stands. -/
inductive Call where
  | created
  | gated
  | published
  | checked
  | scheduled
  | returned
  | raising
  | discarded
  | raised
  deriving DecidableEq

inductive Outcome where
  | result
  | cancelled
  | exception
  deriving DecidableEq

/-- A future and how far `_request_done` has come. -/
inductive FutureState where
  | pending
  | settled (outcome : Outcome)
  /-- The gate is taken out of the mapping, if there was one. -/
  | popped (outcome : Outcome) (gate : Bool)
  | released (outcome : Outcome)
  | ended (outcome : Outcome)
  deriving DecidableEq

def FutureState.cancelled : FutureState → Bool
  | .pending => false
  | .settled outcome => outcome = .cancelled
  | .popped outcome _ => outcome = .cancelled
  | .released outcome => outcome = .cancelled
  | .ended outcome => outcome = .cancelled

/-- A caller of `result`. -/
inductive Waiter where
  | idle
  /-- The main thread tries to lock the gate. -/
  | polling
  /-- It has locked the gate. -/
  | holding
  /-- It waits for the future itself. -/
  | blocking
  | got
  deriving DecidableEq

/-- One call of `submit`, its future, and what the runtime holds for it. -/
structure Request where
  /-- The main thread calls. -/
  main : Bool
  call : Call
  future : FutureState
  /-- The future is in `_requests`. -/
  requested : Bool
  /-- The future has a gate in `_gates`. -/
  entry : Bool
  /-- The gate is locked. -/
  locked : Bool
  /-- The future is in the copy of `_serve`, and it was not looked at. -/
  listed : Bool
  /-- `_start` waits in the loop. -/
  queued : Bool
  task : Bool
  /-- `_cancel` waits in the loop. -/
  aborting : Bool
  waiter : Waiter
  deriving DecidableEq

namespace Request

/-- A future with its done callback, before it is published. -/
def new (main : Bool) : Request :=
  ⟨main, .created, .pending, false, false, false, false, false, false, false, .idle⟩

/-- The future gets an outcome, unless it has one. -/
def settle (r : Request) (outcome : Outcome) : Request :=
  if r.future = .pending then { r with future := .settled outcome } else r

/-- The next step of `submit`. -/
def submit (phase : Phase) (stage : Stage) (r : Request) : Option Request :=
  match r.call with
  | .created => some { r with call := .gated, entry := r.main, locked := r.main }
  | .gated => some { r with call := .published, requested := true }
  | .published => some { r with call := if phase = .opened then .checked else .raising }
  | .checked =>
      if stage.open then some { r with call := .scheduled, queued := true }
      else some { r with call := .raising }
  | .scheduled => some { r with call := .returned }
  | .raising => some { r with call := .discarded, requested := false }
  | .discarded => some { r with call := .raised, entry := false }
  | .returned => none
  | .raised => none

/-- An exception comes up in the body of `submit`, such as an interrupt. -/
def interrupt (r : Request) : Option Request :=
  match r.call with
  | .created => some { r with call := .raising }
  | .gated => some { r with call := .raising }
  | .published => some { r with call := .raising }
  | .checked => some { r with call := .raising }
  | .scheduled => some { r with call := .raising }
  | _ => none

/-- The caller cancels the future that it got. -/
def cancel (r : Request) : Option Request :=
  if r.call = .returned then some (r.settle .cancelled) else none

/-- The next step of `_request_done`. -/
def requestDone (phase : Phase) (stage : Stage) (r : Request) : Option Request :=
  match r.future with
  | .pending => none
  | .settled outcome => some { r with future := .popped outcome r.entry, entry := false }
  | .popped outcome gate =>
      some { r with future := .released outcome, locked := if gate then false else r.locked }
  | .released outcome => some { r with
      future := .ended outcome
      requested := false
      aborting := r.aborting || (r.future.cancelled && phase ≠ .closed && stage.open) }
  | .ended _ => none

/-- `_start` runs. The flag tells whether the loop makes a task. -/
def start (stage : Stage) (ok : Bool) (r : Request) : Option Request :=
  if stage.running = true ∧ r.queued = true then
    if ok then some { r with queued := false, task := !r.future.cancelled }
    else some ({ r with queued := false }.settle .exception)
  else none

/-- The task of a request comes to its end. -/
def taskDone (stage : Stage) (outcome : Outcome) (r : Request) : Option Request :=
  if stage.running = true ∧ r.task = true then
    some ({ r with task := false }.settle outcome)
  else none

/-- `_cancel` runs. -/
def abort (stage : Stage) (r : Request) : Option Request :=
  if stage.running = true ∧ r.aborting = true then some { r with aborting := false } else none

/-- `_serve` settles a future of its copy. -/
def sweep (stage : Stage) (error : Bool) (r : Request) : Option Request :=
  if stage = .sweeping ∧ r.listed = true then
    some ({ r with listed := false }.settle (if error then .exception else .cancelled))
  else none

/-- A thread asks for the result. -/
def result (main : Bool) (r : Request) : Option Request :=
  if r.call = .returned ∧ (r.waiter = .idle ∨ r.waiter = .got) then
    some { r with waiter := if main && r.entry then .polling else .blocking }
  else none

/-- The next step of `result`, and nothing while it has to wait. -/
def wait (r : Request) : Option Request :=
  match r.waiter with
  | .idle => none
  | .polling => if r.locked then none else some { r with waiter := .holding, locked := true }
  | .holding => some { r with waiter := .blocking, locked := false }
  | .blocking => if r.future = .pending then none else some { r with waiter := .got }
  | .got => none

end Request

/-- What a thread does with one request. -/
inductive RequestEvent where
  | submit
  | interrupt
  | cancel
  | requestDone
  | start (ok : Bool)
  | taskDone (outcome : Outcome)
  | abort
  | sweep
  | result (main : Bool)
  | wait
  deriving DecidableEq

inductive RuntimeEvent where
  | new (main : Bool)
  | request (i : ℕ) (event : RequestEvent)
  /-- A thread calls `close`. -/
  | close
  /-- The runner makes the loop. -/
  | create
  /-- `_main` begins. -/
  | main
  /-- The stop event is set on the loop. -/
  | stop
  /-- `_main` ends. -/
  | leave
  /-- The runner is done, with an error or without. -/
  | exit (error : Bool)
  | conclude
  | copy
  | finish
  deriving DecidableEq

structure Runtime where
  phase : Phase
  stage : Stage
  /-- The stop event. -/
  stop : Bool
  /-- `stop.set` waits in the loop. -/
  stopping : Bool
  /-- The runner raised. -/
  error : Bool
  requests : List Request

namespace Runtime

def new : Runtime := ⟨.starting, .starting, false, false, false, []⟩

def requestStep (s : Runtime) (r : Request) : RequestEvent → Option Request
  | .submit => r.submit s.phase s.stage
  | .interrupt => r.interrupt
  | .cancel => r.cancel
  | .requestDone => r.requestDone s.phase s.stage
  | .start ok => r.start s.stage ok
  | .taskDone outcome => r.taskDone s.stage outcome
  | .abort => r.abort s.stage
  | .sweep => r.sweep s.stage s.error
  | .result main => r.result main
  | .wait => r.wait

/-- Stop accepting work. -/
def close (s : Runtime) : Runtime :=
  if s.phase = .closing ∨ s.phase = .closed then s
  else { s with phase := .closing, stopping := s.stopping || s.stage.running }

/-- `_main` opens the runtime, unless it was closed before. -/
def main (s : Runtime) : Runtime :=
  if s.phase = .closing then { s with stage := .serving, stop := true }
  else { s with stage := .serving, phase := .opened }

def step (s : Runtime) : RuntimeEvent → Option Runtime
  | .new main => some { s with requests := s.requests ++ [.new main] }
  | .request i event =>
      (s.requests[i]?).bind fun r =>
        (s.requestStep r event).map fun r' => { s with requests := s.requests.set i r' }
  | .close => some s.close
  | .create => if s.stage = .starting then some { s with stage := .created } else none
  | .main => if s.stage = .created then some s.main else none
  | .stop =>
      if s.stage.running = true ∧ s.stopping = true then
        some { s with stop := true, stopping := false }
      else none
  | .leave =>
      if s.stage = .serving ∧ s.stop = true then
        some { s with stage := .leaving, phase := .closing }
      else none
  | .exit error =>
      if s.stage = .leaving ∨ (error = true ∧ (s.stage = .starting ∨ s.stage.open = true)) then
        some { s with stage := .exited, error := error }
      else none
  | .conclude => if s.stage = .exited then some { s with stage := .ended, phase := .closed } else none
  | .copy =>
      if s.stage = .ended then
        some { s with
          stage := .sweeping
          requests := s.requests.map fun r => { r with listed := r.requested } }
      else none
  | .finish =>
      if s.stage = .sweeping ∧ (s.requests.all fun r => !r.listed) = true then
        some { s with stage := .finished }
      else none

end Runtime

/-! ## What holds of a request -/

/-- `submit` found the runtime open. -/
def Call.admitted : Call → Bool
  | .checked => true
  | .scheduled => true
  | .returned => true
  | _ => false

/-- The future is published, and `submit` has not failed. -/
def Call.shown : Call → Bool
  | .published => true
  | call => call.admitted

/-- The future is not published. -/
def Call.early : Call → Bool
  | .created => true
  | .gated => true
  | _ => false

/-- The copy of the requests is taken. -/
def Stage.late : Stage → Bool
  | .sweeping => true
  | .finished => true
  | _ => false

namespace Request

/-- The gate waits for its release. -/
def Guarded (r : Request) : Prop := r.entry = true ∨ ∃ outcome, r.future = .popped outcome true

/-- What holds of a request while the loop thread is at a stage. -/
structure Ok (stage : Stage) (r : Request) : Prop where
  early : r.call.early = true → r.future = .pending ∧ r.requested = false ∧ r.listed = false ∧
    r.queued = false ∧ r.task = false ∧ r.waiter = .idle
  unmade : r.call = .created → r.entry = false ∧ r.locked = false
  claimed : r.call.shown = true → r.future = .pending → r.requested = true
  discarded : r.call = .discarded ∨ r.call = .raised → r.requested = false
  raised : r.call = .raised → r.entry = false
  swept : stage.late = true → r.call.admitted = true → r.future = .pending → r.listed = true
  finished : stage = .finished → r.listed = false
  popped : r.entry = true → r.future = .pending ∨ ∃ outcome, r.future = .settled outcome
  guarded : r.Guarded → r.locked = true ∧ r.waiter ≠ .holding
  owned : r.locked = true → r.call ≠ .raised → r.Guarded ∨ r.waiter = .holding

variable {stage : Stage} {phase : Phase} {r r' : Request}

theorem ok_new (stage : Stage) (main : Bool) : (new main).Ok stage := by
  constructor <;> simp [new, Call.shown, Call.admitted, Guarded]

/-- A published call goes on, to where it is no more admitted than before. -/
theorem Ok.forward {call : Call} (h : r.Ok stage) (hfrom : r.call ≠ .raised)
    (hearly : call.early = false) (hto : ¬(call = .discarded ∨ call = .raised))
    (hshown : call.shown = true → r.call.shown = true)
    (hadmitted : stage.late = true → call.admitted = true → r.call.admitted = true)
    (queued : Bool) : ({ r with call := call, queued := queued } : Request).Ok stage where
  early h' := absurd (hearly.symm.trans h') (by decide)
  unmade h' := absurd hearly (by rw [show call = .created from h']; decide)
  claimed h' := h.claimed (hshown h')
  discarded h' := absurd h' hto
  raised h' := absurd (.inr h') hto
  swept hlate h' := h.swept hlate (hadmitted hlate h')
  finished := h.finished
  popped := h.popped
  guarded := h.guarded
  owned hlocked _ := h.owned hlocked hfrom

theorem Ok.raising (h : r.Ok stage) (hfrom : r.call ≠ .raised) :
    ({ r with call := .raising } : Request).Ok stage :=
  h.forward hfrom rfl (by decide) (fun h' => by cases h') (fun _ h' => by cases h') r.queued

/-- The main thread gets a locked gate with its future. -/
theorem Ok.gated (h : r.Ok stage) (hcall : r.call = .created) :
    ({ r with call := .gated, entry := r.main, locked := r.main } : Request).Ok stage := by
  have hearly := h.early (by rw [hcall]; rfl)
  constructor
  case early => exact fun _ => hearly
  case finished => exact h.finished
  case popped => exact fun _ => .inl hearly.1
  case guarded =>
      rintro (hmain | ⟨outcome, hpopped⟩)
      · refine ⟨hmain, ?_⟩
        rw [hearly.2.2.2.2.2]
        decide
      · rw [hearly.1] at hpopped
        cases hpopped
  case owned => exact fun hlocked _ => .inl (.inl hlocked)
  all_goals simp [Call.shown, Call.admitted]

theorem Ok.published (h : r.Ok stage) (hcall : r.call = .gated) :
    ({ r with call := .published, requested := true } : Request).Ok stage := by
  constructor
  case claimed => exact fun _ _ => rfl
  case finished => exact h.finished
  case popped => exact h.popped
  case guarded => exact h.guarded
  case owned => exact fun hlocked _ => h.owned hlocked (by rw [hcall]; decide)
  all_goals simp [Call.early, Call.admitted]

theorem Ok.discard (h : r.Ok stage) (hcall : r.call = .raising) :
    ({ r with call := .discarded, requested := false } : Request).Ok stage := by
  constructor
  case discarded => exact fun _ => rfl
  case finished => exact h.finished
  case popped => exact h.popped
  case guarded => exact h.guarded
  case owned => exact fun hlocked _ => h.owned hlocked (by rw [hcall]; decide)
  all_goals simp [Call.early, Call.shown, Call.admitted]

theorem Ok.raise (h : r.Ok stage) (hcall : r.call = .discarded) :
    ({ r with call := .raised, entry := false } : Request).Ok stage := by
  constructor
  case discarded => exact fun _ => h.discarded (.inl hcall)
  case finished => exact h.finished
  case guarded =>
      rintro (hentry | hpopped)
      · cases hentry
      · exact h.guarded (.inr hpopped)
  case owned => exact fun _ h' => absurd rfl h'
  all_goals simp [Call.early, Call.shown, Call.admitted]

theorem Ok.submit (h : r.Ok stage) (hphase : stage.late = true → phase = .closed)
    (hstep : r.submit phase stage = some r') : r'.Ok stage := by
  unfold Request.submit at hstep
  cases hcall : r.call with
  | created =>
      rw [hcall] at hstep
      cases hstep
      exact h.gated hcall
  | gated =>
      rw [hcall] at hstep
      cases hstep
      exact h.published hcall
  | published =>
      rw [hcall] at hstep
      cases hstep
      have hfrom : r.call ≠ .raised := by rw [hcall]; decide
      split_ifs with hopen
      · refine h.forward hfrom rfl (by decide) (fun _ => by rw [hcall]; rfl) (fun hlate => ?_) _
        -- An open runtime has not taken the copy.
        rw [hphase hlate] at hopen
        cases hopen
      · exact h.raising hfrom
  | checked =>
      rw [hcall] at hstep
      have hfrom : r.call ≠ .raised := by rw [hcall]; decide
      dsimp only at hstep
      split_ifs at hstep
      · cases hstep
        exact h.forward hfrom rfl (by decide) (fun _ => by rw [hcall]; rfl)
          (fun _ _ => by rw [hcall]; rfl) true
      · cases hstep
        exact h.raising hfrom
  | scheduled =>
      rw [hcall] at hstep
      cases hstep
      exact h.forward (by rw [hcall]; decide) rfl (by decide) (fun _ => by rw [hcall]; rfl)
        (fun _ _ => by rw [hcall]; rfl) r.queued
  | raising =>
      rw [hcall] at hstep
      cases hstep
      exact h.discard hcall
  | discarded =>
      rw [hcall] at hstep
      cases hstep
      exact h.raise hcall
  | returned =>
      rw [hcall] at hstep
      cases hstep
  | raised =>
      rw [hcall] at hstep
      cases hstep

theorem Ok.interrupt (h : r.Ok stage) (hstep : r.interrupt = some r') : r'.Ok stage := by
  have hraising : r.call ≠ .raised ∧ r' = { r with call := .raising } := by
    unfold Request.interrupt at hstep
    split at hstep <;> simp_all
  rw [hraising.2]
  exact h.raising hraising.1

/-- A published future is settled. -/
theorem Ok.settle (h : r.Ok stage) (hearly : r.call.early = false) (outcome : Outcome) :
    (r.settle outcome).Ok stage := by
  unfold Request.settle
  split_ifs with hpending
  · obtain ⟨early, unmade, claimed, discarded, raised, swept, finished, popped, guarded, owned⟩ := h
    constructor <;> simp_all [Guarded]
  · exact h

theorem Ok.requestDone (h : r.Ok stage) (hstep : r.requestDone phase stage = some r') :
    r'.Ok stage := by
  obtain ⟨early, unmade, claimed, discarded, raised, swept, finished, popped, guarded, owned⟩ := h
  unfold Request.requestDone at hstep
  split at hstep <;> cases hstep <;> constructor <;> simp_all [Guarded]
  -- A gate that was not in hand had been released before.
  intro hgate hlocked hcall
  exact (owned hlocked hcall).resolve_left (by simp [hgate])

theorem Ok.not_early (h : r.Ok stage)
    (hlater : r.queued = true ∨ r.task = true ∨ r.listed = true) : r.call.early = false := by
  by_contra hearly
  obtain ⟨-, -, hlisted, hqueued, htask, -⟩ := h.early (by simpa using hearly)
  simp [hlisted, hqueued, htask] at hlater

/-- The flags of a request that is published change. -/
theorem Ok.flags (h : r.Ok stage) (hearly : r.call.early = false) (queued task : Bool) :
    { r with queued := queued, task := task }.Ok stage where
  early hcall := by
    rw [hearly] at hcall
    cases hcall
  unmade := h.unmade
  claimed := h.claimed
  discarded := h.discarded
  raised := h.raised
  swept := h.swept
  finished := h.finished
  popped := h.popped
  guarded := h.guarded
  owned := h.owned

theorem Ok.start {ok : Bool} (h : r.Ok stage) (hstep : r.start stage ok = some r') :
    r'.Ok stage := by
  unfold Request.start at hstep
  split_ifs at hstep with hqueued hok
  · cases hstep
    exact h.flags (h.not_early (.inl hqueued.2)) _ _
  · cases hstep
    have hearly := h.not_early (.inl hqueued.2)
    exact (h.flags hearly false r.task).settle hearly _

theorem Ok.taskDone {outcome : Outcome} (h : r.Ok stage)
    (hstep : r.taskDone stage outcome = some r') : r'.Ok stage := by
  obtain ⟨⟨-, htask⟩, ⟨⟩⟩ := Option.ite_none_right_eq_some.mp hstep
  have hearly := h.not_early (.inr (.inl htask))
  exact (h.flags hearly r.queued false).settle hearly _

theorem Ok.abort (h : r.Ok stage) (hstep : r.abort stage = some r') : r'.Ok stage := by
  obtain ⟨-, ⟨⟩⟩ := Option.ite_none_right_eq_some.mp hstep
  exact ⟨h.early, h.unmade, h.claimed, h.discarded, h.raised, h.swept, h.finished, h.popped,
    h.guarded, h.owned⟩

theorem Ok.cancel (h : r.Ok stage) (hstep : r.cancel = some r') : r'.Ok stage := by
  obtain ⟨hcall, ⟨⟩⟩ := Option.ite_none_right_eq_some.mp hstep
  exact h.settle (by rw [hcall]; rfl) _

/-- A future leaves the copy when it is done. -/
theorem Ok.unlist (h : r.Ok stage) (hearly : r.call.early = false) (hdone : r.future ≠ .pending) :
    { r with listed := false }.Ok stage where
  early hcall := by
    rw [hearly] at hcall
    cases hcall
  unmade := h.unmade
  claimed := h.claimed
  discarded := h.discarded
  raised := h.raised
  swept _ _ hpending := absurd hpending hdone
  finished _ := rfl
  popped := h.popped
  guarded := h.guarded
  owned := h.owned

theorem settle_ne_pending (r : Request) (outcome : Outcome) :
    (r.settle outcome).future ≠ .pending := by
  unfold Request.settle
  split_ifs with hpending
  · nofun
  · exact hpending

theorem settle_unlist (r : Request) (outcome : Outcome) :
    { r with listed := false }.settle outcome = { r.settle outcome with listed := false } := by
  unfold Request.settle
  split_ifs <;> rfl

theorem settle_call (r : Request) (outcome : Outcome) : (r.settle outcome).call = r.call := by
  unfold Request.settle
  split_ifs <;> rfl

theorem Ok.sweep {error : Bool} (h : r.Ok stage) (hstep : r.sweep stage error = some r') :
    r'.Ok stage := by
  obtain ⟨⟨-, hlisted⟩, ⟨⟩⟩ := Option.ite_none_right_eq_some.mp hstep
  have hearly := h.not_early (.inr (.inr hlisted))
  rw [settle_unlist]
  exact (h.settle hearly _).unlist (by rw [settle_call, hearly]) (settle_ne_pending r _)

/-- Nobody holds the gate when a thread begins to wait. -/
theorem Ok.result {main : Bool} (h : r.Ok stage) (hstep : r.result main = some r') :
    r'.Ok stage := by
  obtain ⟨⟨hcall, hwaiter⟩, ⟨⟩⟩ := Option.ite_none_right_eq_some.mp hstep
  have hwait : (if (main && r.entry) = true then Waiter.polling else .blocking) ≠ .holding := by
    split_ifs <;> nofun
  have hfree : r.waiter ≠ .holding := by
    rcases hwaiter with hwaiter | hwaiter <;> rw [hwaiter] <;> nofun
  refine ⟨fun hearly => ?_, h.unmade, h.claimed, h.discarded, h.raised, h.swept, h.finished,
    h.popped, fun hguarded => ⟨(h.guarded hguarded).1, hwait⟩, fun hlocked hraised => .inl ?_⟩
  · rw [hcall] at hearly
    cases hearly
  · exact (h.owned hlocked hraised).resolve_right hfree

theorem Ok.wait (h : r.Ok stage) (hstep : r.wait = some r') : r'.Ok stage := by
  obtain ⟨early, unmade, claimed, discarded, raised, swept, finished, popped, guarded, owned⟩ := h
  unfold Request.wait at hstep
  split at hstep <;> (try split_ifs at hstep) <;> cases hstep <;> constructor <;>
    simp_all [Guarded]
  rintro hcall
  simp [hcall, Call.early] at early

/-- The loop thread moves on before it takes the copy. -/
theorem Ok.stage_change {stage' : Stage} (h : r.Ok stage) (hlate : stage'.late = false) :
    r.Ok stage' := by
  refine ⟨h.early, h.unmade, h.claimed, h.discarded, h.raised, fun hcopy => ?_, ?_, h.popped,
    h.guarded, h.owned⟩
  · rw [hlate] at hcopy
    cases hcopy
  · rintro rfl
    cases hlate

theorem shown_of_admitted {call : Call} (h : call.admitted = true) : call.shown = true := by
  cases call with
  | published => rfl
  | _ => exact h

/-- The copy has every future that was admitted and is not done. -/
theorem Ok.copy (h : r.Ok stage) : { r with listed := r.requested }.Ok .sweeping where
  early hcall := by
    obtain ⟨hpending, hrequested, -, hlater⟩ := h.early hcall
    exact ⟨hpending, hrequested, hrequested, hlater⟩
  unmade := h.unmade
  claimed := h.claimed
  discarded := h.discarded
  raised := h.raised
  swept _ hadmitted hpending := h.claimed (shown_of_admitted hadmitted) hpending
  finished := nofun
  popped := h.popped
  guarded := h.guarded
  owned := h.owned

end Request

namespace Runtime

/-- What holds of the runtime in every interleaving. -/
structure Sound (s : Runtime) : Prop where
  requests : ∀ r ∈ s.requests, r.Ok s.stage
  closed : s.stage = .ended ∨ s.stage.late = true → s.phase = .closed

theorem sound_new : new.Sound :=
  ⟨fun _ hr => absurd hr List.not_mem_nil, by simp [new, Stage.late]⟩

variable {s t : Runtime} {r r' : Request}

theorem Sound.requestStep (h : s.Sound) (hr : r ∈ s.requests) {event : RequestEvent}
    (hstep : s.requestStep r event = some r') : r'.Ok s.stage := by
  have hok := h.requests r hr
  cases event <;> dsimp only [Runtime.requestStep] at hstep
  case submit => exact hok.submit (fun hlate => h.closed (.inr hlate)) hstep
  case interrupt => exact hok.interrupt hstep
  case cancel => exact hok.cancel hstep
  case requestDone => exact hok.requestDone hstep
  case start ok => exact hok.start hstep
  case taskDone outcome => exact hok.taskDone hstep
  case abort => exact hok.abort hstep
  case sweep => exact hok.sweep hstep
  case result main => exact hok.result hstep
  case wait => exact hok.wait hstep

/-- The loop thread moves on to a stage before the copy. -/
theorem Sound.advance (h : s.Sound) {stage : Stage} {phase : Phase} {stop stopping error : Bool}
    (hlate : stage.late = false) (hclosed : stage = .ended → phase = .closed) :
    Sound ⟨phase, stage, stop, stopping, error, s.requests⟩ := by
  refine ⟨fun r hr => (h.requests r hr).stage_change hlate, ?_⟩
  rintro (hended | hcopy)
  · exact hclosed hended
  · rw [hlate] at hcopy
    cases hcopy

theorem Sound.step (h : s.Sound) {event : RuntimeEvent} (hstep : s.step event = some t) :
    t.Sound := by
  cases event with
  | new main =>
      cases hstep
      refine ⟨fun r hr => ?_, h.closed⟩
      rcases List.mem_append.mp hr with hr | hr
      · exact h.requests r hr
      · rw [List.mem_singleton.mp hr]
        exact Request.ok_new _ main
  | request i event =>
      obtain ⟨r, hr, hstep⟩ := Option.bind_eq_some_iff.mp hstep
      obtain ⟨r', hr', rfl⟩ := Option.map_eq_some_iff.mp hstep
      refine ⟨fun q hq => ?_, h.closed⟩
      rcases List.mem_or_eq_of_mem_set hq with hq | rfl
      · exact h.requests q hq
      · exact h.requestStep (List.mem_of_getElem? hr) hr'
  | close =>
      cases hstep
      unfold close
      split_ifs with hclosing
      · exact h
      · exact ⟨h.requests, fun hlate => absurd (.inr (h.closed hlate)) hclosing⟩
  | create =>
      obtain ⟨-, ⟨⟩⟩ := Option.ite_none_right_eq_some.mp hstep
      exact h.advance rfl nofun
  | main =>
      obtain ⟨-, ⟨⟩⟩ := Option.ite_none_right_eq_some.mp hstep
      unfold main
      split_ifs
      · exact h.advance rfl nofun
      · exact h.advance rfl nofun
  | stop =>
      obtain ⟨-, ⟨⟩⟩ := Option.ite_none_right_eq_some.mp hstep
      exact ⟨h.requests, h.closed⟩
  | leave =>
      obtain ⟨-, ⟨⟩⟩ := Option.ite_none_right_eq_some.mp hstep
      exact h.advance rfl nofun
  | exit error =>
      obtain ⟨-, ⟨⟩⟩ := Option.ite_none_right_eq_some.mp hstep
      exact h.advance rfl nofun
  | conclude =>
      obtain ⟨-, ⟨⟩⟩ := Option.ite_none_right_eq_some.mp hstep
      exact h.advance rfl fun _ => rfl
  | copy =>
      obtain ⟨hended, ⟨⟩⟩ := Option.ite_none_right_eq_some.mp hstep
      refine ⟨fun r hr => ?_, fun _ => h.closed (.inl hended)⟩
      obtain ⟨q, hq, rfl⟩ := List.mem_map.mp hr
      exact (h.requests q hq).copy
  | finish =>
      obtain ⟨⟨hsweeping, hlisted⟩, ⟨⟩⟩ := Option.ite_none_right_eq_some.mp hstep
      have hlate : s.stage.late = true := by
        rw [hsweeping]
        rfl
      refine ⟨fun r hr => ?_, fun _ => h.closed (.inr hlate)⟩
      have hok := h.requests r hr
      exact ⟨hok.early, hok.unmade, hok.claimed, hok.discarded, hok.raised,
        fun _ => hok.swept hlate, fun _ => by simpa using List.all_eq_true.mp hlisted r hr,
        hok.popped, hok.guarded, hok.owned⟩

/-- In every interleaving the requests and the runtime are sound. -/
theorem sound_run {events : List RuntimeEvent} (hrun : Machine.run step new events = some s) :
    s.Sound :=
  Machine.run_always Sound (fun _ _ _ h hstep => h.step hstep) hrun sound_new

end Runtime

namespace Request

/-- The rest of `_request_done`. -/
def complete (phase : Phase) (stage : Stage) (r : Request) : Request :=
  let r := (r.requestDone phase stage).getD r
  let r := (r.requestDone phase stage).getD r
  (r.requestDone phase stage).getD r

/-- The rest of `result`, as far as it goes without waiting. -/
def proceed (r : Request) : Request :=
  let r := r.wait.getD r
  let r := r.wait.getD r
  r.wait.getD r

variable {stage : Stage} {phase : Phase} {r : Request}

theorem Ok.requestDone_getD (h : r.Ok stage) : ((r.requestDone phase stage).getD r).Ok stage := by
  cases hstep : r.requestDone phase stage with
  | none => exact h
  | some r' => exact h.requestDone hstep

theorem Ok.complete (phase : Phase) (h : r.Ok stage) : (r.complete phase stage).Ok stage :=
  h.requestDone_getD.requestDone_getD.requestDone_getD

/-- A future that is done stays done, and its callback comes to an end. -/
theorem complete_ended (phase : Phase) (stage : Stage) (hdone : r.future ≠ .pending) :
    (∃ outcome, (r.complete phase stage).future = .ended outcome) ∧
      (r.complete phase stage).call = r.call ∧ (r.complete phase stage).waiter = r.waiter := by
  cases hfuture : r.future with
  | pending => exact absurd hfuture hdone
  | settled outcome => simp [complete, Request.requestDone, hfuture]
  | popped outcome gate => simp [complete, Request.requestDone, hfuture]
  | released outcome => simp [complete, Request.requestDone, hfuture]
  | ended outcome => simp [complete, Request.requestDone, hfuture]

/-- The gate of a future whose callback has run is free, unless a caller just looks at it. -/
theorem Ok.unlocked (h : r.Ok stage) (hcall : r.call = .returned) {outcome : Outcome}
    (hended : r.future = .ended outcome) (hwaiter : r.waiter ≠ .holding) : r.locked = false := by
  by_contra hlocked
  have hguarded : ¬ r.Guarded := by
    rintro (hentry | ⟨outcome', hpopped⟩)
    · rcases h.popped hentry with hpending | ⟨outcome', hsettled⟩
      · rw [hended] at hpending
        cases hpending
      · rw [hended] at hsettled
        cases hsettled
    · rw [hended] at hpopped
      cases hpopped
  rcases h.owned (by simpa using hlocked) (by rw [hcall]; nofun) with hgate | hholding
  · exact hguarded hgate
  · exact hwaiter hholding

/-- A caller of `result` gets what is there. -/
theorem proceed_got (hdone : r.future ≠ .pending) (hfree : r.waiter ≠ .holding → r.locked = false)
    (hwaiter : r.waiter ≠ .idle) : r.proceed.waiter = .got := by
  cases hwait : r.waiter with
  | idle => exact absurd hwait hwaiter
  | polling =>
      have hlocked := hfree (by rw [hwait]; nofun)
      simp [proceed, Request.wait, hwait, hlocked, hdone]
  | holding => simp [proceed, Request.wait, hwait, hdone]
  | blocking => simp [proceed, Request.wait, hwait, hdone]
  | got => simp [proceed, Request.wait, hwait]

end Request

namespace Runtime

variable {s : Runtime}

/-- In every interleaving: a future that `submit` returned is done when the runtime has finished,
one for which `submit` raised leaves nothing behind, the gate of a future that is done is released
by what is left of its callback, and then every caller of `result` goes on. -/
theorem no_request_stranded (events : List RuntimeEvent)
    (hrun : Machine.run step new events = some s) (r : Request) (hr : r ∈ s.requests) :
    (s.stage = .finished → r.call = .returned → r.future ≠ .pending) ∧
    (r.call = .raised → r.requested = false ∧ r.entry = false) ∧
    (r.call = .returned → r.future ≠ .pending →
      (r.complete s.phase s.stage).entry = false ∧
      (r.waiter ≠ .holding → (r.complete s.phase s.stage).locked = false) ∧
      (r.waiter ≠ .idle → (r.complete s.phase s.stage).proceed.waiter = .got)) := by
  have hok := (sound_run hrun).requests r hr
  refine ⟨fun hfinished hcall hpending => ?_, fun hraised => ?_, fun hcall hdone => ?_⟩
  · have hlisted := hok.swept (by rw [hfinished]; rfl) (by rw [hcall]; rfl) hpending
    rw [hok.finished hfinished] at hlisted
    cases hlisted
  · exact ⟨hok.discarded (.inr hraised), hok.raised hraised⟩
  · obtain ⟨⟨outcome, hended⟩, hcall', hwaiter⟩ := Request.complete_ended
      s.phase s.stage hdone
    have hcomplete := hok.complete s.phase
    have hfree := hcomplete.unlocked (hcall'.trans hcall) hended
    rw [hwaiter] at hfree
    refine ⟨?_, hfree, fun hwait => Request.proceed_got ?_ ?_ ?_⟩
    · by_contra hentry
      rcases hcomplete.popped (by simpa using hentry) with hpending | ⟨outcome', hsettled⟩
      · rw [hended] at hpending
        cases hpending
      · rw [hended] at hsettled
        cases hsettled
    · rw [hended]
      nofun
    · rw [hwaiter]
      exact hfree
    · rw [hwaiter]
      exact hwait

/-- The main thread submits a request and waits for it, and another thread closes the runtime
between its look at the state and the hand-over to the loop. -/
def closingRun : List RuntimeEvent :=
  [.create, .main, .new true, .request 0 .submit, .request 0 .submit, .request 0 .submit, .close,
    .stop, .leave, .request 0 .submit, .request 0 .submit, .request 0 (.result true), .exit false,
    .conclude, .copy, .request 0 .sweep, .finish]

theorem closing_run_settled :
    ∃ s r, Machine.run step new closingRun = some s ∧ s.requests = [r] ∧ s.stage = .finished ∧
      r.call = .returned ∧ r.waiter = .polling ∧ r.future ≠ .pending ∧
      (r.complete s.phase s.stage).proceed.waiter = .got := by
  have hview : (Machine.run step new closingRun).map (fun s => (s.stage, s.requests.map fun r =>
      (r.call, r.waiter))) = some (.finished, [(.returned, .polling)]) := by
    decide +kernel
  obtain ⟨s, hs, hview⟩ := Option.map_eq_some_iff.mp hview
  obtain ⟨hstage, hrequests⟩ := Prod.mk.inj hview
  obtain ⟨r, hr, hcall⟩ := List.map_eq_singleton_iff.mp hrequests
  obtain ⟨hcall, hwaiter⟩ := Prod.mk.inj hcall
  obtain ⟨hdone, -, hgate⟩ := no_request_stranded closingRun hs r (by rw [hr]; simp)
  have hdone := hdone hstage hcall
  exact ⟨s, r, hs, hr, hstage, hcall, hwaiter, hdone,
    (hgate hcall hdone).2.2 (by rw [hwaiter]; nofun)⟩

end Runtime

end Client

end Rmote
