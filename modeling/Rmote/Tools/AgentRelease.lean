import Rmote.Tools.AgentRuns

/-!
# Sessions after their release

A session that was released is never registered again, so nothing can use it but the
operations that were in progress. Each of them notices that the session is closed and
undoes its own part, and once all of them ended nothing of the session is left. An
`accept` that awaited the queue finds the item that woke it, and ends.
-/

namespace Rmote

namespace Agent

variable {a : Agent} {id : String}

/-- The session was released. -/
def Released (a : Agent) : Prop := a.started = true ∧ a.registered = false

theorem released_release (h : a.Released) : a.release = a := by
  simp [release, h.2]

theorem known_of_released (h : a.Released) : a.known = false := by
  simp [known, h.2]

/-- A session that was released is not registered again. -/
theorem released_step (h : a.Released) {e : AgentEvent} {b : Agent} {r : AgentReply}
    (hstep : a.step e = some (b, r)) : b.Released := by
  have hrelease (b : Agent) (hb : b.Released) : b.release.Released := by
    rwa [released_release hb]
  have hknown := known_of_released h
  cases e with
  | start =>
      have hsame : a.step .start = some (a, .returned) := by simp [step, start, h.1, h.2]
      rw [hsame] at hstep
      obtain ⟨rfl, -⟩ := Prod.mk.inj (Option.some.inj hstep)
      exact h
  | listen suffix outcome =>
      have hsame : a.step (.listen suffix outcome) = some (a, unknown) := by
        simp [step, listen, hknown]
      rw [hsame] at hstep
      obtain ⟨rfl, -⟩ := Prod.mk.inj (Option.some.inj hstep)
      exact h
  | connected id =>
      rw [step] at hstep
      split_ifs at hstep
      obtain ⟨rfl, -⟩ := Prod.mk.inj (Option.some.inj hstep)
      unfold connected
      dsimp only
      split_ifs
      · exact h
      · exact h
  | connect path id =>
      have hsame : a.step (.connect path id) = some (a, unknown) := by
        simp [step, connect, hknown]
      rw [hsame] at hstep
      obtain ⟨rfl, -⟩ := Prod.mk.inj (Option.some.inj hstep)
      exact h
  | accept =>
      have hsame : a.step .accept = some (a, unknown) := by simp [step, accept, hknown]
      rw [hsame] at hstep
      obtain ⟨rfl, -⟩ := Prod.mk.inj (Option.some.inj hstep)
      exact h
  | close id =>
      have hsame : a.step (.close id) = some (a, .returned) := by simp [step, close, h.2]
      rw [hsame] at hstep
      obtain ⟨rfl, -⟩ := Prod.mk.inj (Option.some.inj hstep)
      exact h
  | release =>
      obtain ⟨rfl, -⟩ := Prod.mk.inj (Option.some.inj hstep)
      exact hrelease a h
  | resumeListen task outcome =>
      rw [step] at hstep
      split_ifs at hstep
      obtain rfl := congrArg Prod.fst (Option.some.inj hstep)
      unfold resumeListen
      cases task with
      | refusing => cases outcome <;> exact hrelease _ h
      | starting =>
          cases outcome with
          | failed => exact hrelease _ h
          | done =>
              dsimp only
              split_ifs
              · exact h
              · exact h
  | resumeConnect task outcome =>
      rw [step] at hstep
      split_ifs at hstep
      obtain rfl := congrArg Prod.fst (Option.some.inj hstep)
      unfold resumeConnect
      cases task with
      | discarding id => cases outcome <;> exact h
      | opening id =>
          cases outcome with
          | failed => exact h
          | done =>
              dsimp only
              split_ifs
              · exact h
              · exact h
  | resumeAccept task outcome =>
      rw [step] at hstep
      split_ifs at hstep
      obtain rfl := congrArg Prod.fst (Option.some.inj hstep)
      have hloop (b : Agent) (hb : b.Released) : b.acceptLoop.1.Released := by
        unfold acceptLoop
        split_ifs
        · exact hrelease _ hb
        · exact hb
      unfold resumeAccept
      cases task with
      | yielded =>
          cases outcome with
          | done => exact hloop _ h
          | failed => exact hrelease _ h
      | getting woken =>
          cases outcome with
          | failed => exact hrelease _ h
          | done =>
              dsimp only
              cases a.session.pending with
              | nil => exact h
              | cons item pending =>
                  cases item with
                  | none => exact hrelease _ h
                  | some id =>
                      dsimp only
                      split_ifs
                      · exact h
                      · exact hloop _ h
  | resumeClose transport outcome =>
      rw [step] at hstep
      split_ifs at hstep
      all_goals
        obtain ⟨rfl, -⟩ := Prod.mk.inj (Option.some.inj hstep)
        exact h
  | resumeRelease task outcome =>
      rw [step] at hstep
      split_ifs at hstep
      obtain rfl := congrArg Prod.fst (Option.some.inj hstep)
      unfold resumeRelease
      cases task with
      | waiting ts => cases outcome <;> exact h
      | gathering ts =>
          cases outcome with
          | failed => exact h
          | done =>
              dsimp only
              split_ifs
              · exact h
              · exact h

/-- A released session with nothing in progress left nothing behind. -/
theorem nothing_left (h : a.Inv) (hreleased : a.Released) (hlistens : a.listens = [])
    (hreleases : a.releases = []) :
    a.live = [] ∧ a.listener ≠ .listening ∧ a.files = [] := by
  have hclosed := h.registry.released hreleased.1 hreleased.2
  refine ⟨?_, fun hlistening => ?_, ?_⟩
  · refine List.eq_nil_iff_forall_not_mem.mpr fun t ht => ?_
    rcases h.owned.owned t ht with hopen | ⟨task, htask, -⟩
    · rw [h.registry.emptied hclosed] at hopen
      exact List.not_mem_nil hopen
    · rw [hreleases] at htask
      exact List.not_mem_nil htask
  · rcases h.served.listening hlistening with ⟨hopen, -⟩ | hstarting
    · exact Bool.false_ne_true (hopen.symm.trans hclosed)
    · rw [hlistens] at hstarting
      exact List.not_mem_nil hstarting
  · by_contra hfiles
    exact h.filed.removed hclosed hfiles hreleases

/-- Only an `accept` that goes on hands out an id, and it looked it up. -/
theorem mem_ids_of_yielded {e : AgentEvent} {b : Agent}
    (hstep : a.step e = some (b, .yielded id)) : id ∈ a.ids := by
  cases e with
  | start =>
      simp only [step, start] at hstep
      split_ifs at hstep <;> simp at hstep
  | listen suffix outcome =>
      simp only [step, listen] at hstep
      split_ifs at hstep
      · simp [unknown] at hstep
      · simp at hstep
      · cases outcome <;> simp at hstep
  | connected id =>
      simp only [step] at hstep
      split_ifs at hstep
      simp at hstep
  | connect path id =>
      simp only [step, connect] at hstep
      split_ifs at hstep <;> simp [unknown] at hstep
  | accept =>
      simp only [step, accept] at hstep
      split_ifs at hstep <;> simp [unknown] at hstep
  | close id =>
      simp only [step, close] at hstep
      split_ifs at hstep
      · simp at hstep
      · cases hget : Assoc.get a.session.connections id <;> simp [hget] at hstep
  | release =>
      simp only [step] at hstep
      split_ifs at hstep <;> simp at hstep
  | resumeListen task outcome =>
      simp only [step, resumeListen] at hstep
      cases task <;> cases outcome <;> simp only at hstep <;> split_ifs at hstep <;>
        simp at hstep
  | resumeConnect task outcome =>
      simp only [step, resumeConnect] at hstep
      cases task <;> cases outcome <;> simp only at hstep <;> split_ifs at hstep <;>
        simp at hstep
  | resumeAccept task outcome =>
      rw [step] at hstep
      split_ifs at hstep
      have hreply := congrArg Prod.snd (Option.some.inj hstep)
      have hloop (b : Agent) : b.acceptLoop.2 ≠ .yielded id := by
        unfold acceptLoop
        split_ifs <;> simp
      unfold resumeAccept at hreply
      cases task with
      | yielded =>
          cases outcome with
          | done => exact absurd hreply (hloop _)
          | failed => cases hreply
      | getting woken =>
          cases outcome with
          | failed => cases hreply
          | done =>
              dsimp only at hreply
              cases hpending : a.session.pending with
              | nil =>
                  rw [hpending] at hreply
                  cases hreply
              | cons item pending =>
                  rw [hpending] at hreply
                  cases item with
                  | none => cases hreply
                  | some other =>
                      dsimp only at hreply
                      split_ifs at hreply with hmem
                      · exact AgentReply.yielded.inj hreply ▸ hmem
                      · exact absurd hreply (hloop _)
  | resumeClose transport outcome =>
      simp only [step] at hstep
      split_ifs at hstep <;> simp at hstep
  | resumeRelease task outcome =>
      simp only [step, resumeRelease] at hstep
      cases task <;> cases outcome <;> simp only at hstep <;> split_ifs at hstep <;>
        simp at hstep

/-- An id that `accept` hands out belongs to a connection that nobody closed. -/
theorem yielded_live (h : a.Inv) {e : AgentEvent} {b : Agent}
    (hstep : a.step e = some (b, .yielded id)) :
    ∃ t, (id, t) ∈ a.session.connections ∧ t ∈ a.live := by
  obtain ⟨c, hc, rfl⟩ := List.mem_map.mp (mem_ids_of_yielded hstep)
  exact ⟨c.2, hc, h.owned.opened c.2 (List.mem_map_of_mem hc)⟩

/-- An `accept` that awaits the queue of a released session is woken, and ends. -/
theorem accept_ends (h : a.Inv) (hreleased : a.Released) {task : AcceptTask}
    (htask : task ∈ a.accepts) : ∃ b, a.step (.resumeAccept task .done) = some (b, .returned) ∧
      b.accepts = [] := by
  have hclosed := h.registry.released hreleased.1 hreleased.2
  obtain ⟨haccepts, -⟩ := accepts_eq h htask
  have herase : a.accepts.erase task = [] := by
    rw [haccepts, List.erase_cons_head]
  cases task with
  | yielded =>
      refine ⟨({ a with accepts := [] } : Agent).endAccept, ?_, ?_⟩
      · rw [step, if_pos ⟨htask, fun _ h => by cases h⟩, resumeAccept, herase]
        simp only [acceptLoop, hclosed, if_true]
      · simp [endAccept, release, hreleased.2]
  | getting woken =>
      have hpending := h.streamed.closing hclosed woken htask
      have hwoken := h.streamed.awake woken htask (by simp [hpending])
      subst hwoken
      refine ⟨({ a with
        session := { a.session with pending := [] }
        accepts := [] } : Agent).endAccept, ?_, ?_⟩
      · rw [step, if_pos ⟨htask, fun _ h => by cases h⟩, resumeAccept, herase]
        simp only [hpending]
      · simp [endAccept, release, hreleased.2]

/-- No operation of the session is in progress. -/
structure Idle (a : Agent) : Prop where
  listens : a.listens = []
  connects : a.connects = []
  accepts : a.accepts = []
  closes : a.closes = []
  releases : a.releases = []

/-- What every run of a session keeps to: the two limits, ids of open connections only, and
after the release nothing that is left or that waits for ever. -/
theorem run_session {es : List AgentEvent} (hrun : Machine.run advance init es = some a) :
    a.session.connections.length + a.connects.length ≤ maxConnections ∧
    a.session.pending.length ≤ maxPending ∧
    (∀ e b id, a.step e = some (b, .yielded id) →
      ∃ t, (id, t) ∈ a.session.connections ∧ t ∈ a.live) ∧
    (a.Released →
      (a.Idle → a.live = [] ∧ a.listener ≠ .listening ∧ a.files = []) ∧
      (∀ fs b, Machine.run advance a fs = some b → b.Released ∧ b.session.connections = []) ∧
      a.step .accept = some (a, unknown) ∧
      ∀ task ∈ a.accepts, ∃ b, a.step (.resumeAccept task .done) = some (b, .returned) ∧
        b.accepts = []) := by
  have h := inv_run hrun
  have hconnects := h.counted.connects.length_eq
  rw [List.length_map] at hconnects
  refine ⟨hconnects ▸ h.counted.limit, h.counted.queue, fun e b id => yielded_live h,
    fun hreleased => ⟨fun hidle => nothing_left h hreleased hidle.listens hidle.releases,
      fun fs b hafter => ?_, ?_, fun task => accept_ends h hreleased⟩⟩
  · have hall : b.Inv ∧ b.Released := by
      refine Machine.run_always (fun a => a.Inv ∧ a.Released) (fun a e b hab hnext => ?_) hafter
        ⟨h, hreleased⟩
      obtain ⟨⟨c, r⟩, hstep, rfl⟩ := Option.map_eq_some_iff.mp hnext
      exact ⟨inv_step hab.1 hstep, released_step hab.2 hstep⟩
    refine ⟨hall.2, hall.1.registry.emptied ?_⟩
    exact hall.1.registry.released hall.2.1 hall.2.2
  · simp [step, accept, known_of_released hreleased]

/-- A session that is released while a connection is being opened. -/
def lateConnect : List AgentEvent :=
  [.start, .listen "x" .waits, .resumeListen .starting .done, .connected "in", .accept,
    .resumeAccept (.getting true) .done, .connect "/agent" "out", .release,
    .resumeConnect (.opening "out") .done, .resumeRelease (.gathering [0]) .done,
    .resumeConnect (.discarding "out") .done, .resumeRelease (.waiting [0]) .done,
    .resumeAccept .yielded .done]

/-- Its last state. -/
def lateConnectEnd : Agent where
  session := ⟨"/tmp/rmote-agent-x", "/tmp/rmote-agent-x/agent.sock", true, [], [none], [], false,
    true⟩
  started := true
  registered := false
  listener := .closed
  files := []
  live := []
  next := 2
  listens := []
  connects := []
  accepts := []
  closes := []
  releases := []

theorem run_session_lateConnect :
    Machine.run advance init lateConnect = some lateConnectEnd ∧ lateConnectEnd.Released ∧
    lateConnectEnd.live = [] ∧ lateConnectEnd.listener ≠ .listening ∧
    lateConnectEnd.files = [] := by
  have hrun : Machine.run advance init lateConnect = some lateConnectEnd := by decide
  have hreleased : lateConnectEnd.Released := ⟨rfl, rfl⟩
  obtain ⟨-, -, -, hafter⟩ := run_session hrun
  exact ⟨hrun, hreleased, (hafter hreleased).1 ⟨rfl, rfl, rfl, rfl, rfl⟩⟩

end Agent

end Rmote
