import Mathlib.Data.List.Nodup
import Rmote.Log.Handler

/-!
# Records travel once and in order

What was written, what is on the wire and what waits make up the records that were emitted,
in that order, without the ones that were given up: the batches of failed packets, and what
a closed connection or a closed loop dropped.
-/

namespace Rmote

namespace Log

/-- A segment that leaves a list without duplicates leaves the filter of that list. -/
theorem filter_remove {α : Type*} {before batch after l : List α} {p q : α → Bool}
    (hnodup : l.Nodup) (heq : before ++ batch ++ after = l.filter p)
    (hq : ∀ a ∈ l, q a = true ↔ p a = true ∧ a ∉ batch) : before ++ after = l.filter q := by
  classical
  have hparts : (before ++ batch ++ after).Nodup := heq ▸ hnodup.filter p
  obtain ⟨hfront, -, hfrontAfter⟩ := List.nodup_append'.mp hparts
  obtain ⟨-, -, hbeforeBatch⟩ := List.nodup_append'.mp hfront
  have hfilter : l.filter q = (l.filter p).filter fun a => decide (a ∉ batch) := by
    rw [List.filter_filter]
    refine List.filter_congr fun a ha => ?_
    rw [Bool.eq_iff_iff, hq a ha]
    simp [and_comm]
  have hbefore : before.filter (fun a => decide (a ∉ batch)) = before :=
    List.filter_eq_self.mpr fun a ha => by simpa using hbeforeBatch ha
  have hbatch : batch.filter (fun a => decide (a ∉ batch)) = [] :=
    List.filter_eq_nil_iff.mpr fun a ha => by simpa using ha
  have hafter : after.filter (fun a => decide (a ∉ batch)) = after :=
    List.filter_eq_self.mpr fun a ha => by
      simpa using fun hmem => hfrontAfter (List.mem_append_right _ hmem) ha
  rw [hfilter, ← heq, List.filter_append, List.filter_append, hbefore, hbatch, hafter,
    List.append_nil]

/-- What a step emits. -/
def Event.record : Event → Option (String × Option String)
  | .emit message traceback => some (message, traceback)
  | _ => none

namespace RemoteLogHandler

/-- The record was not given up. -/
def kept (h : RemoteLogHandler) (record : Record) : Bool :=
  decide (record ∉ h.reported ∧ record ∉ h.dropped)

/-- The batches on the wire. -/
def flying (h : RemoteLogHandler) : List Record := (h.carried ++ h.responses).flatten

/-- Every record that was emitted is written, on the wire, waiting or given up. -/
structure Ordered (h : RemoteLogHandler) : Prop where
  flight : h.Flight
  nodup : h.emitted.Nodup
  serials : ∀ record ∈ h.emitted, record.serial < h.emitted.length
  lost : ∀ record ∈ h.reported ++ h.dropped, record ∈ h.emitted
  account : h.wire ++ h.flying ++ h.pending = h.emitted.filter h.kept
  closing : h.dropped ≠ [] → h.closed = true ∨ h.loopClosed = true

/-- Everything that the order of the records depends on. -/
def history (h : RemoteLogHandler) :=
  (h.traffic, h.pending, h.emitted, h.wire, h.reported, h.dropped, h.loopClosed)

variable {h t : RemoteLogHandler}

theorem Ordered.of_history (hordered : h.Ordered) (heq : t.history = h.history) : t.Ordered := by
  cases h
  cases t
  cases heq
  exact ⟨hordered.flight.of_traffic rfl, hordered.nodup, hordered.serials, hordered.lost,
    hordered.account, hordered.closing⟩

/-- The records that wait are on the wire or written next. -/
theorem Ordered.mem_emitted (hordered : h.Ordered) {record : Record}
    (hmem : record ∈ h.wire ++ h.flying ++ h.pending) : record ∈ h.emitted := by
  rw [hordered.account] at hmem
  exact List.mem_of_mem_filter hmem

theorem Ordered.clear (hordered : h.Ordered) (hclosed : h.closed = true ∨ h.loopClosed = true) :
    h.clear.Ordered := by
  refine ⟨hordered.flight.of_traffic rfl, hordered.nodup, hordered.serials, ?_, ?_, fun _ => hclosed⟩
  · intro record hmem
    rw [RemoteLogHandler.clear, ← List.append_assoc] at hmem
    rcases List.mem_append.mp hmem with hmem | hmem
    · exact hordered.lost record hmem
    · exact hordered.mem_emitted (List.mem_append_right _ hmem)
  · have haccount := hordered.account
    rw [← List.append_nil (h.wire ++ h.flying ++ h.pending)] at haccount
    refine filter_remove hordered.nodup haccount fun record _ => ?_
    simp [kept, RemoteLogHandler.clear]
    tauto

theorem Ordered.start (hordered : h.Ordered) : h.start.Ordered := by
  unfold RemoteLogHandler.start
  split_ifs with hclosed
  · exact hordered.clear (.inl hclosed)
  · exact hordered
  · exact hordered.of_history rfl
  · exact hordered.of_history rfl

theorem Ordered.append (hordered : h.Ordered) (message : String) (traceback : Option String) :
    (h.append message traceback).Ordered := by
  have hfresh : (⟨h.emitted.length, message, traceback⟩ : Record) ∉ h.emitted := by
    intro hmem
    exact absurd (hordered.serials _ hmem) (Nat.lt_irrefl _)
  have hkept : h.kept ⟨h.emitted.length, message, traceback⟩ = true := by
    refine decide_eq_true ⟨fun hmem => hfresh ?_, fun hmem => hfresh ?_⟩
    · exact hordered.lost _ (List.mem_append_left _ hmem)
    · exact hordered.lost _ (List.mem_append_right _ hmem)
  refine ⟨hordered.flight.of_traffic rfl, ?_, ?_, ?_, ?_, hordered.closing⟩
  · refine List.nodup_append'.mpr ⟨hordered.nodup, List.nodup_singleton _, ?_⟩
    exact List.disjoint_singleton.mpr hfresh
  · intro record hmem
    rw [RemoteLogHandler.append, List.length_append, List.length_singleton]
    rcases List.mem_append.mp hmem with hmem | hmem
    · exact Nat.lt_succ_of_lt (hordered.serials record hmem)
    · rw [List.mem_singleton.mp hmem]
      exact Nat.lt_succ_self _
  · exact fun record hmem => List.mem_append_left _ (hordered.lost record hmem)
  · have haccount := hordered.account
    have hfilter : (h.append message traceback).emitted.filter h.kept =
        h.emitted.filter h.kept ++ [⟨h.emitted.length, message, traceback⟩] := by
      rw [RemoteLogHandler.append]
      rw [List.filter_append, List.filter_cons_of_pos hkept, List.filter_nil]
    refine Eq.trans ?_ hfilter.symm
    rw [← haccount, List.append_assoc _ h.pending]
    rfl

theorem Ordered.emit (hordered : h.Ordered) (message : String) (traceback : Option String) :
    (h.emit message traceback).Ordered := by
  have happend := hordered.append message traceback
  unfold RemoteLogHandler.emit schedule
  split_ifs with hdraining hloop
  · exact happend
  · exact happend.clear (.inr hloop)
  · exact happend.of_history rfl

theorem flying_carried {batch : List Record} (hcarried : h.carried = [batch])
    (hresponses : h.responses = []) : h.flying = batch := by
  rw [flying, hcarried, hresponses]
  simp

theorem flying_responses {batch : List Record} (hcarried : h.carried = [])
    (hresponses : h.responses = [batch]) : h.flying = batch := by
  rw [flying, hcarried, hresponses]
  simp

theorem flying_free (hcarried : h.carried = []) (hresponses : h.responses = []) :
    h.flying = [] := by
  rw [flying, hcarried, hresponses]
  rfl

/-- Records move on, and keep their order. -/
theorem Ordered.moved (hordered : h.Ordered) (hflight : t.Flight) {batch batch' : List Record}
    (hflying : h.flying = batch) (hflying' : t.flying = batch')
    (hsame : t.wire ++ batch' ++ t.pending = h.wire ++ batch ++ h.pending)
    (hrest : (t.emitted, t.reported, t.dropped, t.closed, t.loopClosed) =
      (h.emitted, h.reported, h.dropped, h.closed, h.loopClosed)) : t.Ordered := by
  simp only [Prod.mk.injEq] at hrest
  obtain ⟨hemitted, hreported, hdropped, hclosed, hloop⟩ := hrest
  have hkept : t.kept = h.kept := by
    funext record
    rw [kept, kept, hreported, hdropped]
  refine ⟨hflight, ?_, ?_, ?_, ?_, ?_⟩
  · rw [hemitted]
    exact hordered.nodup
  · rw [hemitted]
    exact hordered.serials
  · rw [hemitted, hreported, hdropped]
    exact hordered.lost
  · rw [hflying', hsame, hemitted, hkept, ← hflying]
    exact hordered.account
  · rw [hdropped, hclosed, hloop]
    exact hordered.closing

theorem Ordered.resume {batch : List Record} (hordered : Ordered { h with
      sending := false, pending := batch ++ h.pending }) : (h.resume batch).Ordered := by
  unfold RemoteLogHandler.resume
  split_ifs
  · exact hordered.of_history rfl
  · exact hordered
  · exact Ordered.start (hordered.of_history rfl)

/-- A batch leaves the wire and is given up. -/
theorem Ordered.giveUp (hordered : h.Ordered) (hflight : t.Flight) {batch : List Record}
    (hflying : h.flying = batch) (hnone : t.flying = []) (hpending : t.pending = h.pending)
    (hwire : t.wire = h.wire) (hemitted : t.emitted = h.emitted)
    (hlost : ∀ record, record ∈ t.reported ++ t.dropped ↔
      record ∈ h.reported ++ h.dropped ∨ record ∈ batch)
    (hclosing : t.dropped ≠ [] → t.closed = true ∨ t.loopClosed = true) : t.Ordered := by
  refine ⟨hflight, ?_, ?_, ?_, ?_, hclosing⟩
  · rw [hemitted]
    exact hordered.nodup
  · rw [hemitted]
    exact hordered.serials
  · intro record hmem
    rw [hemitted]
    rcases (hlost record).mp hmem with hmem | hmem
    · exact hordered.lost record hmem
    · refine hordered.mem_emitted (List.mem_append_left _ (List.mem_append_right _ ?_))
      rw [hflying]
      exact hmem
  · have haccount := hordered.account
    rw [hflying] at haccount
    rw [hwire, hnone, hpending, hemitted, List.append_nil]
    refine filter_remove hordered.nodup haccount fun record _ => ?_
    have hiff := hlost record
    simp only [List.mem_append] at hiff
    simp only [kept, decide_eq_true_eq]
    tauto

theorem Ordered.drain (hordered : h.Ordered) : h.drain.Ordered := by
  have hflight := hordered.flight.drain
  unfold RemoteLogHandler.drain at hflight ⊢
  split_ifs at hflight ⊢ with hstop
  · exact hordered.of_history rfl
  · obtain ⟨hcarried, hresponses⟩ := hordered.flight.free (by simpa using (not_or.mp hstop).1)
    refine hordered.moved hflight (flying_free hcarried hresponses)
      (flying_carried (by rw [hcarried]; rfl) hresponses) ?_ rfl
    simp

theorem Ordered.detach (hordered : h.Ordered) : h.detach.Ordered := by
  have hflight := hordered.flight.detach
  unfold RemoteLogHandler.detach at hflight ⊢
  split_ifs at hflight ⊢ with hkeep hheavy
  · exact hordered
  · exact hordered
  · obtain ⟨hcarried, hresponses⟩ := hordered.flight.free (by simpa using (not_or.mp hkeep).1)
    refine hordered.moved hflight (flying_free hcarried hresponses)
      (flying_responses hcarried (by rw [hresponses]; rfl)) ?_ rfl
    simp

theorem Ordered.step (hordered : h.Ordered) {event : Event} (hstep : h.step event = some t) :
    t.Ordered := by
  have hflight := hordered.flight.step hstep
  cases step_moves hstep with
  | emit message traceback => exact hordered.emit message traceback
  | start _ _ => exact Ordered.start (hordered.of_history rfl)
  | timer _ _ => exact hordered.of_history rfl
  | orphan _ _ => exact hordered.of_history rfl
  | drain _ _ => exact hordered.drain
  | drainSent _ hbatch =>
      obtain ⟨hcarried, hresponses, hrest⟩ := hordered.flight.carried_eq hbatch
      refine hordered.moved hflight (flying_carried hcarried hresponses)
        (flying_free hrest hresponses) ?_ rfl
      simp [RemoteLogHandler.drainSent]
  | drainFailed _ hbatch =>
      obtain ⟨hcarried, hresponses, hrest⟩ := hordered.flight.carried_eq hbatch
      refine hordered.giveUp hflight (flying_carried hcarried hresponses) (flying_free hrest hresponses)
        rfl rfl rfl (fun record => ?_) hordered.closing
      simp only [RemoteLogHandler.drainFailed, List.mem_append]
      tauto
  | detach _ _ => exact hordered.detach
  | sent _ hbatch =>
      obtain ⟨hresponses, hcarried, hrest⟩ := hordered.flight.responses_eq hbatch
      refine Ordered.resume (hordered.moved (flight_free h.closed ?_)
        (flying_responses hcarried hresponses) (flying_free hcarried hrest) ?_ rfl)
      · simp [traffic, hrest, hcarried]
      · simp
  | restore _ hbatch =>
      obtain ⟨hresponses, hcarried, hrest⟩ := hordered.flight.responses_eq hbatch
      refine Ordered.resume (hordered.moved (flight_free h.closed ?_)
        (flying_responses hcarried hresponses) (flying_free hcarried hrest) ?_ rfl)
      · simp [traffic, hrest, hcarried]
      · simp
  | owe _ _ => exact hordered.of_history rfl
  | paid _ _ => exact hordered.of_history rfl
  | enter _ _ =>
      unfold RemoteLogHandler.enter
      split_ifs
      · exact hordered.of_history rfl
      · exact Ordered.start (hordered.of_history rfl)
  | close _ =>
      exact ⟨hflight, hordered.nodup, hordered.serials, hordered.lost, hordered.account,
        fun _ => .inl rfl⟩
  | closeLoop _ =>
      exact ⟨hflight, hordered.nodup, hordered.serials, hordered.lost, hordered.account,
        fun _ => .inr rfl⟩
  | cancelDrain _ _ _ => exact hordered.of_history rfl
  | cancelCarried _ hclosed hbatch =>
      obtain ⟨hcarried, hresponses, hrest⟩ := hordered.flight.carried_eq hbatch
      refine hordered.giveUp hflight (flying_carried hcarried hresponses) (flying_free hrest hresponses)
        rfl rfl rfl (fun record => ?_) fun _ => .inl hclosed
      simp only [List.mem_append]
      tauto
  | cancelResponse _ hclosed hbatch =>
      obtain ⟨hresponses, hcarried, hrest⟩ := hordered.flight.responses_eq hbatch
      refine hordered.giveUp hflight (flying_responses hcarried hresponses) (flying_free hcarried hrest)
        rfl rfl rfl (fun record => ?_) fun _ => .inl hclosed
      simp only [List.mem_append]
      tauto

/-! ## Runs -/

theorem ordered_new (paused : Bool) : (new paused).Ordered :=
  ⟨flight_new paused, List.nodup_nil, nofun, nofun, rfl, nofun⟩

@[simp] theorem emitted_start (h : RemoteLogHandler) : h.start.emitted = h.emitted := by
  unfold start
  split_ifs <;> rfl

@[simp] theorem emitted_resume (h : RemoteLogHandler) (batch : List Record) :
    (h.resume batch).emitted = h.emitted := by
  unfold resume
  split_ifs
  · rfl
  · rfl
  · rw [emitted_start]

/-- Only `emit` adds a record. -/
theorem emitted_step {event : Event} (hstep : h.step event = some t) :
    t.emitted.map (fun record => (record.message, record.traceback)) =
      h.emitted.map (fun record => (record.message, record.traceback)) ++
        (Event.record event).toList := by
  cases step_moves hstep with
  | emit message traceback =>
      have hemitted : (h.emit message traceback).emitted =
          h.emitted ++ [⟨h.emitted.length, message, traceback⟩] := by
        unfold RemoteLogHandler.emit schedule
        split_ifs <;> rfl
      rw [hemitted, List.map_append]
      rfl
  | start _ _ => simp [Event.record]
  | drain _ _ =>
      unfold RemoteLogHandler.drain
      split_ifs <;> simp [Event.record]
  | detach _ _ =>
      unfold RemoteLogHandler.detach
      split_ifs <;> simp [Event.record]
  | sent _ _ => simp [Event.record, RemoteLogHandler.sent]
  | restore _ _ => simp [Event.record, RemoteLogHandler.restore]
  | enter _ _ =>
      unfold RemoteLogHandler.enter
      split_ifs <;> simp [Event.record]
  | _ => exact (List.append_nil _).symm

theorem emitted_run {events : List Event} (hrun : Machine.run step h events = some t) :
    t.emitted.map (fun record => (record.message, record.traceback)) =
      h.emitted.map (fun record => (record.message, record.traceback)) ++
        events.filterMap Event.record := by
  induction events generalizing h with
  | nil =>
      cases hrun
      simp
  | cons event events ih =>
      obtain ⟨u, hstep, hrest⟩ := Machine.run_cons_eq_some.mp hrun
      rw [ih hrest, emitted_step hstep, List.append_assoc]
      cases hrecord : Event.record event with
      | none => simp [hrecord]
      | some record => simp [hrecord]

/-- At most one batch is on the wire, and what was written, what is on the wire and what waits
are the emitted records in their order, without those that were given up. -/
theorem records_in_order (paused : Bool) {events : List Event} {h : RemoteLogHandler}
    (hrun : Machine.run step (new paused) events = some h) :
    h.carried.length + h.responses.length ≤ 1 ∧
    h.emitted.map (fun record => (record.message, record.traceback)) =
      events.filterMap Event.record ∧
    h.emitted.Nodup ∧
    h.wire ++ (h.carried ++ h.responses).flatten ++ h.pending =
      h.emitted.filter (fun record => decide (record ∉ h.reported ∧ record ∉ h.dropped)) ∧
    (h.dropped ≠ [] → h.closed = true ∨ h.loopClosed = true) := by
  have hordered : h.Ordered := Machine.run_always Ordered
    (fun _ _ _ hordered hstep => hordered.step hstep) hrun (ordered_new paused)
  exact ⟨hordered.flight.one, emitted_run hrun, hordered.nodup, hordered.account, hordered.closing⟩

/-- A response that could not be serialized gives its record back, and a packet carries it
with the next one. -/
def givenBack : List Event :=
  [.enter, .owe, .emit "first" none, .start, .detach, .emit "second" none, .restore 0, .detach,
    .sent 0]

theorem givenBack_in_order :
    ∃ h, Machine.run step (new true) givenBack = some h ∧
      h.wire.map Record.message = ["first", "second"] ∧
      h.wire ++ (h.carried ++ h.responses).flatten ++ h.pending =
        h.emitted.filter (fun record => decide (record ∉ h.reported ∧ record ∉ h.dropped)) := by
  obtain ⟨h, hrun⟩ : ∃ h, Machine.run step (new true) givenBack = some h := ⟨_, rfl⟩
  obtain ⟨-, -, -, haccount, -⟩ := records_in_order true hrun
  refine ⟨h, hrun, ?_, haccount⟩
  cases hrun
  rfl

end RemoteLogHandler

end Log

end Rmote
