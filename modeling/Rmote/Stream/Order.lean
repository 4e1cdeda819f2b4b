import Rmote.Stream.Ledger

/-!
# The end of a stream comes last

Everything that the consumer will take stands in one line: its queue, the task that
hands it the ordinary response, and the wire. As long as the consumer takes every
packet, only packets of items stand before the end of the stream, and the end is in
the line only after the writer has sent all that gathered. The items in the line,
with those that the writer still has to send, are the ones that the user did not
get yet, in their order.
-/

namespace Rmote

/-- The items of a packet that the consumer has not handed out. -/
def ConsumerPhase.rest : ConsumerPhase → List Bytes
  | .yielding rest _ _ => rest
  | _ => []

/-- The items of an entry; the end of the stream has none. -/
def Entry.frames (e : Entry) : List Bytes :=
  if e.flags.has Flags.stream then e.items else []

/-- The items that the writer sends. -/
def WriterPhase.frames : WriterPhase → List Bytes
  | .writing frames _ => frames
  | _ => []

namespace Session

variable {P : Pickle} {s s' : Session} {e : SessionEvent}

/-- What the consumer will take, in its order. -/
def line (s : Session) : List Flags :=
  s.consumer.queue.map Entry.flags ++
    (s.responding.toList.map fun _ => Flags.rpc ||| Flags.response) ++ s.forward.map Forward.flags

/-- The items that the user has not got. -/
def pending (P : Pickle) (s : Session) : List Bytes :=
  s.consumer.phase.rest ++ s.consumer.queue.flatMap Entry.frames ++
    s.forward.flatMap (Forward.items P) ++ s.writer.frames ++ s.buffer.frames

/-- The end of the sending side. -/
structure Closing (s : Session) : Prop where
  buffer : s.buffer.done = !s.registered
  writer : s.writer = .returned → s.buffer.done = true ∧ s.buffer.frames = []
  response : ∀ outcome, s.phase = .done outcome → s.writer = .returned
  produced : s.credit.released = false → s.phase = .produce ∨ s.phase = .finishing .returned ∨
    s.phase = .done .returned → s.produced = s.pushed
  spending : ∀ item, s.phase = .spending item → s.produced = s.pushed ++ [item]

theorem closing_init (packetId : ℕ) : Closing (init packetId) where
  buffer := rfl
  writer h := nomatch h
  response _ h := nomatch h
  produced _ _ := rfl
  spending _ h := nomatch h

/-- The writer outlives the body of the handler. -/
theorem Closing.running (h : s.Closing) (hregistered : s.registered = true) :
    s.writer ≠ .returned ∧ s.buffer.done = false := by
  have hdone : s.buffer.done = false := by rw [h.buffer, hregistered]; rfl
  refine ⟨fun hwriter => ?_, hdone⟩
  rw [(h.writer hwriter).1] at hdone
  cases hdone

theorem closing_finish (hwriter : s.writer ≠ .returned) (outcome : Outcome)
    (hproduced : outcome = .returned → s.credit.released = false → s.produced = s.pushed) :
    (s.finish outcome).Closing where
  buffer := rfl
  writer hw := absurd hw hwriter
  response _ hphase := nomatch hphase
  produced hreleased hphase := by
    rcases hphase with hphase | hphase | hphase
    · cases hphase
    · cases hphase
      exact hproduced rfl hreleased
    · cases hphase
  spending _ hphase := nomatch hphase

theorem closing_spend (hwriter : s.writer ≠ .returned) (hdone : s.buffer.done = false)
    {item : Item} (hproduced : s.credit.released = false → s.produced = s.pushed ++ [item]) :
    (s.spend item).Closing := by
  rcases s.spend_cases item with ⟨hreleased, hspend⟩ | ⟨hreleased, -, hspend⟩ |
    ⟨hreleased, -, hspend⟩
  · rw [hspend]
    refine closing_finish hwriter _ fun _ hrel => ?_
    rw [hreleased] at hrel
    cases hrel
  · rw [hspend]
    exact ⟨hdone, fun hw => absurd hw hwriter, nofun, fun _ _ => hproduced hreleased, nofun⟩
  · rw [hspend]
    refine ⟨hdone, fun hw => absurd hw hwriter, nofun, nofun, ?_⟩
    intro i hi
    cases hi
    exact hproduced hreleased

theorem Closing.afterWrite (h : s.Closing) (hwriter : s.writer ≠ .returned) :
    s.afterWrite.Closing := by
  refine ⟨h.buffer, ?_, fun o ho => absurd (h.response o ho) hwriter, h.produced, h.spending⟩
  intro hw
  simp only [Session.afterWrite] at hw ⊢
  split_ifs at hw with hdone
  obtain ⟨hdone, hframes⟩ := Bool.and_eq_true_iff.mp hdone
  exact ⟨hdone, by simpa using hframes⟩

/-- The step changes neither the handler nor its buffer. -/
theorem Closing.of_eq (h : s.Closing) (hphase : s'.phase = s.phase) (hbuffer : s'.buffer = s.buffer)
    (hwriter : s'.writer = s.writer)
    (hreleased : s'.credit.released = false → s.credit.released = false)
    (hproduced : s'.produced = s.produced) (hpushed : s'.pushed = s.pushed) : s'.Closing := by
  constructor
  · rw [hbuffer, registered, hphase]
    exact h.buffer
  · rw [hbuffer, hwriter]
    exact h.writer
  · rw [hphase, hwriter]
    exact h.response
  · rw [hphase, hproduced, hpushed]
    exact fun hrel => h.produced (hreleased hrel)
  · rw [hphase, hproduced, hpushed]
    exact h.spending

/-- The receive loop of the consumer touches nothing else. -/
theorem receive_eq (P : Pickle) (s : Session) (m : Forward) :
    ∃ c responding, s.receive P m = { s with consumer := c, responding := responding } := by
  unfold receive
  split
  · exact ⟨_, _, rfl⟩
  · simp only
    split_ifs
    · exact ⟨_, _, rfl⟩
    · exact ⟨_, _, rfl⟩
    · exact ⟨_, _, rfl⟩

/-- The receive loop of the sender touches its credit alone. -/
theorem handleStreamCredit_eq (s : Session) (message : Back) :
    ∃ credit cancelling, s.handleStreamCredit message =
        { s with credit := credit, cancelling := cancelling } ∧
      (credit.released = false → s.credit.released = false) := by
  unfold handleStreamCredit
  split
  · exact ⟨_, _, rfl, nofun⟩
  · split
    · rename_i credit hcredit
      obtain ⟨hbytes, hitems⟩ := StreamCredit.le_of_giveBack hcredit
      rw [StreamCredit.giveBack_of_le hbytes hitems] at hcredit
      obtain rfl := Except.ok.inj hcredit
      exact ⟨_, _, rfl, id⟩
    · exact ⟨_, _, rfl, nofun⟩

theorem Closing.step (h : s.Closing) (hstep : s.step P e = some s') : s'.Closing := by
  cases step_spec hstep with
  | tooLarge item hphase _ =>
      exact closing_finish (s := { s with produced := s.produced ++ [item] })
        (h.running (by simp [registered, hphase])).1 _ (by simp)
  | produce item hphase _ =>
      obtain ⟨hwriter, hdone⟩ := h.running (by simp [registered, hphase])
      refine closing_spend (s := { s with produced := s.produced ++ [item] }) hwriter hdone ?_
      exact fun hrel => congrArg (· ++ [item]) (h.produced hrel (.inl hphase))
  | resume item hphase _ =>
      obtain ⟨hwriter, hdone⟩ := h.running (by simp [registered, hphase])
      exact closing_spend hwriter hdone fun _ => h.spending item hphase
  | exhaust hphase =>
      exact closing_finish (h.running (by simp [registered, hphase])).1 _
        fun _ hrel => h.produced hrel (.inl hphase)
  | raise text hphase => exact closing_finish (h.running (by simp [registered, hphase])).1 _ (by simp)
  | unwind hregistered _ => exact closing_finish (h.running hregistered).1 _ (by simp)
  | flush hwriter _ =>
      unfold Session.flush
      split_ifs with hframes
      · refine Closing.afterWrite ⟨h.buffer, ?_, h.response, h.produced, h.spending⟩ ?_
        · intro hw
          rw [hwriter] at hw
          cases hw
        · simp [hwriter]
      · refine ⟨h.buffer, by simp, ?_, h.produced, h.spending⟩
        intro o ho
        have hw := h.response o ho
        rw [hwriter] at hw
        cases hw
  | sent frames sources hwriter =>
      refine Closing.afterWrite (h.of_eq rfl rfl rfl id rfl rfl) ?_
      simp [hwriter]
  | response payload hphase hwriter =>
      refine ⟨?_, h.writer, fun _ _ => hwriter, ?_, by simp⟩
      · have hbuffer := h.buffer
        rw [registered, hphase] at hbuffer
        exact hbuffer
      · exact fun hrel _ => h.produced hrel (.inr (.inl hphase))
  | failure payload text hphase hwriter =>
      refine ⟨?_, h.writer, fun _ _ => hwriter, ?_, by simp⟩
      · have hbuffer := h.buffer
        rw [registered, hphase] at hbuffer
        exact hbuffer
      · rintro - (hphase | hphase | hphase) <;> cases hphase
  | silent payload hphase hwriter =>
      refine ⟨?_, h.writer, fun _ _ => hwriter, ?_, by simp⟩
      · have hbuffer := h.buffer
        rw [registered, hphase] at hbuffer
        exact hbuffer
      · rintro - (hphase | hphase | hphase) <;> cases hphase
  | credit message back _ _ =>
      obtain ⟨credit, cancelling, heq, hrel⟩ :=
        handleStreamCredit_eq { s with back := back } message
      rw [heq]
      exact h.of_eq rfl rfl rfl hrel rfl rfl
  | creditLate message back _ _ => exact h.of_eq rfl rfl rfl id rfl rfl
  | start _ => exact h.of_eq rfl rfl rfl id rfl rfl
  | arrive message forward _ =>
      obtain ⟨c, responding, heq⟩ := receive_eq P { s with forward := forward } message
      rw [heq]
      exact h.of_eq rfl rfl rfl id rfl rfl
  | deliverEnd payload _ => exact h.of_eq rfl rfl rfl id rfl rfl
  | get c _ => exact h.of_eq rfl rfl rfl id rfl rfl
  | next c _ => exact h.of_eq rfl rfl rfl id rfl rfl
  | returned c _ => exact h.of_eq rfl rfl rfl id rfl rfl
  | leave c _ => exact h.of_eq rfl rfl rfl id rfl rfl
  | stopped c _ => exact h.of_eq rfl rfl rfl id rfl rfl

/-- The line of the consumer, and the items in it. -/
structure Ordered (P : Pickle) (s : Session) : Prop where
  kinds : s.consumer.intact = true → ∀ f ∈ s.line, f.has Flags.stream = true ∨
    ∃ outcome, s.phase = .done outcome ∧ (f.has Flags.exception = false → outcome = .returned)
  last : s.consumer.intact = true → s.line.Pairwise fun f _ => f.has Flags.stream = true
  contents : s.consumer.intact = true →
    s.pushed.map Item.payload = s.consumer.delivered ++ s.pending P
  complete : s.consumer.phase = .ended .complete ∨ s.consumer.phase = .stopping .complete →
    s.phase = .done .returned ∧ s.consumer.delivered = s.pushed.map Item.payload

theorem ordered_init (packetId : ℕ) : Ordered P (init packetId) where
  kinds _ _ hf := nomatch hf
  last _ := .nil
  contents _ := rfl
  complete h := by rcases h with h | h <;> cases h

/-- A step that moves neither the line nor the items. -/
theorem Ordered.of_eq (h : Ordered P s) (hconsumer : s'.consumer = s.consumer)
    (hline : s'.line = s.line) (hpending : s'.pending P = s.pending P)
    (hpushed : s'.pushed = s.pushed)
    (hphase : ∀ outcome, s.phase = .done outcome → s'.phase = .done outcome) : Ordered P s' := by
  constructor
  · rw [hconsumer, hline]
    intro hintact f hf
    rcases h.kinds hintact f hf with hstream | ⟨outcome, hdone, hflags⟩
    · exact .inl hstream
    · exact .inr ⟨outcome, hphase outcome hdone, hflags⟩
  · rw [hconsumer, hline]
    exact h.last
  · rw [hconsumer, hpushed, hpending]
    exact h.contents
  · rw [hconsumer, hpushed]
    exact fun hcomplete => ⟨hphase _ (h.complete hcomplete).1, (h.complete hcomplete).2⟩

theorem not_done_of_registered (h : s.registered = true) (outcome : Outcome) :
    s.phase ≠ .done outcome := by
  intro hphase
  simp [registered, hphase] at h

theorem Ordered.finish (h : Ordered P s) (hregistered : s.registered = true) (outcome : Outcome) :
    Ordered P (s.finish outcome) :=
  h.of_eq rfl rfl rfl rfl fun o ho => absurd ho (not_done_of_registered hregistered o)

theorem Ordered.spend (h : Ordered P s) (hregistered : s.registered = true) (item : Item) :
    Ordered P (s.spend item) := by
  have hnot := not_done_of_registered hregistered
  rcases s.spend_cases item with ⟨-, hspend⟩ | ⟨-, -, hspend⟩ | ⟨-, -, hspend⟩
  · rw [hspend]
    exact h.finish hregistered _
  · rw [hspend]
    constructor
    · intro hintact f hf
      rcases h.kinds hintact f hf with hstream | ⟨outcome, hdone, -⟩
      · exact .inl hstream
      · exact absurd hdone (hnot outcome)
    · exact h.last
    · intro hintact
      have hcontents := h.contents hintact
      simp only [pending, StreamBuffer.push, List.map_append, List.map_cons, List.map_nil,
        ← List.append_assoc] at hcontents ⊢
      rw [hcontents]
    · exact fun hcomplete => absurd (h.complete hcomplete).1 (hnot _)
  · rw [hspend]
    exact h.of_eq rfl rfl rfl rfl fun o ho => absurd ho (hnot o)

@[simp] theorem frames_afterWrite (s : Session) : s.afterWrite.writer.frames = [] := by
  unfold afterWrite
  split_ifs <;> rfl

theorem Ordered.flush (h : Ordered P s) (hwriter : s.writer = .waiting) : Ordered P s.flush := by
  unfold Session.flush
  split_ifs with hframes
  · have hempty : s.buffer.frames = [] := by simpa using hframes
    refine h.of_eq rfl rfl ?_ rfl fun _ ho => ho
    rw [pending, pending, frames_afterWrite, hwriter, hempty]
    rfl
  · refine h.of_eq rfl rfl ?_ rfl fun _ ho => ho
    rw [pending, pending, hwriter]
    simp [WriterPhase.frames]

/-- One more packet goes on the wire while the handler runs. -/
theorem Ordered.append_forward (h : Ordered P s) (hnot : ∀ outcome, s.phase ≠ .done outcome)
    {m : Forward} (hforward : s'.forward = s.forward ++ [m]) (hconsumer : s'.consumer = s.consumer)
    (hresponding : s'.responding = s.responding) (hpushed : s'.pushed = s.pushed)
    (hpending : s'.pending P = s.pending P)
    (hkind : m.flags.has Flags.stream = true ∨ ∃ outcome, s'.phase = .done outcome ∧
      (m.flags.has Flags.exception = false → outcome = .returned)) : Ordered P s' := by
  have hstreams : s.consumer.intact = true → ∀ f ∈ s.line, f.has Flags.stream = true := by
    intro hintact f hf
    rcases h.kinds hintact f hf with hstream | ⟨outcome, hdone, -⟩
    · exact hstream
    · exact absurd hdone (hnot outcome)
  have hline : s'.line = s.line ++ [m.flags] := by
    simp [line, hforward, hconsumer, hresponding]
  constructor
  · intro hintact f hf
    rw [hconsumer] at hintact
    rw [hline] at hf
    rcases List.mem_append.mp hf with hf | hf
    · exact .inl (hstreams hintact f hf)
    · rw [List.mem_singleton.mp hf]
      exact hkind
  · intro hintact
    rw [hconsumer] at hintact
    rw [hline, List.pairwise_append]
    exact ⟨h.last hintact, List.pairwise_singleton .., fun f hf _ _ => hstreams hintact f hf⟩
  · rw [hconsumer, hpushed, hpending]
    exact h.contents
  · rw [hconsumer]
    exact fun hcomplete => absurd (h.complete hcomplete).1 (hnot _)

/-- A step in which the line may only lose entries, and the items keep their order. -/
theorem Ordered.move (h : Ordered P s) (hphase : s'.phase = s.phase)
    (hpushed : s'.pushed = s.pushed)
    (hline : s'.consumer.intact = true → s.consumer.intact = true ∧ s'.line.Sublist s.line ∧
      s'.consumer.delivered ++ s'.pending P = s.consumer.delivered ++ s.pending P)
    (hcomplete : s'.consumer.phase = .ended .complete ∨ s'.consumer.phase = .stopping .complete →
      (s.consumer.phase = .ended .complete ∨ s.consumer.phase = .stopping .complete) ∧
        s'.consumer.delivered = s.consumer.delivered) : Ordered P s' := by
  constructor
  · intro hintact f hf
    obtain ⟨hbefore, hsub, -⟩ := hline hintact
    rw [hphase]
    exact h.kinds hbefore f (hsub.subset hf)
  · intro hintact
    obtain ⟨hbefore, hsub, -⟩ := hline hintact
    exact (h.last hbefore).sublist hsub
  · intro hintact
    obtain ⟨hbefore, -, hitems⟩ := hline hintact
    rw [hpushed, hitems]
    exact h.contents hbefore
  · intro hend
    obtain ⟨hbefore, hdelivered⟩ := hcomplete hend
    rw [hphase, hdelivered, hpushed]
    exact h.complete hbefore

/-- The response is handed over only when nothing follows it on the wire. -/
theorem Ordered.responding_none (h : Ordered P s) (hintact : s.consumer.intact = true)
    {m : Forward} {forward : List Forward} (hforward : s.forward = m :: forward) :
    s.responding = none := by
  have hflags : (Flags.rpc ||| Flags.response).has Flags.stream = false := by decide
  cases hresponding : s.responding with
  | none => rfl
  | some payload =>
      have hlast := h.last hintact
      rw [line, hresponding, hforward, List.append_assoc] at hlast
      have hpair := (List.pairwise_append.mp hlast).2.1
      have hstream := (List.pairwise_cons.mp hpair).1 m.flags (by simp)
      rw [hflags] at hstream
      cases hstream

theorem intact_putEnd (c : Consumer) (flags : Flags) (payload : Decoded Bytes) :
    (c.putEnd flags payload).intact = c.intact := by
  unfold Consumer.putEnd
  split_ifs <;> rfl

theorem delivered_putEnd (c : Consumer) (flags : Flags) (payload : Decoded Bytes) :
    (c.putEnd flags payload).delivered = c.delivered := by
  unfold Consumer.putEnd
  split_ifs <;> rfl

theorem queue_putEnd (c : Consumer) {flags : Flags} (payload : Decoded Bytes)
    (hflags : flags.has Flags.stream = false) :
    ((c.putEnd flags payload).queue.map Entry.flags).Sublist (c.queue.map Entry.flags ++ [flags]) ∧
      (c.putEnd flags payload).queue.flatMap Entry.frames = c.queue.flatMap Entry.frames := by
  unfold Consumer.putEnd
  split_ifs
  · simp [Entry.frames, hflags]
  · exact ⟨List.sublist_append_left _ _, rfl⟩

/-- The end of the stream moves from the wire, or from its task, to the queue. -/
theorem Ordered.putEnd (h : Ordered P s) {flags : Flags} (payload : Decoded Bytes)
    (hflags : flags.has Flags.stream = false) {forward : List Forward}
    {responding : Option (Decoded Bytes)}
    (hline : s.consumer.intact = true → s.line = s.consumer.queue.map Entry.flags ++ [flags] ++
      (responding.toList.map fun _ => Flags.rpc ||| Flags.response) ++ forward.map Forward.flags)
    (hitems : forward.flatMap (Forward.items P) = s.forward.flatMap (Forward.items P)) :
    Ordered P { s with
      forward := forward
      responding := responding
      consumer := s.consumer.putEnd flags payload } := by
  obtain ⟨hsub, hframes⟩ := queue_putEnd s.consumer payload hflags
  refine h.move rfl rfl ?_ ?_
  · intro hintact
    rw [intact_putEnd] at hintact
    refine ⟨hintact, ?_, ?_⟩
    · rw [hline hintact]
      exact (hsub.append_right _).append_right _
    · simp only [pending, Consumer.phase_putEnd, delivered_putEnd, hframes, hitems]
  · intro hend
    simp only [Consumer.phase_putEnd] at hend
    exact ⟨hend, delivered_putEnd ..⟩

theorem Ordered.arrive_items (h : Ordered P s) {forward : List Forward} {frames : List Bytes}
    {sources : Manifest} (hlen : ∀ f ∈ frames, f.length ≤ maxStreamItem)
    (hforward : s.forward = ⟨streamFlags sources, streamPayload P frames sources⟩ :: forward) :
    Ordered P { s with
      forward := forward
      consumer := (s.consumer.handleStreamItem s.packetId (streamFlags sources) (.items frames)
        (streamPayload P frames sources).length) } := by
  unfold Consumer.handleStreamItem
  split_ifs with hdrop hexceeds
  · refine h.move rfl rfl (fun hintact => ?_) fun hend => ⟨hend, rfl⟩
    simp only [Consumer.intact, Bool.and_eq_true, Bool.not_eq_true'] at hintact
    simp [hintact.1, hintact.2] at hdrop
  · refine h.move rfl rfl (fun hintact => ?_) fun hend => ⟨hend, rfl⟩
    simp [Consumer.intact] at hintact
  · refine h.move rfl rfl (fun hintact => ⟨hintact, ?_, ?_⟩) fun hend => ⟨hend, rfl⟩
    · have hnone := h.responding_none hintact hforward
      simp [line, hnone, hforward]
    · simp [pending, hforward, Forward.items_streamPayload P sources hlen, Entry.frames,
        Entry.items]

theorem items_of_not_batch (P : Pickle) (flags : Flags) (payload : Bytes)
    (hbatch : flags.has Flags.batch = false) (hmodules : flags.has Flags.modules = false) :
    Forward.items P ⟨flags, payload⟩ = [] := by
  simp [Forward.items, decodePayload, openEnvelope, hbatch, hmodules, Except.map]

theorem Ordered.arrive (h : Ordered P s) {m : Forward} {forward : List Forward}
    (hm : m.Sound P) (hforward : s.forward = m :: forward) :
    Ordered P ({ s with forward := forward }.receive P m) := by
  cases hm with
  | items frames sources hne hlen =>
      rw [receive_items _ sources hlen]
      exact h.arrive_items hlen hforward
  | response payload =>
      rw [receive_response]
      have hitems := items_of_not_batch P (Flags.rpc ||| Flags.response) payload (by decide)
        (by decide)
      refine h.move rfl rfl (fun hintact => ⟨hintact, ?_, ?_⟩) fun hend => ⟨hend, rfl⟩
      · have hnone := h.responding_none hintact hforward
        simp [line, hnone, hforward]
      · simp [pending, hforward, hitems]
  | failure payload =>
      rw [receive_failure]
      have hitems := items_of_not_batch P (Flags.exception ||| Flags.response) payload (by decide)
        (by decide)
      refine h.putEnd _ (by decide) (fun hintact => ?_) (by simp [hforward, hitems])
      have hnone := h.responding_none hintact hforward
      simp [line, hnone, hforward]

/-- The consumer takes the end of the stream after all the items. -/
theorem Ordered.get_complete (h : Ordered P s) (hclosing : s.Closing)
    (hintact : s.consumer.intact = true) {e : Entry} {queue : List Entry}
    (hphase : s.consumer.phase = .waiting) (hqueue : s.consumer.queue = e :: queue)
    (hexception : e.flags.has Flags.exception = false)
    (hstream : e.flags.has Flags.stream = false) :
    s.phase = .done .returned ∧ s.consumer.delivered = s.pushed.map Item.payload := by
  have hhead : e.flags ∈ s.line := by simp [line, hqueue]
  have hdone : s.phase = .done .returned := by
    rcases h.kinds hintact e.flags hhead with hstream' | ⟨outcome, hdone, hflags⟩
    · rw [hstream] at hstream'
      cases hstream'
    · rw [hdone, hflags hexception]
  have hrest : queue.map Entry.flags ++
      (s.responding.toList.map fun _ => Flags.rpc ||| Flags.response) ++
        s.forward.map Forward.flags = [] := by
    have hlast := h.last hintact
    rw [line, hqueue, List.map_cons, List.cons_append, List.cons_append] at hlast
    rw [List.eq_nil_iff_forall_not_mem]
    intro f hf
    have hstream' := (List.pairwise_cons.mp hlast).1 f hf
    rw [hstream] at hstream'
    cases hstream'
  simp only [List.append_eq_nil_iff, List.map_eq_nil_iff] at hrest
  have hwriter := hclosing.response _ hdone
  have hframes := (hclosing.writer hwriter).2
  have hcontents := h.contents hintact
  have hpending : s.pending P = [] := by
    simp [pending, hphase, ConsumerPhase.rest, hqueue, Entry.frames, hstream, hrest.1.1, hrest.2,
      hwriter, WriterPhase.frames, hframes]
  refine ⟨hdone, ?_⟩
  rw [hcontents, hpending, List.append_nil]

theorem delivered_advance (c : Consumer) (items : List Bytes) (count size : ℕ) :
    (c.advance items count size).delivered ++ (c.advance items count size).phase.rest =
      c.delivered ++ items := by
  cases items with
  | nil =>
      have hrest : (c.settle count size).phase.rest = [] := by
        unfold Consumer.settle
        simp only
        split_ifs <;> rfl
      rw [Consumer.advance, hrest]
      rfl
  | cons item items => simp [Consumer.advance, ConsumerPhase.rest]

theorem not_complete_advance (c : Consumer) (items : List Bytes) (count size : ℕ) :
    (c.advance items count size).phase ≠ .ended .complete ∧
      (c.advance items count size).phase ≠ .stopping .complete := by
  cases items with
  | nil =>
      unfold Consumer.advance Consumer.settle
      simp only
      split_ifs <;> exact ⟨nofun, nofun⟩
  | cons item items => exact ⟨nofun, nofun⟩

/-- The consumer goes on with the items of a packet. -/
theorem Ordered.advance (h : Ordered P s) {c : Consumer} {items : List Bytes} {count size : ℕ}
    (hintact : c.intact = true → s.consumer.intact = true)
    (hline : (c.queue.map Entry.flags).Sublist (s.consumer.queue.map Entry.flags))
    (hitems : c.delivered ++ items ++ c.queue.flatMap Entry.frames =
      s.consumer.delivered ++ s.consumer.phase.rest ++ s.consumer.queue.flatMap Entry.frames) :
    Ordered P { s with consumer := c.advance items count size } := by
  have hkeep : (c.advance items count size).intact = c.intact := by
    simp [Consumer.intact]
  refine h.move rfl rfl ?_ ?_
  · intro hc
    rw [hkeep] at hc
    refine ⟨hintact hc, ?_, ?_⟩
    · simp only [line, Consumer.queue_advance]
      exact (hline.append_right _).append_right _
    · have hdelivered := delivered_advance c items count size
      simp only [pending, Consumer.queue_advance, ← List.append_assoc] at hdelivered hitems ⊢
      rw [hdelivered, hitems]
  · intro hend
    obtain ⟨hended, hstopping⟩ := not_complete_advance c items count size
    rcases hend with hend | hend
    · exact absurd hend hended
    · exact absurd hend hstopping

theorem Ordered.get (h : Ordered P s) (hs : s.Sound P) (hclosing : s.Closing)
    (hbudget : s.consumer.overBudget = false) {c : Consumer}
    (hget : s.consumer.get false = some c) : Ordered P { s with consumer := c } := by
  obtain ⟨e, queue, hphase, hqueue, hcases⟩ := Consumer.get_cases hget
  rcases hcases with ⟨-, rfl⟩ | ⟨-, hstream, rfl⟩ | ⟨hexception, hstream, rfl⟩
  · refine h.move rfl rfl (by simp) ?_
    rintro (hend | hend) <;> cases hend
  · refine h.advance (fun hintact => hintact) ?_ ?_
    · rw [hqueue]
      exact List.sublist_cons_self _ _
    · simp [hqueue, hphase, ConsumerPhase.rest, Entry.frames, hstream]
  · have hactive : s.consumer.phase.active = true := by rw [hphase]; rfl
    have hintact : s.consumer.intact = true := by
      simp [Consumer.intact, (hs.consumer.active hactive).1, hbudget]
    exact ⟨by simp, by simp, by simp,
      fun _ => h.get_complete hclosing hintact hphase hqueue hexception hstream⟩

theorem Ordered.step (h : Ordered P s) (hs : s.Sound P) (hclosing : s.Closing)
    (hbudget : s.consumer.overBudget = false) (hstep : s.step P e = some s') : Ordered P s' := by
  have hproduced : ∀ items, Ordered P { s with produced := items } :=
    fun _ => h.of_eq rfl rfl rfl rfl fun _ ho => ho
  cases step_spec hstep with
  | tooLarge item hphase _ => exact (hproduced _).finish (by simp [registered, hphase]) _
  | produce item hphase _ =>
      exact (hproduced (s.produced ++ [item])).spend (by simp [registered, hphase]) item
  | resume item hphase _ => exact h.spend (by simp [registered, hphase]) item
  | exhaust hphase => exact h.finish (by simp [registered, hphase]) _
  | raise text hphase => exact h.finish (by simp [registered, hphase]) _
  | unwind hregistered _ => exact h.finish hregistered _
  | flush hwriter _ => exact h.flush hwriter
  | sent frames sources hwriter =>
      have hframes := hs.writer
      rw [hwriter] at hframes
      have hnot : ∀ outcome, s.phase ≠ .done outcome := by
        intro outcome hdone
        have hreturned := hclosing.response outcome hdone
        rw [hwriter] at hreturned
        cases hreturned
      refine h.append_forward hnot rfl rfl rfl rfl ?_ (.inl (has_stream_streamFlags sources))
      rw [pending, pending, frames_afterWrite, hwriter]
      simp [afterWrite, WriterPhase.frames,
        Forward.items_streamPayload P sources hframes.2.1]
  | response payload hphase hwriter =>
      have hitems := items_of_not_batch P (Flags.rpc ||| Flags.response) payload (by decide)
        (by decide)
      refine h.append_forward (by simp [hphase]) rfl rfl rfl rfl ?_
        (.inr ⟨.returned, rfl, fun _ => rfl⟩)
      simp [pending, hitems]
  | failure payload text hphase hwriter =>
      have hitems := items_of_not_batch P (Flags.exception ||| Flags.response) payload (by decide)
        (by decide)
      have hbits : (Flags.exception ||| Flags.response).has Flags.exception = true := by decide
      refine h.append_forward (by simp [hphase]) rfl rfl rfl rfl ?_
        (.inr ⟨.raised text, rfl, fun hflags => ?_⟩)
      · simp [pending, hitems]
      · simp [hbits] at hflags
  | silent payload hphase _ =>
      exact h.of_eq rfl rfl rfl rfl fun o ho => by simp [hphase] at ho
  | credit message back _ _ =>
      obtain ⟨credit, cancelling, heq, -⟩ := handleStreamCredit_eq { s with back := back } message
      rw [heq]
      exact h.of_eq rfl rfl rfl rfl fun _ ho => ho
  | creditLate message back _ _ => exact h.of_eq rfl rfl rfl rfl fun _ ho => ho
  | start hphase =>
      refine h.move rfl rfl (fun hintact => ⟨hintact, .refl _, ?_⟩) ?_
      · simp [pending, Consumer.start, hphase, ConsumerPhase.rest]
      · rintro (hend | hend) <;> cases hend
  | arrive message forward hforward =>
      have hmessage := hs.forward message (by rw [hforward]; exact List.mem_cons_self)
      exact h.arrive hmessage hforward
  | deliverEnd payload hresponding =>
      refine h.putEnd payload (by decide) (fun _ => ?_) rfl
      simp [line, hresponding]
  | get c hget => exact h.get hs hclosing hbudget hget
  | next c hnext =>
      obtain ⟨rest, count, size, hphase, rfl⟩ := Consumer.next_cases hnext
      refine h.advance (fun hintact => hintact) (.refl _) ?_
      rw [hphase]
      rfl
  | returned c hreturned =>
      obtain ⟨hphase, rfl⟩ := Consumer.returned_cases hreturned
      refine h.move rfl rfl (fun hintact => ⟨hintact, .refl _, ?_⟩) ?_
      · simp [pending, hphase, ConsumerPhase.rest]
      · rintro (hend | hend) <;> cases hend
  | leave c hleave =>
      rw [Consumer.leave_cases hleave]
      refine h.move rfl rfl (by simp) ?_
      simp only [Consumer.unwind]
      split_ifs <;> rintro (hend | hend) <;> cases hend
  | stopped c hstopped =>
      obtain ⟨ending, hphase, rfl⟩ := Consumer.stopped_cases hstopped
      refine h.move rfl rfl (fun hintact => ⟨hintact, .refl _, ?_⟩) ?_
      · simp [pending, hphase, ConsumerPhase.rest]
      · rintro (hend | hend)
        · cases hend
          exact ⟨.inr hphase, rfl⟩
        · cases hend

end Session

end Rmote
