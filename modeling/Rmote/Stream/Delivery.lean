import Rmote.Stream.Order

/-!
# What the user of a stream gets

The receive loop can also refuse a packet: the consumer does not accept the sources or a class
that it brings, and the queue takes the refusal in place of the items. `stepAny` is a session
with such steps, on a connection that stays open.

What the user is going to get is decided by the queue: the items in front of its first end.
They are always the first items that the writer was handed, and an end that the peer sent
stands behind all of them.
-/

namespace Rmote

/-- The end is the ordinary response of the peer or the exception of its method, and not an
error that this side raises. -/
def Entry.reports (e : Entry) : Bool :=
  match e.payload with
  | .error _ => e.ends && !e.flags.has Flags.exception
  | _ => e.ends

theorem reports_error (text : String) :
    Entry.reports ⟨Flags.exception ||| Flags.response, .error text, 0⟩ = false := by
  have hbits : (Flags.exception ||| Flags.response).has Flags.exception = true := by decide
  simp [Entry.reports, hbits]

theorem reports_response {e : Entry} (hexception : e.flags.has Flags.exception = false)
    (hstream : e.flags.has Flags.stream = false) : e.reports = true := by
  unfold Entry.reports
  split <;> simp [Entry.ends, hexception, hstream]

theorem ends_of_reports {e : Entry} (h : e.reports = true) : e.ends = true := by
  unfold Entry.reports at h
  split at h
  · exact (Bool.and_eq_true_iff.mp h).1
  · exact h

/-- The items of a queue in front of its first end. -/
def ahead : List Entry → List Bytes
  | [] => []
  | e :: queue => if e.ends then [] else e.frames ++ ahead queue

theorem ahead_append_of_end {queue : List Entry} (h : ∃ e ∈ queue, e.ends = true)
    (more : List Entry) : ahead (queue ++ more) = ahead queue := by
  induction queue with
  | nil =>
      obtain ⟨e, he, -⟩ := h
      cases he
  | cons e queue ih =>
      rw [List.cons_append, ahead, ahead]
      split_ifs with hends
      · rfl
      · obtain ⟨e', he', hends'⟩ := h
        rcases List.mem_cons.mp he' with rfl | he'
        · exact absurd hends' hends
        · rw [ih ⟨e', he', hends'⟩]

theorem ahead_append_of_open {queue : List Entry} (h : ∀ e ∈ queue, e.ends = false)
    (more : List Entry) :
    ahead (queue ++ more) = queue.flatMap Entry.frames ++ ahead more := by
  induction queue with
  | nil => rfl
  | cons e queue ih =>
      rw [List.cons_append, ahead, if_neg (by simp [h e List.mem_cons_self]),
        ih fun e' he' => h e' (List.mem_cons_of_mem e he'), List.flatMap_cons, List.append_assoc]

namespace Consumer

/-- The generator runs, and no end is in its queue. -/
def Live (c : Consumer) : Prop := c.phase.active = true ∧ ∀ e ∈ c.queue, e.ends = false

/-- The items that the user got, and those that it is going to get from the queue. -/
def visible (c : Consumer) : List Bytes :=
  if c.phase.active then c.delivered ++ c.phase.rest ++ ahead c.queue else c.delivered

/-- The end that the generator is going to meet. -/
def firstEnd (c : Consumer) : Option Entry :=
  if c.phase.active then c.queue.find? Entry.ends else none

/-- The user knows that the stream is complete. -/
def Complete (c : Consumer) : Prop :=
  c.phase = .ended .complete ∨ c.phase = .stopping .complete

variable {c c' : Consumer}

theorem not_complete_of_active (h : c.phase.active = true) : ¬ c.Complete := by
  rintro (hphase | hphase)
  · rw [hphase] at h
    cases h
  · rw [hphase] at h
    cases h

theorem delivered_prefix_visible (c : Consumer) : c.delivered <+: c.visible := by
  unfold visible
  split_ifs
  · rw [List.append_assoc]
    exact List.prefix_append _ _
  · exact List.prefix_refl _

theorem firstEnd_of_live (h : c.Live) : c.firstEnd = none := by
  rw [firstEnd, if_pos h.1, List.find?_eq_none]
  intro e he
  simp [h.2 e he]

/-- A generator that runs and is not live has an end in its queue. -/
theorem end_of_not_live (h : ¬ c.Live) (hactive : c.phase.active = true) :
    ∃ e ∈ c.queue, e.ends = true := by
  by_contra hnone
  refine h ⟨hactive, fun e he => ?_⟩
  rw [Bool.eq_false_iff]
  exact fun hends => hnone ⟨e, he, hends⟩

/-- Behind an end the queue grows unseen. -/
theorem enqueue_of_not_live (h : ¬ c.Live) (hphase : c'.phase = c.phase)
    (hdelivered : c'.delivered = c.delivered) {e : Entry} (hqueue : c'.queue = c.queue ++ [e]) :
    c'.visible = c.visible ∧ c'.firstEnd = c.firstEnd ∧ ¬ c'.Live := by
  have hdead : ¬ c'.Live := fun hlive => h ⟨hphase ▸ hlive.1, fun e' he' =>
    hlive.2 e' (by rw [hqueue]; exact List.mem_append_left _ he')⟩
  unfold visible firstEnd
  rw [hphase, hdelivered, hqueue]
  by_cases hactive : c.phase.active = true
  · have hend := end_of_not_live h hactive
    rw [if_pos hactive, if_pos hactive, if_pos hactive, if_pos hactive, ahead_append_of_end hend,
      List.find?_append]
    obtain ⟨first, hfirst⟩ := Option.isSome_iff_exists.mp (List.find?_isSome.mpr hend)
    rw [hfirst]
    exact ⟨rfl, rfl, hdead⟩
  · rw [if_neg hactive, if_neg hactive, if_neg hactive, if_neg hactive]
    exact ⟨rfl, rfl, hdead⟩

/-- A packet of items joins a live queue. -/
theorem enqueue_items (h : c.Live) (hphase : c'.phase = c.phase)
    (hdelivered : c'.delivered = c.delivered) {e : Entry} (hqueue : c'.queue = c.queue ++ [e])
    (hends : e.ends = false) : c'.visible = c.visible ++ e.frames ∧ c'.Live := by
  have hnone : ahead [e] = e.frames := by simp [ahead, hends]
  constructor
  · have hbefore := ahead_append_of_open h.2 []
    rw [List.append_nil] at hbefore
    rw [visible, visible, hphase, if_pos h.1, if_pos h.1, hdelivered, hqueue,
      ahead_append_of_open h.2, hbefore, hnone]
    simp [ahead]
  · refine ⟨hphase ▸ h.1, fun e' he' => ?_⟩
    rw [hqueue] at he'
    rcases List.mem_append.mp he' with he' | he'
    · exact h.2 e' he'
    · rw [List.mem_singleton.mp he']
      exact hends

/-- An end joins a live queue. -/
theorem enqueue_end (h : c.Live) (hphase : c'.phase = c.phase)
    (hdelivered : c'.delivered = c.delivered) {e : Entry} (hqueue : c'.queue = c.queue ++ [e])
    (hends : e.ends = true) :
    c'.visible = c.visible ∧ c'.firstEnd = some e ∧ ¬ c'.Live := by
  refine ⟨?_, ?_, fun hlive => ?_⟩
  · have hbefore := ahead_append_of_open h.2 []
    have hnone : ahead [e] = [] := by simp [ahead, hends]
    rw [List.append_nil] at hbefore
    rw [visible, visible, hphase, if_pos h.1, if_pos h.1, hdelivered, hqueue,
      ahead_append_of_open h.2, hbefore, hnone]
    rfl
  · have hfirst : c.queue.find? Entry.ends = none := by
      rw [List.find?_eq_none]
      intro e' he'
      simp [h.2 e' he']
    rw [firstEnd, hphase, if_pos h.1, hqueue, List.find?_append, hfirst]
    simp [hends]
  · have hfalse := hlive.2 e (by rw [hqueue]; simp)
    rw [hends] at hfalse
    cases hfalse

end Consumer

/-- The steps of a session, and the refusal of a packet by the decoder of the consumer. -/
inductive AnyEvent where
  | step (event : SessionEvent)
  | refuse (text : String)

namespace Session

/-- The receive loop of the consumer refuses the next packet. -/
def refuse (s : Session) (text : String) : Option Session :=
  match s.forward with
  | [] => none
  | _ :: forward =>
      some { s with
        forward := forward
        consumer := s.consumer.putEnd (Flags.exception ||| Flags.response) (.error text) }

/-- One stretch of the event loop of either endpoint, for any consumer. -/
def stepAny (P : Pickle) (s : Session) : AnyEvent → Option Session
  | .step event => s.step P event
  | .refuse text => s.refuse text

/-- The flags of what is on its way to the queue. -/
def arriving (s : Session) : List Flags :=
  (s.responding.toList.map fun _ => Flags.rpc ||| Flags.response) ++ s.forward.map Forward.flags

/-- The items that are on their way to the queue. -/
def behind (P : Pickle) (s : Session) : List Bytes :=
  s.forward.flatMap (Forward.items P) ++ s.writer.frames ++ s.buffer.frames

/-- The user is going to see the first items of the writer. As long as no end is in the queue,
the others are on their way, in their order and with the end behind them, and an end of the peer
that is in the queue has all of them before it. -/
structure Faithful (P : Pickle) (s : Session) : Prop where
  visible : s.consumer.visible <+: s.pushed.map Item.payload
  contents : s.consumer.Live → s.pushed.map Item.payload = s.consumer.visible ++ s.behind P
  last : s.consumer.Live → s.arriving.Pairwise fun f _ => f.has Flags.stream = true
  kinds : s.consumer.Live → ∀ f ∈ s.arriving, f.has Flags.stream = true ∨
    ∃ outcome, s.phase = .done outcome
  ended : ∀ e, s.consumer.firstEnd = some e → e.reports = true →
    (∃ outcome, s.phase = .done outcome) ∧ s.consumer.visible = s.pushed.map Item.payload
  complete : s.consumer.Complete →
    (∃ outcome, s.phase = .done outcome) ∧ s.consumer.delivered = s.pushed.map Item.payload

variable {P : Pickle} {s s' : Session} {e : SessionEvent}

theorem faithful_init (packetId : ℕ) : Faithful P (init packetId) where
  visible := List.prefix_refl _
  contents _ := rfl
  last _ := .nil
  kinds _ _ hf := nomatch hf
  ended _ he := nomatch he
  complete h := absurd h (Consumer.not_complete_of_active rfl)

/-- A step of the sender that moves neither items nor packets. -/
theorem Faithful.of_eq (h : Faithful P s) (hconsumer : s'.consumer = s.consumer)
    (harriving : s'.arriving = s.arriving) (hbehind : s'.behind P = s.behind P)
    (hpushed : s'.pushed = s.pushed)
    (hphase : ∀ outcome, s.phase = .done outcome → s'.phase = .done outcome) : Faithful P s' := by
  have hdone : (∃ outcome, s.phase = .done outcome) → ∃ outcome, s'.phase = .done outcome :=
    fun ⟨outcome, ho⟩ => ⟨outcome, hphase outcome ho⟩
  constructor
  · rw [hconsumer, hpushed]
    exact h.visible
  · rw [hconsumer, hpushed, hbehind]
    exact h.contents
  · rw [hconsumer, harriving]
    exact h.last
  · rw [hconsumer, harriving]
    exact fun hlive f hf => (h.kinds hlive f hf).imp id hdone
  · rw [hconsumer, hpushed]
    exact fun e he hreports => ⟨hdone (h.ended e he hreports).1, (h.ended e he hreports).2⟩
  · rw [hconsumer, hpushed]
    exact fun hcomplete => ⟨hdone (h.complete hcomplete).1, (h.complete hcomplete).2⟩

theorem Faithful.finish (h : Faithful P s) (hregistered : s.registered = true)
    (outcome : Outcome) : Faithful P (s.finish outcome) :=
  h.of_eq rfl rfl rfl rfl fun o ho => absurd ho (not_done_of_registered hregistered o)

/-- An item is paid and joins the buffer. -/
theorem Faithful.spend (h : Faithful P s) (hregistered : s.registered = true) (item : Item) :
    Faithful P (s.spend item) := by
  have hnot := not_done_of_registered hregistered
  rcases s.spend_cases item with ⟨-, hspend⟩ | ⟨-, -, hspend⟩ | ⟨-, -, hspend⟩
  · rw [hspend]
    exact h.finish hregistered _
  · rw [hspend]
    constructor
    · rw [List.map_append]
      exact h.visible.trans (List.prefix_append _ _)
    · intro hlive
      have hcontents := h.contents hlive
      simp only [behind, StreamBuffer.push, List.map_append, List.map_cons, List.map_nil,
        ← List.append_assoc] at hcontents ⊢
      rw [hcontents]
    · exact h.last
    · intro hlive f hf
      rcases h.kinds hlive f hf with hstream | ⟨outcome, hdone⟩
      · exact .inl hstream
      · exact absurd hdone (hnot outcome)
    · intro e he hreports
      obtain ⟨⟨outcome, hdone⟩, -⟩ := h.ended e he hreports
      exact absurd hdone (hnot outcome)
    · intro hcomplete
      obtain ⟨⟨outcome, hdone⟩, -⟩ := h.complete hcomplete
      exact absurd hdone (hnot outcome)
  · rw [hspend]
    exact h.of_eq rfl rfl rfl rfl fun o ho => absurd ho (hnot o)

theorem Faithful.flush (h : Faithful P s) (hwriter : s.writer = .waiting) :
    Faithful P s.flush := by
  unfold Session.flush
  split_ifs with hframes
  · have hempty : s.buffer.frames = [] := by simpa using hframes
    refine h.of_eq rfl rfl ?_ rfl fun _ ho => ho
    rw [behind, behind, frames_afterWrite, hwriter, hempty]
    rfl
  · refine h.of_eq rfl rfl ?_ rfl fun _ ho => ho
    rw [behind, behind, hwriter]
    simp [WriterPhase.frames]

/-- One more packet goes on the wire while the handler runs. -/
theorem Faithful.append_forward (h : Faithful P s) (hnot : ∀ outcome, s.phase ≠ .done outcome)
    {m : Forward} (hforward : s'.forward = s.forward ++ [m]) (hconsumer : s'.consumer = s.consumer)
    (hresponding : s'.responding = s.responding) (hpushed : s'.pushed = s.pushed)
    (hbehind : s'.behind P = s.behind P)
    (hkind : m.flags.has Flags.stream = true ∨ ∃ outcome, s'.phase = .done outcome) :
    Faithful P s' := by
  have hstreams : s.consumer.Live → ∀ f ∈ s.arriving, f.has Flags.stream = true := by
    intro hlive f hf
    rcases h.kinds hlive f hf with hstream | ⟨outcome, hdone⟩
    · exact hstream
    · exact absurd hdone (hnot outcome)
  have harriving : s'.arriving = s.arriving ++ [m.flags] := by
    simp [arriving, hforward, hresponding]
  constructor
  · rw [hconsumer, hpushed]
    exact h.visible
  · rw [hconsumer, hpushed, hbehind]
    exact h.contents
  · intro hlive
    rw [hconsumer] at hlive
    rw [harriving, List.pairwise_append]
    exact ⟨h.last hlive, List.pairwise_singleton .., fun f hf _ _ => hstreams hlive f hf⟩
  · intro hlive f hf
    rw [hconsumer] at hlive
    rw [harriving] at hf
    rcases List.mem_append.mp hf with hf | hf
    · exact .inl (hstreams hlive f hf)
    · rw [List.mem_singleton.mp hf]
      exact hkind
  · intro e he hreports
    rw [hconsumer] at he
    obtain ⟨⟨outcome, hdone⟩, -⟩ := h.ended e he hreports
    exact absurd hdone (hnot outcome)
  · intro hcomplete
    rw [hconsumer] at hcomplete
    obtain ⟨⟨outcome, hdone⟩, -⟩ := h.complete hcomplete
    exact absurd hdone (hnot outcome)

/-- The consumer alone moves, and sees the same items as long as it runs. -/
theorem Faithful.move (h : Faithful P s) {c : Consumer} {back : List Back}
    (hvisible : c.visible <+: s.consumer.visible)
    (hactive : c.phase.active = true → c.visible = s.consumer.visible ∧
      (c.Live → s.consumer.Live) ∧ c.firstEnd = s.consumer.firstEnd)
    (hcomplete : c.Complete →
      (∃ outcome, s.phase = .done outcome) ∧ c.delivered = s.pushed.map Item.payload) :
    Faithful P { s with consumer := c, back := back } where
  visible := hvisible.trans h.visible
  contents hlive := by
    obtain ⟨hsame, hbefore, -⟩ := hactive hlive.1
    rw [hsame]
    exact h.contents (hbefore hlive)
  last hlive := h.last ((hactive hlive.1).2.1 hlive)
  kinds hlive := h.kinds ((hactive hlive.1).2.1 hlive)
  ended e he hreports := by
    have hrun : c.phase.active = true := by
      by_contra hnot
      rw [show c.firstEnd = none by rw [Consumer.firstEnd, if_neg hnot]] at he
      cases he
    obtain ⟨hsame, -, hfirst⟩ := hactive hrun
    rw [hsame]
    exact h.ended e (hfirst ▸ he) hreports
  complete := hcomplete

/-- Something joins the queue that makes or leaves it closed. -/
theorem Faithful.close (h : Faithful P s) {c : Consumer} {forward : List Forward}
    {responding : Option (Decoded Bytes)} (hphase : c.phase = s.consumer.phase)
    (hdelivered : c.delivered = s.consumer.delivered) (hdead : ¬ c.Live)
    (hvisible : c.visible = s.consumer.visible)
    (hend : c.firstEnd = s.consumer.firstEnd ∨ ∃ e, c.firstEnd = some e ∧ (e.reports = true →
      (∃ outcome, s.phase = .done outcome) ∧
        s.consumer.visible = s.pushed.map Item.payload)) :
    Faithful P { s with forward := forward, responding := responding, consumer := c } where
  visible := hvisible ▸ h.visible
  contents hlive := absurd hlive hdead
  last hlive := absurd hlive hdead
  kinds hlive := absurd hlive hdead
  ended e he hreports := by
    change _ ∧ c.visible = _
    rw [hvisible]
    rcases hend with hsame | ⟨e', he', hall⟩
    · exact h.ended e (hsame ▸ he) hreports
    · obtain rfl := Option.some.inj (he.symm.trans he')
      exact hall hreports
  complete hcomplete := by
    change _ ∧ c.delivered = _
    rw [hdelivered]
    refine h.complete ?_
    rw [Consumer.Complete, ← hphase]
    exact hcomplete

/-- A live queue takes every packet. -/
theorem intact_of_live (hs : s.Sound P) (hlive : s.consumer.Live) :
    s.consumer.registered = true ∧ s.consumer.overBudget = false := by
  refine ⟨(hs.consumer.active hlive.1).1, ?_⟩
  rw [Bool.eq_false_iff]
  intro hbudget
  obtain ⟨e, he, hexception⟩ := hs.consumer.failure hlive.1 hbudget
  have hends := hlive.2 e he
  simp [Entry.ends, hexception] at hends

/-- An end joins the queue; one of the peer only when all items are there. -/
theorem Faithful.enqueueEnd (h : Faithful P s) {c : Consumer} {e : Entry}
    {forward : List Forward} {responding : Option (Decoded Bytes)}
    (hphase : c.phase = s.consumer.phase) (hdelivered : c.delivered = s.consumer.delivered)
    (hqueue : c.queue = s.consumer.queue ++ [e]) (hends : e.ends = true)
    (hall : s.consumer.Live → e.reports = true → (∃ outcome, s.phase = .done outcome) ∧
      s.consumer.visible = s.pushed.map Item.payload) :
    Faithful P { s with forward := forward, responding := responding, consumer := c } := by
  by_cases hlive : s.consumer.Live
  · obtain ⟨hvisible, hfirst, hdead⟩ :=
      Consumer.enqueue_end hlive hphase hdelivered hqueue hends
    exact h.close hphase hdelivered hdead hvisible (.inr ⟨e, hfirst, hall hlive⟩)
  · obtain ⟨hvisible, hfirst, hdead⟩ :=
      Consumer.enqueue_of_not_live hlive hphase hdelivered hqueue
    exact h.close hphase hdelivered hdead hvisible (.inl hfirst)

theorem Faithful.putEnd (h : Faithful P s) (hs : s.Sound P) (hroom : s.consumer.Room)
    {flags : Flags} {payload : Decoded Bytes} (hends : Entry.ends ⟨flags, payload, 0⟩ = true)
    (forward : List Forward) (responding : Option (Decoded Bytes))
    (hall : s.consumer.Live → Entry.reports ⟨flags, payload, 0⟩ = true →
      (∃ outcome, s.phase = .done outcome) ∧
        s.consumer.visible = s.pushed.map Item.payload) :
    Faithful P { s with
      forward := forward
      responding := responding
      consumer := s.consumer.putEnd flags payload } := by
  by_cases hlive : s.consumer.Live
  · rw [Consumer.putEnd_of_open hroom (intact_of_live hs hlive).1 hlive.2]
    exact h.enqueueEnd rfl rfl rfl hends hall
  · unfold Consumer.putEnd
    split_ifs
    · exact h.enqueueEnd rfl rfl rfl hends hall
    · exact h.close rfl rfl hlive rfl (.inl rfl)

/-- Nothing follows the end of a stream, and all its items are in the queue or were taken. -/
theorem Faithful.all_visible (h : Faithful P s) (hclosing : s.Closing) (hlive : s.consumer.Live)
    {f : Flags} {r : List Flags} (harriving : s.arriving = f :: r)
    (hstream : f.has Flags.stream = false)
    (hforward : r = [] → s.forward.flatMap (Forward.items P) = []) :
    (∃ outcome, s.phase = .done outcome) ∧ s.consumer.visible = s.pushed.map Item.payload := by
  obtain ⟨outcome, hdone⟩ : ∃ outcome, s.phase = .done outcome := by
    rcases h.kinds hlive f (by rw [harriving]; exact List.mem_cons_self) with hf | hdone
    · rw [hstream] at hf
      cases hf
    · exact hdone
  have hnothing : r = [] := by
    have hlast := h.last hlive
    rw [harriving] at hlast
    rw [List.eq_nil_iff_forall_not_mem]
    intro f' hf'
    have hf := (List.pairwise_cons.mp hlast).1 f' hf'
    rw [hstream] at hf
    cases hf
  have hwriter := hclosing.response outcome hdone
  have hbehind : s.behind P = [] := by
    rw [behind, hforward hnothing, hwriter, (hclosing.writer hwriter).2]
    rfl
  have hcontents := h.contents hlive
  rw [hbehind, List.append_nil] at hcontents
  exact ⟨⟨outcome, hdone⟩, hcontents.symm⟩

/-- No response is handed over while a packet is on the wire. -/
theorem Faithful.responding_none (h : Faithful P s) (hlive : s.consumer.Live) {m : Forward}
    {forward : List Forward} (hforward : s.forward = m :: forward) : s.responding = none := by
  have hflags : (Flags.rpc ||| Flags.response).has Flags.stream = false := by decide
  cases hresponding : s.responding with
  | none => rfl
  | some payload =>
      have hlast := h.last hlive
      rw [arriving, hresponding, hforward] at hlast
      have hstream := (List.pairwise_cons.mp hlast).1 m.flags (by simp)
      rw [hflags] at hstream
      cases hstream

/-- A packet of items moves from the wire to the queue. -/
theorem Faithful.enqueueItems (h : Faithful P s) {m : Forward} {forward : List Forward}
    (hforward : s.forward = m :: forward) {c : Consumer} {e : Entry}
    (hphase : c.phase = s.consumer.phase) (hdelivered : c.delivered = s.consumer.delivered)
    (hqueue : c.queue = s.consumer.queue ++ [e]) (hends : e.ends = false)
    (hitems : m.items P = e.frames) :
    Faithful P { s with forward := forward, consumer := c } := by
  by_cases hlive : s.consumer.Live
  · obtain ⟨hvisible, hlive'⟩ := Consumer.enqueue_items hlive hphase hdelivered hqueue hends
    have hnone := h.responding_none hlive hforward
    have hcontents : s.pushed.map Item.payload =
        c.visible ++ (forward.flatMap (Forward.items P) ++ s.writer.frames ++ s.buffer.frames) := by
      rw [h.contents hlive, behind, hforward, List.flatMap_cons, hitems, hvisible]
      simp only [List.append_assoc]
    have harriving : s.arriving = m.flags :: forward.map Forward.flags := by
      simp [arriving, hnone, hforward]
    have harriving' : arriving { s with forward := forward, consumer := c } =
        forward.map Forward.flags := by
      simp [arriving, hnone]
    refine ⟨?_, fun _ => hcontents, fun _ => ?_, fun _ f hf => ?_, fun e' he' => ?_,
      fun hcomplete => absurd hcomplete (Consumer.not_complete_of_active hlive'.1)⟩
    · rw [hcontents]
      exact List.prefix_append _ _
    · have hlast := h.last hlive
      rw [harriving] at hlast
      rw [harriving']
      exact (List.pairwise_cons.mp hlast).2
    · rw [harriving'] at hf
      exact h.kinds hlive f (by rw [harriving]; exact List.mem_cons_of_mem _ hf)
    · have hfirst : c.firstEnd = some e' := he'
      rw [Consumer.firstEnd_of_live hlive'] at hfirst
      cases hfirst
  · obtain ⟨hvisible, hfirst, hdead⟩ :=
      Consumer.enqueue_of_not_live hlive hphase hdelivered hqueue
    exact h.close hphase hdelivered hdead hvisible (.inl hfirst)

theorem Faithful.arrive_items (h : Faithful P s) (hs : s.Sound P) {forward : List Forward}
    {frames : List Bytes} {sources : Manifest} (hlen : ∀ f ∈ frames, f.length ≤ maxStreamItem)
    (hforward : s.forward = ⟨streamFlags sources, streamPayload P frames sources⟩ :: forward) :
    Faithful P { s with
      forward := forward
      consumer := (s.consumer.handleStreamItem s.packetId (streamFlags sources) (.items frames)
        (streamPayload P frames sources).length) } := by
  unfold Consumer.handleStreamItem
  split_ifs with hdrop hexceeds
  · refine h.close rfl rfl (fun hlive => ?_) rfl (.inl rfl)
    obtain ⟨hregistered, hbudget⟩ := intact_of_live hs hlive
    simp [hregistered, hbudget] at hdrop
  · refine h.enqueueEnd rfl rfl rfl (ends_exception _) fun _ hreports => ?_
    rw [reports_error] at hreports
    cases hreports
  · refine h.enqueueItems hforward rfl rfl rfl (by simp [Entry.ends]) ?_
    rw [Forward.items_streamPayload P sources hlen]
    simp [Entry.frames, Entry.items]

/-- The receive loop takes the next packet. -/
theorem Faithful.arrive (h : Faithful P s) (hs : s.Sound P) (hclosing : s.Closing)
    (hroom : s.consumer.Room) {m : Forward} {forward : List Forward}
    (hforward : s.forward = m :: forward) :
    Faithful P ({ s with forward := forward }.receive P m) := by
  have hm := hs.forward m (by rw [hforward]; exact List.mem_cons_self)
  cases hm with
  | items frames sources hne hlen =>
      rw [receive_items _ sources hlen]
      exact h.arrive_items hs hlen hforward
  | response payload =>
      rw [receive_response]
      have hitems := items_of_not_batch P (Flags.rpc ||| Flags.response) payload (by decide)
        (by decide)
      by_cases hlive : s.consumer.Live
      · have hnone := h.responding_none hlive hforward
        refine h.of_eq rfl ?_ ?_ rfl fun _ ho => ho
        · simp [arriving, hnone, hforward]
        · simp [behind, hforward, hitems]
      · exact h.close rfl rfl hlive rfl (.inl rfl)
  | failure payload =>
      rw [receive_failure]
      have hitems := items_of_not_batch P (Flags.exception ||| Flags.response) payload (by decide)
        (by decide)
      refine h.putEnd hs hroom (ends_exception _) forward s.responding fun hlive _ => ?_
      have hnone := h.responding_none hlive hforward
      refine h.all_visible hclosing hlive (f := Flags.exception ||| Flags.response)
        (r := forward.map Forward.flags) ?_ (by decide) fun hrest => ?_
      · simp [arriving, hnone, hforward]
      · rw [List.map_eq_nil_iff.mp hrest] at hforward
        simp [hforward, hitems]

/-- The task of the ordinary response puts it into the queue. -/
theorem Faithful.deliverEnd (h : Faithful P s) (hs : s.Sound P) (hclosing : s.Closing)
    (hroom : s.consumer.Room) {payload : Decoded Bytes} (hresponding : s.responding = some payload) :
    Faithful P { s with
      responding := none
      consumer := s.consumer.putEnd (Flags.rpc ||| Flags.response) payload } := by
  refine h.putEnd hs hroom (ends_response _) s.forward none fun hlive _ => ?_
  refine h.all_visible hclosing hlive (f := Flags.rpc ||| Flags.response)
    (r := s.forward.map Forward.flags) ?_ (by decide) fun hrest => ?_
  · simp [arriving, hresponding]
  · rw [List.map_eq_nil_iff.mp hrest]
    rfl

theorem Faithful.refuse (h : Faithful P s) (hs : s.Sound P) (hroom : s.consumer.Room)
    {text : String} (hrefuse : s.refuse text = some s') : Faithful P s' := by
  unfold Session.refuse at hrefuse
  split at hrefuse
  · cases hrefuse
  · rename_i m forward hforward
    obtain rfl := Option.some.inj hrefuse
    refine h.putEnd hs hroom (ends_exception _) forward s.responding fun _ hreports => ?_
    rw [reports_error] at hreports
    cases hreports

/-- The generator ends, and the user keeps what it got. -/
theorem Faithful.unwind (h : Faithful P s) {c : Consumer} (hactive : c.phase.active = false)
    (hdelivered : c.delivered = s.consumer.delivered) {back : List Back}
    (hcomplete : c.Complete →
      (∃ outcome, s.phase = .done outcome) ∧ c.delivered = s.pushed.map Item.payload) :
    Faithful P { s with consumer := c, back := back } := by
  refine h.move ?_ (fun hrun => ?_) hcomplete
  · rw [Consumer.visible, hactive, if_neg nofun, hdelivered]
    exact s.consumer.delivered_prefix_visible
  · rw [hactive] at hrun
    cases hrun

/-- The generator goes on with its queue. -/
theorem Faithful.proceed (h : Faithful P s) {c : Consumer} (hactive : c.phase.active = true)
    (hbefore : s.consumer.phase.active = true)
    (hitems : c.delivered ++ c.phase.rest ++ ahead c.queue =
      s.consumer.delivered ++ s.consumer.phase.rest ++ ahead s.consumer.queue)
    (hqueue : ∃ taken, s.consumer.queue = taken ++ c.queue ∧ ∀ e ∈ taken, e.ends = false)
    {back : List Back} : Faithful P { s with consumer := c, back := back } := by
  obtain ⟨taken, hqueue, htaken⟩ := hqueue
  have hvisible : c.visible = s.consumer.visible := by
    rw [Consumer.visible, Consumer.visible, if_pos hactive, if_pos hbefore, hitems]
  refine h.move (hvisible ▸ List.prefix_refl _) (fun _ => ⟨hvisible, fun hlive => ?_, ?_⟩)
    fun hcomplete => absurd hcomplete (Consumer.not_complete_of_active hactive)
  · refine ⟨hbefore, fun e he => ?_⟩
    rw [hqueue] at he
    rcases List.mem_append.mp he with he | he
    · exact htaken e he
    · exact hlive.2 e he
  · have hnone : taken.find? Entry.ends = none := by
      rw [List.find?_eq_none]
      intro e he
      simp [htaken e he]
    rw [Consumer.firstEnd, Consumer.firstEnd, if_pos hactive, if_pos hbefore, hqueue,
      List.find?_append, hnone, Option.none_or]

/-- The end at the head of the queue is the next thing that the user sees. -/
theorem Faithful.head (h : Faithful P s) {e : Entry} {queue : List Entry}
    (hphase : s.consumer.phase = .waiting) (hqueue : s.consumer.queue = e :: queue)
    (hreports : e.reports = true) :
    (∃ outcome, s.phase = .done outcome) ∧ s.consumer.delivered = s.pushed.map Item.payload := by
  have hactive : s.consumer.phase.active = true := by rw [hphase]; rfl
  have hends := ends_of_reports hreports
  have hfirst : s.consumer.firstEnd = some e := by
    rw [Consumer.firstEnd, if_pos hactive, hqueue, List.find?_cons_of_pos hends]
  have hvisible : s.consumer.visible = s.consumer.delivered := by
    rw [Consumer.visible, if_pos hactive, hphase, hqueue, ahead, if_pos hends]
    simp [ConsumerPhase.rest]
  have hended := h.ended e hfirst hreports
  rw [hvisible] at hended
  exact hended

theorem Faithful.get (h : Faithful P s) {c : Consumer} (hget : s.consumer.get false = some c) :
    Faithful P { s with consumer := c } := by
  obtain ⟨e, queue, hphase, hqueue, hcases⟩ := Consumer.get_cases hget
  have hactive : s.consumer.phase.active = true := by rw [hphase]; rfl
  rcases hcases with ⟨-, rfl⟩ | ⟨hexception, hstream, rfl⟩ | ⟨hexception, hstream, rfl⟩
  · refine h.unwind ?_ ?_ ?_
    · rfl
    · rfl
    · rintro (hend | hend) <;> cases hend
  · have hends : e.ends = false := by simp [Entry.ends, hexception, hstream]
    refine h.proceed (Consumer.active_advance ..) hactive ?_ ⟨[e], ?_, ?_⟩
    · rw [delivered_advance, Consumer.queue_advance, hphase, hqueue, ahead,
        if_neg (by simp [hends]), Entry.frames, if_pos hstream]
      simp [ConsumerPhase.rest]
    · rw [hqueue, Consumer.queue_advance]
      rfl
    · intro e' he'
      rw [List.mem_singleton.mp he']
      exact hends
  · have hall := h.head hphase hqueue (reports_response hexception hstream)
    refine h.unwind ?_ ?_ fun _ => hall
    · rfl
    · rfl

theorem Faithful.step (h : Faithful P s) (hs : s.Sound P) (hclosing : s.Closing)
    (hroom : s.consumer.Room) (hstep : s.step P e = some s') : Faithful P s' := by
  have hproduced : ∀ items, Faithful P { s with produced := items } :=
    fun _ => h.of_eq rfl rfl rfl rfl fun _ ho => ho
  cases step_spec hstep with
  | tooLarge item hphase _ => exact (hproduced _).finish (by simp [registered, hphase]) _
  | produce item hphase _ =>
      exact (hproduced (s.produced ++ [item])).spend (by simp [registered, hphase]) item
  | resume item hphase _ => exact h.spend (by simp [registered, hphase]) item
  | exhaust hphase => exact h.finish (by simp [registered, hphase]) _
  | raise text hphase => exact h.finish (by simp [registered, hphase]) _
  | unwind hregistered _ => exact h.finish hregistered _
  | flush hwriter _ => exact h.flush hwriter
  | sent frames sources hwriter =>
      have hframes := hs.writer
      rw [hwriter] at hframes
      have hnot : ∀ outcome, s.phase ≠ .done outcome := by
        intro outcome hdone
        have hreturned := hclosing.response outcome hdone
        rw [hwriter] at hreturned
        cases hreturned
      refine h.append_forward hnot rfl rfl rfl rfl ?_ (.inl (has_stream_streamFlags sources))
      rw [behind, behind, frames_afterWrite, hwriter]
      simp [afterWrite, WriterPhase.frames,
        Forward.items_streamPayload P sources hframes.2.1]
  | response payload hphase hwriter =>
      have hitems := items_of_not_batch P (Flags.rpc ||| Flags.response) payload (by decide)
        (by decide)
      refine h.append_forward (by simp [hphase]) rfl rfl rfl rfl ?_ (.inr ⟨.returned, rfl⟩)
      simp [behind, hitems]
  | failure payload text hphase hwriter =>
      have hitems := items_of_not_batch P (Flags.exception ||| Flags.response) payload (by decide)
        (by decide)
      refine h.append_forward (by simp [hphase]) rfl rfl rfl rfl ?_ (.inr ⟨.raised text, rfl⟩)
      simp [behind, hitems]
  | silent payload hphase _ =>
      exact h.of_eq rfl rfl rfl rfl fun o ho => by simp [hphase] at ho
  | credit message back _ _ =>
      obtain ⟨credit, cancelling, heq, -⟩ := handleStreamCredit_eq { s with back := back } message
      rw [heq]
      exact h.of_eq rfl rfl rfl rfl fun _ ho => ho
  | creditLate message back _ _ => exact h.of_eq rfl rfl rfl rfl fun _ ho => ho
  | start hphase =>
      refine h.proceed ?_ ?_ ?_ ⟨[], ?_, by simp⟩
      · rfl
      · rw [hphase]
        rfl
      · rw [hphase]
        rfl
      · rfl
  | arrive message forward hforward => exact h.arrive hs hclosing hroom hforward
  | deliverEnd payload hresponding => exact h.deliverEnd hs hclosing hroom hresponding
  | get c hget => exact h.get hget
  | next c hnext =>
      obtain ⟨rest, count, size, hphase, rfl⟩ := Consumer.next_cases hnext
      refine h.proceed (Consumer.active_advance ..) (by rw [hphase]; rfl) ?_ ⟨[], ?_, by simp⟩
      · rw [delivered_advance, Consumer.queue_advance, hphase]
        rfl
      · rw [Consumer.queue_advance]
        rfl
  | returned c hreturned =>
      obtain ⟨hphase, rfl⟩ := Consumer.returned_cases hreturned
      refine h.proceed ?_ ?_ ?_ ⟨[], ?_, by simp⟩
      · rfl
      · rw [hphase]
        rfl
      · rw [hphase]
        rfl
      · rfl
  | leave c hleave =>
      rw [Consumer.leave_cases hleave]
      refine h.unwind ?_ ?_ ?_
      · simp only [Consumer.unwind]
        split_ifs <;> rfl
      · rfl
      · simp only [Consumer.Complete, Consumer.unwind]
        split_ifs <;> rintro (hend | hend) <;> cases hend
  | stopped c hstopped =>
      obtain ⟨ending, hphase, rfl⟩ := Consumer.stopped_cases hstopped
      refine h.unwind ?_ ?_ ?_
      · rfl
      · rfl
      · rintro (hend | hend)
        · cases hend
          exact h.complete (.inr hphase)
        · cases hend

theorem room_step (hroom : s.consumer.Room) (hs : s.Sound P) (hstep : s.step P e = some s') :
    s'.consumer.Room := by
  cases step_spec hstep with
  | tooLarge item _ _ => exact hroom
  | produce item _ _ =>
      rw [consumer_spend]
      exact hroom
  | resume item _ _ =>
      rw [consumer_spend]
      exact hroom
  | exhaust _ => exact hroom
  | raise text _ => exact hroom
  | unwind _ _ => exact hroom
  | flush _ _ =>
      unfold Session.flush
      split_ifs <;> exact hroom
  | sent frames sources _ => exact hroom
  | response payload _ _ => exact hroom
  | failure payload text _ _ => exact hroom
  | silent payload _ _ => exact hroom
  | credit message back _ _ =>
      obtain ⟨credit, cancelling, heq, -⟩ := handleStreamCredit_eq { s with back := back } message
      rw [heq]
      exact hroom
  | creditLate message back _ _ => exact hroom
  | start _ => exact hroom
  | arrive message forward hforward =>
      have hmessage := hs.forward message (by rw [hforward]; exact List.mem_cons_self)
      cases hmessage with
      | items frames sources _ hlen =>
          rw [receive_items _ sources hlen]
          exact hroom.handleStreamItem ..
      | response payload =>
          rw [receive_response]
          exact hroom
      | failure payload =>
          rw [receive_failure]
          exact hroom.putEnd _ (ends_exception _)
  | deliverEnd payload _ => exact hroom.putEnd _ (ends_response _)
  | get c hget => exact hroom.get hget
  | next c hnext =>
      obtain ⟨rest, count, size, -, rfl⟩ := Consumer.next_cases hnext
      unfold Consumer.Room
      rw [Consumer.queue_advance]
      exact hroom
  | returned c hreturned =>
      obtain ⟨-, rfl⟩ := Consumer.returned_cases hreturned
      exact hroom
  | leave c hleave =>
      rw [Consumer.leave_cases hleave]
      exact hroom
  | stopped c hstopped =>
      obtain ⟨ending, -, rfl⟩ := Consumer.stopped_cases hstopped
      exact hroom

/-- The writer is handed the items of the generator, in their order. -/
theorem pushed_spend {item : Item} (h : s.pushed <+: s.produced)
    (hpaid : s.credit.released = false → s.produced = s.pushed ++ [item]) :
    (s.spend item).pushed <+: (s.spend item).produced := by
  rcases s.spend_cases item with ⟨-, hspend⟩ | ⟨hreleased, -, hspend⟩ | ⟨-, -, hspend⟩
  · rw [hspend]
    exact h
  · rw [hspend]
    exact ⟨[], by rw [List.append_nil, hpaid hreleased]⟩
  · rw [hspend]
    exact h

theorem pushed_step (h : s.pushed <+: s.produced) (hclosing : s.Closing)
    (hstep : s.step P e = some s') : s'.pushed <+: s'.produced := by
  have hgrows : ∀ item : Item, s.pushed <+: s.produced ++ [item] :=
    fun item => h.trans (List.prefix_append _ _)
  cases step_spec hstep with
  | tooLarge item _ _ => exact hgrows item
  | produce item hphase _ =>
      refine pushed_spend (s := { s with produced := s.produced ++ [item] }) (hgrows item) ?_
      exact fun hreleased => congrArg (· ++ [item]) (hclosing.produced hreleased (.inl hphase))
  | resume item hphase _ => exact pushed_spend h fun _ => hclosing.spending item hphase
  | exhaust _ => exact h
  | raise text _ => exact h
  | unwind _ _ => exact h
  | flush _ _ =>
      unfold Session.flush
      split_ifs <;> exact h
  | sent frames sources _ => exact h
  | response payload _ _ => exact h
  | failure payload text _ _ => exact h
  | silent payload _ _ => exact h
  | credit message back _ _ =>
      obtain ⟨credit, cancelling, heq, -⟩ := handleStreamCredit_eq { s with back := back } message
      rw [heq]
      exact h
  | creditLate message back _ _ => exact h
  | start _ => exact h
  | arrive message forward _ =>
      obtain ⟨c, responding, heq⟩ := receive_eq P { s with forward := forward } message
      rw [heq]
      exact h
  | deliverEnd payload _ => exact h
  | get c _ => exact h
  | next c _ => exact h
  | returned c _ => exact h
  | leave c _ => exact h
  | stopped c _ => exact h

/-- What holds along a run of a session with any consumer. -/
structure Delivering (P : Pickle) (s : Session) : Prop where
  sound : s.Sound P
  closing : s.Closing
  room : s.consumer.Room
  pushed : s.pushed <+: s.produced
  faithful : Faithful P s

theorem delivering_init (packetId : ℕ) : Delivering P (init packetId) where
  sound := sound_init packetId
  closing := closing_init packetId
  room := Nat.zero_le _
  pushed := List.prefix_refl _
  faithful := faithful_init packetId

theorem Delivering.refuse (h : Delivering P s) {text : String}
    (hrefuse : s.refuse text = some s') : Delivering P s' := by
  have hfaithful := h.faithful.refuse h.sound h.room hrefuse
  have hflags : (Flags.exception ||| Flags.response).has Flags.stream = false := by decide
  unfold Session.refuse at hrefuse
  split at hrefuse
  · cases hrefuse
  · rename_i m forward hforward
    obtain rfl := Option.some.inj hrefuse
    have hrest : ∀ m' ∈ forward, m'.Sound P := fun m' hm' =>
      h.sound.forward m' (by rw [hforward]; exact List.mem_cons_of_mem m hm')
    exact {
      sound := (h.sound.setForward hrest).setConsumer (h.sound.consumer.putEnd _ hflags)
      closing := h.closing.of_eq rfl rfl rfl id rfl rfl
      room := h.room.putEnd _ (ends_exception _)
      pushed := h.pushed
      faithful := hfaithful }

theorem Delivering.step (h : Delivering P s) {event : AnyEvent}
    (hstep : s.stepAny P event = some s') : Delivering P s' := by
  cases event with
  | step e =>
      exact {
        sound := h.sound.step hstep
        closing := h.closing.step hstep
        room := room_step h.room h.sound hstep
        pushed := pushed_step h.pushed h.closing hstep
        faithful := h.faithful.step h.sound h.closing h.room hstep }
  | refuse text => exact h.refuse hstep

theorem delivering_run {packetId : ℕ} {es : List AnyEvent}
    (hrun : Machine.run (stepAny P) (init packetId) es = some s) : Delivering P s :=
  Machine.run_always (Delivering P) (fun _ _ _ h hstep => h.step hstep) hrun
    (delivering_init packetId)

/-- At every moment the user has got the first items of the generator, in their order. When the
ordinary response or the exception of the method is the next thing that the user sees, it has got
every item that the writer was handed, and no item follows. -/
theorem stream_in_order (P : Pickle) (packetId : ℕ) {es : List AnyEvent} {s : Session}
    (hrun : Machine.run (stepAny P) (init packetId) es = some s) :
    s.consumer.delivered <+: s.produced.map Item.payload ∧
      (∀ e queue, s.consumer.phase = .waiting → s.consumer.queue = e :: queue →
        e.reports = true → (∃ outcome, s.phase = .done outcome) ∧
          s.consumer.delivered = s.pushed.map Item.payload) ∧
      (s.consumer.Complete → (∃ outcome, s.phase = .done outcome) ∧
        s.consumer.delivered = s.pushed.map Item.payload) := by
  have h := delivering_run hrun
  refine ⟨?_, fun e queue => h.faithful.head, h.faithful.complete⟩
  have hvisible := s.consumer.delivered_prefix_visible.trans h.faithful.visible
  exact hvisible.trans (h.pushed.map Item.payload)

/-- Two items that the writer sends apart, with the response behind them. -/
def twoItems : List AnyEvent :=
  [.step (.produce ⟨[1], ∅⟩), .step .flush, .step (.produce ⟨[2], ∅⟩), .step .sent,
    .step .exhaust, .step .start, .step .arrive, .step .get, .step .flush, .step .sent,
    .step (.respond [0]), .step .arrive, .step .arrive, .step .deliverEnd, .step .next, .step .get,
    .step .next]

/-- The user took both items, and sees the response next. -/
theorem twoItems_in_order :
    ∃ s e queue, Machine.run (stepAny Pickle.marked) (init 1) twoItems = some s ∧
      s.consumer.phase = .waiting ∧ s.consumer.queue = e :: queue ∧ e.reports = true ∧
      s.consumer.delivered <+: s.produced.map Item.payload ∧
      s.consumer.delivered = s.pushed.map Item.payload := by
  have hview : (Machine.run (stepAny Pickle.marked) (init 1) twoItems).map (fun s =>
      (s.consumer.phase, s.consumer.queue.map Entry.reports)) = some (.waiting, [true]) := by
    decide +kernel
  obtain ⟨s, hrun, hview⟩ := Option.map_eq_some_iff.mp hview
  obtain ⟨hphase, hqueue⟩ := Prod.mk.inj hview
  obtain ⟨e, queue, hqueue, hreports, -⟩ := List.map_eq_cons_iff.mp hqueue
  obtain ⟨hinitial, hresponse, -⟩ := stream_in_order Pickle.marked 1 hrun
  exact ⟨s, e, queue, hrun, hphase, hqueue, hreports, hinitial,
    (hresponse e queue hphase hqueue hreports).2⟩

end Session

end Rmote
