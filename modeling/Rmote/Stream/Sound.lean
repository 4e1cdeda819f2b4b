import Rmote.Stream.Session

/-!
# What every reachable session keeps

The packets on the wire are the ones that the sender writes, so the consumer can
decode them. A consumer that waits is registered, it owes less than half of the
window and of the backlog, and a failure that the receive loop reported is still in
its queue. A sender sleeps only on an item that does not fit.
-/

namespace Rmote

@[simp] theorem has_stream_streamFlags (sources : Manifest) :
    (streamFlags sources).has Flags.stream = true := by
  unfold streamFlags
  split_ifs <;> decide

@[simp] theorem has_batch_streamFlags (sources : Manifest) :
    (streamFlags sources).has Flags.batch = true := by
  unfold streamFlags
  split_ifs <;> decide

@[simp] theorem has_exception_streamFlags (sources : Manifest) :
    (streamFlags sources).has Flags.exception = false := by
  unfold streamFlags
  split_ifs <;> decide

theorem has_modules_streamFlags (sources : Manifest) :
    (streamFlags sources).has Flags.modules = !sources.entries.isEmpty := by
  unfold streamFlags
  split_ifs with hempty
  · rw [hempty]
    decide
  · rw [Bool.eq_false_iff.mpr hempty]
    decide

/-- The packets that the sender writes. -/
inductive Forward.Sound (P : Pickle) : Forward → Prop where
  | items (frames : List Bytes) (sources : Manifest) (hne : frames ≠ [])
      (hlen : ∀ f ∈ frames, f.length ≤ maxStreamItem) :
      Forward.Sound P ⟨streamFlags sources, streamPayload P frames sources⟩
  | response (payload : Bytes) : Forward.Sound P ⟨Flags.rpc ||| Flags.response, payload⟩
  | failure (payload : Bytes) : Forward.Sound P ⟨Flags.exception ||| Flags.response, payload⟩

/-- The packet that the writer sends. -/
def WriterPhase.Sound (plain : Prop) : WriterPhase → Prop
  | .writing frames sources => frames ≠ [] ∧ (∀ f ∈ frames, f.length ≤ maxStreamItem) ∧
      (plain → sources.entries.isEmpty = true)
  | _ => True

theorem WriterPhase.Sound.imp {plain plain' : Prop} {w : WriterPhase} (h : w.Sound plain)
    (himp : plain' → plain) : w.Sound plain' := by
  cases w with
  | waiting => trivial
  | writing frames sources => exact ⟨h.1, h.2.1, fun hplain => h.2.2 (himp hplain)⟩
  | returned => trivial

namespace Consumer

/-- What holds of a consumer at each of its awaits. -/
structure Sound (c : Consumer) : Prop where
  queue : ∀ e ∈ c.queue, e.flags.has Flags.stream = true → e.items ≠ []
  owed : c.phase.active = true → c.phase ≠ .returning →
    c.owedBytes * 2 < maxStreamWindow ∧ c.owedItems * 2 < maxStreamBacklog
  active : c.phase.active = true → c.registered = true ∧ c.finished = false
  failure : c.phase.active = true → c.overBudget = true →
    ∃ e ∈ c.queue, e.flags.has Flags.exception = true

theorem sound_init : init.Sound where
  queue := by simp [init]
  owed _ _ := by decide
  active _ := ⟨rfl, rfl⟩
  failure _ h := nomatch h

/-- More entries and the same place. -/
theorem Sound.enqueue {c : Consumer} (h : c.Sound) {e : Entry} {buffered : ℕ} {overBudget : Bool}
    (hitems : e.flags.has Flags.stream = true → e.items ≠ [])
    (hbudget : overBudget = true → c.overBudget = true ∨ e.flags.has Flags.exception = true) :
    Sound { c with
      queue := c.queue ++ [e]
      buffered := buffered
      overBudget := overBudget } where
  queue e' he' := by
    rcases List.mem_append.mp he' with he' | he'
    · exact h.queue e' he'
    · rw [List.mem_singleton.mp he']
      exact hitems
  owed := h.owed
  active := h.active
  failure hactive hover := by
    rcases hbudget hover with hover | hexception
    · obtain ⟨e', he', hflags⟩ := h.failure hactive hover
      exact ⟨e', List.mem_append_left _ he', hflags⟩
    · exact ⟨e, List.mem_append_right _ (List.mem_singleton.mpr rfl), hexception⟩

theorem Sound.handleStreamItem {c : Consumer} (h : c.Sound) (packetId : ℕ) {flags : Flags}
    {payload : Decoded Bytes} {size : ℕ} (hitems : Entry.items ⟨flags, payload, size⟩ ≠ []) :
    (c.handleStreamItem packetId flags payload size).Sound := by
  have hbits : (Flags.exception ||| Flags.response).has Flags.exception = true := by decide
  have hstream : (Flags.exception ||| Flags.response).has Flags.stream = false := by decide
  unfold Consumer.handleStreamItem
  split_ifs with hdrop hexceeds
  · exact h
  · exact h.enqueue (fun hflags => by simp [hstream] at hflags) fun _ => .inr hbits
  · exact h.enqueue (fun _ => hitems) fun hover => .inl hover

theorem Sound.putEnd {c : Consumer} (h : c.Sound) {flags : Flags} (payload : Decoded Bytes)
    (hflags : flags.has Flags.stream = false) : (c.putEnd flags payload).Sound := by
  unfold Consumer.putEnd
  split_ifs
  · exact h.enqueue (fun hstream => by simp [hflags] at hstream) fun hover => .inl hover
  · exact h

/-- A consumer that has come to its end keeps nothing but its queue. -/
theorem Sound.unwind {c : Consumer}
    (hqueue : ∀ e ∈ c.queue, e.flags.has Flags.stream = true → e.items ≠ []) (closed : Bool)
    (ending : Ending) : (c.unwind closed ending).Sound := by
  have hinactive : (c.unwind closed ending).phase.active = false := by
    simp only [Consumer.unwind]
    split_ifs <;> rfl
  constructor
  · exact hqueue
  · intro hactive
    simp [hinactive] at hactive
  · intro hactive
    simp [hinactive] at hactive
  · intro hactive
    simp [hinactive] at hactive

/-- The items of a packet are handed out by a consumer that owes less than half. -/
theorem Sound.advance {c : Consumer} (h : c.Sound) (hactive : c.phase.active = true)
    (hphase : c.phase ≠ .returning) (items : List Bytes) (count size : ℕ) :
    (c.advance items count size).Sound := by
  cases items with
  | nil =>
      unfold Consumer.advance Consumer.settle
      constructor
      · exact h.queue
      · intro _ hwaiting
        simp only at hwaiting ⊢
        split_ifs at hwaiting with hhalf
        · exact absurd rfl hwaiting
        · rw [not_or, not_le, not_le] at hhalf
          exact hhalf
      · exact fun _ => h.active hactive
      · exact fun _ => h.failure hactive
  | cons item items =>
      exact ⟨h.queue, fun _ _ => h.owed hactive hphase, fun _ => h.active hactive,
        fun _ => h.failure hactive⟩

theorem Sound.get {c c' : Consumer} (h : c.Sound) {closed : Bool}
    (hget : c.get closed = some c') : c'.Sound := by
  obtain ⟨e, queue, hphase, hqueue, hcases⟩ := get_cases hget
  have htail : ∀ e' ∈ queue, e'.flags.has Flags.stream = true → e'.items ≠ [] :=
    fun e' he' => h.queue e' (hqueue ▸ List.mem_cons_of_mem e he')
  have hactive : c.phase.active = true := by rw [hphase]; rfl
  rcases hcases with ⟨-, rfl⟩ | ⟨hexception, -, rfl⟩ | ⟨-, -, rfl⟩
  · exact Sound.unwind htail _ _
  · have hpop : Sound { c with queue := queue, buffered := c.buffered - e.size } := by
      refine ⟨htail, h.owed, h.active, fun _ hover => ?_⟩
      obtain ⟨e', he', hflags⟩ := h.failure hactive hover
      rw [hqueue] at he'
      rcases List.mem_cons.mp he' with rfl | he'
      · simp [hexception] at hflags
      · exact ⟨e', he', hflags⟩
    exact hpop.advance hactive (by simp [hphase]) _ _ _
  · exact Sound.unwind htail _ _

theorem Sound.next {c c' : Consumer} (h : c.Sound) (hnext : c.next = some c') : c'.Sound := by
  obtain ⟨rest, count, size, hphase, rfl⟩ := next_cases hnext
  exact h.advance (by rw [hphase]; rfl) (by simp [hphase]) _ _ _

theorem Sound.returned {c c' : Consumer} (h : c.Sound) (hreturned : c.returned = some c') :
    c'.Sound := by
  obtain ⟨hphase, rfl⟩ := returned_cases hreturned
  have hactive : c.phase.active = true := by rw [hphase]; rfl
  have hnone : 0 * 2 < maxStreamWindow ∧ 0 * 2 < maxStreamBacklog := by decide
  exact ⟨h.queue, fun _ _ => hnone, fun _ => h.active hactive, fun _ => h.failure hactive⟩

theorem Sound.start {c : Consumer} (h : c.Sound) (hphase : c.phase = .sending) : c.start.Sound := by
  have hactive : c.phase.active = true := by rw [hphase]; rfl
  exact ⟨h.queue, fun _ _ => h.owed hactive (by simp [hphase]), fun _ => h.active hactive,
    fun _ => h.failure hactive⟩

theorem Sound.stopped {c c' : Consumer} (h : c.Sound) (hstopped : c.stopped = some c') :
    c'.Sound := by
  obtain ⟨ending, -, rfl⟩ := stopped_cases hstopped
  constructor
  · exact h.queue
  · intro hactive
    cases hactive
  · intro hactive
    cases hactive
  · intro hactive
    cases hactive

end Consumer

theorem isEmpty_union {sources sources' : Manifest} (h : sources.entries.isEmpty = true)
    (h' : sources'.entries.isEmpty = true) : (sources ∪ sources').entries.isEmpty = true := by
  rw [List.isEmpty_iff] at h h' ⊢
  rw [AList.union_entries, h, h']
  rfl

namespace Session

/-- No item so far brought sources. -/
def Plain (s : Session) : Prop := ∀ i ∈ s.pushed, i.sources.entries.isEmpty = true

/-- What holds of both ends of a stream at each of their awaits. -/
structure Sound (P : Pickle) (s : Session) : Prop where
  maxBytes : s.credit.maxBytes = maxStreamWindow
  maxItems : s.credit.maxItems = maxStreamBacklog
  forward : ∀ m ∈ s.forward, m.Sound P
  buffer : ∀ f ∈ s.buffer.frames, f.length ≤ maxStreamItem
  sources : s.Plain → s.buffer.sources.entries.isEmpty = true
  writer : s.writer.Sound s.Plain
  small : ∀ item, s.phase = .spending item → item.payload.length ≤ maxStreamItem
  asleep : ∀ item, s.phase = .spending item → s.credit.ready = false →
    s.credit.released = false ∧ s.credit.fits item.price = false
  consumer : s.consumer.Sound

variable {P : Pickle} {s s' : Session} {e : SessionEvent} {item : Item}

theorem sound_init (packetId : ℕ) : Sound P (init packetId) where
  maxBytes := rfl
  maxItems := rfl
  forward := by simp [init]
  buffer := by simp [init, StreamBuffer.new]
  sources _ := rfl
  writer := trivial
  small _ h := nomatch h
  asleep _ h := nomatch h
  consumer := Consumer.sound_init

/-- Everything that a pass through `spend` can do to the session. -/
theorem spend_cases (s : Session) (item : Item) :
    (s.credit.released = true ∧ s.spend item = s.finish .returned) ∨
    (s.credit.released = false ∧ s.credit.fits item.price = true ∧
      s.spend item = { s with
        phase := .produce
        credit := { s.credit with
          bytesInFlight := s.credit.bytesInFlight + item.price
          itemsInFlight := s.credit.itemsInFlight + 1 }
        buffer := s.buffer.push item
        pushed := s.pushed ++ [item] }) ∨
    (s.credit.released = false ∧ s.credit.fits item.price = false ∧
      s.spend item = { s with
        phase := .spending item
        credit := { s.credit with ready := false } }) := by
  rcases s.credit.spend_cases item.price with ⟨hreleased, hspend⟩ | ⟨hreleased, hfits, hspend⟩ |
    ⟨hreleased, hfits, hspend⟩
  · exact .inl ⟨hreleased, by simp [spend, hspend]⟩
  · exact .inr (.inl ⟨hreleased, hfits, by simp [spend, hspend]⟩)
  · exact .inr (.inr ⟨hreleased, hfits, by simp [spend, hspend]⟩)

theorem consumer_spend (s : Session) (item : Item) : (s.spend item).consumer = s.consumer := by
  rcases s.spend_cases item with ⟨-, hspend⟩ | ⟨-, -, hspend⟩ | ⟨-, -, hspend⟩ <;> rw [hspend]
  rfl

/-- The consumer takes the items out of every packet that the writer sends. -/
theorem decodePayload_items (P : Pickle) {frames : List Bytes} (sources : Manifest)
    (hlen : ∀ f ∈ frames, f.length ≤ maxStreamItem) :
    decodePayload P true (Except.ok : Bytes → Except DecodeError Bytes) (streamFlags sources)
      (streamPayload P frames sources) = .ok (.items frames) := by
  have hroom : maxStreamItem < 2 ^ 32 := by decide
  have hdecode := decodePayload_streamPayload P Except.ok id (fun f _ => rfl)
    (fun f hf => lt_of_le_of_lt (hlen f hf) hroom) sources (has_batch_streamFlags sources)
    (has_modules_streamFlags sources)
  simpa using hdecode

/-- A packet of items reaches the queue of the consumer. -/
theorem receive_items (s : Session) {frames : List Bytes} (sources : Manifest)
    (hlen : ∀ f ∈ frames, f.length ≤ maxStreamItem) :
    s.receive P ⟨streamFlags sources, streamPayload P frames sources⟩ =
      { s with
        consumer := (s.consumer.handleStreamItem s.packetId (streamFlags sources) (.items frames)
          (streamPayload P frames sources).length) } := by
  simp [receive, decodePacket, decodePayload_items P sources hlen]

/-- The ordinary response is handed to a task of its own. -/
theorem receive_response (s : Session) (payload : Bytes) :
    s.receive P ⟨Flags.rpc ||| Flags.response, payload⟩ =
      { s with responding := some (.value payload) } := by
  have hmodules : (Flags.rpc ||| Flags.response).has Flags.modules = false := by decide
  have hbatch : (Flags.rpc ||| Flags.response).has Flags.batch = false := by decide
  have hexception : (Flags.rpc ||| Flags.response).has Flags.exception = false := by decide
  have hstream : (Flags.rpc ||| Flags.response).has Flags.stream = false := by decide
  simp [receive, decodePacket, decodePayload, openEnvelope, hmodules, hbatch, hexception,
    hstream, Except.map]

/-- A failure of the method goes to the queue at once. -/
theorem receive_failure (s : Session) (payload : Bytes) :
    s.receive P ⟨Flags.exception ||| Flags.response, payload⟩ =
      { s with consumer :=
          s.consumer.putEnd (Flags.exception ||| Flags.response) (.value payload) } := by
  have hmodules : (Flags.exception ||| Flags.response).has Flags.modules = false := by decide
  have hbatch : (Flags.exception ||| Flags.response).has Flags.batch = false := by decide
  have hexception : (Flags.exception ||| Flags.response).has Flags.exception = true := by decide
  simp [receive, decodePacket, decodePayload, openEnvelope, hmodules, hbatch, hexception,
    Except.map]

theorem Sound.finish (h : s.Sound P) (outcome : Outcome) : (s.finish outcome).Sound P :=
  ⟨h.maxBytes, h.maxItems, h.forward, h.buffer, h.sources, h.writer, nofun, nofun, h.consumer⟩

/-- A paid item goes to the buffer. -/
theorem Sound.spend (h : s.Sound P) (hsmall : item.payload.length ≤ maxStreamItem) :
    (s.spend item).Sound P := by
  rcases s.spend_cases item with ⟨-, hspend⟩ | ⟨-, -, hspend⟩ | ⟨hreleased, hfits, hspend⟩
  · rw [hspend]
    exact h.finish .returned
  · rw [hspend]
    have hplain : ∀ {s' : Session}, s'.pushed = s.pushed ++ [item] → s'.Plain →
        s.Plain ∧ item.sources.entries.isEmpty = true := by
      intro s' hpushed hs'
      rw [Plain, hpushed] at hs'
      exact ⟨fun i hi => hs' i (List.mem_append_left _ hi), hs' item (by simp)⟩
    refine ⟨h.maxBytes, h.maxItems, h.forward, ?_, ?_, ?_, nofun, nofun, h.consumer⟩
    · intro f hf
      rcases List.mem_append.mp hf with hf | hf
      · exact h.buffer f hf
      · rw [List.mem_singleton.mp hf]
        exact hsmall
    · intro hs'
      obtain ⟨hs, hitem⟩ := hplain rfl hs'
      exact isEmpty_union hitem (h.sources hs)
    · exact h.writer.imp fun hs' => (hplain rfl hs').1
  · rw [hspend]
    refine ⟨h.maxBytes, h.maxItems, h.forward, h.buffer, h.sources, h.writer, ?_, ?_, h.consumer⟩
    · intro i hi
      cases hi
      exact hsmall
    · intro i hi _
      cases hi
      exact ⟨hreleased, hfits⟩

theorem Sound.afterWrite (h : s.Sound P) : s.afterWrite.Sound P := by
  refine ⟨h.maxBytes, h.maxItems, h.forward, h.buffer, h.sources, ?_, h.small, h.asleep,
    h.consumer⟩
  unfold Session.afterWrite
  split_ifs <;> trivial

theorem Sound.flush (h : s.Sound P) : s.flush.Sound P := by
  have hempty : Sound P { s with
      buffer := { s.buffer with frames := [], sources := ∅, ready := false } } :=
    ⟨h.maxBytes, h.maxItems, h.forward, nofun, fun _ => rfl, h.writer, h.small, h.asleep,
      h.consumer⟩
  unfold Session.flush
  split_ifs with hframes
  · exact hempty.afterWrite
  · refine ⟨h.maxBytes, h.maxItems, h.forward, nofun, fun _ => rfl, ?_, h.small, h.asleep,
      h.consumer⟩
    exact ⟨by simpa using hframes, h.buffer, h.sources⟩

theorem Sound.handleStreamCredit (h : s.Sound P) (message : Back) :
    (s.handleStreamCredit message).Sound P := by
  unfold Session.handleStreamCredit
  split
  · exact ⟨h.maxBytes, h.maxItems, h.forward, h.buffer, h.sources, h.writer, h.small, nofun,
      h.consumer⟩
  · rename_i bytes items
    split
    · rename_i credit hcredit
      obtain ⟨hbytes, hitems⟩ := StreamCredit.le_of_giveBack hcredit
      rw [StreamCredit.giveBack_of_le hbytes hitems] at hcredit
      obtain rfl := Except.ok.inj hcredit
      exact ⟨h.maxBytes, h.maxItems, h.forward, h.buffer, h.sources, h.writer, h.small, nofun,
        h.consumer⟩
    · exact ⟨h.maxBytes, h.maxItems, h.forward, h.buffer, h.sources, h.writer, h.small, nofun,
        h.consumer⟩

/-- The consumer alone moves. -/
theorem Sound.setConsumer (h : s.Sound P) {c : Consumer} (hc : c.Sound) :
    Sound P { s with consumer := c } :=
  ⟨h.maxBytes, h.maxItems, h.forward, h.buffer, h.sources, h.writer, h.small, h.asleep, hc⟩

/-- The packets on the wire change. -/
theorem Sound.setForward (h : s.Sound P) {forward : List Forward}
    (hforward : ∀ m ∈ forward, m.Sound P) : Sound P { s with forward := forward } :=
  ⟨h.maxBytes, h.maxItems, hforward, h.buffer, h.sources, h.writer, h.small, h.asleep, h.consumer⟩

theorem Sound.receive (h : s.Sound P) {m : Forward} (hm : m.Sound P) : (s.receive P m).Sound P := by
  have hstream : (Flags.exception ||| Flags.response).has Flags.stream = false := by decide
  cases hm with
  | items frames sources hne hlen =>
      rw [receive_items s sources hlen]
      exact h.setConsumer (h.consumer.handleStreamItem _ hne)
  | response payload =>
      rw [receive_response]
      exact ⟨h.maxBytes, h.maxItems, h.forward, h.buffer, h.sources, h.writer, h.small, h.asleep,
        h.consumer⟩
  | failure payload =>
      rw [receive_failure]
      exact h.setConsumer (h.consumer.putEnd _ hstream)

theorem Sound.step (h : s.Sound P) (hstep : s.step P e = some s') : s'.Sound P := by
  have hresponse : (Flags.rpc ||| Flags.response).has Flags.stream = false := by decide
  have hset : ∀ {m : Forward}, m.Sound P → ∀ m' ∈ s.forward ++ [m], m'.Sound P := by
    intro m hm m' hm'
    rcases List.mem_append.mp hm' with hm' | hm'
    · exact h.forward m' hm'
    · rw [List.mem_singleton.mp hm']
      exact hm
  have hproduced : ∀ items, Sound P { s with produced := items } := fun _ =>
    ⟨h.maxBytes, h.maxItems, h.forward, h.buffer, h.sources, h.writer, h.small, h.asleep,
      h.consumer⟩
  have hback : ∀ back, Sound P { s with back := back } := fun _ =>
    ⟨h.maxBytes, h.maxItems, h.forward, h.buffer, h.sources, h.writer, h.small, h.asleep,
      h.consumer⟩
  cases step_spec hstep with
  | tooLarge item _ _ => exact (hproduced _).finish _
  | produce item _ hsmall => exact (hproduced _).spend hsmall
  | resume item hphase _ => exact h.spend (h.small item hphase)
  | exhaust _ => exact h.finish _
  | raise text _ => exact h.finish _
  | unwind _ _ => exact h.finish _
  | flush _ _ => exact h.flush
  | sent frames sources hwriter =>
      have hframes := h.writer
      rw [hwriter] at hframes
      exact (h.setForward (hset (.items frames sources hframes.1 hframes.2.1))).afterWrite
  | response payload _ _ =>
      exact ⟨h.maxBytes, h.maxItems, hset (.response payload), h.buffer, h.sources, h.writer,
        nofun, nofun, h.consumer⟩
  | failure payload text _ _ =>
      exact ⟨h.maxBytes, h.maxItems, hset (.failure payload), h.buffer, h.sources, h.writer,
        nofun, nofun, h.consumer⟩
  | silent payload _ _ =>
      exact ⟨h.maxBytes, h.maxItems, h.forward, h.buffer, h.sources, h.writer, nofun, nofun,
        h.consumer⟩
  | credit message back _ _ => exact (hback back).handleStreamCredit message
  | creditLate message back _ _ => exact hback back
  | start hphase => exact h.setConsumer (h.consumer.start hphase)
  | arrive message forward hforward =>
      have hmessage := h.forward message (by rw [hforward]; exact List.mem_cons_self)
      have hrest : ∀ m ∈ forward, m.Sound P :=
        fun m hm => h.forward m (by rw [hforward]; exact List.mem_cons_of_mem _ hm)
      exact (h.setForward hrest).receive hmessage
  | deliverEnd payload _ =>
      exact ⟨h.maxBytes, h.maxItems, h.forward, h.buffer, h.sources, h.writer, h.small, h.asleep,
        h.consumer.putEnd payload hresponse⟩
  | get c hget => exact h.setConsumer (h.consumer.get hget)
  | next c hnext => exact h.setConsumer (h.consumer.next hnext)
  | returned c hreturned =>
      exact (hback (s.back ++ [.permission s.consumer.owedBytes s.consumer.owedItems])).setConsumer
        (h.consumer.returned hreturned)
  | leave c hleave =>
      rw [Consumer.leave_cases hleave]
      exact h.setConsumer (Consumer.Sound.unwind h.consumer.queue _ _)
  | stopped c hstopped =>
      exact (hback (s.back ++ [.stop])).setConsumer (h.consumer.stopped hstopped)

end Session

end Rmote
