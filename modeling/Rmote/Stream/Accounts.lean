import Rmote.Stream.Order

/-!
# Two honest ends agree

The sender charges the pickle of an item and its header, and the consumer gives back
the size of the packets that it received. The two agree as long as no item brings
sources, because an envelope is charged to nobody, and as long as every item fits
`MAX_STREAM_ITEM` together with its header, because the receive loop holds the
header against the item. In every run of such items the consumer never takes an
honest sender for one that ignores its permission, the accounts of the two ends
agree, and the stream ends normally only after all of its items.
-/

namespace Rmote

/-- The item brings no sources and fits with its header. -/
def Item.Slim (i : Item) : Prop := i.sources.entries.isEmpty = true ∧ i.price ≤ maxStreamItem

/-- The items that the sender accepts are slim. -/
def SessionEvent.Slim : SessionEvent → Prop
  | .produce item => item.payload.length ≤ maxStreamItem → item.Slim
  | _ => True

namespace Consumer

/-- The consumer passed no limit, and counts the bytes in its queue. -/
structure Counted (c : Consumer) : Prop where
  within : c.overBudget = false
  buffered : c.registered = true →
    c.buffered = Segments.weight (c.queue.filterMap Entry.segment)
  active : c.registered = true → c.phase.active = true

theorem counted_putEnd {c : Consumer} (h : c.Counted) {flags : Flags} (payload : Decoded Bytes)
    (hflags : flags.has Flags.stream = false) : (c.putEnd flags payload).Counted := by
  have hsegment : Entry.segment ⟨flags, payload, 0⟩ = none := by simp [Entry.segment, hflags]
  unfold putEnd
  split_ifs
  · refine ⟨h.within, fun hregistered => ?_, h.active⟩
    rw [List.filterMap_append, List.filterMap_cons_none hsegment, List.filterMap_nil,
      List.append_nil]
    exact h.buffered hregistered
  · exact h

theorem counted_unwind (c : Consumer) (closed : Bool) (ending : Ending) :
    (c.unwind closed ending).Counted :=
  ⟨rfl, nofun, nofun⟩

theorem counted_get {c c' : Consumer} (h : c.Counted) (hget : c.get false = some c') :
    c'.Counted := by
  obtain ⟨e, queue, hphase, hqueue, hcases⟩ := get_cases hget
  rcases hcases with ⟨-, rfl⟩ | ⟨-, hstream, rfl⟩ | ⟨-, -, rfl⟩
  · exact counted_unwind ..
  · have hsegment : e.segment = some (e.size, e.items.length) := by
      rw [Entry.segment, if_pos hstream]
    refine ⟨by simpa using h.within, fun hregistered => ?_, fun _ => active_advance ..⟩
    rw [registered_advance] at hregistered
    have hbuffered := h.buffered hregistered
    rw [hqueue, List.filterMap_cons_some hsegment, Segments.weight_cons] at hbuffered
    rw [buffered_advance, queue_advance]
    simp only
    omega
  · exact counted_unwind ..

/-- A packet that passes no limit is counted. -/
theorem counted_handleStreamItem {c : Consumer} (h : c.Counted) (packetId : ℕ) {flags : Flags}
    {payload : Decoded Bytes} {size : ℕ} (hflags : flags.has Flags.stream = true)
    (hfits : c.registered = true → c.exceeds size = false) :
    (c.handleStreamItem packetId flags payload size).Counted := by
  have hsegment : Entry.segment ⟨flags, payload, size⟩ =
      some (size, (Entry.items ⟨flags, payload, size⟩).length) := by
    rw [Entry.segment, if_pos hflags]
  unfold handleStreamItem
  split_ifs with hdrop hexceeds
  · exact h
  · have hregistered : c.registered = true := by
      cases hreg : c.registered with
      | true => rfl
      | false => simp [hreg] at hdrop
    rw [hfits hregistered] at hexceeds
    cases hexceeds
  · refine ⟨h.within, fun hregistered => ?_, h.active⟩
    rw [List.filterMap_append, List.filterMap_cons_some hsegment, List.filterMap_nil,
      Segments.weight_append, Segments.weight_cons, Segments.weight_nil, add_zero,
      ← h.buffered hregistered]

theorem exceeds_eq_false {c : Consumer} {size : ℕ} (hqueue : c.queue.length < maxStreamBacklog)
    (hsize : size ≤ maxStreamItem)
    (hroom : c.buffered + size ≤ maxStreamWindow ∨ c.queue = []) : c.exceeds size = false := by
  have hroom' : (c.buffered + size ≤ maxStreamWindow || c.queue.isEmpty) = true := by
    simpa using hroom
  simp [exceeds, hqueue, hsize, hroom']

theorem not_stopping_of_active {phase : ConsumerPhase} (h : phase.active = true)
    (ending : Ending) : phase ≠ .stopping ending := by
  rintro rfl
  cases h

end Consumer

namespace Session

variable {P : Pickle} {s s' : Session} {e : SessionEvent}

/-- Only a user that left stops the sender, and nothing follows its stop. -/
structure Halting (s : Session) : Prop where
  stopping : ∀ ending, s.consumer.phase = .stopping ending → ending = .left
  stop : Back.stop ∈ s.back → s.consumer.phase = .ended .left
  last : s.back.Pairwise fun m _ => m ≠ .stop
  released : s.credit.released = true → s.consumer.phase = .ended .left ∧ s.back = []

theorem Halting.of_eq (h : s.Halting) (hphase : s'.consumer.phase = s.consumer.phase)
    (hback : s'.back = s.back) (hreleased : s'.credit.released = s.credit.released) :
    s'.Halting := by
  constructor
  · rw [hphase]
    exact h.stopping
  · rw [hphase, hback]
    exact h.stop
  · rw [hback]
    exact h.last
  · rw [hphase, hback, hreleased]
    exact h.released

/-- As long as the generator runs, no stop is under way. -/
theorem Halting.running (h : s.Halting) (hended : s.consumer.phase ≠ .ended .left) :
    Back.stop ∉ s.back ∧ s.credit.released = false := by
  refine ⟨fun hstop => hended (h.stop hstop), ?_⟩
  cases hreleased : s.credit.released with
  | false => rfl
  | true => exact absurd (h.released hreleased).1 hended

theorem Halting.consumer (h : s.Halting) (hended : s.consumer.phase ≠ .ended .left) {c : Consumer}
    (hleft : ∀ ending, c.phase = .stopping ending → ending = .left) :
    Halting { s with consumer := c } := by
  obtain ⟨hstop, hreleased⟩ := h.running hended
  refine ⟨hleft, fun hmem => absurd hmem hstop, h.last, fun hrel => ?_⟩
  rw [hreleased] at hrel
  cases hrel

/-- One more message goes back while the generator runs. -/
theorem Halting.append_back (h : s.Halting) (hended : s.consumer.phase ≠ .ended .left)
    {c : Consumer} {message : Back}
    (hleft : ∀ ending, c.phase = .stopping ending → ending = .left)
    (hmessage : message = .stop → c.phase = .ended .left) :
    Halting { s with consumer := c, back := s.back ++ [message] } := by
  obtain ⟨hstop, hreleased⟩ := h.running hended
  refine ⟨hleft, fun hmem => ?_, ?_, fun hrel => ?_⟩
  · rcases List.mem_append.mp hmem with hmem | hmem
    · exact absurd hmem hstop
    · exact hmessage (List.mem_singleton.mp hmem).symm
  · rw [List.pairwise_append]
    refine ⟨h.last, List.pairwise_singleton .., fun m hm _ _ heq => ?_⟩
    rw [heq] at hm
    exact hstop hm
  · rw [hreleased] at hrel
    cases hrel

/-- What a run of slim items keeps. -/
structure Kept (P : Pickle) (s : Session) : Prop where
  sound : s.Sound P
  closing : s.Closing
  ledger : ∃ flight, Ledger P s flight
  ordered : s.Ordered P
  slim : ∀ i ∈ s.pushed, i.Slim
  waiting : ∀ item, s.phase = .spending item → item.Slim
  counted : s.consumer.Counted
  halting : s.Halting

theorem kept_init (packetId : ℕ) : Kept P (init packetId) where
  sound := sound_init packetId
  closing := closing_init packetId
  ledger := ⟨[], ledger_init packetId⟩
  ordered := ordered_init packetId
  slim := by simp [init]
  waiting _ h := nomatch h
  counted := ⟨rfl, fun _ => rfl, fun _ => rfl⟩
  halting := ⟨nofun, nofun, .nil, nofun⟩

theorem Kept.plain (h : Kept P s) : s.Plain := fun i hi => (h.slim i hi).1

theorem Kept.intact (h : Kept P s) (hregistered : s.consumer.registered = true) :
    s.consumer.intact = true := by
  simp [Consumer.intact, hregistered, h.counted.within]

/-- Before a packet of items only packets of items wait in the queue. -/
theorem Ordered.stream_of_mem_queue (h : Ordered P s) (hintact : s.consumer.intact = true)
    {m : Forward} {forward : List Forward} (hforward : s.forward = m :: forward) {e : Entry}
    (he : e ∈ s.consumer.queue) : e.flags.has Flags.stream = true := by
  have hlast := h.last hintact
  rw [line, List.append_assoc] at hlast
  refine (List.pairwise_append.mp hlast).2.2 e.flags (List.mem_map_of_mem he) m.flags ?_
  rw [hforward]
  simp

/-- Each packet in the queue holds an item. -/
theorem length_le_count {queue : List Entry}
    (h : ∀ e ∈ queue, e.flags.has Flags.stream = true ∧ e.items ≠ []) :
    queue.length ≤ Segments.count (queue.filterMap Entry.segment) := by
  induction queue with
  | nil => exact le_rfl
  | cons e queue ih =>
      obtain ⟨hstream, hitems⟩ := h e List.mem_cons_self
      have hrest := ih fun e' he' => h e' (List.mem_cons_of_mem e he')
      have hsegment : e.segment = some (e.size, e.items.length) := by
        rw [Entry.segment, if_pos hstream]
      have hpos : 0 < e.items.length := List.length_pos_iff.mpr hitems
      rw [List.filterMap_cons_some hsegment, Segments.count_cons, List.length_cons]
      omega

/-- A packet of items that arrives passes none of the three limits. -/
theorem Kept.within_limits (h : Kept P s) (hregistered : s.consumer.registered = true)
    {forward : List Forward} {frames : List Bytes} {sources : Manifest} (hne : frames ≠ [])
    (hlen : ∀ f ∈ frames, f.length ≤ maxStreamItem)
    (hforward : s.forward = ⟨streamFlags sources, streamPayload P frames sources⟩ :: forward) :
    s.consumer.queue.length < maxStreamBacklog ∧
      (streamPayload P frames sources).length ≤ maxStreamItem ∧
      (s.consumer.buffered + (streamPayload P frames sources).length ≤ maxStreamWindow ∨
        s.consumer.queue = []) := by
  have hintact := h.intact hregistered
  obtain ⟨flight, hledger⟩ := h.ledger
  obtain ⟨hcovers, hcount⟩ := hledger.full hintact
  obtain ⟨hbacklog, hwindow⟩ := hledger.bounded
  obtain ⟨settled, hsettled⟩ := hledger.latest
  have hweight := (hcovers.weighs hcount).2 h.plain
  have hqueue : s.consumer.queue.length ≤
      Segments.count (s.consumer.queue.filterMap Entry.segment) := by
    refine length_le_count fun e he => ?_
    have hstream := h.ordered.stream_of_mem_queue hintact hforward he
    exact ⟨hstream, h.sound.consumer.queue e he hstream⟩
  have hframes : 0 < frames.length := List.length_pos_iff.mpr hne
  have hsplit : s.segments P = (s.inbound ++ (s.consumer.owedBytes, s.consumer.owedItems) ::
      s.consumer.phase.segment) ++ (s.consumer.queue.filterMap Entry.segment ++
        ((streamPayload P frames sources).length, frames.length) ::
          Session.outbound P { s with forward := forward }) := by
    rw [segments, Consumer.segments, outbound, hforward,
      List.filterMap_cons_some (Forward.segment_items P sources hlen)]
    simp [outbound]
  rw [hsplit] at hcount hweight
  simp only [Segments.count_append, Segments.weight_append, Segments.count_cons,
    Segments.weight_cons] at hcount hweight
  have hbuffered := h.counted.buffered hregistered
  have hroom : maxStreamWindow ≤ maxStreamItem := by decide
  have hsize : (streamPayload P frames sources).length ≤ maxStreamItem := by
    rcases Nat.lt_or_ge flight.length 2 with hone | htwo
    · -- The packet holds the only item in flight.
      obtain ⟨i, hi⟩ : ∃ i, flight = [i] := List.length_eq_one_iff.mp (by omega)
      have hslim := (h.slim i (by rw [hsettled, hi]; simp)).2
      rw [hi] at hweight
      simp only [List.map_cons, List.map_nil, List.sum_cons, List.sum_nil] at hweight
      omega
    · have hsum := hwindow h.plain htwo
      omega
  refine ⟨by omega, hsize, ?_⟩
  cases hq : s.consumer.queue with
  | nil => exact .inr rfl
  | cons e queue =>
      have hlength : 0 < s.consumer.queue.length := by rw [hq]; exact Nat.succ_pos _
      have hsum := hwindow h.plain (by omega)
      exact .inl (by omega)

/-- The items that are paid stay slim. -/
theorem slim_spend {item : Item} (hslim : ∀ i ∈ s.pushed, i.Slim) (hitem : item.Slim) :
    (∀ i ∈ (s.spend item).pushed, i.Slim) ∧
      ∀ i, (s.spend item).phase = .spending i → i.Slim := by
  rcases s.spend_cases item with ⟨-, hspend⟩ | ⟨-, -, hspend⟩ | ⟨-, -, hspend⟩
  · rw [hspend]
    exact ⟨hslim, nofun⟩
  · rw [hspend]
    refine ⟨fun i hi => ?_, nofun⟩
    rcases List.mem_append.mp hi with hi | hi
    · exact hslim i hi
    · rw [List.mem_singleton.mp hi]
      exact hitem
  · rw [hspend]
    refine ⟨hslim, fun i hi => ?_⟩
    cases hi
    exact hitem

theorem slim_step (h : Kept P s) (hslim : e.Slim) (hstep : s.step P e = some s') :
    (∀ i ∈ s'.pushed, i.Slim) ∧ ∀ i, s'.phase = .spending i → i.Slim := by
  cases step_spec hstep with
  | tooLarge item _ _ => exact ⟨h.slim, nofun⟩
  | produce item _ hsmall =>
      exact slim_spend (s := { s with produced := s.produced ++ [item] }) h.slim (hslim hsmall)
  | resume item hphase _ => exact slim_spend h.slim (h.waiting item hphase)
  | exhaust _ => exact ⟨h.slim, nofun⟩
  | raise text _ => exact ⟨h.slim, nofun⟩
  | unwind _ _ => exact ⟨h.slim, nofun⟩
  | flush _ _ =>
      unfold Session.flush
      split_ifs <;> exact ⟨h.slim, h.waiting⟩
  | sent frames sources _ => exact ⟨h.slim, h.waiting⟩
  | response payload _ _ => exact ⟨h.slim, nofun⟩
  | failure payload text _ _ => exact ⟨h.slim, nofun⟩
  | silent payload _ _ => exact ⟨h.slim, nofun⟩
  | credit message back _ _ =>
      obtain ⟨credit, cancelling, heq, -⟩ := handleStreamCredit_eq { s with back := back } message
      rw [heq]
      exact ⟨h.slim, h.waiting⟩
  | creditLate message back _ _ => exact ⟨h.slim, h.waiting⟩
  | start _ => exact ⟨h.slim, h.waiting⟩
  | arrive message forward _ =>
      obtain ⟨c, responding, heq⟩ := receive_eq P { s with forward := forward } message
      rw [heq]
      exact ⟨h.slim, h.waiting⟩
  | deliverEnd payload _ => exact ⟨h.slim, h.waiting⟩
  | get c _ => exact ⟨h.slim, h.waiting⟩
  | next c _ => exact ⟨h.slim, h.waiting⟩
  | returned c _ => exact ⟨h.slim, h.waiting⟩
  | leave c _ => exact ⟨h.slim, h.waiting⟩
  | stopped c _ => exact ⟨h.slim, h.waiting⟩

theorem halting_spend (h : s.Halting) (item : Item) : (s.spend item).Halting := by
  rcases s.spend_cases item with ⟨-, hspend⟩ | ⟨-, -, hspend⟩ | ⟨-, -, hspend⟩ <;> rw [hspend]
  · exact h.of_eq rfl rfl rfl
  · exact h.of_eq rfl rfl rfl
  · exact h.of_eq rfl rfl rfl

/-- A message is taken that stops nothing. -/
theorem halting_pop (h : s.Halting) {message : Back} {back : List Back}
    (hback : s.back = message :: back) (hphase : s'.consumer.phase = s.consumer.phase)
    (hnext : s'.back = back) (hreleased : s'.credit.released = s.credit.released) :
    s'.Halting := by
  constructor
  · rw [hphase]
    exact h.stopping
  · rw [hphase, hnext]
    exact fun hmem => h.stop (by rw [hback]; exact List.mem_cons_of_mem _ hmem)
  · rw [hnext]
    have hlast := h.last
    rw [hback] at hlast
    exact (List.pairwise_cons.mp hlast).2
  · rw [hphase, hnext, hreleased]
    intro hrel
    have hnone := (h.released hrel).2
    rw [hback] at hnone
    cases hnone

/-- The receive loop refuses no packet, and the consumer counts what it has. -/
theorem counted_step (h : Kept P s) (hstep : s.step P e = some s') : s'.consumer.Counted := by
  have hresponse : (Flags.rpc ||| Flags.response).has Flags.stream = false := by decide
  have hexception : (Flags.exception ||| Flags.response).has Flags.stream = false := by decide
  cases step_spec hstep with
  | tooLarge item _ _ => exact h.counted
  | produce item _ _ =>
      rw [consumer_spend]
      exact h.counted
  | resume item _ _ =>
      rw [consumer_spend]
      exact h.counted
  | exhaust _ => exact h.counted
  | raise text _ => exact h.counted
  | unwind _ _ => exact h.counted
  | flush _ _ =>
      unfold Session.flush
      split_ifs <;> exact h.counted
  | sent frames sources _ => exact h.counted
  | response payload _ _ => exact h.counted
  | failure payload text _ _ => exact h.counted
  | silent payload _ _ => exact h.counted
  | credit message back _ _ =>
      obtain ⟨credit, cancelling, heq, -⟩ := handleStreamCredit_eq { s with back := back } message
      rw [heq]
      exact h.counted
  | creditLate message back _ _ => exact h.counted
  | start _ => exact ⟨h.counted.within, h.counted.buffered, fun _ => rfl⟩
  | arrive message forward hforward =>
      have hmessage := h.sound.forward message (by rw [hforward]; exact List.mem_cons_self)
      cases hmessage with
      | items frames sources hne hlen =>
          rw [receive_items _ sources hlen]
          refine Consumer.counted_handleStreamItem h.counted _ (has_stream_streamFlags sources) ?_
          intro hregistered
          obtain ⟨hqueue, hsize, hroom⟩ := h.within_limits hregistered hne hlen hforward
          exact Consumer.exceeds_eq_false hqueue hsize hroom
      | response payload =>
          rw [receive_response]
          exact h.counted
      | failure payload =>
          rw [receive_failure]
          exact Consumer.counted_putEnd h.counted _ hexception
  | deliverEnd payload _ => exact Consumer.counted_putEnd h.counted _ hresponse
  | get c hget => exact Consumer.counted_get h.counted hget
  | next c hnext =>
      obtain ⟨rest, count, size, -, rfl⟩ := Consumer.next_cases hnext
      exact ⟨by simpa using h.counted.within, by simpa using h.counted.buffered,
        fun _ => Consumer.active_advance ..⟩
  | returned c hreturned =>
      obtain ⟨-, rfl⟩ := Consumer.returned_cases hreturned
      exact ⟨h.counted.within, h.counted.buffered, fun _ => rfl⟩
  | leave c hleave =>
      rw [Consumer.leave_cases hleave]
      exact Consumer.counted_unwind ..
  | stopped c hstopped =>
      obtain ⟨ending, hphase, rfl⟩ := Consumer.stopped_cases hstopped
      refine ⟨h.counted.within, h.counted.buffered, fun hregistered => ?_⟩
      have hactive := h.counted.active hregistered
      rw [hphase] at hactive
      cases hactive

/-- A permission never names more than the sender has in flight. -/
theorem Kept.permission_le (h : Kept P s) {b k : ℕ} {back : List Back}
    (hback : s.back = .permission b k :: back) (hregistered : s.registered = true) :
    b ≤ s.credit.bytesInFlight ∧ k ≤ s.credit.itemsInFlight := by
  have hreleased : s.credit.released = false := by
    cases hreleased : s.credit.released with
    | false => rfl
    | true =>
        have hnone := (h.halting.released hreleased).2
        rw [hback] at hnone
        cases hnone
  obtain ⟨flight, hledger⟩ := h.ledger
  obtain ⟨hitems, -, hbytes⟩ := hledger.credit hregistered hreleased
  have hcovers := hledger.back
  rw [inbound, hback] at hcovers
  obtain ⟨hk, hweighs, -⟩ := hcovers
  rw [hbytes h.plain, hitems, hweighs.2 h.plain]
  refine ⟨?_, hk⟩
  calc ((flight.take k).map Item.price).sum
      ≤ ((flight.take k).map Item.price).sum + ((flight.drop k).map Item.price).sum :=
        Nat.le_add_right ..
    _ = (flight.map Item.price).sum := by
        rw [← List.sum_append, ← List.map_append, List.take_append_drop]

theorem halting_step (h : Kept P s) (hstep : s.step P e = some s') : s'.Halting := by
  cases step_spec hstep with
  | tooLarge item _ _ => exact h.halting.of_eq rfl rfl rfl
  | produce item _ _ =>
      have hspend := halting_spend (s := { s with produced := s.produced ++ [item] })
      exact hspend (h.halting.of_eq rfl rfl rfl) item
  | resume item _ _ => exact halting_spend h.halting item
  | exhaust _ => exact h.halting.of_eq rfl rfl rfl
  | raise text _ => exact h.halting.of_eq rfl rfl rfl
  | unwind _ _ => exact h.halting.of_eq rfl rfl rfl
  | flush _ _ =>
      unfold Session.flush
      split_ifs <;> exact h.halting.of_eq rfl rfl rfl
  | sent frames sources _ => exact h.halting.of_eq rfl rfl rfl
  | response payload _ _ => exact h.halting.of_eq rfl rfl rfl
  | failure payload text _ _ => exact h.halting.of_eq rfl rfl rfl
  | silent payload _ _ => exact h.halting.of_eq rfl rfl rfl
  | credit message back hback hregistered =>
      cases message with
      | stop =>
          have hended := h.halting.stop (by rw [hback]; exact List.mem_cons_self)
          have hlast := h.halting.last
          rw [hback] at hlast
          have hnone : back = [] := by
            rw [List.eq_nil_iff_forall_not_mem]
            exact fun m hm => (List.pairwise_cons.mp hlast).1 m hm rfl
          refine ⟨h.halting.stopping, fun _ => hended, ?_, fun _ => ⟨hended, hnone⟩⟩
          exact (List.pairwise_cons.mp hlast).2
      | permission b k =>
          obtain ⟨hbytes, hitems⟩ := h.permission_le hback hregistered
          simp only [Session.handleStreamCredit, StreamCredit.giveBack_of_le hbytes hitems]
          exact halting_pop h.halting hback rfl rfl rfl
  | creditLate message back hback _ => exact halting_pop h.halting hback rfl rfl rfl
  | start hphase => exact h.halting.consumer (by simp [hphase]) (by simp [Consumer.start])
  | arrive message forward hforward =>
      have hmessage := h.sound.forward message (by rw [hforward]; exact List.mem_cons_self)
      cases hmessage with
      | items frames sources hne hlen =>
          rw [receive_items _ sources hlen]
          exact h.halting.of_eq (Consumer.phase_handleStreamItem ..) rfl rfl
      | response payload =>
          rw [receive_response]
          exact h.halting.of_eq rfl rfl rfl
      | failure payload =>
          rw [receive_failure]
          exact h.halting.of_eq (Consumer.phase_putEnd ..) rfl rfl
  | deliverEnd payload _ => exact h.halting.of_eq (Consumer.phase_putEnd ..) rfl rfl
  | get c hget =>
      obtain ⟨e, queue, hphase, -, hcases⟩ := Consumer.get_cases hget
      refine h.halting.consumer (by simp [hphase]) ?_
      rcases hcases with ⟨-, rfl⟩ | ⟨-, -, rfl⟩ | ⟨-, -, rfl⟩
      · simp [Consumer.unwind]
      · have hactive := Consumer.active_advance
          { s.consumer with queue := queue, buffered := s.consumer.buffered - e.size }
        exact fun ending hending =>
          absurd hending (Consumer.not_stopping_of_active (hactive ..) ending)
      · simp [Consumer.unwind]
  | next c hnext =>
      obtain ⟨rest, count, size, hphase, rfl⟩ := Consumer.next_cases hnext
      refine h.halting.consumer (by simp [hphase]) ?_
      exact fun ending hending =>
        absurd hending (Consumer.not_stopping_of_active (Consumer.active_advance ..) ending)
  | returned c hreturned =>
      obtain ⟨hphase, rfl⟩ := Consumer.returned_cases hreturned
      exact h.halting.append_back (by simp [hphase]) (by simp) (by simp)
  | leave c hleave =>
      refine h.halting.consumer (fun hended => ?_) fun ending hending => ?_
      · simp [Consumer.leave, hended] at hleave
      · rw [Consumer.leave_cases hleave, Consumer.unwind] at hending
        simp only at hending
        split_ifs at hending
        exact (ConsumerPhase.stopping.inj hending).symm
  | stopped c hstopped =>
      obtain ⟨ending, hphase, rfl⟩ := Consumer.stopped_cases hstopped
      obtain rfl := h.halting.stopping ending hphase
      exact h.halting.append_back (by simp [hphase]) (by simp) fun _ => rfl

theorem Kept.step (h : Kept P s) (hslim : e.Slim) (hstep : s.step P e = some s') : Kept P s' := by
  obtain ⟨flight, hledger⟩ := h.ledger
  obtain ⟨hpushed, hwaiting⟩ := slim_step h hslim hstep
  exact ⟨h.sound.step hstep, h.closing.step hstep, hledger.step h.sound hstep,
    h.ordered.step h.sound h.closing h.counted.within hstep, hpushed, hwaiting, counted_step h hstep,
    halting_step h hstep⟩

theorem kept_run (packetId : ℕ) {es : List SessionEvent} (hslim : ∀ e ∈ es, e.Slim)
    (hrun : Machine.run (step P) (init packetId) es = some s) : Kept P s := by
  have hmeets : Machine.meets (step P) (fun _ e => e.Slim) (init packetId) es :=
    Machine.meets_of_forall_mem _ fun e he _ => hslim e he
  exact Machine.run_invariant (Kept P) (fun _ _ _ h hok hstep => h.step hok hstep) hrun hmeets
    (kept_init packetId)

/-- The first item is on the wire, and the consumer waits for it. -/
def firstSent (P : Pickle) (i : Item) : Session :=
  { init 1 with
    credit := { StreamCredit.new maxStreamWindow maxStreamBacklog with
      bytesInFlight := i.price
      itemsInFlight := 1 }
    forward := [⟨streamFlags i.sources, streamPayload P [i.payload] i.sources⟩]
    consumer := Consumer.init.start
    produced := [i]
    pushed := [i] }

/-- The consumer handed the first item to its user, and owes its packet. -/
def firstTaken (P : Pickle) (i : Item) : Session :=
  { firstSent P i with
    forward := []
    consumer := { Consumer.init with delivered := [i.payload] }.settle 1
      (streamPayload P [i.payload] i.sources).length }

theorem run_firstSent (P : Pickle) {i : Item} (hsmall : i.payload.length ≤ maxStreamItem) :
    Machine.run (step P) (init 1) [.produce i, .flush, .sent, .start] = some (firstSent P i) := by
  have hroom : ¬ maxStreamItem < i.payload.length := not_lt.mpr hsmall
  have hfits : (StreamCredit.new maxStreamWindow maxStreamBacklog).fits i.price = true :=
    StreamCredit.fits_iff.mpr ⟨by decide, .inl rfl⟩
  simp only [Machine.run, step, init, Session.produce, spend, StreamCredit.spend, hroom, hfits,
    if_false, if_true, Option.bind_some, Session.flush, StreamBuffer.push, StreamBuffer.new,
    afterWrite, Consumer.start, Consumer.init]
  simp [firstSent, init, Consumer.start, Consumer.init, StreamBuffer.new, StreamCredit.new]

theorem step_arrive_firstSent (P : Pickle) {i : Item} (hsmall : i.payload.length ≤ maxStreamItem) :
    step P (firstSent P i) .arrive = some { firstSent P i with
      forward := []
      consumer := Consumer.init.start.handleStreamItem 1 (streamFlags i.sources)
        (.items [i.payload]) (streamPayload P [i.payload] i.sources).length } := by
  have hlen : ∀ f ∈ [i.payload], f.length ≤ maxStreamItem := by simpa using hsmall
  exact congrArg some (receive_items { firstSent P i with forward := [] } i.sources hlen)

theorem run_firstTaken (P : Pickle) {i : Item} (hsmall : i.payload.length ≤ maxStreamItem)
    (hsize : (streamPayload P [i.payload] i.sources).length ≤ maxStreamItem) :
    Machine.run (step P) (init 1) [.produce i, .flush, .sent, .start, .arrive, .get, .next] =
      some (firstTaken P i) := by
  refine Machine.run_append_eq_some.mpr ⟨firstSent P i, run_firstSent P hsmall, ?_⟩
  have hexceeds : Consumer.init.start.exceeds
      (streamPayload P [i.payload] i.sources).length = false :=
    Consumer.exceeds_eq_false (by decide) hsize (.inr rfl)
  have hqueue : Consumer.init.start.handleStreamItem 1 (streamFlags i.sources) (.items [i.payload])
      (streamPayload P [i.payload] i.sources).length =
        { Consumer.init.start with
          buffered := 0 + (streamPayload P [i.payload] i.sources).length
          queue := [⟨streamFlags i.sources, .items [i.payload],
            (streamPayload P [i.payload] i.sources).length⟩] } := by
    rw [Consumer.handleStreamItem, if_neg (by decide), hexceeds]
    rfl
  refine Machine.run_cons_eq_some.mpr ⟨_, step_arrive_firstSent P hsmall, ?_⟩
  rw [hqueue]
  simp [Machine.run, step, Consumer.get, Consumer.next, Consumer.start, Consumer.advance,
    Consumer.init, Entry.items, firstTaken, firstSent]
  rfl

/-- The consumer gave the first packet back. -/
def firstGiven (P : Pickle) (i : Item) : Session :=
  { firstSent P i with
    forward := []
    back := [.permission (streamPayload P [i.payload] i.sources).length 1]
    consumer := { Consumer.init with phase := .waiting, delivered := [i.payload] } }

theorem run_firstGiven (P : Pickle) {i : Item} (hsmall : i.payload.length ≤ maxStreamItem)
    (hsize : (streamPayload P [i.payload] i.sources).length ≤ maxStreamItem)
    (hhalf : maxStreamWindow ≤ (streamPayload P [i.payload] i.sources).length * 2) :
    Machine.run (step P) (init 1)
      [.produce i, .flush, .sent, .start, .arrive, .get, .next, .returned] =
        some (firstGiven P i) := by
  refine Machine.run_append_eq_some.mpr ⟨firstTaken P i, run_firstTaken P hsmall hsize, ?_⟩
  simp [Machine.run, step, firstTaken, firstGiven, Consumer.returned, Consumer.settle,
    Consumer.init, firstSent, init, hhalf]

/-- A permission above what is in flight stops the sender, and the consumer takes the
end of the stream for a normal one. -/
theorem run_refused (P : Pickle) {i j : Item} (hj : j.payload.length ≤ maxStreamItem)
    (habove : i.price < (streamPayload P [i.payload] i.sources).length) :
    ∃ s, Machine.run (step P) (firstGiven P i)
        [.credit, .produce j, .flush, .respond [], .arrive, .deliverEnd, .get] = some s ∧
      s.consumer.phase = .ended .complete ∧ s.consumer.delivered = [i.payload] ∧
      s.produced = [i, j] := by
  have herror := @StreamCredit.giveBack_of_lt (firstGiven P i).credit _ 1 habove
  have hroom : ¬ maxStreamItem < j.payload.length := not_lt.mpr hj
  have hcredit : step P (firstGiven P i) .credit = some { firstGiven P i with
      back := []
      credit := (firstGiven P i).credit.release } := by
    have hstep : step P (firstGiven P i) .credit =
        some ({ firstGiven P i with back := [] }.handleStreamCredit
          (.permission (streamPayload P [i.payload] i.sources).length 1)) := rfl
    rw [hstep, Session.handleStreamCredit, herror]
  refine ⟨{ firstGiven P i with
    phase := .done .returned
    credit := (firstGiven P i).credit.release
    buffer := ⟨[], ∅, false, true⟩
    writer := .returned
    back := []
    consumer := { Consumer.init with
      registered := false
      finished := true
      phase := .ended .complete
      delivered := [i.payload] }
    produced := [i, j] }, ?_, rfl, rfl, rfl⟩
  refine Machine.run_cons_eq_some.mpr ⟨_, hcredit, ?_⟩
  simp only [Machine.run, step, firstGiven, Session.produce, spend, StreamCredit.spend,
    StreamCredit.release, hroom, firstSent, init, if_true, if_false, Option.bind_some, finish,
    StreamBuffer.finish]
  simp [Session.flush, StreamBuffer.new, afterWrite, receive_response, Consumer.init,
    Consumer.putEnd, Consumer.get, Consumer.queueSize]
  rw [if_neg (by decide), if_neg (by decide)]
  rfl

/-- The accounts of the two ends agree: a permission names no more than is in flight,
what is in flight is what the places of the stream hold, the sender is released only
for a user that left, and the stream ends normally after all of its items. -/
structure Agree (P : Pickle) (s : Session) : Prop where
  permission : ∀ bytes items back, s.back = .permission bytes items :: back →
    s.registered = true → bytes ≤ s.credit.bytesInFlight ∧ items ≤ s.credit.itemsInFlight
  bytes : s.registered = true → s.consumer.registered = true →
    s.credit.bytesInFlight = Segments.weight (s.segments P)
  items : s.registered = true → s.consumer.registered = true →
    s.credit.itemsInFlight = Segments.count (s.segments P)
  released : s.credit.released = true → s.consumer.phase = .ended .left
  complete : s.consumer.phase = .ended .complete →
    s.consumer.delivered = s.produced.map Item.payload

/-- In every run of slim items the accounts of the two ends agree. -/
theorem accounts_agree (P : Pickle) (packetId : ℕ) {es : List SessionEvent} {s : Session}
    (hslim : ∀ e ∈ es, e.Slim) (hrun : Machine.run (step P) (init packetId) es = some s) :
    s.Agree P := by
  have h := kept_run packetId hslim hrun
  obtain ⟨flight, hledger⟩ := h.ledger
  have hended : s.consumer.registered = true → s.consumer.phase ≠ .ended .left := by
    intro hregistered hphase
    have hactive := h.counted.active hregistered
    rw [hphase] at hactive
    cases hactive
  constructor
  · intro b k back hback hregistered
    exact h.permission_le hback hregistered
  · intro hregistered hconsumer
    obtain ⟨-, hreleased⟩ := h.halting.running (hended hconsumer)
    obtain ⟨hcovers, hcount⟩ := hledger.full (h.intact hconsumer)
    obtain ⟨-, -, hbytes⟩ := hledger.credit hregistered hreleased
    rw [hbytes h.plain, (hcovers.weighs hcount).2 h.plain]
  · intro hregistered hconsumer
    obtain ⟨-, hreleased⟩ := h.halting.running (hended hconsumer)
    rw [(hledger.full (h.intact hconsumer)).2]
    exact (hledger.credit hregistered hreleased).1
  · exact fun hreleased => (h.halting.released hreleased).1
  · intro hcomplete
    obtain ⟨hdone, hdelivered⟩ := h.ordered.complete (.inl hcomplete)
    obtain ⟨-, hreleased⟩ := h.halting.running (by simp [hcomplete])
    rw [hdelivered, h.closing.produced hreleased (.inr (.inr hdone))]

/-- An item of half the window without sources. -/
def half : Item := ⟨List.replicate (2 * 1024 * 1024) 0, ∅⟩

theorem length_half : half.payload.length = 2 * 1024 * 1024 := List.length_replicate

theorem sources_half : half.sources.entries.isEmpty = true := rfl

attribute [irreducible] half

theorem slim_half : half.Slim := by
  refine ⟨sources_half, ?_⟩
  rw [Item.price, length_half]
  decide

theorem length_streamPayload_half (P : Pickle) :
    (streamPayload P [half.payload] half.sources).length = 2 * 1024 * 1024 + 4 := by
  rw [length_streamPayload_of_empty P _ sources_half]
  simp [length_half, itemHeaderSize]

/-- The consumer took an item of half the window, and its permission is on the way. -/
theorem half_accounts_agree :
    ∃ es s, Machine.run (step Pickle.marked) (init 1) es = some s ∧
      s.back = [.permission (2 * 1024 * 1024 + 4) 1] ∧ s.registered = true ∧
      s.Agree Pickle.marked := by
  have hlength := length_streamPayload_half Pickle.marked
  have hrun := run_firstGiven Pickle.marked (i := half) (by rw [length_half]; decide)
    (by rw [hlength]; decide) (by rw [hlength]; decide)
  refine ⟨_, _, hrun, ?_, rfl, accounts_agree Pickle.marked 1 ?_ hrun⟩
  · rw [firstGiven, hlength]
  · simp [SessionEvent.Slim, slim_half]

/-- The source of one small module. -/
def shapes : Manifest := AList.insert "shapes" ⟨"class Shape: pass", "shapes.py", false⟩ ∅

theorem length_shapes (payload : Bytes) :
    (streamPayload Pickle.marked [payload] shapes).length = payload.length + 69 := by
  have hshapes : shapes.entries.isEmpty = false := rfl
  have htext : (manifestText shapes).length = 32 := by decide
  rw [streamPayload, hshapes]
  simp [Pickle.marked, length_batch, htext, itemHeaderSize, List.length_flatMap]
  omega

/-- An item of half the window that brings the source of its class. -/
def sourced : Item := ⟨List.replicate (2 * 1024 * 1024) 0, shapes⟩

theorem length_sourced : sourced.payload.length = 2 * 1024 * 1024 := List.length_replicate

theorem sources_sourced : sourced.sources = shapes := rfl

attribute [irreducible] sourced

/-- A permission for a packet with sources is above what is in flight, and the stream
ends normally before its second item. -/
theorem sourced_ends_early :
    ∃ es es' s s', Machine.run (step Pickle.marked) (init 1) es = some s ∧
      Machine.run (step Pickle.marked) s es' = some s' ∧
      (∃ bytes, s.back = [.permission bytes 1] ∧ s.registered = true ∧
        s.credit.bytesInFlight < bytes) ∧
      ¬ s.Agree Pickle.marked ∧
      s'.consumer.phase = .ended .complete ∧ s'.consumer.delivered = [sourced.payload] ∧
      s'.produced = [sourced, sourced] := by
  have hlength : (streamPayload Pickle.marked [sourced.payload] sourced.sources).length =
      2 * 1024 * 1024 + 69 := by
    rw [sources_sourced, length_shapes, length_sourced]
  have hsmall : sourced.payload.length ≤ maxStreamItem := by
    rw [length_sourced]
    decide
  have habove : sourced.price <
      (streamPayload Pickle.marked [sourced.payload] sourced.sources).length := by
    rw [hlength, Item.price, length_sourced]
    decide
  obtain ⟨s', hrun, hphase, hdelivered, hproduced⟩ := run_refused Pickle.marked hsmall habove
  refine ⟨_, _, _, s', run_firstGiven Pickle.marked hsmall ?_ ?_, hrun, ⟨_, rfl, rfl, habove⟩,
    fun hagree => ?_, hphase, hdelivered, hproduced⟩
  · rw [hlength]
    decide
  · rw [hlength]
    decide
  · exact absurd (hagree.permission _ _ _ rfl rfl).1 (not_le.mpr habove)

/-- In every run of slim items the receive loop of the consumer takes every packet: the
queue has room, the packet is within `MAX_STREAM_ITEM`, and the bytes that wait are
within the window unless the queue is empty. -/
theorem never_over_budget (P : Pickle) (packetId : ℕ) {es : List SessionEvent} {s : Session}
    (hslim : ∀ e ∈ es, e.Slim) (hrun : Machine.run (step P) (init packetId) es = some s) :
    s.consumer.overBudget = false ∧
      ∀ m forward, s.forward = m :: forward → m.flags.has Flags.stream = true →
        s.consumer.registered = true →
          s.consumer.queue.length < maxStreamBacklog ∧ m.payload.length ≤ maxStreamItem ∧
          (s.consumer.buffered + m.payload.length ≤ maxStreamWindow ∨ s.consumer.queue = []) := by
  have hresponse : (Flags.rpc ||| Flags.response).has Flags.stream = false := by decide
  have hexception : (Flags.exception ||| Flags.response).has Flags.stream = false := by decide
  have h := kept_run packetId hslim hrun
  refine ⟨h.counted.within, fun m forward hforward hstream hregistered => ?_⟩
  cases h.sound.forward m (by rw [hforward]; exact List.mem_cons_self) with
  | items frames sources hne hlen => exact h.within_limits hregistered hne hlen hforward
  | response payload =>
      rw [hresponse] at hstream
      cases hstream
  | failure payload =>
      rw [hexception] at hstream
      cases hstream

/-- The packet of an item of half the window is about to arrive. -/
theorem half_within_limits :
    ∃ es s m, Machine.run (step Pickle.marked) (init 1) es = some s ∧ s.forward = [m] ∧
      m.flags.has Flags.stream = true ∧ s.consumer.registered = true ∧
      s.consumer.overBudget = false ∧ m.payload.length ≤ maxStreamItem := by
  have hrun := run_firstSent Pickle.marked (i := half) (by rw [length_half]; decide)
  obtain ⟨hbudget, hlimits⟩ := never_over_budget Pickle.marked 1
    (by simp [SessionEvent.Slim, slim_half]) hrun
  have hstream := has_stream_streamFlags half.sources
  exact ⟨_, _, _, hrun, rfl, hstream, rfl, hbudget, (hlimits _ _ rfl hstream rfl).2.1⟩

/-- The largest item that the sender accepts. -/
def largest : Item := ⟨List.replicate maxStreamItem 0, ∅⟩

theorem length_largest : largest.payload.length = maxStreamItem := List.length_replicate

theorem sources_largest : largest.sources.entries.isEmpty = true := rfl

attribute [irreducible] largest

/-- The packet of an accepted item is larger than `MAX_STREAM_ITEM` by its header, and the
consumer takes its sender for one that ignores its permission. -/
theorem largest_over_budget :
    largest.payload.length ≤ maxStreamItem ∧
      ∃ s, Machine.run (step Pickle.marked) (init 1)
          [.produce largest, .flush, .sent, .start, .arrive] = some s ∧
        s.consumer.overBudget = true := by
  have hsmall : largest.payload.length ≤ maxStreamItem := length_largest.le
  have hlength : (streamPayload Pickle.marked [largest.payload] largest.sources).length =
      maxStreamItem + 4 := by
    rw [length_streamPayload_of_empty Pickle.marked _ sources_largest]
    simp [length_largest, itemHeaderSize]
  have hexceeds : Consumer.init.start.exceeds
      (streamPayload Pickle.marked [largest.payload] largest.sources).length = true := by
    rw [hlength]
    decide
  refine ⟨hsmall, _, Machine.run_append_eq_some.mpr ⟨_, run_firstSent Pickle.marked hsmall,
    Machine.run_cons_eq_some.mpr ⟨_, step_arrive_firstSent Pickle.marked hsmall, rfl⟩⟩, ?_⟩
  rw [Consumer.handleStreamItem, if_neg (by decide), if_pos hexceeds]

end Session

end Rmote
