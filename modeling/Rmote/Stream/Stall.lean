import Mathlib.Algebra.Order.BigOperators.Group.List
import Rmote.Stream.Accounts

/-!
# When a stream stalls

The sender waits until an item fits into the window beside the items in flight, and the
consumer gives nothing back before half of the window or half of the backlog is owed.
The two thresholds miss each other: a few small items that the consumer owes and an
item that does not fit beside them stop the stream for good.

A stall needs a place in the stream behind which nothing was given back. `Settles` are
the beginnings of a stream that the consumer can have given back: group after group,
each of which was in flight at once and is half of a budget. A stream that `Flows` has
no such place with a few items and one that does not fit behind it, and no run of it
comes to a stall.
-/

namespace Rmote

/-- What the sender pays for the items. -/
def total (items : List Item) : ℕ := (items.map Item.price).sum

@[simp] theorem total_nil : total [] = 0 := rfl

@[simp] theorem total_append (items items' : List Item) :
    total (items ++ items') = total items + total items' := by
  simp [total]

theorem total_le_of_sublist {items items' : List Item} (h : items.Sublist items') :
    total items ≤ total items' :=
  (h.map Item.price).sum_le_sum fun _ _ => Nat.zero_le _

/-- The items can be in flight at once. -/
def Together (items : List Item) : Prop :=
  items.length ≤ maxStreamBacklog ∧ (items.length = 1 ∨ total items ≤ maxStreamWindow)

/-- Half of a budget: the consumer gives the items back. -/
def Due (items : List Item) : Prop :=
  maxStreamWindow ≤ total items * 2 ∨ maxStreamBacklog ≤ items.length * 2

/-- The beginnings of a stream that the consumer can have given back. -/
inductive Settles : List Item → Prop where
  | nil : Settles []
  | append {before group : List Item} (h : Settles before) (htogether : Together group)
      (hdue : Due group) : Settles (before ++ group)

/-- The consumer does not give back the items that it owes, and the next one does not fit
beside them. -/
def Misses (owed : List Item) (next : Item) : Prop :=
  owed ≠ [] ∧ ¬ Due owed ∧ maxStreamWindow < total owed + next.price

/-- Behind every place of the stream that can be given back, or behind every place at all
once an item brought sources, the items that the consumer may owe leave room for the
next one. -/
def Flows (items : List Item) : Prop :=
  ∀ before owed next after, items = before ++ owed ++ next :: after →
    Settles before ∨ (∃ i ∈ before ++ owed, i.sources.entries.isEmpty = false) →
      ¬ Misses owed next

namespace Consumer

/-- A consumer that sends a permission owes half of a budget. -/
structure Returns (c : Consumer) : Prop where
  half : c.phase = .returning →
    maxStreamWindow ≤ c.owedBytes * 2 ∨ maxStreamBacklog ≤ c.owedItems * 2

theorem returns_of_phase {c : Consumer} (h : c.phase ≠ .returning) : c.Returns :=
  ⟨fun hphase => absurd hphase h⟩

theorem returns_advance (c : Consumer) (items : List Bytes) (count size : ℕ) :
    (c.advance items count size).Returns := by
  cases items with
  | nil =>
      refine ⟨fun hphase => ?_⟩
      simp only [advance, settle] at hphase ⊢
      split_ifs at hphase with hhalf
      exact hhalf
  | cons item items => exact returns_of_phase (by simp [advance])

theorem returns_unwind (c : Consumer) (closed : Bool) (ending : Ending) :
    (c.unwind closed ending).Returns := by
  refine returns_of_phase ?_
  simp only [unwind]
  split_ifs <;> simp

theorem Returns.of_eq {c c' : Consumer} (h : c.Returns) (hphase : c'.phase = c.phase)
    (hbytes : c'.owedBytes = c.owedBytes) (hitems : c'.owedItems = c.owedItems) : c'.Returns := by
  refine ⟨?_⟩
  rw [hphase, hbytes, hitems]
  exact h.half

theorem Returns.putEnd {c : Consumer} (h : c.Returns) (flags : Flags) (payload : Decoded Bytes) :
    (c.putEnd flags payload).Returns := by
  unfold Consumer.putEnd
  split_ifs
  · exact h.of_eq rfl rfl rfl
  · exact h

theorem Returns.handleStreamItem {c : Consumer} (h : c.Returns) (packetId : ℕ) (flags : Flags)
    (payload : Decoded Bytes) (size : ℕ) :
    (c.handleStreamItem packetId flags payload size).Returns := by
  unfold Consumer.handleStreamItem
  split_ifs
  · exact h
  · exact h.of_eq rfl rfl rfl
  · exact h.of_eq rfl rfl rfl

theorem Returns.get {c c' : Consumer} {closed : Bool} (hget : c.get closed = some c') :
    c'.Returns := by
  obtain ⟨e, queue, -, -, hcases⟩ := get_cases hget
  rcases hcases with ⟨-, rfl⟩ | ⟨-, -, rfl⟩ | ⟨-, -, rfl⟩
  · exact returns_unwind ..
  · exact returns_advance ..
  · exact returns_unwind ..

end Consumer

namespace Session

variable {P : Pickle} {s s' : Session} {e : SessionEvent}

theorem returns_step (h : s.consumer.Returns) (hs : s.Sound P) (hstep : s.step P e = some s') :
    s'.consumer.Returns := by
  cases step_spec hstep with
  | tooLarge item _ _ => exact h
  | produce item _ _ =>
      rw [consumer_spend]
      exact h
  | resume item _ _ =>
      rw [consumer_spend]
      exact h
  | exhaust _ => exact h
  | raise text _ => exact h
  | unwind _ _ => exact h
  | flush _ _ =>
      unfold Session.flush
      split_ifs <;> exact h
  | sent frames sources _ => exact h
  | response payload _ _ => exact h
  | failure payload text _ _ => exact h
  | silent payload _ _ => exact h
  | credit message back _ _ =>
      obtain ⟨credit, cancelling, heq, -⟩ := handleStreamCredit_eq { s with back := back } message
      rw [heq]
      exact h
  | creditLate message back _ _ => exact h
  | start _ => exact Consumer.returns_of_phase nofun
  | arrive message forward hforward =>
      cases hs.forward message (by rw [hforward]; exact List.mem_cons_self) with
      | items frames sources _ hlen =>
          rw [receive_items _ sources hlen]
          exact h.handleStreamItem ..
      | response payload =>
          rw [receive_response]
          exact h
      | failure payload =>
          rw [receive_failure]
          exact h.putEnd ..
  | deliverEnd payload _ => exact h.putEnd ..
  | get c hget => exact Consumer.Returns.get hget
  | next c hnext =>
      obtain ⟨rest, count, size, -, rfl⟩ := Consumer.next_cases hnext
      exact Consumer.returns_advance ..
  | returned c hreturned =>
      obtain ⟨-, rfl⟩ := Consumer.returned_cases hreturned
      exact Consumer.returns_of_phase nofun
  | leave c hleave =>
      rw [Consumer.leave_cases hleave]
      exact Consumer.returns_unwind ..
  | stopped c hstopped =>
      obtain ⟨ending, -, rfl⟩ := Consumer.stopped_cases hstopped
      exact Consumer.returns_of_phase nofun

/-- The items before the `count` oldest items in flight, and those. -/
def settled (s : Session) (count : ℕ) : List Item :=
  s.pushed.take (s.pushed.length - s.credit.itemsInFlight + count)

/-- The sender counts its items, and what was given back, with each further permission on
the way, settles. -/
def Settled (s : Session) : Prop :=
  s.registered = true → s.credit.released = false → s.Plain →
    ∀ l, l <+: s.inbound → Settles (s.settled (Segments.count l))

/-- Once the handler ends its body nothing has to settle. -/
theorem settled_of_unregistered (h : s.registered = false) : s.Settled :=
  fun hregistered => absurd (h.symm.trans hregistered) Bool.false_ne_true

/-- After a stop nothing has to settle. -/
theorem settled_of_released (h : s.credit.released = true) : s.Settled :=
  fun _ hreleased => absurd (hreleased.symm.trans h) Bool.false_ne_true

theorem settled_init (packetId : ℕ) : Settled (init packetId) := by
  intro _ _ _ l hl
  rw [List.prefix_nil.mp hl]
  exact .nil

/-- A step that pays for nothing and takes or sends no permission. -/
theorem Settled.of_eq (h : s.Settled) (hregistered : s'.registered = true → s.registered = true)
    (hreleased : s'.credit.released = false → s.credit.released = false)
    (hitems : s'.credit.itemsInFlight = s.credit.itemsInFlight) (hpushed : s'.pushed = s.pushed)
    (hinbound : s'.inbound = s.inbound) : s'.Settled := by
  intro hreg hrel hplain l hl
  rw [Plain, hpushed] at hplain
  rw [hinbound] at hl
  rw [settled, hpushed, hitems]
  exact h (hregistered hreg) (hreleased hrel) hplain l hl

theorem settled_eq {before flight : List Item} (hpushed : s.pushed = before ++ flight)
    (hitems : s.credit.itemsInFlight = flight.length) (count : ℕ) :
    s.settled count = before ++ flight.take count := by
  rw [settled, hitems, hpushed, List.length_append, Nat.add_sub_cancel,
    List.take_length_add_append]

/-- The permissions on the way name items in flight. -/
theorem Ledger.count_inbound_le {flight : List Item} (h : Ledger P s flight)
    {l : List (ℕ × ℕ)} (hl : l <+: s.inbound) : Segments.count l ≤ flight.length := by
  obtain ⟨rest, hrest⟩ := hl
  have hcovers := h.back
  rw [← hrest] at hcovers
  exact (Segments.covers_append.mp hcovers).1.count_le

/-- A paid item joins behind those in flight. -/
theorem Settled.spend (h : s.Settled) {flight : List Item} (hledger : Ledger P s flight)
    (hregistered : s.registered = true) (item : Item) : (s.spend item).Settled := by
  rcases s.spend_cases item with ⟨-, hspend⟩ | ⟨hreleased, -, hspend⟩ | ⟨-, -, hspend⟩
  · rw [hspend]
    exact h.of_eq (fun _ => hregistered) id rfl rfl rfl
  · rw [hspend]
    intro _ _ hplain l hl
    obtain ⟨before, hbefore⟩ := hledger.latest
    have hitems := (hledger.credit hregistered hreleased).1
    have hcount := hledger.count_inbound_le hl
    have hlength : s.pushed.length = before.length + flight.length := by
      rw [hbefore, List.length_append]
    have hsettles := h hregistered hreleased
      (fun i hi => hplain i (List.mem_append_left _ hi)) l hl
    have hsame : (s.pushed ++ [item]).take
        ((s.pushed ++ [item]).length - (s.credit.itemsInFlight + 1) + Segments.count l) =
          s.settled (Segments.count l) := by
      have hplace : (s.pushed ++ [item]).length - (s.credit.itemsInFlight + 1) +
          Segments.count l = s.pushed.length - s.credit.itemsInFlight + Segments.count l := by
        rw [List.length_append, List.length_singleton]
        omega
      rw [hplace, settled, List.take_append_of_le_length (by omega)]
    rw [settled]
    exact hsame ▸ hsettles
  · rw [hspend]
    exact h.of_eq (fun _ => hregistered) id rfl rfl rfl

/-- A permission that is taken settles its items. -/
theorem Settled.credit (h : s.Settled) {flight : List Item} (hledger : Ledger P s flight)
    {message : Back} {back : List Back} (hback : s.back = message :: back)
    (hregistered : s.registered = true) :
    ({ s with back := back }.handleStreamCredit message).Settled := by
  cases message with
  | stop => exact settled_of_released rfl
  | permission b k =>
      have hinbound : s.inbound = (b, k) :: back.filterMap Back.segment := by
        rw [inbound, hback]
        rfl
      simp only [Session.handleStreamCredit]
      split
      · rename_i credit hcredit
        obtain ⟨hbytes, hitems⟩ := StreamCredit.le_of_giveBack hcredit
        rw [StreamCredit.giveBack_of_le hbytes hitems] at hcredit
        obtain rfl := Except.ok.inj hcredit
        intro _ hrel hplain l hl
        obtain ⟨before, hbefore⟩ := hledger.latest
        have hflight := (hledger.credit hregistered hrel).1
        have hlength : s.pushed.length = before.length + flight.length := by
          rw [hbefore, List.length_append]
        have hl' : (b, k) :: l <+: s.inbound := by
          rw [hinbound]
          exact List.cons_prefix_cons.mpr ⟨rfl, hl⟩
        have hsettles := h hregistered hrel hplain _ hl'
        have hplace : s.pushed.length - (s.credit.itemsInFlight - k) + Segments.count l =
            s.pushed.length - s.credit.itemsInFlight + Segments.count ((b, k) :: l) := by
          rw [Segments.count_cons]
          omega
        rw [settled] at hsettles ⊢
        rw [hplace]
        exact hsettles
      · exact settled_of_released rfl

/-- The items of a new permission were in flight at once, and are half of a budget. -/
theorem Settled.returned (h : s.Settled) {flight : List Item} (hledger : Ledger P s flight)
    (hconsumer : s.consumer.registered = true) (hreturns : s.consumer.Returns) {c : Consumer}
    (hreturned : s.consumer.returned = some c) :
    Settled { s with
      consumer := c
      back := s.back ++ [.permission s.consumer.owedBytes s.consumer.owedItems] } := by
  obtain ⟨hphase, rfl⟩ := Consumer.returned_cases hreturned
  intro hregistered hreleased hplain l hl
  have hinbound : Session.inbound { s with
      consumer := { s.consumer with owedBytes := 0, owedItems := 0, phase := .waiting }
      back := s.back ++ [.permission s.consumer.owedBytes s.consumer.owedItems] } =
        s.inbound ++ [(s.consumer.owedBytes, s.consumer.owedItems)] := by
    simp [inbound, Back.segment]
  rw [hinbound] at hl
  rcases List.prefix_concat_iff.mp hl with rfl | hl
  · obtain ⟨before, hbefore⟩ := hledger.latest
    obtain ⟨hitems, -, -⟩ := hledger.credit hregistered hreleased
    obtain ⟨-, hk, hweighs, -⟩ := Segments.covers_append.mp (hledger.near hconsumer)
    have hsettles := h hregistered hreleased hplain _ (List.prefix_refl s.inbound)
    change Settles (s.settled _)
    rw [settled_eq hbefore hitems] at hsettles ⊢
    rw [Segments.count_append, Segments.count_cons, Segments.count_nil, add_zero, List.take_add,
      ← List.append_assoc]
    have htotal := hweighs.2 hplain
    have hlength : ((flight.drop (Segments.count s.inbound)).take s.consumer.owedItems).length =
        s.consumer.owedItems := List.length_take_of_le hk
    refine hsettles.append ⟨?_, ?_⟩ ?_
    · rw [hlength]
      rw [List.length_drop] at hk
      exact hk.trans ((Nat.sub_le ..).trans hledger.bounded.1)
    · rcases Nat.lt_or_ge flight.length 2 with hone | htwo
      · rcases Nat.eq_zero_or_pos s.consumer.owedItems with hzero | hpos
        · rw [hzero]
          exact .inr (Nat.zero_le _)
        · rw [List.length_drop] at hk
          exact .inl (by omega)
      · have hsub : ((flight.drop (Segments.count s.inbound)).take s.consumer.owedItems).Sublist
            flight := (List.take_sublist ..).trans (List.drop_sublist ..)
        exact .inr ((total_le_of_sublist hsub).trans (hledger.bounded.2 hplain htwo))
    · rw [Due, hlength, total, ← htotal]
      exact hreturns.half hphase
  · exact h hregistered hreleased hplain l hl

/-- What every run keeps. -/
structure Steady (P : Pickle) (s : Session) : Prop where
  sound : s.Sound P
  closing : s.Closing
  ledger : ∃ flight, Ledger P s flight
  returns : s.consumer.Returns
  settled : s.Settled

theorem steady_init (packetId : ℕ) : Steady P (init packetId) where
  sound := sound_init packetId
  closing := closing_init packetId
  ledger := ⟨[], ledger_init packetId⟩
  returns := Consumer.returns_of_phase nofun
  settled := settled_init packetId

theorem settled_step (h : Steady P s) (hstep : s.step P e = some s') : s'.Settled := by
  obtain ⟨flight, hledger⟩ := h.ledger
  have hset := h.settled
  cases step_spec hstep with
  | tooLarge item _ _ => exact settled_of_unregistered rfl
  | produce item hphase _ =>
      have hledger' : Ledger P { s with produced := s.produced ++ [item] } flight :=
        ⟨hledger.latest, hledger.bounded, hledger.back, hledger.near, hledger.full,
          hledger.credit⟩
      have hset' : Settled { s with produced := s.produced ++ [item] } :=
        hset.of_eq id id rfl rfl rfl
      exact hset'.spend hledger' (by simp [registered, hphase]) item
  | resume item hphase _ => exact hset.spend hledger (by simp [registered, hphase]) item
  | exhaust _ => exact settled_of_unregistered rfl
  | raise text _ => exact settled_of_unregistered rfl
  | unwind _ _ => exact settled_of_unregistered rfl
  | flush _ _ =>
      unfold Session.flush
      split_ifs <;> exact hset.of_eq id id rfl rfl rfl
  | sent frames sources _ => exact hset.of_eq id id rfl rfl rfl
  | response payload _ _ => exact settled_of_unregistered rfl
  | failure payload text _ _ => exact settled_of_unregistered rfl
  | silent payload _ _ => exact settled_of_unregistered rfl
  | credit message back hback hregistered => exact hset.credit hledger hback hregistered
  | creditLate message back _ hregistered => exact settled_of_unregistered hregistered
  | start _ => exact hset.of_eq id id rfl rfl rfl
  | arrive message forward _ =>
      obtain ⟨c, responding, heq⟩ := receive_eq P { s with forward := forward } message
      rw [heq]
      exact hset.of_eq id id rfl rfl rfl
  | deliverEnd payload _ => exact hset.of_eq id id rfl rfl rfl
  | get c _ => exact hset.of_eq id id rfl rfl rfl
  | next c _ => exact hset.of_eq id id rfl rfl rfl
  | returned c hreturned =>
      have hphase := (Consumer.returned_cases hreturned).1
      have hregistered := (h.sound.consumer.active (by rw [hphase]; rfl)).1
      exact hset.returned hledger hregistered h.returns hreturned
  | leave c _ => exact hset.of_eq id id rfl rfl rfl
  | stopped c _ =>
      refine hset.of_eq id id rfl rfl ?_
      simp [inbound, Back.segment]

theorem Steady.step (h : Steady P s) (hstep : s.step P e = some s') : Steady P s' := by
  obtain ⟨flight, hledger⟩ := h.ledger
  exact ⟨h.sound.step hstep, h.closing.step hstep, hledger.step h.sound hstep,
    returns_step h.returns h.sound hstep, settled_step h hstep⟩

/-- Both ends wait for each other: the sender sleeps in `spend`, nothing of the stream is in
a buffer or on the wire in either direction, and the consumer waits at its empty
queue. -/
structure Stalled (s : Session) : Prop where
  phase : ∃ item, s.phase = .spending item
  released : s.credit.released = false
  ready : s.credit.ready = false
  buffer : s.buffer.frames = []
  writer : ∀ frames sources, s.writer ≠ .writing frames sources
  forward : s.forward = []
  back : s.back = []
  queue : s.consumer.queue = []
  consumer : s.consumer.phase = .waiting

/-- In a stalled session everything in flight is owed. -/
theorem Stalled.segments_eq (h : s.Stalled) :
    s.segments P = [(s.consumer.owedBytes, s.consumer.owedItems), (0, 0)] := by
  have hwriter : s.writer.segment P = [] := by
    cases hw : s.writer with
    | waiting => rfl
    | writing frames sources => exact absurd hw (h.writer frames sources)
    | returned => rfl
  simp [segments, inbound, outbound, Consumer.segments, h.back, h.forward, h.queue, h.consumer,
    h.buffer, hwriter, ConsumerPhase.segment, batch]

theorem Stalled.intact (h : s.Stalled) (hs : s.Sound P) : s.consumer.intact = true := by
  have hactive : s.consumer.phase.active = true := by
    rw [h.consumer]
    rfl
  cases hbudget : s.consumer.overBudget with
  | false => simp [Consumer.intact, (hs.consumer.active hactive).1, hbudget]
  | true =>
      obtain ⟨e, he, -⟩ := hs.consumer.failure hactive hbudget
      rw [h.queue] at he
      cases he

/-- A stalled session stands behind a place that was given back, and the items that the
consumer owes there leave no room for the next one. -/
theorem Stalled.misses (h : s.Stalled) (hs : Steady P s) :
    ∃ before owed next, s.produced = before ++ owed ++ [next] ∧
      (Settles before ∨ ∃ i ∈ before ++ owed, i.sources.entries.isEmpty = false) ∧
      Misses owed next := by
  obtain ⟨item, hphase⟩ := h.phase
  obtain ⟨flight, hledger⟩ := hs.ledger
  obtain ⟨before, hbefore⟩ := hledger.latest
  have hregistered : s.registered = true := by simp [registered, hphase]
  obtain ⟨hitems, hbytes, -⟩ := hledger.credit hregistered h.released
  obtain ⟨hcovers, hcount⟩ := hledger.full (h.intact hs.sound)
  obtain ⟨howed, hbacklog⟩ := hs.sound.consumer.owed (by rw [h.consumer]; rfl)
    (by simp [h.consumer])
  obtain ⟨-, hnofit⟩ := hs.sound.asleep item hphase h.ready
  have hweight := (hcovers.weighs hcount).1
  rw [h.segments_eq] at hcount hweight
  simp only [Segments.count_cons, Segments.count_nil, Segments.weight_cons, Segments.weight_nil,
    add_zero] at hcount hweight
  have hfull : ¬ (s.credit.bytesInFlight = 0 ∨
      s.credit.bytesInFlight + item.price ≤ maxStreamWindow) := by
    intro hfits
    have hroom : s.credit.itemsInFlight < s.credit.maxItems := by
      rw [hs.sound.maxItems]
      omega
    rw [StreamCredit.fits_iff.mpr ⟨hroom, by rw [hs.sound.maxBytes]; exact hfits⟩] at hnofit
    cases hnofit
  rw [not_or, not_le] at hfull
  refine ⟨before, flight, item, ?_, ?_, ?_, ?_, ?_⟩
  · rw [hs.closing.spending item hphase, hbefore]
  · rcases Classical.em s.Plain with hplain | hsourced
    · have hsettles := hs.settled hregistered h.released hplain [] List.nil_prefix
      rw [settled_eq hbefore hitems] at hsettles
      exact .inl (by simpa using hsettles)
    · rw [Plain, hbefore] at hsourced
      push Not at hsourced
      exact .inr (by simpa using hsourced)
  · rintro rfl
    exact hfull.1 (Nat.le_zero.mp hbytes)
  · rw [Due, total]
    omega
  · rw [total]
    omega

/-- No run of a stream that flows comes to a stall. -/
theorem never_stalled (P : Pickle) (packetId : ℕ) {es : List SessionEvent} {s : Session}
    (hrun : Machine.run (step P) (init packetId) es = some s) (hflows : Flows s.produced) :
    ¬ s.Stalled := by
  intro hstalled
  have hsteady : Steady P s :=
    Machine.run_always (Steady P) (fun _ _ _ h hstep => h.step hstep) hrun (steady_init packetId)
  obtain ⟨before, owed, next, hproduced, hplace, hmisses⟩ := hstalled.misses hsteady
  exact hflows before owed next [] hproduced hplace hmisses

/-- The consumer owes the first item, and the sender waits with the second one. -/
theorem run_blocked (P : Pickle) {i j : Item} (hi : i.payload.length ≤ maxStreamItem)
    (hj : j.payload.length ≤ maxStreamItem)
    (hsize : (streamPayload P [i.payload] i.sources).length ≤ maxStreamItem)
    (hfull : maxStreamWindow < i.price + j.price) :
    Machine.run (step P) (init 1)
      [.produce i, .flush, .sent, .start, .arrive, .get, .next, .produce j] =
        some { firstTaken P i with
          phase := .spending j
          credit := { (firstTaken P i).credit with ready := false }
          produced := [i, j] } := by
  have hnofit : (firstTaken P i).credit.fits j.price = false := by
    rw [← Bool.not_eq_true, StreamCredit.fits_iff]
    rintro ⟨-, hzero | hroom⟩
    · simp [firstTaken, firstSent, Item.price, itemHeaderSize] at hzero
    · exact absurd hroom (not_le.mpr hfull)
  refine Machine.run_append_eq_some.mpr ⟨firstTaken P i, run_firstTaken P hi hsize, ?_⟩
  rw [Machine.run_cons]
  have hspend : (firstTaken P i).credit.spend j.price =
      (.waits, { (firstTaken P i).credit with ready := false }) := by
    rw [StreamCredit.spend, hnofit]
    rfl
  have hstep : step P (firstTaken P i) (.produce j) = some { firstTaken P i with
      phase := .spending j
      credit := { (firstTaken P i).credit with ready := false }
      produced := [i, j] } := by
    have hproduce : step P (firstTaken P i) (.produce j) = some ((firstTaken P i).produce j) := rfl
    rw [hproduce, Session.produce, if_neg (not_lt.mpr hj), spend, hspend]
    rfl
  rw [hstep]
  rfl

/-- Items of half the window flow. -/
theorem flows_pair {i : Item} (hhalf : maxStreamWindow ≤ i.price * 2) : Flows [i, i] := by
  intro before owed next after hitems _ hmisses
  obtain ⟨howed, hdue, -⟩ := hmisses
  obtain ⟨j, hj⟩ := List.exists_mem_of_ne_nil owed howed
  have hmem : j ∈ [i, i] := by
    rw [hitems]
    simp [hj]
  have heq : j = i := by simpa using hmem
  have htotal := total_le_of_sublist (List.singleton_sublist.mpr hj)
  rw [heq, total, List.map_singleton, List.sum_singleton] at htotal
  exact hdue (.inl (hhalf.trans (Nat.mul_le_mul_right 2 htotal)))

/-- Two items of half the window: the sender waits, and the consumer gives the first one
back. -/
theorem half_not_stalled :
    Flows [half, half] ∧ ∃ es s, Machine.run (step Pickle.marked) (init 1) es = some s ∧
      s.produced = [half, half] ∧ s.phase = .spending half ∧ s.credit.ready = false ∧
      ¬ s.Stalled := by
  have hprice : half.price = 2 * 1024 * 1024 + 4 := by
    rw [Item.price, length_half, itemHeaderSize]
  have hsmall : half.payload.length ≤ maxStreamItem := by
    rw [length_half]
    decide
  have hhalf : maxStreamWindow ≤ half.price * 2 := by
    rw [hprice]
    decide
  have hflows := flows_pair hhalf
  have hrun := run_blocked Pickle.marked hsmall hsmall
    (by rw [length_streamPayload_half]; decide) (by rw [hprice]; decide)
  exact ⟨hflows, _, _, hrun, rfl, rfl, rfl, never_stalled Pickle.marked 1 hrun hflows⟩

/-- A small item. -/
def small : Item := ⟨[0], ∅⟩

/-- An item that is larger than the window. -/
def large : Item := ⟨List.replicate (5 * 1024 * 1024) 0, ∅⟩

theorem length_large : large.payload.length = 5 * 1024 * 1024 := List.length_replicate

attribute [irreducible] large

/-- The consumer owes one small item, the next one waits until nothing is in flight, and
neither end moves again. -/
theorem small_large_stalled :
    small.payload.length ≤ maxStreamItem ∧ large.payload.length ≤ maxStreamItem ∧
      ∃ es s, Machine.run (step Pickle.marked) (init 1) es = some s ∧
        s.produced = [small, large] ∧ s.Stalled := by
  have hlarge : large.payload.length ≤ maxStreamItem := by
    rw [length_large]
    decide
  have hfull : maxStreamWindow < small.price + large.price := by
    rw [Item.price, Item.price, length_large]
    decide
  have hrun := run_blocked Pickle.marked (i := small) (by decide) hlarge (by decide) hfull
  refine ⟨by decide, hlarge, _, _, hrun, rfl, ⟨large, rfl⟩, rfl, rfl, rfl, ?_, rfl, rfl, rfl, rfl⟩
  intro frames sources hwriting
  cases hwriting

end Session

end Rmote
