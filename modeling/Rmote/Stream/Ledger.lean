import Rmote.Library.Segments
import Rmote.Stream.Sound

/-!
# The accounts of a stream

The items in flight are on one of seven places, in this order: permissions on their
way back, items that the consumer owes, the packet that it hands to the user, its
queue, the wire, the packet that the writer sends, and the buffer. `segments` lists
what each place knows of its items, their bytes and their number, and `Ledger` says
that these segments account for the items in flight, and that the credit of the
sender counts exactly those. The bytes of a place are exact as long as no item
brings sources: an envelope weighs more than the items inside it.
-/

namespace Rmote

namespace Forward

/-- The items of a packet, as the consumer decodes them. -/
def items (P : Pickle) (m : Forward) : List Bytes :=
  match decodePayload P true (Except.ok : Bytes → Except DecodeError Bytes) m.flags m.payload with
  | .ok (.items values) => values
  | _ => []

/-- What a packet of items weighs; the end of the stream weighs nothing. -/
def segment (P : Pickle) (m : Forward) : Option (ℕ × ℕ) :=
  if m.flags.has Flags.stream then some (m.payload.length, (m.items P).length) else none

@[simp] theorem items_streamPayload (P : Pickle) {frames : List Bytes} (sources : Manifest)
    (hlen : ∀ f ∈ frames, f.length ≤ maxStreamItem) :
    items P ⟨streamFlags sources, streamPayload P frames sources⟩ = frames := by
  simp [items, Session.decodePayload_items P sources hlen]

theorem segment_items (P : Pickle) {frames : List Bytes} (sources : Manifest)
    (hlen : ∀ f ∈ frames, f.length ≤ maxStreamItem) :
    segment P ⟨streamFlags sources, streamPayload P frames sources⟩ =
      some ((streamPayload P frames sources).length, frames.length) := by
  simp [segment, items_streamPayload P sources hlen]

end Forward

/-- What an entry of the queue weighs. -/
def Entry.segment (e : Entry) : Option (ℕ × ℕ) :=
  if e.flags.has Flags.stream then some (e.size, e.items.length) else none

/-- What a permission on its way back weighs. -/
def Back.segment : Back → Option (ℕ × ℕ)
  | .permission bytes items => some (bytes, items)
  | .stop => none

/-- What the consumer hands to the user. -/
def ConsumerPhase.segment : ConsumerPhase → List (ℕ × ℕ)
  | .yielding _ count size => [(size, count)]
  | _ => []

/-- What the writer sends. -/
def WriterPhase.segment (P : Pickle) : WriterPhase → List (ℕ × ℕ)
  | .writing frames sources => [((streamPayload P frames sources).length, frames.length)]
  | _ => []

namespace Consumer

/-- The queue takes every packet that arrives. -/
def intact (c : Consumer) : Bool := c.registered && !c.overBudget

@[simp] theorem intact_unwind (c : Consumer) (closed : Bool) (ending : Ending) :
    (c.unwind closed ending).intact = false := rfl

/-- The places of the consumer. -/
def segments (c : Consumer) : List (ℕ × ℕ) :=
  (c.owedBytes, c.owedItems) :: (c.phase.segment ++ c.queue.filterMap Entry.segment)

/-- The consumer goes on with the items of a packet that it holds. -/
theorem regroups_advance {tight : Prop} (c : Consumer) (items : List Bytes)
    (count size : ℕ) :
    Segments.Regroups tight Item.price
      ((c.owedBytes, c.owedItems) :: (size, count) :: c.queue.filterMap Entry.segment)
      (c.advance items count size).segments := by
  cases items with
  | nil =>
      have hphase : (c.settle count size).phase.segment = [] := by
        unfold settle
        simp only
        split_ifs <;> rfl
      rw [advance, segments, hphase]
      exact Segments.regroups_merge ..
  | cons item items => exact .refl _

end Consumer

namespace Session

/-- The places on the way to the consumer. -/
def outbound (P : Pickle) (s : Session) : List (ℕ × ℕ) :=
  s.forward.filterMap (Forward.segment P) ++ s.writer.segment P ++
    [((batch s.buffer.frames).length, s.buffer.frames.length)]

/-- The permissions on their way back. -/
def inbound (s : Session) : List (ℕ × ℕ) := s.back.filterMap Back.segment

/-- All the places of items in flight, from the oldest to the newest. -/
def segments (P : Pickle) (s : Session) : List (ℕ × ℕ) :=
  s.inbound ++ (s.consumer.segments ++ s.outbound P)

/-- The items `flight` are in flight. -/
structure Ledger (P : Pickle) (s : Session) (flight : List Item) : Prop where
  latest : ∃ settled, s.pushed = settled ++ flight
  bounded : flight.length ≤ maxStreamBacklog ∧
    (s.Plain → 2 ≤ flight.length → (flight.map Item.price).sum ≤ maxStreamWindow)
  back : Segments.Covers s.Plain Item.price flight s.inbound
  near : s.consumer.registered = true →
    Segments.Covers s.Plain Item.price flight (s.inbound ++ s.consumer.segments)
  full : s.consumer.intact = true → Segments.Covers s.Plain Item.price flight (s.segments P) ∧
    Segments.count (s.segments P) = flight.length
  credit : s.registered = true → s.credit.released = false →
    s.credit.itemsInFlight = flight.length ∧
      s.credit.bytesInFlight ≤ (flight.map Item.price).sum ∧
      (s.Plain → s.credit.bytesInFlight = (flight.map Item.price).sum)

variable {P : Pickle} {s s' : Session} {flight : List Item}

/-- The places before the buffer. -/
def front (P : Pickle) (s : Session) : List (ℕ × ℕ) :=
  s.inbound ++ (s.consumer.segments ++
    (s.forward.filterMap (Forward.segment P) ++ s.writer.segment P))

theorem segments_eq (P : Pickle) (s : Session) :
    s.segments P =
      s.front P ++ [((batch s.buffer.frames).length, s.buffer.frames.length)] := by
  simp only [segments, outbound, front, List.append_assoc]

@[simp] theorem segment_afterWrite (P : Pickle) (s : Session) :
    s.afterWrite.writer.segment P = [] := by
  unfold afterWrite
  split_ifs <;> rfl

theorem ledger_init (packetId : ℕ) : Ledger P (init packetId) [] where
  latest := ⟨[], rfl⟩
  bounded := ⟨Nat.zero_le _, nofun⟩
  back := trivial
  near _ := ⟨le_rfl, Segments.weighs_nil, trivial⟩
  full _ := ⟨⟨le_rfl, Segments.weighs_nil, le_rfl, Segments.weighs_nil, trivial⟩, rfl⟩
  credit _ _ := ⟨rfl, le_rfl, fun _ => rfl⟩

/-- A step that takes no permission and pays for no item keeps the account, if it
only regroups the places. -/
theorem Ledger.regroup (h : Ledger P s flight) (hpushed : s'.pushed = s.pushed)
    (hback : s'.inbound = s.inbound)
    (hnear : s'.consumer.registered = true → s.consumer.registered = true ∧
      Segments.Regroups s.Plain Item.price s.consumer.segments s'.consumer.segments)
    (hfull : s'.consumer.intact = true → s.consumer.intact = true ∧
      Segments.Regroups s.Plain Item.price (s.consumer.segments ++ s.outbound P)
        (s'.consumer.segments ++ s'.outbound P))
    (hcredit : s'.registered = true → s'.credit.released = false →
      s.registered = true ∧ s.credit.released = false ∧
        s'.credit.itemsInFlight = s.credit.itemsInFlight ∧
        s'.credit.bytesInFlight = s.credit.bytesInFlight) : Ledger P s' flight := by
  have hplain : s'.Plain = s.Plain := by rw [Plain, Plain, hpushed]
  constructor
  · rw [hpushed]
    exact h.latest
  · rw [hplain]
    exact h.bounded
  · rw [hplain, hback]
    exact h.back
  · intro hregistered
    obtain ⟨hbefore, hgroups⟩ := hnear hregistered
    rw [hplain, hback]
    exact (hgroups.append_left s.inbound).1 _ (h.near hbefore)
  · intro hintact
    obtain ⟨hbefore, hgroups⟩ := hfull hintact
    obtain ⟨hcovers, hcount⟩ := h.full hbefore
    have hall := hgroups.append_left s.inbound
    rw [hplain, segments, hback]
    exact ⟨hall.1 _ hcovers, hall.2.trans hcount⟩
  · intro hregistered hreleased
    obtain ⟨hbefore, hrel, hitems, hbytes⟩ := hcredit hregistered hreleased
    rw [hplain, hitems, hbytes]
    exact h.credit hbefore hrel

/-- A step of the sending side that regroups the places on the way out. -/
theorem Ledger.regroup_outbound (h : Ledger P s flight) (hpushed : s'.pushed = s.pushed)
    (hback : s'.inbound = s.inbound) (hconsumer : s'.consumer = s.consumer)
    (hout : Segments.Regroups s.Plain Item.price (s.outbound P) (s'.outbound P))
    (hcredit : s'.registered = true → s'.credit.released = false →
      s.registered = true ∧ s.credit.released = false ∧
        s'.credit.itemsInFlight = s.credit.itemsInFlight ∧
        s'.credit.bytesInFlight = s.credit.bytesInFlight) : Ledger P s' flight := by
  refine h.regroup hpushed hback ?_ ?_ hcredit
  · intro hregistered
    rw [hconsumer] at hregistered ⊢
    exact ⟨hregistered, .refl _⟩
  · intro hintact
    rw [hconsumer] at hintact ⊢
    exact ⟨hintact, hout.append_left _⟩

/-- A step of the consumer that regroups its own places. -/
theorem Ledger.regroup_consumer (h : Ledger P s flight) {c : Consumer}
    (hregistered : c.registered = true → s.consumer.registered = true)
    (hbudget : c.registered = true → c.overBudget = s.consumer.overBudget)
    (hgroups : c.registered = true →
      Segments.Regroups s.Plain Item.price s.consumer.segments c.segments) :
    Ledger P { s with consumer := c } flight := by
  refine h.regroup rfl rfl ?_ ?_ fun hreg hrel => ⟨hreg, hrel, rfl, rfl⟩
  · exact fun hc => ⟨hregistered hc, hgroups hc⟩
  · intro hintact
    obtain ⟨hc, hfits⟩ := Bool.and_eq_true_iff.mp hintact
    refine ⟨?_, (hgroups hc).append_right _⟩
    rw [Consumer.intact, hregistered hc, ← hbudget hc, Bool.true_and]
    exact hfits

theorem Ledger.finish (h : Ledger P s flight) (outcome : Outcome) :
    Ledger P (s.finish outcome) flight :=
  h.regroup_outbound rfl rfl rfl (.refl _) nofun

/-- An item is paid: it is in flight, in the buffer. -/
theorem Ledger.pay (h : Ledger P s flight) (hs : s.Sound P) (hregistered : s.registered = true)
    (hreleased : s.credit.released = false) {item : Item}
    (hfits : s.credit.fits item.price = true) :
    Ledger P { s with
      phase := .produce
      credit := { s.credit with
        bytesInFlight := s.credit.bytesInFlight + item.price
        itemsInFlight := s.credit.itemsInFlight + 1 }
      buffer := s.buffer.push item
      pushed := s.pushed ++ [item] } (flight ++ [item]) := by
  have hplain : ∀ {s' : Session}, s'.pushed = s.pushed ++ [item] → s'.Plain → s.Plain := by
    intro s' hpushed hs' i hi
    exact hs' i (by rw [hpushed]; exact List.mem_append_left _ hi)
  have hbatch : (batch (s.buffer.frames ++ [item.payload])).length =
      (batch s.buffer.frames).length + item.price := by
    simp [batch, Item.price]
  obtain ⟨hitems, hle, heq⟩ := h.credit hregistered hreleased
  obtain ⟨hroom, hbytes⟩ := StreamCredit.fits_iff.mp hfits
  rw [hs.maxItems, hitems] at hroom
  rw [hs.maxBytes] at hbytes
  constructor
  · obtain ⟨settled, hsettled⟩ := h.latest
    exact ⟨settled, by rw [hsettled, List.append_assoc]⟩
  · refine ⟨by simpa [Nat.succ_le_iff] using hroom, fun hs' htwo => ?_⟩
    have hsum := heq (hplain rfl hs')
    rw [hsum] at hbytes
    rcases hbytes with hzero | hfit
    · -- Nothing is in flight, so the item is alone.
      have hempty : flight = [] := by
        cases flight with
        | nil => rfl
        | cons i flight => simp [Item.price, itemHeaderSize] at hzero
      simp [hempty] at htwo
    · simpa using hfit
  · exact (h.back.append [item]).imp (hplain rfl)
  · intro hc
    exact ((h.near hc).append [item]).imp (hplain rfl)
  · intro hc
    obtain ⟨hcovers, hcount⟩ := h.full hc
    rw [segments_eq] at hcovers hcount
    have hgrown := hcovers.grow hcount (a := item)
    have hnext : segments P { s with
        phase := .produce
        credit := { s.credit with
          bytesInFlight := s.credit.bytesInFlight + item.price
          itemsInFlight := s.credit.itemsInFlight + 1 }
        buffer := s.buffer.push item
        pushed := s.pushed ++ [item] } =
          s.front P ++ [((batch s.buffer.frames).length + item.price,
            s.buffer.frames.length + 1)] := by
      rw [segments_eq, ← hbatch]
      simp [StreamBuffer.push, front, inbound]
    rw [hnext]
    refine ⟨hgrown.imp (hplain rfl), ?_⟩
    simp only [Segments.count_append, Segments.count_cons, Segments.count_nil,
      List.length_append, List.length_singleton] at hcount ⊢
    omega
  · intro _ _
    refine ⟨by simp [hitems], ?_, fun hs' => ?_⟩
    · simpa using hle
    · simp [heq (hplain rfl hs')]

theorem Ledger.spend (h : Ledger P s flight) (hs : s.Sound P) (hregistered : s.registered = true)
    (item : Item) : ∃ flight', Ledger P (s.spend item) flight' := by
  rcases s.spend_cases item with ⟨-, hspend⟩ | ⟨hreleased, hfits, hspend⟩ | ⟨hreleased, -, hspend⟩
  · rw [hspend]
    exact ⟨flight, h.finish .returned⟩
  · rw [hspend]
    exact ⟨_, h.pay hs hregistered hreleased hfits⟩
  · rw [hspend]
    exact ⟨flight, h.regroup_outbound rfl rfl rfl (.refl _)
      fun _ hrel => ⟨hregistered, hrel, rfl, rfl⟩⟩

/-- The writer takes what gathered. -/
theorem Ledger.flush (h : Ledger P s flight) (hs : s.Sound P) (hwriter : s.writer = .waiting) :
    Ledger P s.flush flight := by
  unfold Session.flush
  split_ifs with hframes
  · refine h.regroup_outbound rfl rfl rfl ?_ fun hreg hrel => ⟨hreg, hrel, rfl, rfl⟩
    have hempty : s.buffer.frames = [] := by simpa using hframes
    have hsegment : s.writer.segment P = [] := by rw [hwriter]; rfl
    rw [outbound, outbound, segment_afterWrite, hsegment, hempty]
    exact .refl _
  · refine h.regroup_outbound rfl rfl rfl ?_ fun hreg hrel => ⟨hreg, hrel, rfl, rfl⟩
    simp only [outbound, hwriter, WriterPhase.segment, List.append_nil, List.append_assoc,
      List.singleton_append]
    refine Segments.Regroups.append_left ?_ _
    have hheavier : Segments.Regroups s.Plain Item.price
        [((batch s.buffer.frames).length, s.buffer.frames.length)]
        [((streamPayload P s.buffer.frames s.buffer.sources).length, s.buffer.frames.length)] := by
      refine Segments.regroups_heavier ?_ ?_ []
      · rw [length_batch]
        exact le_length_streamPayload P _ _
      · intro hplain
        rw [length_batch, length_streamPayload_of_empty P _ (hs.sources hplain)]
    refine hheavier.trans ?_
    exact (Segments.regroups_zero []).append_left
      [((streamPayload P s.buffer.frames s.buffer.sources).length, s.buffer.frames.length)]

/-- The packet of the writer is on the wire. -/
theorem Ledger.sent (h : Ledger P s flight) {frames : List Bytes} {sources : Manifest}
    (hwriter : s.writer = .writing frames sources)
    (hlen : ∀ f ∈ frames, f.length ≤ maxStreamItem) :
    Ledger P { s with forward := s.forward ++
      [(⟨streamFlags sources, streamPayload P frames sources⟩ : Forward)] }.afterWrite flight := by
  refine h.regroup_outbound rfl rfl rfl ?_ fun hreg hrel => ⟨hreg, hrel, rfl, rfl⟩
  have hsegment : List.filterMap (Forward.segment P)
      [⟨streamFlags sources, streamPayload P frames sources⟩] =
        [((streamPayload P frames sources).length, frames.length)] := by
    rw [List.filterMap_cons_some (Forward.segment_items P sources hlen), List.filterMap_nil]
  have hpacket : s.writer.segment P =
      [((streamPayload P frames sources).length, frames.length)] := by
    rw [hwriter]
    rfl
  rw [outbound, outbound, segment_afterWrite, hpacket, List.append_nil]
  simp only [afterWrite, List.filterMap_append, hsegment]
  exact .refl _

/-- The sender takes the oldest permission: its items are no longer in flight. -/
theorem Ledger.retire (h : Ledger P s flight) {b k : ℕ} (hback : s.inbound = (b, k) :: s'.inbound)
    (hpushed : s'.pushed = s.pushed) (hconsumer : s'.consumer = s.consumer)
    (hout : s'.outbound P = s.outbound P)
    (hcredit : s'.registered = true → s'.credit.released = false →
      s.registered = true ∧ s.credit.released = false ∧ b ≤ s.credit.bytesInFlight ∧
        s'.credit.itemsInFlight = s.credit.itemsInFlight - k ∧
        s'.credit.bytesInFlight = s.credit.bytesInFlight - b) :
    Ledger P s' (flight.drop k) := by
  have hplain : s'.Plain = s.Plain := by rw [Plain, Plain, hpushed]
  have hhead := h.back
  rw [hback] at hhead
  obtain ⟨hk, hweighs, hrest⟩ := hhead
  have hsplit : ((flight.take k).map Item.price).sum + ((flight.drop k).map Item.price).sum =
      (flight.map Item.price).sum := by
    rw [← List.sum_append, ← List.map_append, List.take_append_drop]
  constructor
  · obtain ⟨settled, hsettled⟩ := h.latest
    refine ⟨settled ++ flight.take k, ?_⟩
    rw [hpushed, hsettled, List.append_assoc, List.take_append_drop]
  · obtain ⟨hlength, hsum⟩ := h.bounded
    rw [hplain, List.length_drop]
    refine ⟨by omega, fun hs htwo => ?_⟩
    have hwhole := hsum hs (by omega)
    omega
  · rw [hplain]
    exact hrest
  · intro hc
    rw [hconsumer] at hc ⊢
    have hnear := h.near hc
    rw [hback] at hnear
    rw [hplain]
    exact hnear.2.2
  · intro hc
    rw [hconsumer] at hc
    obtain ⟨hcovers, hcount⟩ := h.full hc
    rw [segments, hback] at hcovers hcount
    rw [hplain, segments, hconsumer, hout]
    refine ⟨hcovers.2.2, ?_⟩
    rw [List.cons_append, Segments.count_cons] at hcount
    rw [List.length_drop]
    omega
  · intro hregistered hreleased
    obtain ⟨hreg, hrel, hbytes, hitems', hbytes'⟩ := hcredit hregistered hreleased
    obtain ⟨hitems, hle, heq⟩ := h.credit hreg hrel
    refine ⟨by rw [hitems', hitems, List.length_drop], ?_, ?_⟩
    · have htake := hweighs.1
      rw [hbytes']
      omega
    · intro hs
      rw [hplain] at hs
      rw [hbytes', heq hs, hweighs.2 hs]
      omega

theorem Ledger.credit_step (h : Ledger P s flight) {message : Back} {back : List Back}
    (hback : s.back = message :: back) (hregistered : s.registered = true) :
    ∃ flight', Ledger P ({ s with back := back }.handleStreamCredit message) flight' := by
  cases message with
  | stop =>
      have hinbound : s.inbound = back.filterMap Back.segment := by
        rw [inbound, hback]
        rfl
      refine ⟨flight, h.regroup_outbound rfl hinbound.symm rfl (.refl _) ?_⟩
      intro _ hreleased
      cases hreleased
  | permission b k =>
      have hinbound : s.inbound = (b, k) :: back.filterMap Back.segment := by
        rw [inbound, hback]
        rfl
      refine ⟨flight.drop k, ?_⟩
      simp only [Session.handleStreamCredit]
      split
      · rename_i credit hcredit
        obtain ⟨hbytes, hitems⟩ := StreamCredit.le_of_giveBack hcredit
        rw [StreamCredit.giveBack_of_le hbytes hitems] at hcredit
        obtain rfl := Except.ok.inj hcredit
        exact h.retire hinbound rfl rfl rfl
          fun _ hreleased => ⟨hregistered, hreleased, hbytes, rfl, rfl⟩
      · exact h.retire hinbound rfl rfl rfl fun _ hreleased => nomatch hreleased

theorem Ledger.creditLate (h : Ledger P s flight) {message : Back} {back : List Back}
    (hback : s.back = message :: back) (hregistered : s.registered = false) :
    ∃ flight', Ledger P { s with back := back } flight' := by
  have hoff : ∀ {p : Prop}, Session.registered { s with back := back } = true → p := by
    intro p hreg
    exact absurd (hregistered.symm.trans hreg) Bool.false_ne_true
  cases message with
  | stop =>
      have hinbound : s.inbound = back.filterMap Back.segment := by
        rw [inbound, hback]
        rfl
      exact ⟨flight, h.regroup_outbound rfl hinbound.symm rfl (.refl _) fun hreg _ => hoff hreg⟩
  | permission b k =>
      have hinbound : s.inbound = (b, k) :: back.filterMap Back.segment := by
        rw [inbound, hback]
        rfl
      exact ⟨flight.drop k, h.retire hinbound rfl rfl rfl fun hreg _ => hoff hreg⟩

theorem Ledger.get (h : Ledger P s flight) {c : Consumer} (hget : s.consumer.get false = some c) :
    Ledger P { s with consumer := c } flight := by
  obtain ⟨e, queue, hphase, hqueue, hcases⟩ := Consumer.get_cases hget
  rcases hcases with ⟨-, rfl⟩ | ⟨-, hstream, rfl⟩ | ⟨-, -, rfl⟩
  · exact h.regroup_consumer nofun nofun nofun
  · have hsegments : s.consumer.segments = (s.consumer.owedBytes, s.consumer.owedItems) ::
        (e.size, e.items.length) :: queue.filterMap Entry.segment := by
      have hsegment : e.segment = some (e.size, e.items.length) := by
        rw [Entry.segment, if_pos hstream]
      rw [Consumer.segments, hphase, hqueue, List.filterMap_cons_some hsegment]
      rfl
    refine h.regroup_consumer (fun hc => by simpa using hc) (fun _ => by simp) fun _ => ?_
    rw [hsegments]
    exact Consumer.regroups_advance
      { s.consumer with queue := queue, buffered := s.consumer.buffered - e.size } ..
  · exact h.regroup_consumer nofun nofun nofun

theorem Ledger.next (h : Ledger P s flight) {c : Consumer} (hnext : s.consumer.next = some c) :
    Ledger P { s with consumer := c } flight := by
  obtain ⟨rest, count, size, hphase, rfl⟩ := Consumer.next_cases hnext
  have hsegments : s.consumer.segments = (s.consumer.owedBytes, s.consumer.owedItems) ::
      (size, count) :: s.consumer.queue.filterMap Entry.segment := by
    rw [Consumer.segments, hphase]
    rfl
  refine h.regroup_consumer (fun hc => by simpa using hc) (fun _ => by simp) fun _ => ?_
  rw [hsegments]
  exact Consumer.regroups_advance ..

/-- The end of a stream weighs nothing in the queue. -/
theorem Ledger.putEnd (h : Ledger P s flight) {flags : Flags} (payload : Decoded Bytes)
    (hflags : flags.has Flags.stream = false) :
    Ledger P { s with consumer := s.consumer.putEnd flags payload } flight := by
  have hsegments : (s.consumer.putEnd flags payload).segments = s.consumer.segments := by
    have hsegment : Entry.segment ⟨flags, payload, 0⟩ = none := by simp [Entry.segment, hflags]
    unfold Consumer.putEnd
    split_ifs
    · simp [Consumer.segments, hsegment]
    · rfl
  have hregistered : (s.consumer.putEnd flags payload).registered = s.consumer.registered := by
    unfold Consumer.putEnd
    split_ifs <;> rfl
  have hbudget : (s.consumer.putEnd flags payload).overBudget = s.consumer.overBudget := by
    unfold Consumer.putEnd
    split_ifs <;> rfl
  refine h.regroup_consumer (fun hc => hregistered ▸ hc) (fun _ => hbudget) fun _ => ?_
  rw [hsegments]
  exact .refl _

/-- A permission leaves the consumer. -/
theorem Ledger.returned (h : Ledger P s flight) {c : Consumer}
    (hregistered : s.consumer.registered = true) (hreturned : s.consumer.returned = some c) :
    Ledger P { s with
      consumer := c
      back := s.back ++ [.permission s.consumer.owedBytes s.consumer.owedItems] } flight := by
  obtain ⟨hphase, rfl⟩ := Consumer.returned_cases hreturned
  have hinbound : Session.inbound { s with
      consumer := { s.consumer with owedBytes := 0, owedItems := 0, phase := .waiting }
      back := s.back ++ [.permission s.consumer.owedBytes s.consumer.owedItems] } =
        s.inbound ++ [(s.consumer.owedBytes, s.consumer.owedItems)] := by
    simp [inbound, Back.segment]
  have hold : s.consumer.segments = [(s.consumer.owedBytes, s.consumer.owedItems)] ++
      s.consumer.queue.filterMap Entry.segment := by
    rw [Consumer.segments, hphase]
    rfl
  have hnew : Consumer.segments
      { s.consumer with owedBytes := 0, owedItems := 0, phase := .waiting } =
        (0, 0) :: s.consumer.queue.filterMap Entry.segment := rfl
  have hgroups : Segments.Regroups s.Plain Item.price (s.inbound ++ s.consumer.segments)
      ((s.inbound ++ [(s.consumer.owedBytes, s.consumer.owedItems)]) ++
        (0, 0) :: s.consumer.queue.filterMap Entry.segment) := by
    rw [hold, ← List.append_assoc]
    exact (Segments.regroups_zero _).append_left _
  constructor
  · exact h.latest
  · exact h.bounded
  · rw [hinbound]
    have hnear := h.near hregistered
    rw [hold, ← List.append_assoc] at hnear
    exact (Segments.covers_append.mp hnear).1
  · intro _
    rw [hinbound, hnew]
    exact hgroups.1 _ (h.near hregistered)
  · intro hintact
    obtain ⟨hcovers, hcount⟩ := h.full hintact
    have hall := hgroups.append_right (s.outbound P)
    rw [segments, ← List.append_assoc] at hcovers hcount
    rw [segments, hinbound, hnew, ← List.append_assoc]
    exact ⟨hall.1 _ hcovers, hall.2.trans hcount⟩
  · exact h.credit

/-- A packet that is not of items leaves the wire. -/
theorem Ledger.popForward (h : Ledger P s flight) {m : Forward} {forward : List Forward}
    (hforward : s.forward = m :: forward) (hsegment : m.segment P = none) :
    Ledger P { s with forward := forward } flight := by
  refine h.regroup_outbound rfl rfl rfl ?_ fun hreg hrel => ⟨hreg, hrel, rfl, rfl⟩
  rw [outbound, outbound, hforward, List.filterMap_cons_none hsegment]
  exact .refl _

/-- A packet of items moves from the wire to the queue, or is refused or dropped. -/
theorem Ledger.arrive_items (h : Ledger P s flight) {forward : List Forward}
    {frames : List Bytes} {sources : Manifest} (hlen : ∀ f ∈ frames, f.length ≤ maxStreamItem)
    (hforward : s.forward = ⟨streamFlags sources, streamPayload P frames sources⟩ :: forward) :
    Ledger P { s with
      forward := forward
      consumer := (s.consumer.handleStreamItem s.packetId (streamFlags sources) (.items frames)
        (streamPayload P frames sources).length) } flight := by
  have hexception : (Flags.exception ||| Flags.response).has Flags.stream = false := by decide
  have hout : s.outbound P = ((streamPayload P frames sources).length, frames.length) ::
      Session.outbound P { s with forward := forward } := by
    rw [outbound, outbound, hforward,
      List.filterMap_cons_some (Forward.segment_items P sources hlen)]
    rfl
  unfold Consumer.handleStreamItem
  split_ifs with hdrop hexceeds
  · have hlost : s.consumer.intact = false := by
      unfold Consumer.intact
      cases hreg : s.consumer.registered <;> simp_all
    exact ⟨h.latest, h.bounded, h.back, h.near, fun hintact => absurd (hlost.symm.trans hintact)
      Bool.false_ne_true, h.credit⟩
  · have hsegment : Entry.segment ⟨Flags.exception ||| Flags.response, .error
        (Consumer.overBudgetText s.packetId s.consumer.queue.length
          (s.consumer.buffered + (streamPayload P frames sources).length)), 0⟩ = none := by
      rw [Entry.segment, hexception]
      rfl
    refine ⟨h.latest, h.bounded, h.back, fun hreg => ?_, fun hintact => ?_, h.credit⟩
    · have hqueue : (s.consumer.queue ++ [(⟨Flags.exception ||| Flags.response, .error
          (Consumer.overBudgetText s.packetId s.consumer.queue.length
            (s.consumer.buffered + (streamPayload P frames sources).length)), 0⟩ :
              Entry)]).filterMap Entry.segment = s.consumer.queue.filterMap Entry.segment := by
        rw [List.filterMap_append, List.filterMap_cons_none hsegment, List.filterMap_nil,
          List.append_nil]
      rw [Consumer.segments, hqueue]
      exact h.near hreg
    · simp [Consumer.intact] at hintact
  · have hintact : s.consumer.intact = true := by
      unfold Consumer.intact
      cases hreg : s.consumer.registered <;> simp_all
    have hsegment : Entry.segment ⟨streamFlags sources, .items frames,
        (streamPayload P frames sources).length⟩ =
          some ((streamPayload P frames sources).length, frames.length) := by
      simp [Entry.segment, Entry.items]
    have hqueue : Consumer.segments { s.consumer with
        buffered := s.consumer.buffered + (streamPayload P frames sources).length
        queue := s.consumer.queue ++ [⟨streamFlags sources, .items frames,
          (streamPayload P frames sources).length⟩] } =
            s.consumer.segments ++ [((streamPayload P frames sources).length, frames.length)] := by
      simp [Consumer.segments, hsegment]
    obtain ⟨hcovers, hcount⟩ := h.full hintact
    rw [segments, hout] at hcovers hcount
    refine ⟨h.latest, h.bounded, h.back, fun _ => ?_, fun _ => ?_, h.credit⟩
    · rw [hqueue, ← List.append_assoc]
      rw [← List.append_assoc, List.append_cons] at hcovers
      exact (Segments.covers_append.mp hcovers).1
    · rw [segments, hqueue, List.append_assoc]
      exact ⟨hcovers, hcount⟩

theorem Ledger.arrive (h : Ledger P s flight) {m : Forward} {forward : List Forward}
    (hm : m.Sound P) (hforward : s.forward = m :: forward) :
    Ledger P ({ s with forward := forward }.receive P m) flight := by
  have hresponse : (Flags.rpc ||| Flags.response).has Flags.stream = false := by decide
  have hexception : (Flags.exception ||| Flags.response).has Flags.stream = false := by decide
  cases hm with
  | items frames sources hne hlen =>
      rw [receive_items _ sources hlen]
      exact h.arrive_items hlen hforward
  | response payload =>
      rw [receive_response]
      have hpop := h.popForward hforward (by rw [Forward.segment, hresponse]; rfl)
      exact ⟨hpop.latest, hpop.bounded, hpop.back, hpop.near, hpop.full, hpop.credit⟩
  | failure payload =>
      rw [receive_failure]
      exact (h.popForward hforward (by rw [Forward.segment, hexception]; rfl)).putEnd _ hexception

/-- The end of the stream is put on the wire. -/
theorem Ledger.respond (h : Ledger P s flight) {m : Forward} (hm : m.segment P = none)
    (outcome : Outcome) :
    Ledger P { s with phase := .done outcome, forward := s.forward ++ [m] } flight := by
  refine h.regroup_outbound rfl rfl rfl ?_ nofun
  rw [outbound, outbound, List.filterMap_append, List.filterMap_cons_none hm, List.filterMap_nil,
    List.append_nil]
  exact .refl _

/-- Every step keeps the account of the items in flight. -/
theorem Ledger.step {e : SessionEvent} (h : Ledger P s flight) (hs : s.Sound P)
    (hstep : s.step P e = some s') : ∃ flight', Ledger P s' flight' := by
  have hresponse : (Flags.rpc ||| Flags.response).has Flags.stream = false := by decide
  have hexception : (Flags.exception ||| Flags.response).has Flags.stream = false := by decide
  have hproduced : ∀ items, Ledger P { s with produced := items } flight :=
    fun _ => ⟨h.latest, h.bounded, h.back, h.near, h.full, h.credit⟩
  cases step_spec hstep with
  | tooLarge item _ _ => exact ⟨flight, (hproduced _).finish _⟩
  | produce item hphase _ =>
      exact (hproduced (s.produced ++ [item])).spend ⟨hs.maxBytes, hs.maxItems, hs.forward, hs.buffer, hs.sources,
        hs.writer, hs.small, hs.asleep, hs.consumer⟩ (by simp [registered, hphase]) item
  | resume item hphase _ => exact h.spend hs (by simp [registered, hphase]) item
  | exhaust _ => exact ⟨flight, h.finish _⟩
  | raise text _ => exact ⟨flight, h.finish _⟩
  | unwind _ _ => exact ⟨flight, h.finish _⟩
  | flush hwriter _ => exact ⟨flight, h.flush hs hwriter⟩
  | sent frames sources hwriter =>
      have hframes := hs.writer
      rw [hwriter] at hframes
      exact ⟨flight, h.sent hwriter hframes.2.1⟩
  | response payload _ _ =>
      exact ⟨flight, h.respond (by rw [Forward.segment, hresponse]; rfl) .returned⟩
  | failure payload text _ _ =>
      exact ⟨flight, h.respond (by rw [Forward.segment, hexception]; rfl) (.raised text)⟩
  | silent payload _ _ => exact ⟨flight, h.regroup_outbound rfl rfl rfl (.refl _) nofun⟩
  | credit message back hback hregistered => exact h.credit_step hback hregistered
  | creditLate message back hback hregistered => exact h.creditLate hback hregistered
  | start hphase =>
      refine ⟨flight, h.regroup_consumer id (fun _ => rfl) fun _ => ?_⟩
      rw [Consumer.segments, Consumer.segments, hphase]
      exact .refl _
  | arrive message forward hforward =>
      have hmessage := hs.forward message (by rw [hforward]; exact List.mem_cons_self)
      exact ⟨flight, h.arrive hmessage hforward⟩
  | deliverEnd payload _ =>
      have hend := h.putEnd payload hresponse
      exact ⟨flight, hend.latest, hend.bounded, hend.back, hend.near, hend.full, hend.credit⟩
  | get c hget => exact ⟨flight, h.get hget⟩
  | next c hnext => exact ⟨flight, h.next hnext⟩
  | returned c hreturned =>
      have hphase := (Consumer.returned_cases hreturned).1
      have hregistered := (hs.consumer.active (by rw [hphase]; rfl)).1
      exact ⟨flight, h.returned hregistered hreturned⟩
  | leave c hleave =>
      rw [Consumer.leave_cases hleave]
      exact ⟨flight, h.regroup_consumer nofun nofun nofun⟩
  | stopped c hstopped =>
      obtain ⟨ending, hphase, rfl⟩ := Consumer.stopped_cases hstopped
      have hinbound : Session.inbound { s with back := s.back ++ [.stop] } = s.inbound := by
        simp [inbound, Back.segment]
      refine ⟨flight, h.regroup rfl hinbound ?_ ?_ fun hreg hrel => ⟨hreg, hrel, rfl, rfl⟩⟩
      · refine fun hreg => ⟨hreg, ?_⟩
        rw [Consumer.segments, Consumer.segments, hphase]
        exact .refl _
      · refine fun hintact => ⟨hintact, Segments.Regroups.append_right ?_ _⟩
        rw [Consumer.segments, Consumer.segments, hphase]
        exact .refl _

end Session

end Rmote
