import Rmote.Library.Counting
import Rmote.Wire.Receive
import Rmote.Wire.Send

/-!
# What the peer makes of the written frames

`Tracks s as r` relates a channel to the peer that decoded every frame on its
wire: `as` are the packets it returned and `r` is its decoding state. The two
zlib objects agree, every entry of the fragment buffer belongs to a packet that
is written in part, and holds no more than what is written of the packets with
that number. One step of the channel either writes nothing or writes the frame
whose fate `absorb_nextFrame` describes.
-/

namespace Rmote

/-- Limits for the receive side. -/
def maxReassemblyBytes : ℕ := 256 * 1024 * 1024

def maxPartialPackets : ℕ := 256

variable {Z : Zlib}

namespace Task

theorem length_chunk (t : Task) :
    t.chunk.length = min fragmentSize (t.packet.payload.length - t.offset) := by
  simp [chunk]

theorem length_chunk_le (t : Task) : t.chunk.length ≤ fragmentSize := by
  rw [length_chunk]
  exact min_le_left _ _

/-- The written part of the payload grows by the chunk. -/
theorem take_offset_append_chunk (t : Task) :
    t.packet.payload.take t.offset ++ t.chunk = t.packet.payload.take t.next := by
  rw [next, length_chunk, chunk, ← List.take_add, List.take_eq_take_iff]
  omega

theorem take_offset_append_final {t : Task} (h : t.final = true) :
    t.packet.payload.take t.offset ++ t.chunk = t.packet.payload := by
  rw [take_offset_append_chunk]
  exact List.take_of_length_le (by simpa [final] using h)

/-- A chunk that is not the last one is full. -/
theorem length_chunk_of_not_final {t : Task} (h : t.final = false) :
    t.chunk.length = fragmentSize := by
  have hnext : ¬ t.packet.payload.length ≤ t.next := by simpa [final] using h
  rw [next, length_chunk] at hnext
  rw [length_chunk]
  omega

@[simp] theorem has_compressed_frameFlags (t : Task) :
    t.frameFlags.has Flags.compressed = false := by
  have hbits : Flags.has Flags.fragment Flags.compressed = false := by decide
  unfold frameFlags
  split_ifs <;> simp [t.packet.plain, hbits]

@[simp] theorem has_fragment_frameFlags (t : Task) :
    t.frameFlags.has Flags.fragment = !t.final := by
  have hbits : Flags.has Flags.fragment Flags.fragment = true := by decide
  unfold frameFlags
  split_ifs with hfinal
  · simp [t.packet.whole, hfinal]
  · simp [hbits, hfinal]

theorem stored_le_offset (t : Task) : t.stored ≤ t.offset := by
  unfold stored
  split_ifs <;> omega

theorem stored_le_length (t : Task) : t.stored ≤ t.packet.payload.length := by
  unfold stored
  split_ifs with hmid
  · have hlt : 0 < t.offset ∧ t.offset < t.packet.payload.length := by
      simpa [midway] using hmid
    omega
  · exact Nat.zero_le _

/-- A task that wrote a fragment is midway. -/
theorem midway_next {t : Task} (h : t.final = false) (phase : Phase) :
    midway { t with offset := t.next, phase := phase } = true := by
  have hchunk := length_chunk_of_not_final h
  have hnext : t.next < t.packet.payload.length := by simpa [final] using h
  have hpos : 0 < t.next := by
    rw [next, hchunk]
    exact Nat.add_pos_right _ (by decide)
  simp [midway, hpos, hnext]

/-- A task that wrote its final frame is not midway. -/
theorem midway_final {t : Task} (h : t.final = true) (phase : Phase) :
    midway { t with offset := t.next, phase := phase } = false := by
  have hnext : t.packet.payload.length ≤ t.next := by simpa [final] using h
  simp [midway, hnext]

theorem frameFlags_final {t : Task} (h : t.final = true) : t.frameFlags = t.packet.flags := by
  simp [frameFlags, h]

end Task

/-- The offsets that go with the phases of a task. -/
structure Task.Shaped (t : Task) : Prop where
  waiting : t.phase = .waiting → t.offset = 0 ∨ t.midway = true
  draining : t.phase = .draining → t.packet.payload.length ≤ t.offset ∨ t.midway = true
  done : t.phase = .done → t.midway = false

/-- The packet that an event begins. -/
def Event.begun : Event → List Outgoing
  | .submit packet => [packet]
  | _ => []

namespace Inbound

/-- The peer at the ready boundary. -/
def start (Z : Zlib) (gunzip : Bytes → Except String Bytes) : Inbound Z where
  inflate := some ⟨Z.inflate, fragmentSize⟩
  fragments := FragmentBuffer.new maxReassemblyBytes maxPartialPackets
  gunzip := gunzip

end Inbound

/-- The compressor of the sender and the decompressor of the peer saw the same
bodies. -/
def CodecPaired (deflate : Option (FrameCompressor Z)) (inflate : Option (FrameDecompressor Z)) :
    Prop :=
  ∃ c d, deflate = some c ∧ inflate = some d ∧ d.limit = fragmentSize ∧ Z.Paired c.codec d.codec

/-- A call or a response of `n` zero bytes that travels raw. -/
def Outgoing.zeros (origin : Origin) (packetId n : ℕ) : Outgoing where
  origin := origin
  packetId := packetId
  payload := List.replicate n 0
  flags := if origin = .peer then Flags.rpc ||| Flags.response else Flags.rpc ||| Flags.request
  allowed := false
  plain := by cases origin <;> decide
  whole := by cases origin <;> decide

@[simp] theorem Outgoing.length_zeros (origin : Origin) (packetId n : ℕ) :
    (Outgoing.zeros origin packetId n).payload.length = n :=
  List.length_replicate

namespace Channel

/-- A frame travels raw and leaves the dictionary alone, or it carries the mark
and the compressed chunk. -/
theorem nextFrame_cases (s : Channel Z) (t : Task) :
    s.nextFrame t = (⟨t.frameFlags, t.packet.packetId, t.chunk⟩, s.deflate) ∨
      ∃ c, s.deflate = some c ∧
        s.nextFrame t =
          (⟨t.frameFlags ||| Flags.compressed, t.packet.packetId, (Z.compress c.codec t.chunk).1⟩,
            some { c with codec := (Z.compress c.codec t.chunk).2 }) := by
  cases hc : s.deflate with
  | none => exact .inl (by simp [nextFrame, encodeBody, hc])
  | some c =>
      by_cases hraw : (!t.packet.allowed || c.dense t.chunk) = true
      · exact .inl (by simp [nextFrame, encodeBody, hc, FrameCompressor.encode, hraw])
      · exact .inr ⟨c, rfl, by simp [nextFrame, encodeBody, hc, FrameCompressor.encode, hraw]⟩

@[simp] theorem packetId_nextFrame (s : Channel Z) (t : Task) :
    (s.nextFrame t).1.packetId = t.packet.packetId := rfl

theorem has_compressed_or (flags : Flags) :
    (flags ||| Flags.compressed).has Flags.compressed = true := by
  have hbits : Flags.has Flags.compressed Flags.compressed = true := by decide
  simp [hbits]

/-- The mark of the codec does not touch the fragment mark. -/
theorem has_fragment_nextFrame (s : Channel Z) (t : Task) :
    (s.nextFrame t).1.flags.has Flags.fragment = !t.final := by
  have hbits : Flags.has Flags.compressed Flags.fragment = false := by decide
  rcases s.nextFrame_cases t with h | ⟨c, -, h⟩ <;> simp [h, hbits]

/-- The peer inflates a frame to the chunk and the flags that the sender gave to
`send_frame`. -/
theorem inflateBody_nextFrame {s : Channel Z} {r : Inbound Z} (t : Task)
    (hcodec : CodecPaired s.deflate r.inflate) :
    ∃ inflate, r.inflateBody (s.nextFrame t).1 =
        (.ok (t.chunk, t.frameFlags), { r with inflate := inflate }) ∧
      CodecPaired (s.nextFrame t).2 inflate := by
  obtain ⟨c, d, hc, hd, hlimit, hpair⟩ := hcodec
  have hplain := t.has_compressed_frameFlags
  rcases s.nextFrame_cases t with h | ⟨c', hc', h⟩
  · refine ⟨r.inflate, ?_, c, d, by rw [h, hc], hd, hlimit, hpair⟩
    simp only [h, Inbound.inflateBody, hd, hplain, Bool.false_eq_true, if_false]
    rw [← hd]
  · obtain rfl : c = c' := Option.some.inj (hc.symm.trans hc')
    have hlen : t.chunk.length ≤ d.limit := hlimit ▸ t.length_chunk_le
    obtain ⟨codec, hdec, hnext⟩ := FrameDecompressor.decode_compress hpair hlen
    refine ⟨some { d with codec := codec }, ?_, _, _, by rw [h], rfl, hlimit, hnext⟩
    simp only [h, Inbound.inflateBody, hd, has_compressed_or, if_true, hdec]
    rw [Flags.clear_or_self hplain]

/-- A written frame is within the limit that the peer checks before it reads the
body. -/
theorem length_nextFrame_le (s : Channel Z) (t : Task) :
    (s.nextFrame t).1.body.length ≤ frameLimit true (s.nextFrame t).1.flags := by
  have hchunk := t.length_chunk_le
  rcases s.nextFrame_cases t with h | ⟨c, -, h⟩
  · simpa [h, frameLimit] using hchunk
  · simp only [h, frameLimit, has_compressed_or, Bool.and_self, if_true]
    exact Z.bounded c.codec t.chunk fragmentSize hchunk

/-- The header of a frame packs as soon as the packet id fits its 64 bits. -/
theorem packable_nextFrame (s : Channel Z) {t : Task} (h : t.packet.packetId < 2 ^ 64) :
    (s.nextFrame t).1.Packable := by
  have hlen := s.length_nextFrame_le t
  have hlimit : frameLimit true (s.nextFrame t).1.flags ≤ compressedLimit fragmentSize := by
    unfold frameLimit
    split_ifs <;> simp [compressedLimit]
  have hroom : compressedLimit fragmentSize < 2 ^ 32 := by decide
  exact ⟨by omega, h⟩

/-- The peer completes the packet of a final frame with what it stored for its
number. -/
theorem absorb_nextFrame_final {s : Channel Z} {r : Inbound Z} {t : Task}
    (hcodec : CodecPaired s.deflate r.inflate) (hfinal : t.final = true) :
    ∃ inflate, r.absorb (s.nextFrame t).1 =
        (.ok (some ⟨r.fragments.joined t.packet.packetId ++ t.chunk, t.packet.flags,
            t.packet.packetId⟩),
          { r with
            inflate := inflate
            fragments := (r.fragments.take t.packet.packetId t.chunk).2 }) ∧
      CodecPaired (s.nextFrame t).2 inflate := by
  obtain ⟨inflate, hbody, hnext⟩ := inflateBody_nextFrame t hcodec
  refine ⟨inflate, ?_, hnext⟩
  simp [Inbound.absorb, hbody, Inbound.place, ← FragmentBuffer.take_fst,
    Task.frameFlags_final hfinal, t.packet.plain, t.packet.whole]

/-- The peer stores a fragment under its number, or refuses it. -/
theorem absorb_nextFrame_fragment {s : Channel Z} {r : Inbound Z} {t : Task}
    (hcodec : CodecPaired s.deflate r.inflate) (hfinal : t.final = false) :
    ∃ inflate, r.absorb (s.nextFrame t).1 =
        (match (r.fragments.store t.packet.packetId t.chunk).1 with
          | .ok _ => .ok none
          | .error e => .error (.store e),
          { r with
            inflate := inflate
            fragments := (r.fragments.store t.packet.packetId t.chunk).2 }) ∧
      CodecPaired (s.nextFrame t).2 inflate := by
  obtain ⟨inflate, hbody, hnext⟩ := inflateBody_nextFrame t hcodec
  refine ⟨inflate, ?_, hnext⟩
  have hfragment : t.frameFlags.has Flags.fragment = true := by simp [hfinal]
  simp only [Inbound.absorb, hbody, packetId_nextFrame, Inbound.place, hfragment, if_true]
  rcases hstore : r.fragments.store t.packet.packetId t.chunk with ⟨e | u, b⟩ <;> rfl

/-- What is written of the incomplete packets with the number `n`. -/
def storedAt (tasks : List Task) (n : ℕ) : ℕ :=
  Counting.weightAt (fun t => t.packet.packetId) Task.stored tasks n

/-- The peer decoded all that is on the wire: it returned `as`, and `r` is its
state. -/
structure Tracks (gunzip : Bytes → Except String Bytes) (s : Channel Z) (as : List Assembled)
    (r : Inbound Z) : Prop where
  absorbed : (Inbound.start Z gunzip).absorbAll s.wire = (as, .ok r)
  codec : s.closing = false → CodecPaired s.deflate r.inflate
  coherent : r.fragments.Coherent
  maxBytes : r.fragments.maxBytes = maxReassemblyBytes
  maxPackets : r.fragments.maxPackets = maxPartialPackets
  covered : ∀ n ∈ r.fragments.buffers, ∃ t ∈ s.tasks, t.midway = true ∧ t.packet.packetId = n
  bounded : ∀ n, (r.fragments.joined n).length ≤ storedAt s.tasks n

variable {gunzip : Bytes → Except String Bytes} {s s' : Channel Z} {as : List Assembled}
  {r : Inbound Z} {i : ℕ} {t : Task}

theorem tracks_init : Tracks gunzip (init Z) [] (Inbound.start Z gunzip) where
  absorbed := rfl
  codec _ := ⟨_, _, rfl, rfl, rfl, Z.paired_init⟩
  coherent := FragmentBuffer.coherent_new _ _
  maxBytes := rfl
  maxPackets := rfl
  covered n hn := absurd hn (AList.notMem_empty n)
  bounded n := by simp [Inbound.start, FragmentBuffer.new, FragmentBuffer.joined]

/-- A step that writes nothing and moves no offset keeps the peer in step. -/
theorem Tracks.of_tasks (h : Tracks gunzip s as r) (hwire : s'.wire = s.wire)
    (hcodec : s'.closing = false → s.closing = false ∧ s'.deflate = s.deflate)
    (hcovered : ∀ u ∈ s.tasks, ∃ v ∈ s'.tasks, v.midway = u.midway ∧
      v.packet.packetId = u.packet.packetId)
    (hstored : ∀ n, storedAt s'.tasks n = storedAt s.tasks n) : Tracks gunzip s' as r where
  absorbed := by rw [hwire]; exact h.absorbed
  codec hopen := by
    obtain ⟨hs, hdeflate⟩ := hcodec hopen
    rw [hdeflate]
    exact h.codec hs
  coherent := h.coherent
  maxBytes := h.maxBytes
  maxPackets := h.maxPackets
  covered n hn := by
    obtain ⟨u, hu, hmid, hid⟩ := h.covered n hn
    obtain ⟨v, hv, hvmid, hvid⟩ := hcovered u hu
    exact ⟨v, hv, hvmid.trans hmid, hvid.trans hid⟩
  bounded n := by rw [hstored n]; exact h.bounded n

theorem Tracks.submit (h : Tracks gunzip s as r) (packet : Outgoing) :
    Tracks gunzip { s with tasks := s.tasks ++ [⟨packet, 0, .waiting⟩] } as r := by
  refine h.of_tasks rfl (fun hopen => ⟨hopen, rfl⟩) ?_ ?_
  · intro u hu
    exact ⟨u, List.mem_append_left _ hu, rfl, rfl⟩
  · intro n
    have hfresh : Task.stored ⟨packet, 0, .waiting⟩ = 0 := by simp [Task.stored, Task.midway]
    simp [storedAt, Counting.weightAt_append, hfresh]

/-- Only the phase of one task changes. -/
theorem Tracks.setPhase (h : Tracks gunzip s as r) (hi : s.tasks[i]? = some t) (phase : Phase)
    (hwire : s'.wire = s.wire)
    (hcodec : s'.closing = false → s.closing = false ∧ s'.deflate = s.deflate)
    (htasks : s'.tasks = s.tasks.set i { t with phase := phase }) : Tracks gunzip s' as r := by
  refine h.of_tasks hwire hcodec ?_ ?_
  · intro u hu
    rw [htasks]
    rcases Counting.eq_or_mem_set { t with phase := phase } hi hu with rfl | hmem
    · exact ⟨_, Counting.mem_set_self _ hi, rfl, rfl⟩
    · exact ⟨u, hmem, rfl, rfl⟩
  · intro n
    have hsame : Task.stored { t with phase := phase } = t.stored := rfl
    have hset := Counting.weightAt_set (fun t : Task => t.packet.packetId) Task.stored
      { t with phase := phase } hi rfl n
    rw [htasks, storedAt, storedAt]
    rw [hsame] at hset
    exact Nat.add_right_cancel hset

/-- No task moved its offset between the two states, and a task that is new wrote
nothing. -/
def SameOffsets (s s' : Channel Z) : Prop :=
  ∀ (j : ℕ) (u' : Task), s'.tasks[j]? = some u' → u'.offset = 0 ∨
    ∃ u, s.tasks[j]? = some u ∧ u'.packet = u.packet ∧ u'.offset = u.offset

theorem sameOffsets_set (hi : s.tasks[i]? = some t) (phase : Phase)
    (htasks : s'.tasks = s.tasks.set i { t with phase := phase }) : SameOffsets s s' := by
  intro j u' hj
  rw [htasks, List.getElem?_set] at hj
  split_ifs at hj with hij hlt
  · subst hij
    obtain rfl := Option.some.inj hj
    exact .inr ⟨t, hi, rfl, rfl⟩
  · exact .inr ⟨u', hj, rfl, rfl⟩

theorem sameOffsets_append (packet : Outgoing)
    (htasks : s'.tasks = s.tasks ++ [⟨packet, 0, .waiting⟩]) : SameOffsets s s' := by
  intro j u' hj
  rw [htasks, List.getElem?_append] at hj
  split_ifs at hj with hlt
  · exact .inr ⟨u', hj, rfl, rfl⟩
  · obtain rfl := List.mem_singleton.mp (List.mem_of_getElem? hj)
    exact .inl rfl

/-- A task that is midway was midway before a step that moves no offset. -/
theorem SameOffsets.midway (h : SameOffsets s s') {j : ℕ} {u' : Task}
    (hj : s'.tasks[j]? = some u') (hmid : u'.midway = true) :
    ∃ u, s.tasks[j]? = some u ∧ u'.packet = u.packet ∧ u'.offset = u.offset ∧
      u.midway = true := by
  rcases h j u' hj with hzero | ⟨u, hu, hpacket, hoffset⟩
  · simp [Task.midway, hzero] at hmid
  · refine ⟨u, hu, hpacket, hoffset, ?_⟩
    rw [Task.midway, hpacket, hoffset] at hmid
    exact hmid

theorem shaped_step {e : Event} (h : s.step e = some s') (hs : ∀ t ∈ s.tasks, t.Shaped) :
    ∀ t ∈ s'.tasks, t.Shaped := by
  refine forall_tasks_step h hs ?_ ?_ ?_ ?_
  · intro packet
    exact ⟨fun _ => .inl rfl, nofun, nofun⟩
  · intro t _ _ _
    refine ⟨nofun, fun _ => ?_, nofun⟩
    cases hfinal : t.final with
    | true => exact .inl (by simpa [Task.final] using hfinal)
    | false => exact .inr (Task.midway_next hfinal .draining)
  · intro t _ ht hphase
    constructor
    · intro hwaiting
      rcases ht.draining hphase with hlast | hmid
      · simp [hlast] at hwaiting
      · exact .inr hmid
    · intro hdraining
      split_ifs at hdraining
    · intro hdone
      by_cases hlast : t.packet.payload.length ≤ t.offset
      · simp [Task.midway, hlast]
      · simp [hlast] at hdone
  · intro t _ _ phase hphase
    rcases hphase with rfl | rfl <;> exact ⟨nofun, nofun, nofun⟩

theorem shaped_run {es : List Event} (hrun : Machine.run step (init Z) es = some s) :
    ∀ t ∈ s.tasks, t.Shaped :=
  Machine.run_always (fun s : Channel Z => ∀ t ∈ s.tasks, t.Shaped)
    (fun _ _ _ hs hstep => shaped_step hstep hs) hrun (by simp [init])

/-- A step only adds to the wire. -/
theorem step_wire (h : s.step e = some s') : ∃ fs, s'.wire = s.wire ++ fs := by
  rcases step_cases h with ⟨packet, -, rfl⟩ | ⟨i, t, -, -, -, rfl⟩ | ⟨i, t, -, -, -, rfl⟩ |
    ⟨i, t, -, -, -, rfl⟩ | ⟨i, t, phase, -, -, -, -, rfl⟩ | ⟨-, rfl⟩
  · exact ⟨[], by simp⟩
  · unfold sendFrame
    split_ifs
    · exact ⟨[], by simp⟩
    · exact ⟨[(s.nextFrame t).1], rfl⟩
    · exact ⟨[], by simp⟩
  · exact ⟨[], by simp [afterDrain]⟩
  · exact ⟨[], by simp⟩
  · exact ⟨[], by simp [abort]⟩
  · exact ⟨[], by simp⟩

/-- A step writes nothing, or it writes the next frame of a waiting task on an
open channel. -/
theorem step_writes {e : Event} (h : s.step e = some s') (ht : Tracks gunzip s as r) :
    (Tracks gunzip s' as r ∧ s'.wire = s.wire ∧ s'.finished = s.finished ∧ SameOffsets s s') ∨
      ∃ i t, e = .write i ∧ s.tasks[i]? = some t ∧ t.phase = .waiting ∧ s.closing = false ∧
        (s.nextFrame t).1.Packable ∧ s' = s.written i t := by
  rcases step_cases h with ⟨packet, -, rfl⟩ | ⟨i, t, rfl, hi, hphase, rfl⟩ |
    ⟨i, t, -, hi, -, rfl⟩ | ⟨i, t, -, hi, -, rfl⟩ | ⟨i, t, phase, -, hi, -, -, rfl⟩ | ⟨-, rfl⟩
  · exact .inl ⟨ht.submit packet, rfl, rfl, sameOffsets_append packet rfl⟩
  · unfold sendFrame
    split_ifs with hclosing hpack
    · exact .inl ⟨ht.setPhase hi .failed rfl (fun hopen => ⟨hopen, rfl⟩) rfl, rfl, rfl,
        sameOffsets_set hi .failed rfl⟩
    · exact .inr ⟨i, t, rfl, hi, hphase, by simpa using hclosing, hpack, rfl⟩
    · exact .inl ⟨ht.setPhase hi .failed rfl (fun hopen => nomatch hopen) rfl, rfl, rfl,
        sameOffsets_set hi .failed rfl⟩
  · exact .inl ⟨ht.setPhase hi _ rfl (fun hopen => ⟨hopen, rfl⟩) rfl, rfl, rfl,
      sameOffsets_set hi _ rfl⟩
  · exact .inl ⟨ht.setPhase hi .cancelled rfl (fun hopen => ⟨hopen, rfl⟩) rfl, rfl, rfl,
      sameOffsets_set hi .cancelled rfl⟩
  · exact .inl ⟨ht.setPhase hi phase rfl (fun hopen => nomatch hopen) rfl, rfl, rfl,
      sameOffsets_set hi phase rfl⟩
  · refine .inl ⟨ht.of_tasks rfl (fun hopen => nomatch hopen) ?_ (fun _ => rfl), rfl, rfl, ?_⟩
    · exact fun u hu => ⟨u, hu, rfl, rfl⟩
    · exact fun j u' hj => .inr ⟨u', hj, rfl, rfl⟩

/-- The peer returns the packet of a final frame. -/
theorem Tracks.written_final (h : Tracks gunzip s as r) (hi : s.tasks[i]? = some t)
    (hopen : s.closing = false) (hfinal : t.final = true) :
    ∃ r', Tracks gunzip (s.written i t)
        (as ++ [⟨r.fragments.joined t.packet.packetId ++ t.chunk, t.packet.flags,
          t.packet.packetId⟩]) r' ∧
      r'.fragments = (r.fragments.take t.packet.packetId t.chunk).2 := by
  obtain ⟨inflate, habsorb, hnext⟩ := absorb_nextFrame_final (h.codec hopen) hfinal
  refine ⟨{ r with
    inflate := inflate
    fragments := (r.fragments.take t.packet.packetId t.chunk).2 }, ?_, rfl⟩
  constructor
  · have happend := Inbound.absorbAll_append h.absorbed [(s.nextFrame t).1]
    simpa [Inbound.absorbAll, habsorb, written] using happend
  · exact fun _ => hnext
  · exact FragmentBuffer.coherent_take h.coherent _ _
  · simpa using h.maxBytes
  · simpa using h.maxPackets
  · intro n hn
    obtain ⟨hne, hmem⟩ := FragmentBuffer.mem_take.mp hn
    obtain ⟨u, hu, hmid, hid⟩ := h.covered n hmem
    rcases Counting.eq_or_mem_set { t with offset := t.next, phase := .draining } hi hu
      with rfl | hset
    · exact absurd hid.symm hne
    · exact ⟨u, hset, hmid, hid⟩
  · intro n
    by_cases hn : n = t.packet.packetId
    · subst hn
      simp [FragmentBuffer.joined_take_self]
    · have hset := Counting.weightAt_set (fun t : Task => t.packet.packetId) Task.stored
        { t with offset := t.next, phase := .draining } hi rfl n
      have hbound := h.bounded n
      rw [if_neg (Ne.symm hn), if_neg (Ne.symm hn)] at hset
      simp only [FragmentBuffer.joined_take_ne _ _ hn]
      simp only [storedAt, written] at hbound hset ⊢
      omega

/-- The peer stores a fragment that fits. -/
theorem Tracks.written_fragment (h : Tracks gunzip s as r) (hi : s.tasks[i]? = some t)
    (hopen : s.closing = false) (hfinal : t.final = false)
    (hstore : (r.fragments.store t.packet.packetId t.chunk).1 = .ok ()) :
    ∃ r', Tracks gunzip (s.written i t) as r' ∧
      r'.fragments = (r.fragments.store t.packet.packetId t.chunk).2 := by
  obtain ⟨inflate, habsorb, hnext⟩ := absorb_nextFrame_fragment (h.codec hopen) hfinal
  rw [hstore] at habsorb
  refine ⟨{ r with
    inflate := inflate
    fragments := (r.fragments.store t.packet.packetId t.chunk).2 }, ?_, rfl⟩
  constructor
  · have happend := Inbound.absorbAll_append h.absorbed [(s.nextFrame t).1]
    simpa [Inbound.absorbAll, habsorb, written] using happend
  · exact fun _ => hnext
  · exact FragmentBuffer.coherent_store h.coherent _ _
  · simpa using h.maxBytes
  · simpa using h.maxPackets
  · intro n hn
    rcases (FragmentBuffer.mem_store hstore).mp hn with rfl | hmem
    · exact ⟨_, Counting.mem_set_self _ hi, Task.midway_next hfinal .draining, rfl⟩
    · obtain ⟨u, hu, hmid, hid⟩ := h.covered n hmem
      rcases Counting.eq_or_mem_set { t with offset := t.next, phase := .draining } hi hu
        with rfl | hset
      · exact ⟨_, Counting.mem_set_self _ hi, Task.midway_next hfinal .draining, hid⟩
      · exact ⟨u, hset, hmid, hid⟩
  · intro n
    have hset := Counting.weightAt_set (fun t : Task => t.packet.packetId) Task.stored
      { t with offset := t.next, phase := .draining } hi rfl n
    have hstored : Task.stored { t with offset := t.next, phase := .draining } = t.next := by
      rw [Task.stored, if_pos (Task.midway_next hfinal .draining)]
    have hold := t.stored_le_offset
    have hbound := h.bounded n
    rw [hstored, Task.next] at hset
    simp only [storedAt, written, Task.next] at hbound hset ⊢
    by_cases hn : n = t.packet.packetId
    · subst hn
      rw [FragmentBuffer.joined_store_self hstore, List.length_append]
      simp only [if_true] at hset
      omega
    · rw [if_neg (Ne.symm hn), if_neg (Ne.symm hn)] at hset
      simp only [FragmentBuffer.joined_store_ne _ _ hn]
      omega

/-- The peer fails at a fragment that it refuses. -/
theorem Tracks.written_refused (h : Tracks gunzip s as r) (hopen : s.closing = false)
    (hfinal : t.final = false) {error : StoreError}
    (hstore : (r.fragments.store t.packet.packetId t.chunk).1 = .error error) :
    (Inbound.start Z gunzip).absorbAll (s.written i t).wire = (as, .error (.store error)) := by
  obtain ⟨inflate, habsorb, -⟩ := absorb_nextFrame_fragment (h.codec hopen) hfinal
  rw [hstore] at habsorb
  have happend := Inbound.absorbAll_append h.absorbed [(s.nextFrame t).1]
  simpa [Inbound.absorbAll, habsorb, written] using happend

/-- The bytes of the incomplete packets that are written. -/
def midwayBytes (s : Channel Z) : ℕ := (s.tasks.map Task.stored).sum

/-- The number of packets that are written in part. -/
def midwayPackets (s : Channel Z) : ℕ := s.tasks.countP Task.midway

/-- The buffer holds no more bytes than the incomplete packets have written. -/
theorem Tracks.totalBytes_le (h : Tracks gunzip s as r) :
    r.fragments.totalBytes ≤ s.midwayBytes := by
  rw [h.coherent.totalBytes_eq]
  refine Counting.total_le (fun t : Task => t.packet.packetId) Task.stored ?_
  intro n
  rw [h.coherent.size_eq n]
  exact h.bounded n

theorem midwayBytes_written (hi : s.tasks[i]? = some t) (hfinal : t.final = false) :
    s.midwayBytes + t.chunk.length ≤ (s.written i t).midwayBytes := by
  have hset := Counting.sum_map_set Task.stored { t with offset := t.next, phase := .draining } hi
  have hstored : Task.stored { t with offset := t.next, phase := .draining } = t.next := by
    rw [Task.stored, if_pos (Task.midway_next hfinal .draining)]
  have hold := t.stored_le_offset
  rw [hstored, Task.next] at hset
  simp only [midwayBytes, written, Task.next]
  omega

/-- A fragment is stored as long as the incomplete packets of the channel stay
within the limits of the buffer. -/
theorem Tracks.store_ok (h : Tracks gunzip s as r) (hi : s.tasks[i]? = some t)
    (hfinal : t.final = false)
    (hpackets : (s.written i t).midwayPackets ≤ maxPartialPackets)
    (hbytes : (s.written i t).midwayBytes ≤ maxReassemblyBytes) :
    (r.fragments.store t.packet.packetId t.chunk).1 = .ok () := by
  rw [FragmentBuffer.store_ok_iff, h.maxBytes, h.maxPackets]
  constructor
  · by_cases hmem : t.packet.packetId ∈ r.fragments.buffers
    · exact .inl hmem
    · have hnodup : (t.packet.packetId :: r.fragments.buffers.keys).Nodup :=
        List.nodup_cons.mpr ⟨hmem, r.fragments.buffers.keys_nodup⟩
      have hcount := Counting.length_le_countP (l := (s.written i t).tasks)
        (fun t : Task => t.packet.packetId) hnodup (?_ : ∀ n ∈ _, ∃ a ∈ _, Task.midway a = true ∧ _)
      · rw [List.length_cons] at hcount
        exact .inr (lt_of_lt_of_le hcount hpackets)
      · intro n hn
        rcases List.mem_cons.mp hn with rfl | hn
        · exact ⟨_, Counting.mem_set_self _ hi, Task.midway_next hfinal .draining, rfl⟩
        · obtain ⟨u, hu, hmid, hid⟩ := h.covered n hn
          rcases Counting.eq_or_mem_set { t with offset := t.next, phase := .draining } hi hu
            with rfl | hset
          · exact ⟨_, Counting.mem_set_self _ hi, Task.midway_next hfinal .draining, hid⟩
          · exact ⟨u, hset, hmid, hid⟩
  · have htotal := h.totalBytes_le
    have hwritten := midwayBytes_written hi hfinal
    omega

/-- One step keeps the peer in step, unless the buffer refuses a fragment. -/
theorem Tracks.step_or_refused (h : Tracks gunzip s as r) {e : Event}
    (hstep : s.step e = some s') :
    (∃ as' r', Tracks gunzip s' as' r') ∨
      ∃ error, (Inbound.start Z gunzip).absorbAll s'.wire = (as, .error (.store error)) := by
  rcases step_writes hstep h with ⟨htracks, -⟩ | ⟨i, t, rfl, hi, -, hopen, -, rfl⟩
  · exact .inl ⟨as, r, htracks⟩
  · cases hfinal : t.final with
    | true =>
        obtain ⟨r', htracks, -⟩ := h.written_final hi hopen hfinal
        exact .inl ⟨_, r', htracks⟩
    | false =>
        cases hstore : (r.fragments.store t.packet.packetId t.chunk).1 with
        | error error => exact .inr ⟨error, h.written_refused hopen hfinal hstore⟩
        | ok =>
            obtain ⟨r', htracks, -⟩ := h.written_fragment hi hopen hfinal hstore
            exact .inl ⟨as, r', htracks⟩

/-- Over a whole run the peer stays in step, or it failed at a fragment that the
buffer refused. -/
theorem tracks_or_refused {es : List Event} (hrun : Machine.run step (init Z) es = some s)
    (gunzip : Bytes → Except String Bytes) :
    (∃ as r, Tracks gunzip s as r) ∨
      ∃ as error, (Inbound.start Z gunzip).absorbAll s.wire = (as, .error (.store error)) := by
  refine Machine.run_always
    (fun s : Channel Z => (∃ as r, Tracks gunzip s as r) ∨
      ∃ as error, (Inbound.start Z gunzip).absorbAll s.wire = (as, .error (.store error)))
    ?_ hrun (.inl ⟨_, _, tracks_init⟩)
  rintro s e t (⟨as, r, htracks⟩ | ⟨as, error, hrefused⟩) hstep
  · rcases htracks.step_or_refused hstep with hnext | ⟨error, hrefused⟩
    · exact .inl hnext
    · exact .inr ⟨as, error, hrefused⟩
  · obtain ⟨fs, hwire⟩ := step_wire hstep
    exact .inr ⟨as, error, by rw [hwire]; exact Inbound.absorbAll_append_error hrefused fs⟩

/-- Every written frame has a header that `struct` packs and a body within the
limit of the peer. -/
theorem readable_step {e : Event} (h : s.step e = some s')
    (hwire : ∀ f ∈ s.wire, f.Packable ∧ f.body.length ≤ frameLimit true f.flags) :
    ∀ f ∈ s'.wire, f.Packable ∧ f.body.length ≤ frameLimit true f.flags := by
  rcases step_cases h with ⟨packet, -, rfl⟩ | ⟨i, t, -, -, -, rfl⟩ | ⟨i, t, -, -, -, rfl⟩ |
    ⟨i, t, -, -, -, rfl⟩ | ⟨i, t, phase, -, -, -, -, rfl⟩ | ⟨-, rfl⟩
  · exact hwire
  · unfold sendFrame
    split_ifs with hclosing hpack
    · exact hwire
    · intro f hf
      rcases List.mem_append.mp hf with hf | hf
      · exact hwire f hf
      · rw [List.mem_singleton.mp hf]
        exact ⟨hpack, s.length_nextFrame_le t⟩
    · exact hwire
  · exact hwire
  · exact hwire
  · exact hwire
  · exact hwire

/-- What the calls of `receive` at the peer return over the bytes on the wire,
and whether they fail or reach the end of the stream. -/
def received (gunzip : Bytes → Except String Bytes) (threshold : Option ℕ) (s : Channel Z) :
    List Assembled × Except ReceiveError (Inbound Z) :=
  Receiver.reassemble ⟨Inbound.start Z gunzip, threshold, []⟩
    (readFrames true (s.wire.flatMap Frame.encode)).1

/-- The peer decodes exactly the frames that were written, whatever its decode
threshold is. -/
theorem received_eq_absorbAll {es : List Event} (hrun : Machine.run step (init Z) es = some s)
    (gunzip : Bytes → Except String Bytes) (threshold : Option ℕ) :
    s.received gunzip threshold = (Inbound.start Z gunzip).absorbAll s.wire := by
  have hwire : ∀ f ∈ s.wire, f.Packable ∧ f.body.length ≤ frameLimit true f.flags :=
    Machine.run_always
      (fun s : Channel Z => ∀ f ∈ s.wire, f.Packable ∧ f.body.length ≤ frameLimit true f.flags)
      (fun _ _ _ hs hstep => readable_step hstep hs) hrun (by simp [init])
  have hopen : Receiver.Open ⟨Inbound.start Z gunzip, threshold, []⟩ :=
    ⟨by simp, fun _ => rfl⟩
  rw [received, readFrames_encode true s.wire hwire, Receiver.reassemble_eq_absorbAll hopen]
  rfl

/-- The incomplete packets fit the limits of the peer's buffer. -/
def Within (s : Channel Z) : Prop :=
  s.midwayPackets ≤ maxPartialPackets ∧ s.midwayBytes ≤ maxReassemblyBytes

/-- The step keeps the incomplete packets within the limits. -/
def StaysWithin (s : Channel Z) (e : Event) : Prop := ∀ s', s.step e = some s' → s'.Within

/-- The packets of the tasks are those that were begun. -/
theorem packets_step {e : Event} (h : s.step e = some s') :
    s'.tasks.map Task.packet = s.tasks.map Task.packet ++ e.begun := by
  have hset : ∀ {i : ℕ} {t t' : Task}, s.tasks[i]? = some t → t'.packet = t.packet →
      (s.tasks.set i t').map Task.packet = s.tasks.map Task.packet ++ [] := by
    intro i t t' hi hpacket
    obtain ⟨hlt, ht⟩ := List.getElem?_eq_some_iff.mp hi
    rw [List.append_nil, List.map_set, hpacket, ← List.map_set, ← ht, List.set_getElem_self]
  rcases step_cases h with ⟨packet, rfl, rfl⟩ | ⟨i, t, rfl, hi, -, rfl⟩ |
    ⟨i, t, rfl, hi, -, rfl⟩ | ⟨i, t, rfl, hi, -, rfl⟩ |
    ⟨i, t, phase, rfl | rfl, hi, -, -, rfl⟩ | ⟨rfl, rfl⟩
  · simp [Event.begun]
  · unfold sendFrame
    split_ifs <;> exact hset hi rfl
  · exact hset hi rfl
  · exact hset hi rfl
  · exact hset hi rfl
  · exact hset hi rfl
  · exact (List.append_nil _).symm

theorem midwayPackets_le (s : Channel Z) : s.midwayPackets ≤ (s.tasks.map Task.packet).length := by
  rw [List.length_map]
  exact List.countP_le_length

theorem midwayBytes_le (s : Channel Z) :
    s.midwayBytes ≤ ((s.tasks.map Task.packet).map fun p => p.payload.length).sum := by
  rw [List.map_map]
  exact List.sum_le_sum fun t _ => t.stored_le_length

/-- What holds of all the packets of a run holds after each of its steps, if it
passes to the packets that began before. -/
theorem meets_packets {P : List Outgoing → Prop} (hP : ∀ ps qs, P (ps ++ qs) → P ps)
    {es : List Event} (h : P (s.tasks.map Task.packet ++ es.flatMap Event.begun)) :
    Machine.meets step (fun s e => ∀ s', s.step e = some s' → P (s'.tasks.map Task.packet)) s
      es := by
  induction es generalizing s with
  | nil => trivial
  | cons e es ih =>
      rw [List.flatMap_cons, ← List.append_assoc] at h
      constructor
      · intro s' hstep
        rw [← packets_step hstep] at h
        exact hP _ _ h
      · intro s' hstep
        rw [← packets_step hstep] at h
        exact ih h

theorem sum_length_le_append {m : ℕ} (ps qs : List Outgoing)
    (h : ((ps ++ qs).map fun p => p.payload.length).sum ≤ m) :
    (ps.map fun p => p.payload.length).sum ≤ m := by
  rw [List.map_append, List.sum_append] at h
  exact le_trans (Nat.le_add_right _ _) h

/-- Packets that fit the buffer all together stay within its limits. -/
theorem meets_staysWithin {es : List Event}
    (hpackets : (s.tasks.map Task.packet ++ es.flatMap Event.begun).length ≤ maxPartialPackets)
    (hbytes : ((s.tasks.map Task.packet ++ es.flatMap Event.begun).map
      fun p => p.payload.length).sum ≤ maxReassemblyBytes) :
    Machine.meets step StaysWithin s es := by
  have hcount := meets_packets (P := fun ps => ps.length ≤ maxPartialPackets)
    (fun ps qs h => le_trans (by simp) h) hpackets
  have hsum := meets_packets
    (P := fun ps => (ps.map fun p => p.payload.length).sum ≤ maxReassemblyBytes)
    sum_length_le_append hbytes
  refine Machine.meets_mono ?_ (Machine.meets_and hcount hsum)
  rintro s e ⟨hpackets, hbytes⟩ s' hstep
  exact ⟨s'.midwayPackets_le.trans (hpackets s' hstep), s'.midwayBytes_le.trans (hbytes s' hstep)⟩

/-- A packet that no live task sends can begin. -/
theorem step_submit {packet : Outgoing}
    (h : ∀ u ∈ s.tasks, u.packet.origin = packet.origin →
      u.packet.packetId ≠ packet.packetId) :
    s.step (.submit packet) = some { s with tasks := s.tasks ++ [⟨packet, 0, .waiting⟩] } := by
  rw [step, if_neg]
  simp only [List.any_eq_true, Bool.and_eq_true, beq_iff_eq, not_exists, not_and]
  exact fun u hu hlive => h u hu hlive.2

/-- A waiting task that gets the free lock of an open channel writes its next
frame. -/
theorem step_write (hi : s.tasks[i]? = some t) (hlock : s.lock = none)
    (hphase : t.phase = .waiting) (hopen : s.closing = false)
    (hid : t.packet.packetId < 2 ^ 64) : s.step (.write i) = some (s.written i t) := by
  have hpack := s.packable_nextFrame hid
  simp [step, hi, hlock, hphase, sendFrame, hopen, hpack]

/-- It then gives the lock back. -/
theorem run_frame (hi : s.tasks[i]? = some t) (hlock : s.lock = none)
    (hphase : t.phase = .waiting) (hopen : s.closing = false)
    (hid : t.packet.packetId < 2 ^ 64) :
    ∃ s', Machine.run step s [.write i, .drained i] = some s' ∧ s'.lock = none ∧
      s'.closing = false ∧ s'.wire = s.wire ++ [(s.nextFrame t).1] ∧
      s'.tasks = s.tasks.set i { t with
        offset := t.next
        phase := if t.packet.payload.length ≤ t.next then .done else .waiting } := by
  have hlt := (List.getElem?_eq_some_iff.mp hi).1
  refine ⟨(s.written i t).afterDrain i { t with offset := t.next, phase := .draining }, ?_,
    rfl, hopen, rfl, ?_⟩
  · refine Machine.run_cons_eq_some.mpr ⟨_, step_write hi hlock hphase hopen hid, ?_⟩
    refine Machine.run_cons_eq_some.mpr ⟨_, ?_, rfl⟩
    simp [step, written, hlt]
  · simp [afterDrain, written]

end Channel

end Rmote
