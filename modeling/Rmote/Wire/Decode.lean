import Rmote.Wire.Packet
import Rmote.Wire.Receive

/-!
# The two decode paths

`receive` decodes a frame where it is read, or collects frames into a group once the fragments
of a packet passed the decode threshold and hands the group to a worker. The worker has its own
copy of the decoding, gives an envelope back undecoded, because the loop installs its sources,
and decodes an open group when no frame follows it.

`receive` is one call over the frames that are still unread, `receives` is call after call. What
a pickle loads can run code and import modules, so every operation of a `Process` gives the
process after it. `decoded` records the frames in the order in which they were decoded.
-/

namespace Rmote

/-- What unpickling a packet uses of the process and of the endpoint in it. -/
structure Process (β W : Type) where
  acceptCode : W → Bool
  /-- `PacketUnpickler.loads` with the permission and the allowlist of the moment. -/
  loads : W → Bytes → Except DecodeError β × W
  /-- The two parts of an envelope, from what it loads to. -/
  envelope : β → Except DecodeError (Manifest × Bytes)
  /-- `ModuleLoader.install(sources)`. -/
  install : W → Manifest → Except DecodeError Unit × W
  /-- `known_modules.update(sources)`. -/
  learn : W → Manifest → W

namespace Process

variable {β W : Type} (p : Process β W)

/-- Decode the items of one batch payload, in the order they were sent. -/
def split (w : W) (view : Bytes) : Except DecodeError (List β) × W :=
  if view.isEmpty then
    (.ok [], w)
  else
    match _h : splitItem view with
    | .error error => (.error error, w)
    | .ok (frame, rest) =>
        match p.loads w frame with
        | (.error error, w) => (.error error, w)
        | (.ok value, w) =>
            match split w rest with
            | (.error error, w) => (.error error, w)
            | (.ok values, w) => (.ok (value :: values), w)
termination_by view.length
decreasing_by exact length_splitItem _h

/-- Install the sources of an envelope, and give the payload inside of it. -/
def openEnvelope (w : W) (flags : Flags) (payload : Bytes) : Except DecodeError Bytes × W :=
  if flags.has Flags.modules then
    if p.acceptCode w then
      match p.loads w payload with
      | (.error error, w) => (.error error, w)
      | (.ok value, w) =>
          match p.envelope value with
          | .error error => (.error error, w)
          | .ok (sources, payload) =>
              match p.install w sources with
              | (.error error, w) => (.error error, w)
              | (.ok _, w) => (.ok payload, p.learn w sources)
    else
      (.error (.permission "Peer module sources are disabled"), w)
  else
    (.ok payload, w)

/-- The values of a payload. -/
def decodePayload (w : W) (flags : Flags) (payload : Bytes) :
    Except DecodeError (Decoded β) × W :=
  match p.openEnvelope w flags payload with
  | (.error error, w) => (.error error, w)
  | (.ok inner, w) =>
      if flags.has Flags.batch then
        ((p.split w inner).1.map Decoded.items, (p.split w inner).2)
      else
        ((p.loads w inner).1.map Decoded.value, (p.loads w inner).2)

/-- Decode one reassembled packet. -/
def decodePacket (w : W) (payload : Bytes) (flags : Flags) (packetId : ℕ) :
    Except DecodeError (Packet β) × W :=
  match p.decodePayload w flags payload with
  | (.ok value, w) => (.ok ⟨value, flags, packetId, payload.length⟩, w)
  | (.error (.permission text), w) =>
      (.ok ⟨.error text, Flags.exception ||| (flags &&& (Flags.request ||| Flags.response)),
        packetId, payload.length⟩, w)
  | (.error error, w) => (.error error, w)

end Process

/-- An exception that leaves `receive`. -/
inductive ReceiveFailure where
  | read (stop : ReadEnd)
  | frame (error : ReceiveError)
  | decode (error : DecodeError)
  deriving DecidableEq, Repr

/-- What a worker hands back: a decoded packet, or an envelope as it is. -/
structure Handed (β : Type) where
  payload : Bytes ⊕ Decoded β
  flags : Flags
  packetId : ℕ
  size : ℕ

/-- The incoming direction of a connection and its process. -/
structure Incoming (Z : Zlib) (W : Type) where
  inbound : Inbound Z
  world : W
  decoded : List Frame

namespace Incoming

variable {Z : Zlib} {β W : Type} (p : Process β W)

/-- A step of the process. -/
def decodePacket (c : Incoming Z W) (payload : Bytes) (flags : Flags) (packetId : ℕ) :
    Except ReceiveFailure (Packet β) × Incoming Z W :=
  match p.decodePacket c.world payload flags packetId with
  | (.error error, world) => (.error (.decode error), { c with world := world })
  | (.ok packet, world) => (.ok packet, { c with world := world })

/-- Inflate the body of a frame where it is marked and the direction has its codec. -/
def inflate (c : Incoming Z W) (f : Frame) :
    Except ReceiveFailure (Bytes × Flags) × Incoming Z W :=
  match c.inbound.inflateBody f with
  | (.error error, inbound) =>
      (.error (.frame error), { c with inbound := inbound, decoded := c.decoded ++ [f] })
  | (.ok body, inbound) => (.ok body, { c with inbound := inbound, decoded := c.decoded ++ [f] })

/-- `fragments.store(packet_id, chunk)`. -/
def store (c : Incoming Z W) (packetId : ℕ) (chunk : Bytes) :
    Except ReceiveFailure Unit × Incoming Z W :=
  match c.inbound.fragments.store packetId chunk with
  | (.error error, fragments) =>
      (.error (.frame (.store error)),
        { c with inbound := { c.inbound with fragments := fragments } })
  | (.ok _, fragments) => (.ok (), { c with inbound := { c.inbound with fragments := fragments } })

/-- `fragments.take(packet_id, chunk)`. -/
def take (c : Incoming Z W) (packetId : ℕ) (chunk : Bytes) : Bytes × Incoming Z W :=
  ((c.inbound.fragments.take packetId chunk).1,
    { c with
      inbound :=
        { c.inbound with fragments := (c.inbound.fragments.take packetId chunk).2 } })

/-- `decompress` of a payload that is still compressed. The size of the payload decides where
`unpack` runs it. -/
def unpack (c : Incoming Z W) (flags : Flags) (payload : Bytes) : Except ReceiveFailure Bytes :=
  if flags.has Flags.compressed then
    match c.inbound.gunzip payload with
    | .error text => .error (.frame (.gunzip text))
    | .ok payload => .ok payload
  else
    .ok payload

/-- The body of the loop of `receive` for a frame that joins no group. -/
def plainFrame (c : Incoming Z W) (f : Frame) :
    Except ReceiveFailure (Option (Packet β)) × Incoming Z W :=
  let fragmented := f.flags.has Flags.fragment
  match c.inflate f with
  | (.error error, c) => (.error error, c)
  | (.ok (chunk, flags), c) =>
      if fragmented then
        match c.store f.packetId chunk with
        | (.error error, c) => (.error error, c)
        | (.ok _, c) => (.ok none, c)
      else
        let (payload, c) := c.take f.packetId chunk
        match c.unpack flags payload with
        | .error error => (.error error, c)
        | .ok payload =>
            match c.decodePacket p payload flags f.packetId with
            | (.error error, c) => (.error error, c)
            | (.ok packet, c) => (.ok (some packet), c)

/-- The body of the loop of `decode_frames`. -/
def workerFrame (c : Incoming Z W) (f : Frame) :
    Except ReceiveFailure (Option (Handed β)) × Incoming Z W :=
  match c.inflate f with
  | (.error error, c) => (.error error, c)
  | (.ok (chunk, flags), c) =>
      if flags.has Flags.fragment then
        match c.store f.packetId chunk with
        | (.error error, c) => (.error error, c)
        | (.ok _, c) => (.ok none, c)
      else
        let (payload, c) := c.take f.packetId chunk
        match c.unpack flags payload with
        | .error error => (.error error, c)
        | .ok payload =>
            if flags.has Flags.modules then
              (.ok (some ⟨.inl payload, flags, f.packetId, payload.length⟩), c)
            else
              match c.decodePacket p payload flags f.packetId with
              | (.error error, c) => (.error error, c)
              | (.ok packet, c) =>
                  (.ok (some ⟨.inr packet.payload, packet.flags, packet.packetId, packet.size⟩), c)

/-- Inflate a bounded group in wire order and decode its final packet. -/
def decodeFrames (c : Incoming Z W) :
    List Frame → Except ReceiveFailure (Option (Handed β)) × Incoming Z W
  | [] => (.ok none, c)
  | f :: frames =>
      match c.workerFrame p f with
      | (.ok none, c) => c.decodeFrames frames
      | out => out

/-- What the loop makes of the packet that a worker handed back. -/
def finishHanded (c : Incoming Z W) (packet : Handed β) :
    Except ReceiveFailure (Packet β) × Incoming Z W :=
  match packet.payload with
  | .inl payload =>
      if packet.flags.has Flags.modules then
        c.decodePacket p payload packet.flags packet.packetId
      else
        (.error (.decode (.failed "the packet was not decoded")), c)
  | .inr value =>
      if packet.flags.has Flags.modules then
        (.error (.decode (.failed "a bytes-like object is required")), c)
      else
        (.ok ⟨value, packet.flags, packet.packetId, packet.size⟩, c)

/-- The frame joins a group. `threshold = none` is `decode_threshold = -1`. -/
def groups (c : Incoming Z W) (threshold : Option ℕ) (frames : List Frame) (f : Frame) : Bool :=
  match threshold with
  | none => false
  | some threshold =>
      !frames.isEmpty ||
        threshold < (c.inbound.fragments.sizes.lookup f.packetId).getD 0

/-- One call of `receive` that has collected the group `frames`, over the unread frames. A
packet is returned with the frames that are still unread. `stop` is what reading meets
behind the last frame. -/
def receive (threshold : Option ℕ) (stop : ReadEnd) (frames : List Frame) :
    List Frame → Incoming Z W → Except ReceiveFailure (Packet β × List Frame) × Incoming Z W
  | [], c =>
      -- The `finally` block: its own exception replaces the one of the read.
      match c.decodeFrames p frames with
      | (.error error, c) => (.error error, c)
      | (.ok _, c) => (.error (.read stop), c)
  | f :: unread, c =>
      if c.groups threshold frames f then
        if f.flags.has Flags.fragment && (frames ++ [f]).length < decodeFramesLimit then
          receive threshold stop (frames ++ [f]) unread c
        else
          match c.decodeFrames p (frames ++ [f]) with
          | (.error error, c) => (.error error, c)
          | (.ok none, c) => receive threshold stop [] unread c
          | (.ok (some packet), c) =>
              match c.finishHanded p packet with
              | (.error error, c) => (.error error, c)
              | (.ok packet, c) => (.ok (packet, unread), c)
      else
        match c.plainFrame p f with
        | (.error error, c) => (.error error, c)
        | (.ok none, c) => receive threshold stop frames unread c
        | (.ok (some packet), c) => (.ok (packet, unread), c)

/-- One packet that a call returned, what was unread then, and the direction after it. -/
structure Delivery (Z : Zlib) (β W : Type) where
  packet : Packet β
  unread : List Frame
  after : Incoming Z W

/-- Call after call of `receive`, up to the first that fails: what they returned, and the
failure with the direction after it. -/
def receives (threshold : Option ℕ) (stop : ReadEnd) :
    ℕ → List Frame → Incoming Z W →
      List (Delivery Z β W) × Option (ReceiveFailure × Incoming Z W)
  | 0, _, _ => ([], none)
  | n + 1, unread, c =>
      match receive p threshold stop [] unread c with
      | (.error error, c) => ([], some (error, c))
      | (.ok (packet, unread), c) =>
          (⟨packet, unread, c⟩ :: (receives threshold stop n unread c).1,
            (receives threshold stop n unread c).2)

/-! ## One frame -/

/-- A decoded packet keeps its number and its size, and its flags unless it was refused. -/
theorem decodePacket_ok {c c' : Incoming Z W} {payload : Bytes} {flags : Flags}
    {packetId : ℕ} {packet : Packet β}
    (h : c.decodePacket p payload flags packetId = (.ok packet, c')) :
    packet.packetId = packetId ∧ packet.size = payload.length ∧
      (packet.flags = flags ∨
        packet.flags = Flags.exception ||| (flags &&& (Flags.request ||| Flags.response))) := by
  unfold decodePacket at h
  split at h
  · cases h
  · rename_i packet₁ world hpacket
    cases h
    unfold Process.decodePacket at hpacket
    split at hpacket
    · cases hpacket
      exact ⟨rfl, rfl, .inl rfl⟩
    · cases hpacket
      exact ⟨rfl, rfl, .inr rfl⟩
    · cases hpacket

/-- A packet that is not an envelope is not decoded to one. -/
theorem has_modules_of_decodePacket {c c' : Incoming Z W} {payload : Bytes} {flags : Flags}
    {packetId : ℕ} {packet : Packet β} (hmodules : flags.has Flags.modules = false)
    (h : c.decodePacket p payload flags packetId = (.ok packet, c')) :
    packet.flags.has Flags.modules = false := by
  rcases (decodePacket_ok p h).2.2 with hflags | hflags
  · rw [hflags, hmodules]
  · have hdisjoint : (Flags.request ||| Flags.response) &&& Flags.modules = 0#32 := by decide
    have hkept : (flags &&& (Flags.request ||| Flags.response)).has Flags.modules = false := by
      rw [Flags.has_eq_false_iff, BitVec.and_assoc, hdisjoint, BitVec.and_zero]
    rw [hflags, Flags.has_or, hkept]
    decide

theorem decoded_decodePacket (c : Incoming Z W) (payload : Bytes) (flags : Flags)
    (packetId : ℕ) : (c.decodePacket p payload flags packetId).2.decoded = c.decoded := by
  unfold decodePacket
  split <;> rfl

/-- Inflating a body keeps the fragment mark of its frame. -/
theorem has_fragment_inflate {c c' : Incoming Z W} {f : Frame} {chunk : Bytes} {flags : Flags}
    (h : c.inflate f = (.ok (chunk, flags), c')) :
    flags.has Flags.fragment = f.flags.has Flags.fragment := by
  unfold inflate at h
  split at h
  · cases h
  · rename_i body inbound hbody
    cases h
    exact Inbound.has_fragment_inflateBody hbody

/-- What the loop makes of the outcome of a worker. -/
def finishWorker :
    Except ReceiveFailure (Option (Handed β)) × Incoming Z W →
      Except ReceiveFailure (Option (Packet β)) × Incoming Z W
  | (.error error, c) => (.error error, c)
  | (.ok none, c) => (.ok none, c)
  | (.ok (some packet), c) =>
      match c.finishHanded p packet with
      | (.error error, c) => (.error error, c)
      | (.ok packet, c) => (.ok (some packet), c)

/-- The copy of the worker does with one frame what the loop does with it. -/
theorem finishWorker_workerFrame (c : Incoming Z W) (f : Frame) :
    finishWorker p (c.workerFrame p f) = c.plainFrame p f := by
  unfold workerFrame plainFrame
  rcases hinflate : c.inflate f with ⟨error | ⟨chunk, flags⟩, c₁⟩
  · rfl
  · simp only [has_fragment_inflate hinflate]
    by_cases hfragment : f.flags.has Flags.fragment = true
    · simp only [if_pos hfragment]
      rcases c₁.store f.packetId chunk with ⟨error | _, c₂⟩ <;> rfl
    · simp only [if_neg hfragment]
      rcases (c₁.take f.packetId chunk).2.unpack flags (c₁.take f.packetId chunk).1 with
        error | payload
      · rfl
      · by_cases hmodules : flags.has Flags.modules = true
        · simp only [if_pos hmodules, finishWorker, finishHanded]
        · simp only [if_neg hmodules]
          rcases hdecode : (c₁.take f.packetId chunk).2.decodePacket p payload flags f.packetId with
            ⟨error | packet, c₂⟩
          · rfl
          · have hpacket := has_modules_of_decodePacket p (by simpa using hmodules) hdecode
            simp only [finishWorker, finishHanded, hpacket, Bool.false_eq_true, if_false]

/-- A fragment never completes a packet. -/
theorem workerFrame_fragment {c c' : Incoming Z W} {f : Frame} {packet : Handed β}
    (hf : f.flags.has Flags.fragment = true) :
    c.workerFrame p f ≠ (.ok (some packet), c') := by
  intro h
  unfold workerFrame at h
  rcases hinflate : c.inflate f with ⟨error | ⟨chunk, flags⟩, c₁⟩
  · rw [hinflate] at h
    cases h
  · simp only [hinflate, has_fragment_inflate hinflate, if_pos hf] at h
    split at h <;> cases h

/-- The direction after a frame. -/
def advance (c : Incoming Z W) (f : Frame) (inbound : Inbound Z) : Incoming Z W :=
  { c with inbound := inbound, decoded := c.decoded ++ [f] }

/-- The loop decodes the packet that the frame completes, if any. -/
theorem plainFrame_eq_absorb (c : Incoming Z W) (f : Frame) :
    c.plainFrame p f =
      match c.inbound.absorb f with
      | (.error error, inbound) => (.error (.frame error), c.advance f inbound)
      | (.ok none, inbound) => (.ok none, c.advance f inbound)
      | (.ok (some a), inbound) =>
          match (c.advance f inbound).decodePacket p a.payload a.flags a.packetId with
          | (.error error, c) => (.error error, c)
          | (.ok packet, c) => (.ok (some packet), c) := by
  unfold plainFrame inflate Inbound.absorb
  rcases hbody : c.inbound.inflateBody f with ⟨error | ⟨chunk, flags⟩, inbound⟩
  · rfl
  · simp only [Inbound.place, Inbound.has_fragment_inflateBody hbody]
    by_cases hfragment : f.flags.has Flags.fragment = true
    · simp only [if_pos hfragment, store]
      rcases inbound.fragments.store f.packetId chunk with ⟨error | _, fragments⟩ <;> rfl
    · simp only [if_neg hfragment, unpack, take]
      by_cases hcompressed : flags.has Flags.compressed = true
      · simp only [if_pos hcompressed]
        rcases inbound.gunzip (inbound.fragments.take f.packetId chunk).1 with text | payload <;> rfl
      · simp only [if_neg hcompressed]
        rfl

/-- What became of a frame that the loop decoded. -/
theorem plainFrame_ok {c c' : Incoming Z W} {f : Frame} {packet : Option (Packet β)}
    (h : c.plainFrame p f = (.ok packet, c')) :
    c'.decoded = c.decoded ++ [f] ∧
      (packet = none ∧ f.flags.has Flags.fragment = true ∨
        ∃ q, packet = some q ∧ f.flags.has Flags.fragment = false ∧ q.packetId = f.packetId) := by
  rw [plainFrame_eq_absorb] at h
  split at h
  · cases h
  · rename_i inbound habsorb
    cases h
    obtain ⟨-, hfragment⟩ | ⟨a, ha, -⟩ := Inbound.absorb_ok habsorb
    · exact ⟨rfl, .inl ⟨rfl, hfragment⟩⟩
    · cases ha
  · rename_i a inbound habsorb
    split at h
    · cases h
    · rename_i q c₁ hdecode
      cases h
      have hdecoded := decoded_decodePacket p (c.advance f inbound) a.payload a.flags a.packetId
      rw [hdecode] at hdecoded
      obtain ⟨ha, -⟩ | ⟨a', ha, hfinal, hid⟩ := Inbound.absorb_ok habsorb
      · cases ha
      · cases ha
        exact ⟨hdecoded, .inr ⟨q, rfl, hfinal, (decodePacket_ok p hdecode).1.trans hid⟩⟩

/-- Decoding a frame never ends the reading. -/
theorem plainFrame_ne_read {c c' : Incoming Z W} {f : Frame} {stop : ReadEnd} :
    c.plainFrame p f ≠ (.error (.read stop), c') := by
  intro h
  rw [plainFrame_eq_absorb] at h
  split at h
  · cases h
  · cases h
  · split at h
    · rename_i error c₁ hdecode
      unfold decodePacket at hdecode
      split at hdecode
      · cases hdecode
        cases h
      · cases hdecode
    · cases h

/-! ## Groups -/

/-- Without a threshold every frame is decoded where it is read. -/
theorem receive_none_cons (stop : ReadEnd) (f : Frame) (unread : List Frame) (c : Incoming Z W) :
    receive p none stop [] (f :: unread) c =
      match c.plainFrame p f with
      | (.error error, c) => (.error error, c)
      | (.ok none, c) => receive p none stop [] unread c
      | (.ok (some packet), c) => (.ok (packet, unread), c) := by
  rw [receive]
  simp only [groups, Bool.false_eq_true, if_false]

/-- Frames that only carry fragments are decoded by a worker as they are one by one. -/
theorem receive_none_fragments (stop : ReadEnd) (gs rest : List Frame) (c : Incoming Z W)
    (hgs : ∀ g ∈ gs, g.flags.has Flags.fragment = true) :
    receive p none stop [] (gs ++ rest) c =
      match c.decodeFrames p gs with
      | (.error error, c) => (.error error, c)
      | (.ok _, c) => receive p none stop [] rest c := by
  induction gs generalizing c with
  | nil => rfl
  | cons g gs ih =>
      have hrest := fun c => ih c fun q hq => hgs q (List.mem_cons_of_mem g hq)
      rw [List.cons_append, receive_none_cons, ← finishWorker_workerFrame, decodeFrames]
      rcases hg : c.workerFrame p g with ⟨error | _ | packet, c₁⟩
      · rfl
      · simp only [finishWorker]
        exact hrest c₁
      · exact absurd hg (workerFrame_fragment p (hgs g List.mem_cons_self))

/-- A group that its last frame closes is decoded by a worker as it is one by one. -/
theorem receive_none_group (stop : ReadEnd) (gs : List Frame) (f : Frame) (rest : List Frame)
    (c : Incoming Z W) (hgs : ∀ g ∈ gs, g.flags.has Flags.fragment = true) :
    receive p none stop [] (gs ++ f :: rest) c =
      match c.decodeFrames p (gs ++ [f]) with
      | (.error error, c) => (.error error, c)
      | (.ok none, c) => receive p none stop [] rest c
      | (.ok (some packet), c) =>
          match c.finishHanded p packet with
          | (.error error, c) => (.error error, c)
          | (.ok packet, c) => (.ok (packet, rest), c) := by
  induction gs generalizing c with
  | nil =>
      rw [List.nil_append, List.nil_append, receive_none_cons, ← finishWorker_workerFrame,
        decodeFrames]
      rcases c.workerFrame p f with ⟨error | _ | packet, c₁⟩
      · rfl
      · rfl
      · simp only [finishWorker]
        rcases c₁.finishHanded p packet with ⟨error | packet, c₂⟩ <;> rfl
  | cons g gs ih =>
      have hrest := fun c => ih c fun q hq => hgs q (List.mem_cons_of_mem g hq)
      rw [List.cons_append, List.cons_append, receive_none_cons, ← finishWorker_workerFrame,
        decodeFrames]
      rcases hg : c.workerFrame p g with ⟨error | _ | packet, c₁⟩
      · rfl
      · simp only [finishWorker]
        exact hrest c₁
      · exact absurd hg (workerFrame_fragment p (hgs g List.mem_cons_self))

/-- A call with an open group returns what a call without a threshold returns on the frames of
the group and the unread ones. -/
theorem receive_eq_none (threshold : ℕ) (stop : ReadEnd) (frames unread : List Frame)
    (c : Incoming Z W) (hframes : ∀ g ∈ frames, g.flags.has Flags.fragment = true) :
    receive p (some threshold) stop frames unread c =
      receive p none stop [] (frames ++ unread) c := by
  induction unread generalizing frames c with
  | nil =>
      rw [receive_none_fragments p stop frames [] c hframes, receive]
      rfl
  | cons f unread ih =>
      rw [receive]
      by_cases hgroups : c.groups (some threshold) frames f = true
      · rw [if_pos hgroups]
        by_cases hwait : (f.flags.has Flags.fragment &&
            decide ((frames ++ [f]).length < decodeFramesLimit)) = true
        · rw [if_pos hwait]
          have hopen : ∀ g ∈ frames ++ [f], g.flags.has Flags.fragment = true := by
            intro g hg
            rcases List.mem_append.mp hg with hg | hg
            · exact hframes g hg
            · exact List.mem_singleton.mp hg ▸ (Bool.and_eq_true_iff.mp hwait).1
          rw [ih (frames ++ [f]) c hopen, List.append_assoc, List.singleton_append]
        · rw [if_neg hwait, receive_none_group p stop frames f unread c hframes]
          have hclosed := fun c => ih [] c (by simp)
          simp only [List.nil_append] at hclosed
          simp only [hclosed]
      · rw [if_neg hgroups]
        have hempty : frames = [] := by
          simp only [groups, Bool.or_eq_true, not_or, Bool.not_eq_true, Bool.not_eq_false'] at hgroups
          exact List.isEmpty_iff.mp hgroups.1
        subst hempty
        have hclosed := fun c => ih [] c (by simp)
        simp only [List.nil_append] at hclosed ⊢
        rw [receive_none_cons]
        simp only [hclosed]

/-- Call after call, a threshold changes nothing. -/
theorem receives_eq_none (threshold : ℕ) (stop : ReadEnd) (n : ℕ) (unread : List Frame)
    (c : Incoming Z W) :
    receives p (some threshold) stop n unread c = receives p none stop n unread c := by
  induction n generalizing unread c with
  | zero => rfl
  | succ n ih =>
      simp only [receives, receive_eq_none p threshold stop [] unread c (by simp),
        List.nil_append, ih]

/-! ## The frames of a packet -/

/-- The frame is the last one of its packet. -/
def final (f : Frame) : Bool := !f.flags.has Flags.fragment

/-- The packet was returned as soon as its last frame was read, behind `count` final frames of
other packets, and the frames up to there are decoded, each once and in wire order. -/
def Delivery.Prompt (d : Delivery Z β W) (frames decoded : List Frame) (count : ℕ) : Prop :=
  ∃ read last, frames = read ++ last :: d.unread ∧ final last = true ∧
    last.packetId = d.packet.packetId ∧ read.countP final = count ∧
    d.after.decoded = decoded ++ (read ++ [last])

/-- One call stops at the first final frame. -/
theorem receive_none_ok {stop : ReadEnd} {frames unread : List Frame} {c c' : Incoming Z W}
    {packet : Packet β} (h : receive p none stop [] frames c = (.ok (packet, unread), c')) :
    Delivery.Prompt ⟨packet, unread, c'⟩ frames c.decoded 0 := by
  induction frames generalizing c with
  | nil => cases h
  | cons f frames ih =>
      rw [receive_none_cons] at h
      rcases hf : c.plainFrame p f with ⟨error | _ | q, c₁⟩
      · rw [hf] at h
        cases h
      · rw [hf] at h
        obtain ⟨hdecoded, ⟨-, hfragment⟩ | ⟨q, hq, -⟩⟩ := plainFrame_ok p hf
        · obtain ⟨read, last, rfl, hlast, hid, hcount, hafter⟩ := ih h
          refine ⟨f :: read, last, rfl, hlast, hid, ?_, ?_⟩
          · simp [final, hfragment, hcount]
          · rw [hafter, hdecoded]
            simp
        · cases hq
      · rw [hf] at h
        cases h
        obtain ⟨hdecoded, ⟨hq, -⟩ | ⟨q, hq, hfinal, hid⟩⟩ := plainFrame_ok p hf
        · cases hq
        · cases hq
          exact ⟨[], f, rfl, by simp [final, hfinal], hid.symm, rfl, hdecoded⟩

/-- A call that found no final frame decoded every frame that was there. -/
theorem receive_none_read {stop stop' : ReadEnd} {frames : List Frame} {c c' : Incoming Z W}
    (h : receive p none stop [] frames c = (.error (.read stop'), c')) :
    c'.decoded = c.decoded ++ frames := by
  induction frames generalizing c with
  | nil =>
      cases h
      simp
  | cons f frames ih =>
      rw [receive_none_cons] at h
      rcases hf : c.plainFrame p f with ⟨error | _ | q, c₁⟩
      · rw [hf] at h
        cases h
        exact absurd hf (plainFrame_ne_read p)
      · rw [hf] at h
        rw [ih h, (plainFrame_ok p hf).1]
        simp
      · rw [hf] at h
        cases h

/-- The end of a run that read every frame. -/
theorem receives_none_read {stop stop' : ReadEnd} {n : ℕ} {frames : List Frame}
    {c c' : Incoming Z W}
    (h : (receives p none stop n frames c).2 = some (.read stop', c')) :
    c'.decoded = c.decoded ++ frames := by
  induction n generalizing frames c with
  | zero => cases h
  | succ n ih =>
      rw [receives] at h
      rcases hcall : receive p none stop [] frames c with ⟨error | ⟨packet, unread⟩, c₁⟩
      · rw [hcall] at h
        cases h
        exact receive_none_read p hcall
      · rw [hcall] at h
        obtain ⟨read, last, rfl, -, -, -, hafter⟩ := receive_none_ok p hcall
        have hread := ih h
        rw [hread, show c₁.decoded = c.decoded ++ (read ++ [last]) from hafter]
        simp

/-- The packets of a run are the final frames of the stream, one after another. -/
theorem receives_none_prompt {stop : ReadEnd} {n i : ℕ} {frames : List Frame}
    {c : Incoming Z W} {d : Delivery Z β W}
    (h : (receives p none stop n frames c).1[i]? = some d) : d.Prompt frames c.decoded i := by
  induction n generalizing frames c i with
  | zero => cases h
  | succ n ih =>
      rw [receives] at h
      rcases hcall : receive p none stop [] frames c with ⟨error | ⟨packet, unread⟩, c₁⟩
      · rw [hcall] at h
        cases h
      · rw [hcall] at h
        have hfirst := receive_none_ok p hcall
        cases i with
        | zero =>
            cases h
            exact hfirst
        | succ i =>
            obtain ⟨read, last, hframes, hlast, hid, hcount, hafter⟩ := hfirst
            obtain ⟨read', last', hframes', hlast', hid', hcount', hafter'⟩ := ih h
            refine ⟨read ++ last :: read', last', ?_, hlast', hid', ?_, ?_⟩
            · rw [hframes, show unread = _ from hframes']
              simp
            · rw [List.countP_append, List.countP_cons, hcount, hcount', hlast]
              simp
            · rw [hafter', show c₁.decoded = c.decoded ++ (read ++ [last]) from hafter]
              simp

/-- The two decode paths agree: for every stream of frames and every threshold the calls of
`receive` return the same packets, leave the same direction after each of them, and end with the
same failure and the same direction. A packet is returned with its last frame, whatever frames
of other packets share its group, and the frames are decoded in wire order, each once. -/
theorem decode_paths_agree (p : Process β W) (c : Incoming Z W) (frames : List Frame)
    (stop : ReadEnd) (threshold n : ℕ) :
    receives p (some threshold) stop n frames c = receives p none stop n frames c ∧
      (∀ (i : ℕ) (d : Delivery Z β W),
        (receives p (some threshold) stop n frames c).1[i]? = some d →
          d.Prompt frames c.decoded i) ∧
      ∀ stop' c', (receives p (some threshold) stop n frames c).2 = some (.read stop', c') →
        c'.decoded = c.decoded ++ frames := by
  have hsame := receives_eq_none p threshold stop n frames c
  rw [hsame]
  exact ⟨rfl, fun i d hd => receives_none_prompt p hd,
    fun stop' c' hc => receives_none_read p hc⟩

/-- A process that loads every pickle to itself. -/
def loadsItself : Process Bytes Unit where
  acceptCode _ := true
  loads w payload := (.ok payload, w)
  envelope payload := .ok (∅, payload)
  install w _ := (.ok (), w)
  learn w _ := w

/-- A packet in three frames, with a fragment of another packet before its last one. -/
def interleaved : List Frame :=
  [⟨Flags.fragment ||| Flags.request, 7, [1, 2]⟩, ⟨Flags.fragment ||| Flags.request, 7, [3]⟩,
    ⟨Flags.fragment ||| Flags.request, 9, [8]⟩, ⟨Flags.request, 7, [4]⟩]

/-- A direction without the frame codec that has received nothing. -/
def unused : Incoming Zlib.plain Unit :=
  ⟨⟨none, FragmentBuffer.new 16 2, .ok⟩, (), []⟩

theorem interleaved_agree :
    receives loadsItself (some 1) .incomplete 2 interleaved unused =
        receives loadsItself none .incomplete 2 interleaved unused ∧
      ∃ d, (receives loadsItself (some 1) .incomplete 2 interleaved unused).1[0]? = some d ∧
        d.Prompt interleaved unused.decoded 0 := by
  obtain ⟨hsame, hprompt, -⟩ :=
    decode_paths_agree loadsItself unused interleaved .incomplete 1 2
  obtain ⟨d, hd⟩ : ∃ d, (receives loadsItself (some 1) .incomplete 2 interleaved
      unused).1[0]? = some d := ⟨_, rfl⟩
  exact ⟨hsame, d, hd, hprompt 0 d hd⟩

end Incoming

end Rmote
