import Rmote.Library.BigEndian
import Rmote.Wire.FrameCodec

/-!
# Frames on the wire

A frame is a header of 21 bytes and a body. The header packs the magic, the
flags, the length of the body and the packet id with the layout `>5sIIQ`.
`readFrames` cuts a byte stream into frames the way the loop of `receive` does
and tells what stopped it.
-/

namespace Rmote

/-- The five bytes `RMOTE`. -/
def magic : Bytes := [82, 77, 79, 84, 69]

/-- `PACKET_HEADER.size`. -/
def headerSize : ℕ := 21

/-- Maximum payload bytes in one frame. -/
def fragmentSize : ℕ := 64 * 1024

/-- One frame: the flags and the packet id of its header, and its body. -/
structure Frame where
  flags : Flags
  packetId : ℕ
  body : Bytes
  deriving DecidableEq, Repr

/-- The header fields fit their fixed widths; `struct` refuses anything else. -/
def Frame.Packable (f : Frame) : Prop := f.body.length < 2 ^ 32 ∧ f.packetId < 2 ^ 64

instance (f : Frame) : Decidable f.Packable :=
  inferInstanceAs (Decidable (_ ∧ _))

/-- `PACKET_HEADER.pack(MAGIC, flags, length, packet_id)`. -/
def packHeader (flags : Flags) (length packetId : ℕ) : Bytes :=
  magic ++ BigEndian.encode 4 flags.toNat ++ BigEndian.encode 4 length ++
    BigEndian.encode 8 packetId

/-- The bytes of one frame. -/
def Frame.encode (f : Frame) : Bytes :=
  packHeader f.flags f.body.length f.packetId ++ f.body

/-- `PACKET_HEADER.unpack`, on the 21 bytes of a header. -/
def unpackHeader (header : Bytes) : Bytes × Flags × ℕ × ℕ :=
  (header.take 5,
    BitVec.ofNat 32 (BigEndian.decode ((header.drop 5).take 4)),
    BigEndian.decode ((header.drop 9).take 4),
    BigEndian.decode ((header.drop 13).take 8))

/-- `reader.readexactly(n)` on what the stream still holds before its end. -/
def readExactly (n : ℕ) (stream : Bytes) : Option (Bytes × Bytes) :=
  if n ≤ stream.length then some (stream.take n, stream.drop n) else none

/-- What ended the reading of frames. -/
inductive ReadEnd where
  | incomplete
  | invalidMagic
  | aboveLimit (length limit : ℕ)
  deriving DecidableEq, Repr

/-- The text of the `ValueError`; the end of the stream has its own exception. -/
def ReadEnd.message : ReadEnd → String
  | incomplete => ""
  | invalidMagic => "Invalid magic number"
  | aboveLimit length limit => s!"Frame of {length} bytes is above the limit of {limit}"

/-- The length that `receive` accepts for the body of a frame; `codec` tells
whether the frame codec of the direction is installed. -/
def frameLimit (codec : Bool) (flags : Flags) : ℕ :=
  if flags.has Flags.compressed && codec then compressedLimit fragmentSize else fragmentSize

/-- Read one frame from the stream. -/
def readFrame (codec : Bool) (stream : Bytes) : Except ReadEnd (Frame × Bytes) :=
  match readExactly headerSize stream with
  | none => .error .incomplete
  | some (header, rest) =>
      let (mark, flags, length, packetId) := unpackHeader header
      if mark != magic then
        .error .invalidMagic
      else if frameLimit codec flags < length then
        .error (.aboveLimit length (frameLimit codec flags))
      else
        match readExactly length rest with
        | none => .error .incomplete
        | some (body, rest) => .ok (⟨flags, packetId, body⟩, rest)

@[simp] theorem length_packHeader (flags : Flags) (length packetId : ℕ) :
    (packHeader flags length packetId).length = headerSize := by
  simp [packHeader, magic, headerSize]

theorem readExactly_append {n : ℕ} {xs : Bytes} (h : xs.length = n) (ys : Bytes) :
    readExactly n (xs ++ ys) = some (xs, ys) := by
  subst h
  simp [readExactly]

theorem readExactly_eq_some {n : ℕ} {stream xs ys : Bytes}
    (h : readExactly n stream = some (xs, ys)) : xs.length = n ∧ stream = xs ++ ys := by
  unfold readExactly at h
  split_ifs at h with hn
  obtain ⟨rfl, rfl⟩ := Prod.mk.inj (Option.some.inj h)
  exact ⟨List.length_take_of_le hn, (List.take_append_drop n stream).symm⟩

/-- A frame takes at least its header from the stream. -/
theorem length_readFrame {codec : Bool} {stream rest : Bytes} {f : Frame}
    (h : readFrame codec stream = .ok (f, rest)) : rest.length < stream.length := by
  unfold readFrame at h
  split at h
  · cases h
  · rename_i header rest₁ hheader
    obtain ⟨hlen, rfl⟩ := readExactly_eq_some hheader
    generalize unpackHeader header = fields at h
    obtain ⟨mark, flags, length, packetId⟩ := fields
    simp only at h
    split_ifs at h
    split at h
    · cases h
    · rename_i body rest₂ hbody
      obtain ⟨-, rfl⟩ := Prod.mk.inj (Except.ok.inj h)
      obtain ⟨-, rfl⟩ := readExactly_eq_some hbody
      simp only [List.length_append, hlen, headerSize]
      omega

/-- The frames of a byte stream, and what ended the reading. -/
def readFrames (codec : Bool) (stream : Bytes) : List Frame × ReadEnd :=
  match _h : readFrame codec stream with
  | .error stop => ([], stop)
  | .ok (f, rest) => (f :: (readFrames codec rest).1, (readFrames codec rest).2)
termination_by stream.length
decreasing_by all_goals exact length_readFrame _h

theorem unpackHeader_packHeader (flags : Flags) {length packetId : ℕ}
    (hlen : length < 2 ^ 32) (hid : packetId < 2 ^ 64) :
    unpackHeader (packHeader flags length packetId) = (magic, flags, length, packetId) := by
  have hflags : BigEndian.decode (BigEndian.encode 4 flags.toNat) = flags.toNat :=
    BigEndian.decode_encode (by have := flags.isLt; norm_num at this ⊢; exact this)
  have hlength : BigEndian.decode (BigEndian.encode 4 length) = length :=
    BigEndian.decode_encode (by norm_num at hlen ⊢; exact hlen)
  have hpacket : BigEndian.decode (BigEndian.encode 8 packetId) = packetId :=
    BigEndian.decode_encode (by norm_num at hid ⊢; exact hid)
  have hmagic : magic.length = 5 := rfl
  have hmagic₉ : magic.drop 9 = [] := rfl
  have hmagic₁₃ : magic.drop 13 = [] := rfl
  have hword : (BigEndian.encode 4 flags.toNat).drop 8 = [] :=
    List.drop_eq_nil_of_le (by simp)
  have hlast : (BigEndian.encode 8 packetId).take 8 = BigEndian.encode 8 packetId :=
    List.take_of_length_le (by simp)
  simp [unpackHeader, packHeader, hmagic, hmagic₉, hmagic₁₃, hword, hlast,
    List.drop_append, hflags, hlength, hpacket]

/-- A packed frame within the limit is read back as it was written. -/
theorem readFrame_encode (codec : Bool) {f : Frame} (hpack : f.Packable)
    (hlimit : f.body.length ≤ frameLimit codec f.flags) (rest : Bytes) :
    readFrame codec (f.encode ++ rest) = .ok (f, rest) := by
  have hheader : readExactly headerSize (f.encode ++ rest) =
      some (packHeader f.flags f.body.length f.packetId, f.body ++ rest) := by
    rw [Frame.encode, List.append_assoc]
    exact readExactly_append (length_packHeader _ _ _) _
  have hbody : readExactly f.body.length (f.body ++ rest) = some (f.body, rest) :=
    readExactly_append rfl rest
  simp [readFrame, hheader, unpackHeader_packHeader f.flags hpack.1 hpack.2,
    Nat.not_lt.mpr hlimit, hbody]

theorem readFrames_nil (codec : Bool) : readFrames codec [] = ([], .incomplete) := by
  rw [readFrames]
  rfl

/-- The peer cuts the written bytes into exactly the frames that were written. -/
theorem readFrames_encode (codec : Bool) (frames : List Frame)
    (h : ∀ f ∈ frames, f.Packable ∧ f.body.length ≤ frameLimit codec f.flags) :
    readFrames codec (frames.flatMap Frame.encode) = (frames, .incomplete) := by
  induction frames with
  | nil => exact readFrames_nil codec
  | cons f frames ih =>
      obtain ⟨hpack, hlimit⟩ := h f List.mem_cons_self
      have hrest := ih fun g hg => h g (List.mem_cons_of_mem f hg)
      have hread := readFrame_encode codec hpack hlimit (frames.flatMap Frame.encode)
      rw [List.flatMap_cons, readFrames]
      split
      · rename_i stop hstop
        rw [hread] at hstop
        cases hstop
      · rename_i g rest hok
        rw [hread] at hok
        obtain ⟨rfl, rfl⟩ := Prod.mk.inj (Except.ok.inj hok)
        rw [hrest]

end Rmote
