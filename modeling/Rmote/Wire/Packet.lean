import Rmote.Wire.Header
import Mathlib.Data.List.AList

/-!
# Serialized packets

The items of a stream travel together: `batch` joins their pickles, each behind
its length, and `split` takes them apart. Items whose classes the peer does not
know bring the sources of their modules, and the packet then is an envelope, a
pickle of the manifest and of the payload. `decode_packet` undoes both. It turns
an envelope or a class that the receiver does not accept into an exception packet
of its own and lets every other failure end the connection.

pickle is a parameter: what it dumps it loads back, and an envelope is longer than
the payload inside it.
-/

namespace Rmote

/-- One importable source file in a transferred bundle. -/
structure ModuleSource where
  source : String
  file : String
  package : Bool
  deriving DecidableEq, Repr

/-- The sources that a packet brings, by module name. -/
abbrev Manifest := AList fun _ : String => ModuleSource

/-- Why a payload cannot be decoded. -/
inductive DecodeError where
  | truncatedHeader
  | truncatedItem
  /-- A `PermissionError` of the unpickler. -/
  | permission (text : String)
  /-- Any other exception. -/
  | failed (text : String)
  deriving DecidableEq, Repr

def DecodeError.message : DecodeError → String
  | .truncatedHeader => "Truncated item header in a stream batch"
  | .truncatedItem => "Truncated item in a stream batch"
  | .permission text => text
  | .failed text => text

/-- `pickle.dumps((sources, payload))`, and what the peer finds inside of it once
the sources are installed. -/
structure Pickle where
  dumps : Manifest → Bytes → Bytes
  loads : Bytes → Except DecodeError Bytes
  loads_dumps : ∀ sources payload, loads (dumps sources payload) = .ok payload
  longer : ∀ sources payload, payload.length < (dumps sources payload).length

/-- The texts of a manifest, one after another. -/
def manifestText (sources : Manifest) : Bytes :=
  sources.entries.flatMap fun entry =>
    entry.1.toUTF8.data.toList ++ entry.2.source.toUTF8.data.toList ++ entry.2.file.toUTF8.data.toList

/-- The bytes behind the marked ones and the zero that ends them. -/
def skipMarked : Bytes → Except DecodeError Bytes
  | [] => .error (.failed "Ran out of input")
  | [b] => if b = 0 then .ok [] else .error (.failed "Ran out of input")
  | b :: c :: rest => if b = 0 then .ok (c :: rest) else skipMarked rest

theorem skipMarked_flatMap (text payload : Bytes) :
    skipMarked (text.flatMap (fun b => [1, b]) ++ 0 :: payload) = .ok payload := by
  induction text with
  | nil => cases payload <;> rfl
  | cons b text ih => exact ih

/-- An envelope that writes the texts of the manifest, with a mark before each
byte, in front of the payload. -/
def Pickle.marked : Pickle where
  dumps sources payload := (manifestText sources).flatMap (fun b => [1, b]) ++ 0 :: payload
  loads := skipMarked
  loads_dumps sources payload := skipMarked_flatMap (manifestText sources) payload
  longer sources payload := by
    rw [List.length_append, List.length_cons]
    omega

/-- The size of `ITEM_HEADER`, one unsigned 32-bit length. -/
def itemHeaderSize : ℕ := 4

/-- One item behind its length. -/
def packItem (frame : Bytes) : Bytes := BigEndian.encode itemHeaderSize frame.length ++ frame

/-- Join pickled items into one payload. -/
def batch (frames : List Bytes) : Bytes := frames.flatMap packItem

/-- The payload of a stream packet: the batch, or an envelope with the sources
that it needs. -/
def streamPayload (P : Pickle) (frames : List Bytes) (sources : Manifest) : Bytes :=
  if sources.entries.isEmpty then batch frames else P.dumps sources (batch frames)

/-- The first item of a batch, and the rest of the payload. -/
def splitItem (view : Bytes) : Except DecodeError (Bytes × Bytes) :=
  match readExactly itemHeaderSize view with
  | none => .error .truncatedHeader
  | some (header, rest) =>
      match readExactly (BigEndian.decode header) rest with
      | none => .error .truncatedItem
      | some item => .ok item

theorem length_splitItem {view frame rest : Bytes} (h : splitItem view = .ok (frame, rest)) :
    rest.length < view.length := by
  unfold splitItem at h
  split at h
  · cases h
  · rename_i header rest₁ hheader
    obtain ⟨hlen, rfl⟩ := readExactly_eq_some hheader
    split at h
    · cases h
    · rename_i item hitem
      obtain rfl := Except.ok.inj h
      obtain ⟨-, rfl⟩ := readExactly_eq_some hitem
      simp only [List.length_append, hlen, itemHeaderSize]
      omega

variable {β : Type}

/-- Decode the items of one batch payload, in the order they were sent. -/
def split (load : Bytes → Except DecodeError β) (view : Bytes) : Except DecodeError (List β) :=
  if view.isEmpty then
    .ok []
  else
    match _h : splitItem view with
    | .error error => .error error
    | .ok (frame, rest) =>
        match load frame with
        | .error error => .error error
        | .ok value =>
            match split load rest with
            | .error error => .error error
            | .ok values => .ok (value :: values)
termination_by view.length
decreasing_by exact length_splitItem _h

/-- What a decoded packet holds. -/
inductive Decoded (β : Type) where
  | value (value : β)
  | items (values : List β)
  | error (text : String)

/-- One complete packet. `size` is the length of its payload before it was
decoded. -/
structure Packet (β : Type) where
  payload : Decoded β
  flags : Flags
  packetId : ℕ
  size : ℕ

/-- What is inside of an envelope, or the payload as it is. -/
def openEnvelope (P : Pickle) (acceptCode : Bool) (flags : Flags) (payload : Bytes) :
    Except DecodeError Bytes :=
  if flags.has Flags.modules then
    if acceptCode then
      P.loads payload
    else
      .error (.permission "Peer module sources are disabled")
  else
    .ok payload

/-- The values of a payload. -/
def decodePayload (P : Pickle) (acceptCode : Bool) (load : Bytes → Except DecodeError β)
    (flags : Flags) (payload : Bytes) : Except DecodeError (Decoded β) :=
  match openEnvelope P acceptCode flags payload with
  | .error error => .error error
  | .ok inner =>
      if flags.has Flags.batch then
        (split load inner).map Decoded.items
      else
        (load inner).map Decoded.value

/-- Decode one reassembled packet. -/
def decodePacket (P : Pickle) (acceptCode : Bool) (load : Bytes → Except DecodeError β)
    (payload : Bytes) (flags : Flags) (packetId : ℕ) : Except DecodeError (Packet β) :=
  match decodePayload P acceptCode load flags payload with
  | .ok value => .ok ⟨value, flags, packetId, payload.length⟩
  | .error (.permission text) =>
      .ok ⟨.error text, Flags.exception ||| (flags &&& (Flags.request ||| Flags.response)),
        packetId, payload.length⟩
  | .error error => .error error

/-- A decoded packet keeps its flags, or it is the report of a payload that was refused. -/
theorem decodePacket_cases {P : Pickle} {acceptCode : Bool} {load : Bytes → Except DecodeError β}
    {payload : Bytes} {flags : Flags} {packetId : ℕ} {packet : Packet β}
    (h : decodePacket P acceptCode load payload flags packetId = .ok packet) :
    packet.packetId = packetId ∧ packet.size = payload.length ∧
      ((packet.flags = flags ∧
          decodePayload P acceptCode load flags payload = .ok packet.payload) ∨
        ∃ text, decodePayload P acceptCode load flags payload = .error (.permission text) ∧
          packet.flags = Flags.exception ||| (flags &&& (Flags.request ||| Flags.response))) := by
  unfold decodePacket at h
  split at h
  · rename_i value hvalue
    cases h
    exact ⟨rfl, rfl, .inl ⟨rfl, hvalue⟩⟩
  · rename_i text htext
    cases h
    exact ⟨rfl, rfl, .inr ⟨text, htext, rfl⟩⟩
  · cases h

/-- Only a response is decoded to a response. -/
theorem has_response_of_decodePacket {P : Pickle} {acceptCode : Bool}
    {load : Bytes → Except DecodeError β} {payload : Bytes} {flags : Flags} {packetId : ℕ}
    {packet : Packet β} (h : decodePacket P acceptCode load payload flags packetId = .ok packet) :
    packet.flags.has Flags.response = flags.has Flags.response := by
  have hexception : Flags.exception.has Flags.response = false := by decide
  have hkept : (Flags.request ||| Flags.response) &&& Flags.response = Flags.response := by decide
  rcases (decodePacket_cases h).2.2 with ⟨hflags, -⟩ | ⟨text, -, hflags⟩
  · rw [hflags]
  · rw [hflags, Flags.has_or, hexception, Bool.false_or, Flags.has_and_of_kept flags hkept]

@[simp] theorem length_packItem (frame : Bytes) :
    (packItem frame).length = frame.length + itemHeaderSize := by
  simp [packItem, add_comm]

theorem length_batch (frames : List Bytes) :
    (batch frames).length = (frames.map fun f => f.length + itemHeaderSize).sum := by
  simp [batch, List.length_flatMap]

theorem splitItem_packItem {frame : Bytes} (h : frame.length < 2 ^ 32) (rest : Bytes) :
    splitItem (packItem frame ++ rest) = .ok (frame, rest) := by
  have hlen : BigEndian.decode (BigEndian.encode itemHeaderSize frame.length) = frame.length :=
    BigEndian.decode_encode (by norm_num [itemHeaderSize] at h ⊢; exact h)
  rw [splitItem, packItem, List.append_assoc, readExactly_append (BigEndian.length_encode ..)]
  simp only [hlen]
  rw [readExactly_append rfl]

/-- Every batch is taken apart into its items. -/
theorem split_batch {load : Bytes → Except DecodeError β} {value : Bytes → β}
    {frames : List Bytes} (hload : ∀ f ∈ frames, load f = .ok (value f))
    (hlen : ∀ f ∈ frames, f.length < 2 ^ 32) :
    split load (batch frames) = .ok (frames.map value) := by
  induction frames with
  | nil => simp [batch, split]
  | cons f frames ih =>
      have hrest := ih (fun g hg => hload g (List.mem_cons_of_mem f hg))
        fun g hg => hlen g (List.mem_cons_of_mem f hg)
      have hfirst := splitItem_packItem (hlen f List.mem_cons_self) (batch frames)
      have hsome : (batch (f :: frames)).isEmpty = false := by
        simp [batch, packItem, BigEndian.encode, itemHeaderSize]
      rw [split, hsome]
      simp only [Bool.false_eq_true, if_false]
      split
      · rename_i error herror
        exact absurd (hfirst.symm.trans herror) (by simp)
      · rename_i frame rest hframe
        obtain ⟨rfl, rfl⟩ := Prod.mk.inj (Except.ok.inj (hfirst.symm.trans hframe))
        simp [hload f List.mem_cons_self, hrest]

/-- A receiver that accepts code takes the items out of every stream packet. -/
theorem decodePayload_streamPayload (P : Pickle) (load : Bytes → Except DecodeError β)
    (value : Bytes → β) {frames : List Bytes} (hload : ∀ f ∈ frames, load f = .ok (value f))
    (hlen : ∀ f ∈ frames, f.length < 2 ^ 32) (sources : Manifest) {flags : Flags}
    (hbatch : flags.has Flags.batch = true)
    (hmodules : flags.has Flags.modules = !sources.entries.isEmpty) :
    decodePayload P true load flags (streamPayload P frames sources) =
      .ok (.items (frames.map value)) := by
  have hinner : openEnvelope P true flags (streamPayload P frames sources) =
      .ok (batch frames) := by
    cases hempty : sources.entries.isEmpty with
    | true => simp [openEnvelope, streamPayload, hmodules, hempty]
    | false => simp [openEnvelope, streamPayload, hmodules, hempty, P.loads_dumps]
  simp [decodePayload, hinner, hbatch, split_batch hload hlen, Except.map]

/-- Without sources a stream packet has the size of its items and their headers. -/
theorem length_streamPayload_of_empty (P : Pickle) (frames : List Bytes) {sources : Manifest}
    (h : sources.entries.isEmpty = true) :
    (streamPayload P frames sources).length =
      (frames.map fun f => f.length + itemHeaderSize).sum := by
  rw [streamPayload, if_pos h, length_batch]

/-- It is never smaller. -/
theorem le_length_streamPayload (P : Pickle) (frames : List Bytes) (sources : Manifest) :
    (frames.map fun f => f.length + itemHeaderSize).sum ≤
      (streamPayload P frames sources).length := by
  rw [← length_batch, streamPayload]
  split_ifs
  · exact le_rfl
  · exact (P.longer sources (batch frames)).le

end Rmote
