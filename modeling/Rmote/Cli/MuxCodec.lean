import Rmote.Cli.MuxPacket

/-!
# The codec of mux packets

Values that are numbers of 32 bits and texts without NUL are read back from the packet that was
made of them, as long as its length has room in its prefix, and the request of a session is read
to an end from every payload.
-/

namespace Rmote

namespace Mux

open Sftp (PyText encodeText decodeText decodePoint packNumber packBytes packText
  encodeText_decodeText decodeText_cons)
open Outcome

/-! ## Reading back -/

/-- In front of any rest the code reads the bytes and returns the value. -/
def Yields {α : Type} (m : Reader α) (bytes : Bytes) (a : α) : Prop :=
  ∀ p rest, p.offset ≤ p.data.length → p.rest = bytes ++ rest →
    m.run p = .ok a (p.skip bytes.length)

section Yields

variable {α β : Type} {m : Reader α} {a : α} {b : β} {bytes more : Bytes} {p : Packet}

theorem Packet.offset_le {rest : Bytes} (hp : p.offset ≤ p.data.length)
    (h : p.rest = bytes ++ rest) : p.offset + bytes.length ≤ p.data.length := by
  have hlength := congrArg List.length h
  rw [Packet.rest, List.length_drop, List.length_append] at hlength
  omega

theorem yields_pure (a : α) : Yields (pure a) [] a := fun _ _ _ _ => rfl

theorem Yields.bind {f : α → Reader β} (h : Yields m bytes a) (hf : Yields (f a) more b) :
    Yields (m >>= f) (bytes ++ more) b := by
  intro p rest hp hrest
  rw [List.append_assoc] at hrest
  have hnext : (p.skip bytes.length).rest = more ++ rest := by
    rw [Packet.rest_skip, hrest, List.drop_left]
  rw [EStateM.run_bind, h p _ hp hrest]
  dsimp only
  rw [hf (p.skip bytes.length) rest (Packet.offset_le hp hrest) hnext, Packet.skip_skip,
    List.length_append]

theorem Yields.map (g : α → β) (h : Yields m bytes a) :
    Yields (m >>= fun a => pure (g a)) bytes (g a) := by
  have hread := h.bind (f := fun a => pure (g a)) (yields_pure (g a))
  rwa [List.append_nil] at hread

theorem yields_take (bytes : Bytes) : Yields (take bytes.length) bytes bytes := by
  intro p rest hp hrest
  have hle := Packet.offset_le hp hrest
  unfold take
  change (if p.data.length < p.offset + bytes.length then _ else _ : Reader Bytes) p = _
  rw [if_neg (not_lt.mpr hle)]
  change EStateM.Result.ok (p.rest.take bytes.length) (p.skip bytes.length) = _
  rw [hrest, List.take_left]

theorem yields_uint32 {n : ℕ} (h : n < 2 ^ 32) : Yields uint32 (BigEndian.encode 4 n) n := by
  have htake := yields_take (BigEndian.encode 4 n)
  rw [BigEndian.length_encode] at htake
  have hread := htake.map BigEndian.decode
  rwa [BigEndian.decode_encode h] at hread

theorem yields_string {data : Bytes} (h : data.length < 2 ^ 32) (hnul : 0 ∉ data) :
    Yields string (BigEndian.encode 4 data.length ++ data) (decodeText data) := by
  refine (yields_uint32 h).bind ?_
  have hcheck : Yields (if data.contains 0 then throw .nulInString else pure (decodeText data))
      [] (decodeText data) := by
    rw [if_neg fun hmem => hnul (List.contains_iff_mem.mp hmem)]
    exact yields_pure _
  have hread := (yields_take data).bind (f := fun data =>
    if data.contains 0 then throw .nulInString else pure (decodeText data)) hcheck
  rwa [List.append_nil] at hread

end Yields

/-! ## Packets of values -/

/-- A number of 32 bits, or a text without NUL that some bytes are decoded as. -/
def Value.Plain : Value → Prop
  | number n => 0 ≤ n ∧ n < 2 ^ 32
  | text t => 0 ∉ t ∧ ∃ data, t = decodeText data

/-- The bytes of a text. -/
def bytesOf (t : PyText) : Bytes :=
  match encodeText t with
  | .ok data => data
  | .error _ => []

/-- The bytes of a value in a packet. -/
def Value.wire : Value → Bytes
  | number n => BigEndian.encode 4 n.toNat
  | text t => BigEndian.encode 4 (bytesOf t).length ++ bytesOf t

/-- The call that reads such a value. -/
def Value.read : Value → Read
  | number _ => .uint32
  | text _ => .string

section Values

variable {v : Value} {values : List Value} {data : Bytes}

theorem bytesOf_decodeText (data : Bytes) : bytesOf (decodeText data) = data := by
  rw [bytesOf, (encodeText_decodeText data).1]

theorem packNumber_eq (n : ℕ) :
    packNumber 4 n = if n < 2 ^ 32 then .ok (BigEndian.encode 4 n) else .error .struct := by
  unfold packNumber
  by_cases hn : n < 2 ^ 32
  · rw [if_pos hn, if_pos ⟨Int.natCast_nonneg n, by simpa using hn⟩, Int.toNat_natCast]
  · rw [if_neg hn, if_neg fun h => hn (by simpa using h.2)]

theorem packBytes_eq (data : Bytes) : packBytes data =
    if data.length < 2 ^ 32 then .ok (BigEndian.encode 4 data.length ++ data)
    else .error .struct := by
  unfold packBytes
  rw [packNumber_eq]
  split_ifs
  · rfl
  · rfl

/-- A value is packed unless it is too long for its length. -/
theorem Value.Plain.pack (h : v.Plain) :
    v.pack = .ok v.wire ∨ (v.pack = .error .struct ∧ 2 ^ 32 ≤ v.wire.length) := by
  cases v with
  | number n =>
      obtain ⟨n, rfl⟩ := Int.eq_ofNat_of_zero_le h.1
      left
      rw [Value.pack, packNumber_eq, if_pos (by have := h.2; omega), Value.wire, Int.toNat_natCast]
  | text t =>
      obtain ⟨-, data, rfl⟩ := h
      have hpack : (Value.text (decodeText data)).pack = packBytes data := by
        rw [Value.pack, packText, (encodeText_decodeText data).1]
        rfl
      rw [hpack, packBytes_eq, Value.wire, bytesOf_decodeText]
      split_ifs with hlength
      · exact .inl rfl
      · refine .inr ⟨rfl, ?_⟩
        rw [List.length_append]
        omega

theorem packAll_eq (h : ∀ v ∈ values, v.Plain) :
    packAll values = .ok (values.flatMap Value.wire) ∨
      (packAll values = .error .struct ∧ 2 ^ 32 ≤ (values.flatMap Value.wire).length) := by
  induction values with
  | nil => exact .inl rfl
  | cons v values ih =>
      rw [List.forall_mem_cons] at h
      rw [packAll, List.flatMap_cons, List.length_append]
      rcases h.1.pack with hfirst | ⟨hfirst, hlength⟩
      · rw [hfirst]
        rcases ih h.2 with hrest | ⟨hrest, hlength⟩
        · rw [hrest]
          exact .inl rfl
        · rw [hrest]
          exact .inr ⟨rfl, by omega⟩
      · rw [hfirst]
        exact .inr ⟨rfl, by omega⟩

/-- A packet of values is made unless it is too long for its length. -/
theorem packet_eq (h : ∀ v ∈ values, v.Plain) : packet values =
    if (values.flatMap Value.wire).length < 2 ^ 32 then
      .ok (BigEndian.encode 4 (values.flatMap Value.wire).length ++ values.flatMap Value.wire)
    else .error .struct := by
  unfold packet
  rcases packAll_eq h with hall | ⟨hall, hlength⟩
  · rw [hall]
    exact packBytes_eq _
  · rw [hall, if_neg (not_lt.mpr hlength)]
    rfl

theorem packet_error (h : ∀ v ∈ values, v.Plain)
    (hlength : 2 ^ 32 ≤ (values.flatMap Value.wire).length) : packet values = .error .struct := by
  rw [packet_eq h, if_neg (not_lt.mpr hlength)]

theorem Value.Plain.yields (h : v.Plain) (hlength : v.wire.length < 2 ^ 32) :
    Yields v.read.run v.wire (.value v) := by
  cases v with
  | number n =>
      obtain ⟨n, rfl⟩ := Int.eq_ofNat_of_zero_le h.1
      have hn : n < 2 ^ 32 := by
        have := h.2
        omega
      exact (yields_uint32 hn).map fun k : ℕ => Answer.value (.number k)
  | text t =>
      obtain ⟨hnul, data, rfl⟩ := h
      rw [Value.wire, bytesOf_decodeText, List.length_append] at hlength
      have hread : Yields string (BigEndian.encode 4 data.length ++ data) (decodeText data) :=
        yields_string (by omega) ((encodeText_decodeText data).2 hnul)
      rw [Value.wire, bytesOf_decodeText]
      exact hread.map fun t => Answer.value (.text t)

/-- The values of a packet are read one by one. -/
theorem yields_values (h : ∀ v ∈ values, v.Plain)
    (hlength : (values.flatMap Value.wire).length < 2 ^ 32) :
    Yields ((values.map Value.read).mapM Read.run) (values.flatMap Value.wire)
      (values.map Answer.value) := by
  induction values with
  | nil => exact yields_pure _
  | cons v values ih =>
      rw [List.forall_mem_cons] at h
      rw [List.flatMap_cons, List.length_append] at hlength
      have hfirst := h.1.yields (by omega)
      have hrest := (ih h.2 (by omega)).map fun answers => Answer.value v :: answers
      rw [List.map_cons, List.map_cons, List.mapM_cons, List.flatMap_cons]
      exact hfirst.bind hrest

/-- Nothing is left at the end of a payload. -/
theorem run_finish (data : Bytes) :
    finish.run ⟨data, data.length⟩ = .ok () ⟨data, data.length⟩ := by
  unfold finish
  change (if data.length ≠ data.length then _ else _ : Reader Unit) _ = _
  rw [if_neg (not_not.mpr rfl)]
  rfl

/-- What was packed is read back behind the length, and nothing is left over. -/
theorem read_packet (h : ∀ v ∈ values, v.Plain)
    (hlength : (values.flatMap Value.wire).length < 2 ^ 32) :
    ∃ message, packet values = .ok message ∧
      BigEndian.decode (message.take 4) = (message.drop 4).length ∧
      (do
        let answers ← (values.map Value.read).mapM Read.run
        finish
        return answers : Reader (List Answer)).run ⟨message.drop 4, 0⟩ =
          .ok (values.map Answer.value) ⟨message.drop 4, (message.drop 4).length⟩ := by
  have hpacket := packet_eq h
  rw [if_pos hlength] at hpacket
  generalize hdata : values.flatMap Value.wire = data at *
  have hwidth : (BigEndian.encode 4 data.length).length = 4 := BigEndian.length_encode _ _
  refine ⟨_, hpacket, ?_, ?_⟩
  · rw [List.take_left' hwidth, List.drop_left' hwidth, BigEndian.decode_encode hlength]
  · have hread := yields_values h (hdata ▸ hlength) ⟨data, 0⟩ [] (Nat.zero_le _)
      (by rw [hdata, List.append_nil]; rfl)
    rw [hdata] at hread
    rw [List.drop_left' hwidth, EStateM.run_bind, hread]
    have hoffset : (Packet.skip ⟨data, 0⟩ data.length) = ⟨data, data.length⟩ := by
      rw [Packet.skip, Nat.zero_add]
    dsimp only
    rw [hoffset, EStateM.run_bind, run_finish]
    rfl

end Values

/-! ## The request of a session -/

/-- The loop over the environment has enough fuel for the bytes that are left. -/
theorem ensures_environment (fuel : ℕ) (env : List (PyText × PyText)) (p : Packet)
    (hp : p.offset ≤ p.data.length) (hfuel : p.data.length - p.offset ≤ fuel) :
    Ensures (environment fuel env) p (fun _ q => ∃ bytes, p.Moves q bytes) p.Stops := by
  have hdone : p.Moves p [] := ⟨rfl, rfl, rfl, hp⟩
  induction fuel generalizing env p with
  | zero =>
      unfold environment
      apply ensures_get_bind
      rw [if_neg (by omega)]
      exact ensures_pure ⟨[], hdone⟩
  | succ fuel ih =>
      unfold environment
      apply ensures_get_bind
      split_ifs with hleft
      · apply (reads_string p hp).bind
        rintro entry q ⟨bytes, ⟨data, -, rfl, -⟩, hmoves⟩
        have hshorter : q.data.length - q.offset ≤ fuel := by
          have hoffset := hmoves.offset
          rw [List.length_append, BigEndian.length_encode] at hoffset
          rw [hmoves.data]
          omega
        have hraise : Ensures (throw .invalidEnvironment : Reader (List (PyText × PyText))) q
            (fun _ r => ∃ bytes, p.Moves r bytes) p.Stops :=
          ensures_throw (hmoves.stops ⟨rfl, Nat.le_refl _, hmoves.le, by decide⟩)
        split
        · split_ifs
          · exact hraise
          · apply (ih _ q hmoves.le hshorter ⟨rfl, rfl, rfl, hmoves.le⟩).mono
            · rintro _ r ⟨more, hmore⟩
              exact ⟨_, hmoves.trans hmore⟩
            · exact fun e r => hmoves.stops
        · exact hraise
      · exact ensures_pure ⟨[], hdone⟩

/-- A request is read inside of its payload, and the loop ends. -/
theorem reads_request : Reads SessionRequest.read fun _ _ => True := by
  refine reads_string.bind fun _ _ _ => ?_
  refine reads_uint32.bind fun tty _ _ => ?_
  refine reads_uint32.bind fun x11 _ _ => ?_
  refine reads_uint32.bind fun agent _ _ => ?_
  refine reads_uint32.bind fun subsystem _ _ => ?_
  refine reads_uint32.bind fun escape _ _ => ?_
  refine reads_string.bind fun term _ _ => ?_
  refine reads_string.bind fun command _ _ => ?_
  split_ifs
  · exact reads_throw (by decide)
  · intro p hp
    apply ensures_get_bind
    apply (ensures_environment _ [] p hp (Nat.le_refl _)).bind
    rintro env q ⟨bytes, hmoves⟩
    exact ensures_pure ⟨bytes, trivial, hmoves⟩

/-- Values whose packet has room for its length are read back from it, and nothing is left over;
of others there is no packet. Every read of a sequence of reads stays inside of its payload. The
request of a session is read to an end. -/
theorem packet_codec :
    (∀ values : List Value, (∀ v ∈ values, v.Plain) →
      ((values.flatMap Value.wire).length < 2 ^ 32 →
        ∃ message, packet values = .ok message ∧
          BigEndian.decode (message.take 4) = (message.drop 4).length ∧
          (do
            let answers ← (values.map Value.read).mapM Read.run
            finish
            return answers : Reader (List Answer)).run ⟨message.drop 4, 0⟩ =
              .ok (values.map Answer.value) ⟨message.drop 4, (message.drop 4).length⟩) ∧
      (2 ^ 32 ≤ (values.flatMap Value.wire).length → packet values = .error .struct)) ∧
    (∀ (data : Bytes) (reads : List Read), ∀ step ∈ steps reads ⟨data, 0⟩, step.Inside data) ∧
    ∀ p q : Packet, p.offset ≤ p.data.length → SessionRequest.read.run p ≠ .error .stuck q := by
  refine ⟨fun values h => ⟨read_packet h, packet_error h⟩,
    fun data reads => steps_inside reads rfl (Nat.zero_le _), fun p q hp hstuck => ?_⟩
  exact ((reads_request p hp).error hstuck).error rfl

/-- A number, a text with a euro sign and a byte that is no text, and an empty text. -/
def sample : List Value := [.number 0x10000002, .text [0x41, 0x20ac, 0xdcff], .text []]

theorem sample_plain : ∀ v ∈ sample, v.Plain := by
  intro v hv
  simp only [sample, List.mem_cons, List.not_mem_nil, or_false] at hv
  rcases hv with rfl | rfl | rfl
  · exact ⟨by decide, by decide⟩
  · exact ⟨by decide, [0x41, 0xe2, 0x82, 0xac, 0xff], by decide⟩
  · exact ⟨by decide, [], rfl⟩

theorem packet_codec_sample :
    ∃ message, packet sample = .ok message ∧
      (do
        let answers ← (sample.map Value.read).mapM Read.run
        finish
        return answers : Reader (List Answer)).run ⟨message.drop 4, 0⟩ =
          .ok (sample.map Answer.value) ⟨message.drop 4, (message.drop 4).length⟩ := by
  obtain ⟨message, hpacket, -, hread⟩ := (packet_codec.1 sample sample_plain).1 (by decide)
  exact ⟨message, hpacket, hread⟩

theorem decodeText_replicate (n : ℕ) :
    decodeText (List.replicate n 0x61) = List.replicate n 0x61 := by
  induction n with
  | zero => rfl
  | succ n ih =>
      have hpoint : decodePoint 0x61 (List.replicate n 0x61) = (0x61, 0) := rfl
      rw [List.replicate_succ, decodeText_cons, hpoint, List.drop_zero, ih, List.replicate_succ]

/-- A text that is too long for its length makes no packet. -/
theorem packet_replicate {n : ℕ} (h : 2 ^ 32 ≤ n) :
    (∀ v ∈ [Value.text (List.replicate n 0x61)], v.Plain) ∧
      packet [.text (List.replicate n 0x61)] = .error .struct := by
  have hplain : ∀ v ∈ [Value.text (List.replicate n 0x61)], v.Plain := by
    rw [List.forall_mem_singleton]
    refine ⟨fun hmem => ?_, List.replicate n 0x61, (decodeText_replicate n).symm⟩
    exact absurd (List.eq_of_mem_replicate hmem) (by decide)
  refine ⟨hplain, packet_error hplain ?_⟩
  have hbytes : bytesOf (List.replicate n 0x61) = List.replicate n 0x61 := by
    rw [← decodeText_replicate, bytesOf_decodeText]
  rw [List.flatMap_singleton, Value.wire, hbytes, List.length_append, List.length_replicate]
  omega

theorem packet_too_long :
    (∀ v ∈ [Value.text (List.replicate (2 ^ 32) 0x61)], v.Plain) ∧
      packet [.text (List.replicate (2 ^ 32) 0x61)] = .error .struct :=
  packet_replicate (Nat.le_refl _)

end Mux

end Rmote
