import Rmote.Cli.SftpServer

/-!
# Replies of an SFTP session

The packets of a stream do not depend on the chunks that it comes in. Each of them is
answered once, under its own id and in order, and asks at most one thing of `Files`; one
that is no request in the layout of its kind asks nothing and gets an error.
-/

namespace Rmote

namespace Sftp

/-- The first packet of a stream and what stands behind it. A length that is out of range ends
the packets. -/
def splitPacket (bytes : Bytes) : Option (Bytes × Bytes) :=
  if bytes.length < 4 then none
  else
    let size := BigEndian.decode (bytes.take 4)
    if 5 ≤ size ∧ size ≤ maxPacket ∧ size ≤ (bytes.drop 4).length then
      some ((bytes.drop 4).take size, (bytes.drop 4).drop size)
    else none

theorem splitPacket_eq_some {bytes packet rest : Bytes}
    (h : splitPacket bytes = some (packet, rest)) :
    5 ≤ packet.length ∧ rest.length < bytes.length := by
  unfold splitPacket at h
  split_ifs at h with hshort
  dsimp only at h
  split_ifs at h with hsize
  obtain ⟨rfl, rfl⟩ := Prod.mk.inj (Option.some.inj h)
  rw [List.length_take_of_le hsize.2.2, List.length_drop, List.length_drop]
  omega

/-- The complete packets of a stream. -/
def streamPackets (bytes : Bytes) : List Bytes :=
  match _h : splitPacket bytes with
  | none => []
  | some (packet, rest) => packet :: streamPackets rest
termination_by bytes.length
decreasing_by exact (splitPacket_eq_some _h).2

def packetKind (packet : Bytes) : ℕ := BigEndian.decode (packet.take 1)

def packetId (packet : Bytes) : ℕ := BigEndian.decode ((packet.drop 1).take 4)

/-- The packet is a request in one of the layouts of its kind. -/
def WellFormed (packet : Bytes) : Prop :=
  ∃ m fields, Message.ofCode (packetKind packet) = some m ∧ fields ∈ m.layouts ∧
    LayoutHolds fields (packet.drop 5)

/-- An `INIT` of version 3 or later, with pairs of strings behind it. -/
structure ValidInit (packet : Bytes) : Prop where
  kind : packetKind packet = Message.init.code
  version : 3 ≤ packetId packet
  pairs : ∃ names : List (Bytes × Bytes),
    (∀ n ∈ names, n.1.length < 2 ^ 32 ∧ n.2.length < 2 ^ 32) ∧
    packet.drop 5 = names.flatMap fun n => packString n.1 ++ packString n.2

/-- A text that a status has room for. -/
def Encodable (message : PyText) : Prop :=
  ∃ bytes, encodeText message = .ok bytes ∧ bytes.length + 17 < 2 ^ 32

/-- An exception that `request` answers. -/
def Answerable (e : Exn) : Prop :=
  ∃ code message, statusOf e = some (code, message) ∧ Encodable message

/-- The session is started, each other operation returns or raises an exception that can be
answered, and everything can be written. -/
structure Behaves (env : Env) : Prop where
  start : ∃ result, env.files [] .start = .ok result
  files : ∀ calls c e, c ≠ .start → c ≠ .release → env.files calls c = .error e → Answerable e
  wire : ∀ n, env.wire n = none

/-- A packet, what it asked of `Files` and the reply. -/
structure Exchange where
  packet : Bytes
  call : Option FilesCall
  reply : Bytes

/-- The reply has the id of the packet, and a packet that is refused asked nothing. -/
structure Exchange.Sound (x : Exchange) : Prop where
  answered : ∃ kind data, frame kind (packetId x.packet) data = .ok x.reply
  refused : ¬WellFormed x.packet → x.call = none ∧
    ∃ code message data, (code = .badMessage ∨ code = .opUnsupported) ∧
      statusData code message = .ok data ∧
      frame .status (packetId x.packet) data = .ok x.reply

section Input

/-- A read takes the front of what is still to be read, and something of it. -/
theorem readChunk_spec (size : ℕ) (chunks : List Bytes) :
    (readChunk size chunks).1 ++ (readChunk size chunks).2.flatten = chunks.flatten ∧
      (readChunk size chunks).1.length ≤ size ∧
      (0 < size → (readChunk size chunks).1 = [] → chunks.flatten = []) := by
  induction chunks with
  | nil => exact ⟨rfl, Nat.zero_le _, fun _ _ => rfl⟩
  | cons chunk chunks ih =>
      cases chunk with
      | nil => exact ih
      | cons b chunk =>
          rw [readChunk]
          refine ⟨?_, List.length_take_le _ _, fun hsize hnil => ?_⟩
          · split_ifs with hlong
            · rw [List.flatten_cons, List.flatten_cons, ← List.append_assoc,
                List.take_append_drop]
            · rw [List.flatten_cons, List.take_of_length_le (by omega)]
          · rw [List.take_eq_nil_iff] at hnil
            rcases hnil with hnil | hnil
            · omega
            · cases hnil

/-- What one read does to the input. -/
theorem read_spec (size : ℕ) (input : Input) (hsize : 0 < size) :
    (∃ chunk rest, input.read size = (.ok chunk, ⟨rest, input.ending⟩) ∧ chunk ≠ [] ∧
      chunk.length ≤ size ∧ chunk ++ rest.flatten = input.bytes) ∨
    (input.bytes = [] ∧ ∃ r rest, input.read size = (r, ⟨rest, input.ending⟩) ∧
      ∀ chunk, r = .ok chunk → chunk = []) := by
  obtain ⟨hparts, hlength, hnil⟩ := readChunk_spec size input.chunks
  unfold Input.read
  generalize readChunk size input.chunks = result at hparts hlength hnil
  obtain ⟨chunk, rest⟩ := result
  cases chunk with
  | nil =>
      refine .inr ⟨hnil hsize rfl, ?_⟩
      cases hending : input.ending with
      | none =>
          refine ⟨.ok [], rest, rfl, fun chunk h => ?_⟩
          exact (Except.ok.inj h).symm
      | some e => exact ⟨.error e, rest, rfl, fun chunk h => by cases h⟩
  | cons b chunk =>
      exact .inl ⟨b :: chunk, rest, rfl, List.cons_ne_nil b chunk, hlength, hparts⟩

/-- With enough of it to come, the loop reads what is missing, and otherwise it raises. -/
theorem exactLoop_spec (size : ℕ) (allowEof : Bool) (fuel : ℕ) (data : Bytes) (input : Input)
    (hdata : data.length ≤ size) (hfuel : size ≤ data.length + fuel) :
    (size ≤ data.length + input.bytes.length → ∃ rest,
      exactLoop size allowEof fuel data input =
        (.ok (data ++ input.bytes.take (size - data.length)), ⟨rest, input.ending⟩) ∧
      rest.flatten = input.bytes.drop (size - data.length)) ∧
    (data.length + input.bytes.length < size → ∃ e rest,
      exactLoop size allowEof fuel data input = (.error e, ⟨rest, input.ending⟩)) := by
  induction fuel generalizing data input with
  | zero =>
      have hfull : size ≤ data.length := by omega
      refine ⟨fun _ => ⟨input.chunks, ?_, ?_⟩, fun h => by omega⟩
      · rw [exactLoop, if_pos hfull, Nat.sub_eq_zero_of_le hfull, List.take_zero, List.append_nil]
      · rw [Nat.sub_eq_zero_of_le hfull]
        rfl
  | succ fuel ih =>
      by_cases hfull : size ≤ data.length
      · refine ⟨fun _ => ⟨input.chunks, ?_, ?_⟩, fun h => by omega⟩
        · rw [exactLoop, if_pos hfull, Nat.sub_eq_zero_of_le hfull, List.take_zero,
            List.append_nil]
        · rw [Nat.sub_eq_zero_of_le hfull]
          rfl
      · rw [exactLoop, if_neg hfull]
        rcases read_spec (size - data.length) input (by omega) with
          ⟨chunk, rest, hread, hne, hlength, hparts⟩ | ⟨hempty, r, rest, hread, hnil⟩
        · rw [hread]
          simp only [if_neg hne]
          have hpos := List.length_pos_iff.mpr hne
          have hbytes : (⟨rest, input.ending⟩ : Input).bytes = rest.flatten := rfl
          have hsum : input.bytes.length = chunk.length + rest.flatten.length := by
            rw [← hparts, List.length_append]
          obtain ⟨hok, herror⟩ := ih (data ++ chunk) ⟨rest, input.ending⟩
            (by rw [List.length_append]; omega) (by rw [List.length_append]; omega)
          rw [hbytes, List.length_append] at hok herror
          refine ⟨fun h => ?_, fun h => herror (by omega)⟩
          obtain ⟨rest', heq, hrest'⟩ := hok (by omega)
          have hsub : size - data.length =
              chunk.length + (size - (data.length + chunk.length)) := by omega
          refine ⟨rest', ?_, ?_⟩
          · rw [heq, ← hparts, hsub, List.take_length_add_append, List.append_assoc]
          · rw [hrest', ← hparts, hsub, List.drop_length_add_append]
        · rw [hempty, List.length_nil]
          refine ⟨fun h => by omega, fun _ => ?_⟩
          rw [hread]
          cases r with
          | error e => exact ⟨e, rest, rfl⟩
          | ok chunk =>
              obtain rfl := hnil chunk rfl
              simp only [if_true]
              split_ifs
              · exact ⟨_, rest, rfl⟩
              · exact ⟨_, rest, rfl⟩

/-- Reading so many bytes takes them off the stream, whatever chunks it comes in. -/
theorem exact_spec (size : ℕ) (allowEof : Bool) (input : Input) :
    (size ≤ input.bytes.length → ∃ rest,
      exact size allowEof input = (.ok (input.bytes.take size), ⟨rest, input.ending⟩) ∧
      rest.flatten = input.bytes.drop size) ∧
    (input.bytes.length < size → ∃ e rest,
      exact size allowEof input = (.error e, ⟨rest, input.ending⟩)) := by
  obtain ⟨hok, herror⟩ := exactLoop_spec size allowEof size [] input (Nat.zero_le _) (by simp)
  simp only [List.length_nil, Nat.zero_add, Nat.sub_zero, List.nil_append] at hok herror
  exact ⟨hok, herror⟩

end Input

/-- The header of a packet that is long enough. -/
theorem header_eq {packet : Bytes} (h : 5 ≤ packet.length) :
    Server.header ⟨packet, 0⟩ = .ok ((packetKind packet, packetId packet), ⟨packet, 5⟩) := by
  have hkind : take 1 ⟨packet, 0⟩ = .ok (packet.take 1, ⟨packet, 1⟩) := by
    simp only [take]
    rw [if_neg (by omega)]
    rfl
  have hid : uint32 ⟨packet, 1⟩ = .ok (packetId packet, ⟨packet, 5⟩) := by
    change ((take 4 ⟨packet, 1⟩).bind fun r => .ok (BigEndian.decode r.1, r.2)) = _
    simp only [take]
    rw [if_neg (by omega)]
    rfl
  change ((take 1 ⟨packet, 0⟩).bind fun r => (uint32 r.2).bind fun q =>
    .ok ((BigEndian.decode r.1, q.1), q.2)) = _
  rw [hkind]
  change ((uint32 ⟨packet, 1⟩).bind fun q => .ok ((BigEndian.decode (packet.take 1), q.1), q.2)) = _
  rw [hid]
  rfl

/-- The next packet is the first one of what is still to be read. -/
theorem next_eq (s : Server) :
    (∀ packet rest, splitPacket s.input.bytes = some (packet, rest) → ∃ chunks,
      s.next = (.ok (packetKind packet, packetId packet, ⟨packet, 5⟩),
        { s with input := ⟨chunks, s.input.ending⟩ }) ∧ chunks.flatten = rest) ∧
    (splitPacket s.input.bytes = none → ∃ e input,
      s.next = (.error e, { s with input := input })) := by
  obtain ⟨hok, herror⟩ := exact_spec 4 true s.input
  unfold splitPacket Server.next
  by_cases hshort : s.input.bytes.length < 4
  · obtain ⟨e, rest, heq⟩ := herror hshort
    rw [if_pos hshort, heq]
    exact ⟨by simp, fun _ => ⟨e, _, rfl⟩⟩
  · obtain ⟨chunks, heq, hchunks⟩ := hok (by omega)
    rw [if_neg hshort, heq]
    dsimp only
    generalize BigEndian.decode (s.input.bytes.take 4) = size
    by_cases hrange : 5 ≤ size ∧ size ≤ maxPacket
    · rw [if_neg (not_not.mpr hrange)]
      obtain ⟨hok', herror'⟩ := exact_spec size false ⟨chunks, s.input.ending⟩
      have hbytes : (⟨chunks, s.input.ending⟩ : Input).bytes = s.input.bytes.drop 4 := hchunks
      rw [hbytes] at hok' herror'
      by_cases hlong : size ≤ (s.input.bytes.drop 4).length
      · obtain ⟨chunks', heq', hchunks'⟩ := hok' hlong
        rw [if_pos ⟨hrange.1, hrange.2, hlong⟩, heq']
        refine ⟨fun packet rest h => ?_, fun h => by cases h⟩
        obtain ⟨rfl, rfl⟩ := Prod.mk.inj (Option.some.inj h)
        dsimp only
        rw [header_eq (by rw [List.length_take_of_le hlong]; exact hrange.1)]
        exact ⟨chunks', rfl, hchunks'⟩
      · obtain ⟨e, rest, heq'⟩ := herror' (by omega)
        rw [if_neg (fun h => hlong h.2.2), heq']
        exact ⟨by simp, fun _ => ⟨e, _, rfl⟩⟩
    · rw [if_pos hrange, if_neg fun h => hrange ⟨h.1, h.2.1⟩]
      exact ⟨by simp, fun _ => ⟨_, _, rfl⟩⟩

section Request

variable {env : Env} {s : Server} {packet : Bytes} {kind : ℕ}

theorem ok_bind {α β : Type} (a : α) (f : α → Except LibraryError β) :
    (Except.ok a >>= f) = f a := rfl

theorem packNumber_of_lt {width n : ℕ} (h : n < 256 ^ width) :
    packNumber width n = .ok (BigEndian.encode width n) := by
  have hrange : (0 : ℤ) ≤ n ∧ (n : ℤ).toNat < 256 ^ width := ⟨Int.natCast_nonneg n, h⟩
  rw [packNumber, if_pos hrange, Int.toNat_natCast]

theorem packetId_lt (packet : Bytes) : packetId packet < 256 ^ 4 := by
  have hlt := BigEndian.decode_lt ((packet.drop 1).take 4)
  refine hlt.trans_le (Nat.pow_le_pow_right (by decide) ?_)
  exact List.length_take_le _ _

theorem frame_of_ok {kind : Message} {request : ℕ} {data id : Bytes}
    (h : packNumber 4 request = .ok id) :
    frame kind request data = packBytes (UInt8.ofNat kind.code :: id ++ data) := by
  unfold frame packBytes
  rw [h, ok_bind]

theorem packBytes_of_lt {value : Bytes} (h : value.length < 256 ^ 4) :
    packBytes value = .ok (packString value) := by
  unfold packBytes
  rw [packNumber_of_lt h]
  rfl

theorem length_packString (value : Bytes) : (packString value).length = 4 + value.length := by
  rw [packString, List.length_append, BigEndian.length_encode]

/-- A short reply can be sent. -/
theorem frame_eq (kind : Message) {request : ℕ} {data : Bytes} (hrequest : request < 256 ^ 4)
    (h : data.length + 5 < 256 ^ 4) :
    frame kind request data =
      .ok (packString (UInt8.ofNat kind.code :: BigEndian.encode 4 request ++ data)) := by
  have hlength :
      (UInt8.ofNat kind.code :: BigEndian.encode 4 request ++ data).length < 256 ^ 4 := by
    rw [List.cons_append, List.length_cons, List.length_append, BigEndian.length_encode]
    omega
  rw [frame_of_ok (packNumber_of_lt hrequest), packBytes_of_lt hlength]

theorem Status.code_lt (code : Status) : code.code < 256 ^ 4 := by
  cases code <;> decide

/-- A status with a text that can be encoded can be sent. -/
theorem statusData_eq (code : Status) {message : PyText} (h : Encodable message) :
    ∃ data, statusData code message = .ok data ∧ data.length + 5 < 256 ^ 4 := by
  obtain ⟨bytes, hbytes, hlength⟩ := h
  refine ⟨BigEndian.encode 4 code.code ++ packString bytes ++ packString [], ?_, ?_⟩
  · unfold statusData packText
    rw [packNumber_of_lt code.code_lt, ok_bind, hbytes, ok_bind, packBytes_of_lt (by omega),
      ok_bind, packBytes_of_lt (by simp), ok_bind]
    rfl
  · rw [List.length_append, List.length_append, BigEndian.length_encode, length_packString,
      length_packString, List.length_nil]
    omega

/-- A text of whole characters can be encoded. -/
theorem encodeText_pyText (text : List Char) :
    ∃ bytes, encodeText (text.map Char.toNat) = .ok bytes ∧ bytes.length ≤ 4 * text.length := by
  induction text with
  | nil => exact ⟨[], rfl, Nat.zero_le _⟩
  | cons c text ih =>
      obtain ⟨rest, hrest, hlength⟩ := ih
      have hvalid : ¬(0xd800 ≤ c.toNat ∧ c.toNat < 0xe000) := by
        intro h
        rcases c.valid with hlow | ⟨hhigh, -⟩
        · exact absurd h.1 (not_le.mpr hlow)
        · exact absurd h.2 (not_lt.mpr hhigh)
      obtain ⟨first, hfirst, hshort⟩ :
          ∃ first, encodePoint c.toNat = .ok first ∧ first.length ≤ 4 := by
        unfold encodePoint
        split_ifs
        · exact ⟨_, rfl, by simp⟩
        · exact ⟨_, rfl, by simp⟩
        · exact ⟨_, rfl, by simp⟩
        · exact ⟨_, rfl, by simp⟩
      refine ⟨first ++ rest, ?_, ?_⟩
      · rw [List.map_cons, encodeText, hfirst, ok_bind, hrest]
        rfl
      · rw [List.length_append, List.length_cons]
        omega

theorem encodable_pyText {text : String} (h : text.length ≤ 1000) : Encodable (pyText text) := by
  obtain ⟨bytes, hbytes, hlength⟩ := encodeText_pyText text.toList
  rw [String.length_toList] at hlength
  exact ⟨bytes, hbytes, by omega⟩

/-- The length of a literal is that of its characters. -/
theorem length_literal {characters : List Char} {n : ℕ} (h : characters.length ≤ n) :
    (String.ofList characters).length ≤ n := by
  rwa [String.length_ofList]

theorem encodable_literal {characters : List Char} (h : characters.length ≤ 1000) :
    Encodable (pyText (String.ofList characters)) :=
  encodable_pyText (length_literal h)

/-- The errors of the server itself can all be answered, and those of a packet with a status
that blames the request. -/
theorem PacketError.statusOf_exn (e : PacketError) :
    ∃ code message, statusOf e.exn = some (code, message) ∧
      (code = .badMessage ∨ code = .opUnsupported) ∧ Encodable message := by
  cases e with
  | truncated => exact ⟨_, _, rfl, .inl rfl, encodable_literal (by decide)⟩
  | nulInPath => exact ⟨_, _, rfl, .inl rfl, encodable_literal (by decide)⟩
  | unknownFlags => exact ⟨_, _, rfl, .inl rfl, encodable_literal (by decide)⟩
  | extendedAttributes => exact ⟨_, _, rfl, .inr rfl, encodable_literal (by decide)⟩
  | unexpectedData => exact ⟨_, _, rfl, .inl rfl, encodable_literal (by decide)⟩
  | unsupportedExtension => exact ⟨_, _, rfl, .inr rfl, encodable_literal (by decide)⟩
  | unsupportedRequest => exact ⟨_, _, rfl, .inr rfl, encodable_literal (by decide)⟩

theorem LibraryError.answerable (e : LibraryError) : Answerable e.exn := by
  cases e with
  | unicode => exact ⟨_, _, rfl, encodable_literal (by decide)⟩
  | struct => exact ⟨_, _, rfl, encodable_literal (by decide)⟩
  | infinite => exact ⟨_, _, rfl, encodable_literal (by decide)⟩
  | nan => exact ⟨_, _, rfl, encodable_literal (by decide)⟩
  | localtimeRange => exact ⟨_, _, rfl, encodable_literal (by decide)⟩
  | localtimeSystem => exact ⟨_, _, rfl, encodable_literal (by decide)⟩

/-- What a session does when it sends one reply. -/
def Server.replied (s : Server) (call : Option FilesCall) (reply : Bytes) : Server :=
  { s with calls := s.calls ++ call.toList, writes := s.writes + 1, sent := s.sent ++ [reply] }

theorem write_eq (h : Behaves env) (bytes : Bytes) :
    s.write env bytes = (.ok (), s.replied none bytes) := by
  unfold Server.write
  rw [h.wire]
  simp [Server.replied]

/-- Sending writes one reply under the id, or raises something that can be answered. -/
theorem send_spec (h : Behaves env) (kind : Message) (packet data : Bytes) :
    (∃ reply, frame kind (packetId packet) data = .ok reply ∧
      s.send env kind (packetId packet) data = (.ok (), s.replied none reply)) ∨
    ∃ e, Answerable e ∧ s.send env kind (packetId packet) data = (.error e, s) := by
  unfold Server.send
  cases hframe : frame kind (packetId packet) data with
  | error e => exact .inr ⟨e.exn, e.answerable, rfl⟩
  | ok reply => exact .inl ⟨reply, rfl, write_eq h reply⟩

/-- A status with a text that can be encoded is one reply. -/
theorem status_spec (h : Behaves env) (code : Status) {message : PyText}
    (hmessage : Encodable message) (packet : Bytes) :
    ∃ data reply, statusData code message = .ok data ∧
      frame .status (packetId packet) data = .ok reply ∧
      s.status env (packetId packet) code message = (.ok (), s.replied none reply) := by
  obtain ⟨data, hdata, hlength⟩ := statusData_eq code hmessage
  have hframe := frame_eq .status (packetId_lt packet) hlength
  refine ⟨data, _, hdata, hframe, ?_⟩
  unfold Server.status
  rw [hdata]
  dsimp only
  unfold Server.send
  rw [hframe]
  exact write_eq h _

/-- How `dispatch` leaves a packet: it is no request, or one that `Files` was asked, and then the
reply is sent or there is something to answer with a status. -/
theorem dispatch_spec (h : Behaves env) (s : Server) (packet : Bytes) :
    (∃ e : PacketError, s.dispatch env (packetKind packet) (packetId packet) ⟨packet, 5⟩ =
      (.error e.exn, s)) ∨
    WellFormed packet ∧ ∃ c,
      (∃ kind data reply, frame kind (packetId packet) data = .ok reply ∧
        s.dispatch env (packetKind packet) (packetId packet) ⟨packet, 5⟩ =
          (.ok (), s.replied (some c) reply)) ∨
      ∃ e, Answerable e ∧ s.dispatch env (packetKind packet) (packetId packet) ⟨packet, 5⟩ =
        (.error e, { s with calls := s.calls ++ [c] }) := by
  unfold Server.dispatch
  cases hparse : parse (Message.ofCode (packetKind packet)) ⟨packet, 5⟩ with
  | error e => exact .inl ⟨e, rfl⟩
  | ok r =>
      obtain ⟨c, p'⟩ := r
      obtain ⟨m, fields, hm, hfields, hlayout⟩ := layout_of_parse hparse
      refine .inr ⟨⟨m, fields, hm, hfields, hlayout⟩, c, ?_⟩
      obtain ⟨hstart, hrelease⟩ := returns_parse _ _ _ _ hparse
      dsimp only
      unfold Server.call
      cases hfiles : env.files s.calls c with
      | error e => exact .inr ⟨e, h.files _ c e hstart hrelease hfiles, rfl⟩
      | ok result =>
          dsimp only
          cases hanswer : answer env.display c result with
          | error e => exact .inr ⟨e.exn, e.answerable, rfl⟩
          | ok pair =>
              obtain ⟨kind, data⟩ := pair
              dsimp only
              rcases send_spec (s := { s with calls := s.calls ++ [c] }) h kind packet data with
                ⟨reply, hframe, hsend⟩ | ⟨e, he, hsend⟩
              · refine .inl ⟨kind, data, reply, hframe, ?_⟩
                rw [hsend]
                simp [Server.replied]
              · exact .inr ⟨e, he, hsend⟩

/-- A request is answered once, under its id. -/
theorem request_spec (h : Behaves env) (s : Server) (packet : Bytes) :
    ∃ call reply, s.request env (packetKind packet) (packetId packet) ⟨packet, 5⟩ =
      (.ok (), s.replied call reply) ∧ (⟨packet, call, reply⟩ : Exchange).Sound := by
  unfold Server.request
  rcases dispatch_spec h s packet with ⟨e, hdispatch⟩ | ⟨hformed, c, hdispatch⟩
  · obtain ⟨code, message, hstatus, hcode, hmessage⟩ := e.statusOf_exn
    obtain ⟨data, reply, hdata, hframe, hsent⟩ :=
      status_spec (s := s) h code hmessage packet
    refine ⟨none, reply, ?_, ⟨⟨_, data, hframe⟩, fun _ =>
      ⟨rfl, code, message, data, hcode, hdata, hframe⟩⟩⟩
    rw [hdispatch]
    dsimp only
    rw [hstatus]
    exact hsent
  · rcases hdispatch with ⟨kind, data, reply, hframe, hdispatch⟩ | ⟨e, he, hdispatch⟩
    · refine ⟨some c, reply, ?_, ⟨⟨kind, data, hframe⟩, fun hno => absurd hformed hno⟩⟩
      rw [hdispatch]
    · obtain ⟨code, message, hstatus, hmessage⟩ := he
      obtain ⟨data, reply, -, hframe, hsent⟩ := status_spec
        (s := { s with calls := s.calls ++ [c] }) h code hmessage packet
      refine ⟨some c, reply, ?_, ⟨⟨_, data, hframe⟩, fun hno => absurd hformed hno⟩⟩
      rw [hdispatch]
      dsimp only
      rw [hstatus]
      dsimp only
      rw [hsent]
      simp [Server.replied]

end Request

end Sftp

end Rmote
