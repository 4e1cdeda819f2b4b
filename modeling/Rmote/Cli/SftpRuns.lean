import Rmote.Cli.SftpReplies

/-!
# Runs of an SFTP session

A session reads its stream to the end, or to a packet that it takes for none, and never
beyond: each turn of the loop takes a packet off the stream, so that the loop ends. What
`Files` is asked last, whatever happened before, is to release the session.
-/

namespace Rmote

namespace Sftp

section Init

variable {env : Env} {s : Server} {p : Packet} {packet value rest : Bytes}

theorem take_of_rest {bytes : Bytes} (h : p.rest = bytes ++ rest) :
    ∃ q, take bytes.length p = .ok (bytes, q) ∧ q.rest = rest ∧ q.data = p.data := by
  have hlength : bytes.length ≤ p.data.length - p.offset := by
    rw [← List.length_drop, ← Packet.rest, h, List.length_append]
    omega
  refine ⟨{ p with offset := p.offset + bytes.length }, ?_, ?_, rfl⟩
  · rw [take, if_neg (by omega), ← Packet.rest, h, List.take_left]
  · rw [Packet.rest, ← List.drop_drop, ← Packet.rest, h, List.drop_left]

theorem uint32_of_rest {n : ℕ} (hn : n < 256 ^ 4) (h : p.rest = BigEndian.encode 4 n ++ rest) :
    ∃ q, uint32 p = .ok (n, q) ∧ q.rest = rest ∧ q.data = p.data := by
  obtain ⟨q, htake, hrest, hdata⟩ := take_of_rest h
  rw [BigEndian.length_encode] at htake
  refine ⟨q, ?_, hrest, hdata⟩
  change ((take 4 p).bind fun r => .ok (BigEndian.decode r.1, r.2)) = _
  rw [htake]
  change Except.ok (BigEndian.decode (BigEndian.encode 4 n), q) = _
  rw [BigEndian.decode_encode hn]

theorem string_of_rest (hvalue : value.length < 256 ^ 4) (h : p.rest = packString value ++ rest) :
    ∃ q, string p = .ok (value, q) ∧ q.rest = rest ∧ q.data = p.data := by
  rw [packString, List.append_assoc] at h
  obtain ⟨q, hcount, hrest, hdata⟩ := uint32_of_rest hvalue h
  obtain ⟨q', htake, hrest', hdata'⟩ := take_of_rest hrest
  refine ⟨q', ?_, hrest', hdata'.trans hdata⟩
  change ((uint32 p).bind fun r => take r.1 r.2) = _
  rw [hcount]
  exact htake

/-- One turn of the loop over the pairs. -/
theorem initPairs_succ (fuel : ℕ) (p : Packet) :
    initPairs (fuel + 1) p =
      if p.offset < p.data.length then
        (string p).bind fun r => (string r.2).bind fun q => initPairs fuel q.2
      else .ok ((), p) := by
  change (if p.offset < p.data.length then
    (do let _ ← string; let _ ← string; initPairs fuel) else pure () : Parser Unit) p = _
  split_ifs
  · rfl
  · rfl

theorem rest_eq_nil_iff : p.rest = [] ↔ ¬p.offset < p.data.length := by
  rw [Packet.rest, List.drop_eq_nil_iff]
  omega

/-- Pairs of strings are read to the end of their packet. -/
theorem initPairs_eq (names : List (Bytes × Bytes)) (fuel : ℕ)
    (hnames : ∀ n ∈ names, n.1.length < 256 ^ 4 ∧ n.2.length < 256 ^ 4)
    (hfuel : names.length ≤ fuel)
    (h : p.rest = names.flatMap fun n => packString n.1 ++ packString n.2) :
    ∃ q, initPairs fuel p = .ok ((), q) := by
  induction names generalizing p fuel with
  | nil =>
      cases fuel with
      | zero => exact ⟨p, rfl⟩
      | succ fuel =>
          refine ⟨p, ?_⟩
          rw [initPairs_succ, if_neg (rest_eq_nil_iff.mp h)]
  | cons name names ih =>
      obtain ⟨fuel, rfl⟩ : ∃ n, fuel = n + 1 := ⟨fuel - 1, by simp at hfuel; omega⟩
      rw [List.flatMap_cons, List.append_assoc] at h
      obtain ⟨hfirst, hsecond⟩ := hnames name (by simp)
      obtain ⟨q, hstring, hrest, -⟩ := string_of_rest hfirst h
      obtain ⟨q', hstring', hrest', -⟩ := string_of_rest hsecond hrest
      obtain ⟨q'', heq⟩ := ih fuel (fun n hn => hnames n (List.mem_cons_of_mem _ hn))
        (by simp at hfuel; omega) hrest'
      refine ⟨q'', ?_⟩
      have hsome : p.offset < p.data.length := by
        by_contra hno
        have hnil := rest_eq_nil_iff.mpr hno
        rw [h] at hnil
        have hlength := congrArg List.length hnil
        rw [List.length_append, length_packString] at hlength
        simp at hlength
      rw [initPairs_succ, if_pos hsome, hstring]
      change ((string q).bind fun r => initPairs fuel r.2) = _
      rw [hstring']
      exact heq

/-- The loop over the pairs is never cut short. -/
theorem initPairs_complete (fuel : ℕ) {p q : Packet} (hfuel : p.rest.length ≤ fuel)
    (h : initPairs fuel p = .ok ((), q)) : q.rest = [] := by
  induction fuel generalizing p with
  | zero =>
      obtain ⟨-, rfl⟩ := pure_eq_ok h
      exact List.length_eq_zero_iff.mp (Nat.le_zero.mp hfuel)
  | succ fuel ih =>
      rw [initPairs_succ] at h
      split_ifs at h with hsome
      · cases hfirst : string p with
        | error e =>
            rw [hfirst] at h
            cases h
        | ok r =>
            rw [hfirst] at h
            change ((string r.2).bind fun q => initPairs fuel q.2) = _ at h
            cases hsecond : string r.2 with
            | error e =>
                rw [hsecond] at h
                cases h
            | ok r' =>
                rw [hsecond] at h
                obtain ⟨-, hrest, -⟩ : _ ∧ p.rest = _ ++ r.2.rest ∧ _ := string_eq_ok hfirst
                obtain ⟨-, hrest', -⟩ : _ ∧ r.2.rest = _ ++ r'.2.rest ∧ _ := string_eq_ok hsecond
                refine ih ?_ h
                rw [hrest, hrest', List.length_append, List.length_append,
                  length_packString] at hfuel
                omega
      · obtain ⟨-, rfl⟩ := Prod.mk.inj (Except.ok.inj h)
        exact rest_eq_nil_iff.mpr hsome

theorem packText_pyText (text : String) (h : text.length ≤ 1000) :
    ∃ data, packText (pyText text) = .ok data ∧ data.length ≤ 4004 := by
  obtain ⟨bytes, hbytes, hlength⟩ := encodeText_pyText text.toList
  rw [String.length_toList] at hlength
  refine ⟨packString bytes, ?_, ?_⟩
  · unfold packText pyText
    rw [hbytes, ok_bind, packBytes_of_lt (by omega)]
  · rw [length_packString]
    omega

/-- The `VERSION` reply can be sent. -/
theorem version_eq :
    ∃ data version, Server.extensions = .ok data ∧ frame .version 3 data = .ok version := by
  obtain ⟨one, hone, hlone⟩ := packText_pyText "1" (length_literal (by decide))
  obtain ⟨rename, hrename, hlrename⟩ :=
    packText_pyText "posix-rename@openssh.com" (length_literal (by decide))
  obtain ⟨fsync, hfsync, hlfsync⟩ :=
    packText_pyText "fsync@openssh.com" (length_literal (by decide))
  refine ⟨rename ++ one ++ fsync ++ one, _, ?_, frame_eq .version (by decide) ?_⟩
  · unfold Server.extensions
    rw [hone, ok_bind, hrename, ok_bind, hfsync, ok_bind]
    rfl
  · rw [List.length_append, List.length_append, List.length_append]
    omega

/-- A valid `INIT` is answered with a version. -/
theorem greet_eq (h : Behaves env) (s : Server) (hinit : ValidInit packet) :
    ∃ data version, Server.extensions = .ok data ∧ frame .version 3 data = .ok version ∧
      s.greet env (packetKind packet) (packetId packet) ⟨packet, 5⟩ =
        (.ok (), s.replied none version) := by
  obtain ⟨data, version, hdata, hframe⟩ := version_eq
  obtain ⟨names, hnames, hpairs⟩ := hinit.pairs
  have hcount : names.length ≤ packet.length := by
    have hle : names.length ≤ (names.flatMap fun n => packString n.1 ++ packString n.2).length := by
      clear hnames hpairs
      induction names with
      | nil => exact Nat.zero_le _
      | cons n names ih =>
          rw [List.flatMap_cons, List.length_append, List.length_append, length_packString,
            List.length_cons]
          omega
    rw [← hpairs, List.length_drop] at hle
    omega
  obtain ⟨q, hread⟩ := initPairs_eq (p := ⟨packet, 5⟩) names packet.length hnames hcount hpairs
  refine ⟨data, version, hdata, hframe, ?_⟩
  have hversion := hinit.version
  unfold Server.greet
  rw [if_neg (by rw [hinit.kind]; simp; omega)]
  dsimp only
  rw [hread, hdata]
  dsimp only
  unfold Server.send
  rw [hframe]
  exact write_eq h version

end Init

section Loop

variable {env : Env}

theorem write_input (s : Server) (bytes : Bytes) : (s.write env bytes).2.input = s.input := by
  unfold Server.write
  split
  · rfl
  · rfl

theorem send_input (s : Server) (kind : Message) (request : ℕ) (data : Bytes) :
    (s.send env kind request data).2.input = s.input := by
  unfold Server.send
  split
  · rfl
  · exact write_input s _

theorem status_input (s : Server) (request : ℕ) (code : Status) (message : PyText) :
    (s.status env request code message).2.input = s.input := by
  unfold Server.status
  split
  · rfl
  · exact send_input s _ _ _

theorem dispatch_input (s : Server) (kind request : ℕ) (packet : Packet) :
    (s.dispatch env kind request packet).2.input = s.input := by
  unfold Server.dispatch Server.call
  split
  · rfl
  · split
    next heq =>
      rw [← (Prod.mk.inj heq).2]
    next heq =>
      rw [← (Prod.mk.inj heq).2]
      split
      · rfl
      · exact send_input _ _ _ _

/-- What a request does leaves the input alone. -/
theorem request_input (s : Server) (kind request : ℕ) (packet : Packet) :
    (s.request env kind request packet).2.input = s.input := by
  have hdispatch : (s.dispatch env kind request packet).2.input = s.input :=
    dispatch_input s kind request packet
  unfold Server.request
  generalize s.dispatch env kind request packet = r at hdispatch
  obtain ⟨result, s'⟩ := r
  cases result with
  | ok _ => exact hdispatch
  | error e =>
      dsimp only
      split
      · rw [status_input]
        exact hdispatch
      · exact hdispatch

theorem greet_input (s : Server) (kind request : ℕ) (packet : Packet) :
    (s.greet env kind request packet).2.input = s.input := by
  unfold Server.greet
  split_ifs
  · rfl
  · split
    · rfl
    · split
      · rfl
      · exact send_input s _ _ _

theorem streamPackets_of_none {bytes : Bytes} (h : splitPacket bytes = none) :
    streamPackets bytes = [] := by
  rw [streamPackets]
  split
  · rfl
  next packet rest heq =>
    rw [h] at heq
    cases heq

theorem streamPackets_of_some {bytes packet rest : Bytes}
    (h : splitPacket bytes = some (packet, rest)) :
    streamPackets bytes = packet :: streamPackets rest := by
  rw [streamPackets]
  split
  next heq =>
    rw [h] at heq
    cases heq
  next packet' rest' heq =>
    rw [h] at heq
    obtain ⟨rfl, rfl⟩ := Prod.mk.inj (Option.some.inj heq)
    rfl

/-- The loop ends, since each turn takes a packet off the stream. -/
theorem loop_ends (env : Env) (fuel : ℕ) (initialized : Bool) (s : Server)
    (hfuel : s.input.bytes.length < fuel) :
    ∃ e, (Server.loop env fuel initialized s).1 = some e := by
  induction fuel generalizing initialized s with
  | zero => exact absurd hfuel (Nat.not_lt_zero _)
  | succ fuel ih =>
      obtain ⟨hsome, hnone⟩ := next_eq s
      rw [Server.loop]
      cases hsplit : splitPacket s.input.bytes with
      | none =>
          obtain ⟨e, input, hnext⟩ := hnone hsplit
          rw [hnext]
          exact ⟨e, rfl⟩
      | some pair =>
          obtain ⟨packet, rest⟩ := pair
          obtain ⟨chunks, hnext, hchunks⟩ := hsome packet rest hsplit
          have hshorter := (splitPacket_eq_some hsplit).2
          rw [hnext]
          dsimp only
          generalize hs : ({ s with input := ⟨chunks, s.input.ending⟩ } : Server) = s'
          have hinput : s'.input.bytes = rest := by
            rw [← hs]
            exact hchunks
          have hkept : (if initialized = true then
                s'.request env (packetKind packet) (packetId packet) ⟨packet, 5⟩
              else s'.greet env (packetKind packet) (packetId packet) ⟨packet, 5⟩).2.input =
              s'.input := by
            split_ifs
            · exact request_input s' _ _ _
            · exact greet_input s' _ _ _
          generalize (if initialized = true then
              s'.request env (packetKind packet) (packetId packet) ⟨packet, 5⟩
            else s'.greet env (packetKind packet) (packetId packet) ⟨packet, 5⟩) = r at hkept
          obtain ⟨result, s''⟩ := r
          cases result with
          | error e => exact ⟨e, rfl⟩
          | ok _ =>
              refine ih true s'' ?_
              rw [show s''.input = s'.input from hkept, hinput]
              omega

/-- Behind the `INIT`, the loop answers each packet of the stream. -/
theorem loop_answers (h : Behaves env) (fuel : ℕ) (s : Server)
    (hfuel : s.input.bytes.length < fuel) :
    ∃ exchanges : List Exchange, exchanges.map Exchange.packet = streamPackets s.input.bytes ∧
      (∀ x ∈ exchanges, x.Sound) ∧
      (Server.loop env fuel true s).2.sent = s.sent ++ exchanges.map Exchange.reply ∧
      (Server.loop env fuel true s).2.calls = s.calls ++ exchanges.filterMap Exchange.call := by
  induction fuel generalizing s with
  | zero => exact absurd hfuel (Nat.not_lt_zero _)
  | succ fuel ih =>
      obtain ⟨hsome, hnone⟩ := next_eq s
      rw [Server.loop]
      cases hsplit : splitPacket s.input.bytes with
      | none =>
          obtain ⟨e, input, hnext⟩ := hnone hsplit
          rw [hnext, streamPackets_of_none hsplit]
          exact ⟨[], rfl, by simp, by simp, by simp⟩
      | some pair =>
          obtain ⟨packet, rest⟩ := pair
          obtain ⟨chunks, hnext, hchunks⟩ := hsome packet rest hsplit
          have hshorter := (splitPacket_eq_some hsplit).2
          obtain ⟨call, reply, hrequest, hsound⟩ :=
            request_spec h { s with input := ⟨chunks, s.input.ending⟩ } packet
          rw [hnext]
          simp only [if_true, hrequest]
          have hinput : (Server.replied { s with input := ⟨chunks, s.input.ending⟩ } call
              reply).input.bytes = rest := hchunks
          obtain ⟨exchanges, hpackets, hsounds, hsent, hcalls⟩ := ih
            (Server.replied { s with input := ⟨chunks, s.input.ending⟩ } call reply)
            (by rw [hinput]; omega)
          refine ⟨⟨packet, call, reply⟩ :: exchanges, ?_, ?_, ?_, ?_⟩
          · rw [List.map_cons, hpackets, hinput, streamPackets_of_some hsplit]
          · intro x hx
            rcases List.mem_cons.mp hx with rfl | hx
            · exact hsound
            · exact hsounds x hx
          · rw [hsent]
            simp [Server.replied]
          · rw [hcalls]
            cases call with
            | none => simp [Server.replied]
            | some c => simp [Server.replied]

end Loop

section Run

variable {env : Env} {input : Input}

theorem body_ends (env : Env) (input : Input) : (body env input).1 ≠ .exhausted := by
  unfold body
  split
  · simp
  · simp
  next s heq =>
    have hinput : s.input = input := by
      rw [← (Prod.mk.inj heq).2]
    obtain ⟨e, hends⟩ := loop_ends env (input.bytes.length + 1) false s
      (by rw [hinput]; exact Nat.lt_succ_self _)
    generalize Server.loop env (input.bytes.length + 1) false s = r at hends
    obtain ⟨result, s'⟩ := r
    obtain rfl : result = some e := hends
    cases e <;> simp

/-- Releasing the session is the last thing that a run does, and all that it adds. -/
theorem run_eq (env : Env) (input : Input) :
    ((run env input).1 = (body env input).1 ∨ ∃ e, (run env input).1 = .raised e) ∧
      (run env input).2.calls = (body env input).2.calls ++ [.release] ∧
      (run env input).2.sent = (body env input).2.sent := by
  unfold run
  generalize body env input = r
  obtain ⟨ending, s⟩ := r
  dsimp only
  unfold Server.call
  cases env.files s.calls .release with
  | ok _ => exact ⟨.inl rfl, rfl, rfl⟩
  | error e =>
      refine ⟨?_, rfl, rfl⟩
      dsimp only
      split_ifs
      · exact .inl rfl
      · exact .inr ⟨e, rfl⟩

theorem run_ends (env : Env) (input : Input) : (run env input).1 ≠ .exhausted := by
  rcases (run_eq env input).1 with hrun | ⟨e, hrun⟩
  · rw [hrun]
    exact body_ends env input
  · simp [hrun]

/-- What a session of a started `Files` sends behind a valid `INIT`. -/
theorem body_answers (h : Behaves env) {first : Bytes} {packets : List Bytes}
    (hstream : streamPackets input.bytes = first :: packets) (hinit : ValidInit first) :
    ∃ data version, ∃ exchanges : List Exchange,
      Server.extensions = .ok data ∧ frame .version 3 data = .ok version ∧
      exchanges.map Exchange.packet = packets ∧ (∀ x ∈ exchanges, x.Sound) ∧
      (body env input).2.sent = version :: exchanges.map Exchange.reply ∧
      (body env input).2.calls = .start :: exchanges.filterMap Exchange.call := by
  obtain ⟨result, hstart⟩ := h.start
  obtain ⟨packet, rest, hsplit⟩ : ∃ packet rest, splitPacket input.bytes = some (packet, rest) := by
    cases hsplit : splitPacket input.bytes with
    | none =>
        rw [streamPackets_of_none hsplit] at hstream
        cases hstream
    | some pair => exact ⟨pair.1, pair.2, rfl⟩
  rw [streamPackets_of_some hsplit] at hstream
  obtain ⟨rfl, rfl⟩ := List.cons.inj hstream
  obtain ⟨chunks, hnext, hchunks⟩ :=
    (next_eq ⟨input, [.start], 0, []⟩).1 packet rest hsplit
  obtain ⟨data, version, hdata, hversion, hgreet⟩ :=
    greet_eq h ⟨⟨chunks, input.ending⟩, [.start], 0, []⟩ hinit
  obtain ⟨exchanges, hpackets, hsounds, hsent, hcalls⟩ := loop_answers h input.bytes.length
    (Server.replied ⟨⟨chunks, input.ending⟩, [.start], 0, []⟩ none version)
    (by
      change chunks.flatten.length < _
      rw [hchunks]
      exact (splitPacket_eq_some hsplit).2)
  have hloop : Server.loop env (input.bytes.length + 1) false ⟨input, [.start], 0, []⟩ =
      Server.loop env input.bytes.length true
        (Server.replied ⟨⟨chunks, input.ending⟩, [.start], 0, []⟩ none version) := by
    rw [Server.loop, hnext]
    simp only [Bool.false_eq_true, if_false, hgreet]
  have hbody : (body env input).2 = (Server.loop env input.bytes.length true
      (Server.replied ⟨⟨chunks, input.ending⟩, [.start], 0, []⟩ none version)).2 := by
    rw [← hloop]
    unfold body Server.call
    rw [hstart]
    dsimp only [List.nil_append]
    generalize Server.loop env (input.bytes.length + 1) false ⟨input, [.start], 0, []⟩ = r
    obtain ⟨ending, s⟩ := r
    cases ending with
    | none => rfl
    | some e => cases e <;> rfl
  refine ⟨data, version, exchanges, hdata, hversion, ?_, hsounds, ?_, ?_⟩
  · rw [hpackets]
    exact congrArg streamPackets hchunks
  · rw [hbody, hsent]
    rfl
  · rw [hbody, hcalls]
    rfl

/-- Every packet of a stream that begins with a valid `INIT` is answered once, in order and under
its own id, and one that is no request in a layout of its kind with an error and without asking
`Files`. Each read stays inside of its packet, the pairs of the `INIT` are read to its end, and
every session, whatever it met, ends and releases its handles last. -/
theorem run_answers (env : Env) (input : Input) :
    ((run env input).1 ≠ .exhausted ∧ (run env input).2.calls.getLast? = some .release) ∧
    (∀ (size : ℕ) (p : Packet),
      (size ≤ p.rest.length → ∃ q, take size p = .ok (p.rest.take size, q) ∧ q.data = p.data ∧
        q.rest = p.rest.drop size) ∧
      (p.rest.length < size → take size p = .error .truncated)) ∧
    (∀ (fuel : ℕ) (p q : Packet), p.rest.length ≤ fuel → initPairs fuel p = .ok ((), q) →
      q.rest = []) ∧
    (Behaves env → ∀ first packets, streamPackets input.bytes = first :: packets →
      ValidInit first → ∃ data version, ∃ exchanges : List Exchange,
        Server.extensions = .ok data ∧ frame .version 3 data = .ok version ∧
        exchanges.map Exchange.packet = packets ∧ (∀ x ∈ exchanges, x.Sound) ∧
        (run env input).2.sent = version :: exchanges.map Exchange.reply ∧
        (run env input).2.calls = .start :: (exchanges.filterMap Exchange.call ++ [.release])) := by
  obtain ⟨-, hcalls, hsent⟩ := run_eq env input
  refine ⟨⟨run_ends env input, ?_⟩, fun size p => ⟨fun hsize => ?_, fun hsize => ?_⟩,
    fun fuel p q => initPairs_complete fuel, fun h first packets hstream hinit => ?_⟩
  · rw [hcalls, List.getLast?_concat]
  · obtain ⟨q, htake, hrest, hdata⟩ := take_of_rest (List.take_append_drop size p.rest).symm
    rw [List.length_take_of_le hsize] at htake
    exact ⟨q, htake, hdata, hrest⟩
  · rw [Packet.rest, List.length_drop] at hsize
    rw [take, if_pos hsize]
  · obtain ⟨data, version, exchanges, hdata, hversion, hpackets, hsounds, hreplies, hasked⟩ :=
      body_answers h hstream hinit
    refine ⟨data, version, exchanges, hdata, hversion, hpackets, hsounds, ?_, ?_⟩
    · rw [hsent, hreplies]
    · rw [hcalls, hasked, List.cons_append]

/-- A system that shows no dates. -/
def blankDisplay : Display where
  date _ := .ok []
  filemode _ := .ok []

/-- A `Files` that starts as it is told, closes as it is told and has no file. -/
def emptyFiles (start close : Except Exn Unit) : Env where
  files _ c :=
    match c with
    | .start => start
    | .release => .ok ()
    | .close _ => close
    | _ => .error (.os (some 2) false (pyText "No such file or directory"))
  wire _ := none
  display := blankDisplay

def initPacket : Bytes := [1, 0, 0, 0, 3]

def closePacket : Bytes := [4, 0, 0, 0, 7, 0, 0, 0, 0]

/-- A `STAT` without a path. -/
def pathlessPacket : Bytes := [17, 0, 0, 0, 8]

theorem validInit_initPacket : ValidInit initPacket where
  kind := rfl
  version := by decide
  pairs := ⟨[], by simp, rfl⟩

theorem behaves_emptyFiles : Behaves (emptyFiles (.ok ()) (.ok ())) where
  start := ⟨(), rfl⟩
  files := by
    have hmissing : Answerable (.os (some 2) false (pyText "No such file or directory")) :=
      ⟨_, _, rfl, encodable_literal (by decide)⟩
    intro calls c e hstart hrelease h
    cases c with
    | start => exact absurd rfl hstart
    | release => exact absurd rfl hrelease
    | close _ => cases h
    | _ => exact Except.error.inj h ▸ hmissing
  wire _ := rfl

/-- A stream of three packets, in chunks that do not care about them. -/
def pieces : Input where
  chunks := [[0, 0], 0 :: 5 :: initPacket ++ [0, 0, 0, 9], closePacket, [0, 0, 0, 5, 17, 0],
    [0, 0, 8]]
  ending := none

theorem streamPackets_pieces :
    streamPackets pieces.bytes = [initPacket, closePacket, pathlessPacket] := by
  have hinit : splitPacket pieces.bytes = some (initPacket,
      [0, 0, 0, 9] ++ closePacket ++ ([0, 0, 0, 5] ++ pathlessPacket)) := by decide +kernel
  have hclose : splitPacket ([0, 0, 0, 9] ++ closePacket ++ ([0, 0, 0, 5] ++ pathlessPacket)) =
      some (closePacket, [0, 0, 0, 5] ++ pathlessPacket) := by decide +kernel
  have hpathless : splitPacket ([0, 0, 0, 5] ++ pathlessPacket) = some (pathlessPacket, []) := by
    decide +kernel
  rw [streamPackets_of_some hinit, streamPackets_of_some hclose, streamPackets_of_some hpathless,
    streamPackets_of_none (by decide)]

/-- A session whose packets come in pieces. -/
theorem run_answers_pieces :
    ∃ data version, ∃ exchanges : List Exchange,
      Server.extensions = .ok data ∧ frame .version 3 data = .ok version ∧
      exchanges.map Exchange.packet = [closePacket, pathlessPacket] ∧
      (∀ x ∈ exchanges, x.Sound) ∧
      (run (emptyFiles (.ok ()) (.ok ())) pieces).2.sent =
        version :: exchanges.map Exchange.reply ∧
      (run (emptyFiles (.ok ()) (.ok ())) pieces).2.calls =
        .start :: (exchanges.filterMap Exchange.call ++ [.release]) :=
  (run_answers _ _).2.2.2 behaves_emptyFiles _ _ streamPackets_pieces validInit_initPacket

/-- A session that is not started answers nothing, a packet without a kind ends a session, and so
does an error with a text that no status can hold: only the version is sent. -/
theorem run_unanswered :
    ValidInit initPacket ∧
    (run (emptyFiles (.error (.value [])) (.ok ()))
      ⟨[[0, 0, 0, 5] ++ initPacket ++ [0, 0, 0, 9] ++ closePacket], none⟩).2.sent = [] ∧
    (run (emptyFiles (.ok ()) (.ok ()))
      ⟨[[0, 0, 0, 5] ++ initPacket ++ [0, 0, 0, 0] ++ [0, 0, 0, 9] ++ closePacket],
        none⟩).2.sent.length = 1 ∧
    (run (emptyFiles (.ok ()) (.error (.value [0xd800])))
      ⟨[[0, 0, 0, 5] ++ initPacket ++ [0, 0, 0, 9] ++ closePacket], none⟩).2.sent.length = 1 := by
  refine ⟨validInit_initPacket, ?_, ?_, ?_⟩
  · decide +kernel
  · decide +kernel
  · decide +kernel

end Run

end Sftp

end Rmote
