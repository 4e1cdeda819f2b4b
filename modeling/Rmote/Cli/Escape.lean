import Mathlib.Data.List.Basic

/-!
# Escape sequences in the local input

In raw mode every key goes to the remote session, and the user closes the session with the escape
byte and a dot at the start of a line. `EscapeFilter` reads the input byte by byte, in the chunks in
which it arrives, and two clients forward what it lets through. What they should forward is said of
the whole input: `beforeClosing` cuts it at the closing sequence and `unescape` replaces the escape
pairs.
-/

namespace Rmote

namespace Cli

/-- The bytes of `\r` and `\n`, which end a line. -/
def isLineEnd (byte : UInt8) : Bool := byte = 13 || byte = 10

/-- The byte of the dot. -/
def dot : UInt8 := 46

/-! ## The filter -/

/-- The state of the filter; without an escape byte it lets everything through. -/
structure EscapeFilter where
  escape : Option UInt8
  atLineStart : Bool
  pending : Bool

namespace EscapeFilter

/-- `EscapeFilter.__init__`. -/
def new (escape : Option UInt8) : EscapeFilter := ⟨escape, true, false⟩

/-- The loop of `feed`, with the bytes to forward so far. -/
def feedLoop (escape : UInt8) (f : EscapeFilter) (out : List UInt8) :
    List UInt8 → EscapeFilter × List UInt8 × Bool
  | [] => (f, out, false)
  | char :: rest =>
      if f.pending then
        if char = dot then
          ({ f with pending := false }, out, true)
        else
          let out := if char = escape then out ++ [escape] else out ++ [escape, char]
          feedLoop escape { f with pending := false, atLineStart := isLineEnd char } out rest
      else if char = escape ∧ f.atLineStart then
        feedLoop escape { f with pending := true } out rest
      else
        feedLoop escape { f with atLineStart := isLineEnd char } (out ++ [char]) rest

/-- The filter afterwards, the bytes to forward and a request to close. -/
def feed (f : EscapeFilter) (data : List UInt8) : EscapeFilter × List UInt8 × Bool :=
  match f.escape with
  | none => (f, data, false)
  | some escape => feedLoop escape f [] data

end EscapeFilter

/-! ## The clients -/

/-- What a client did: the arguments of `Vty.write`, whether the user closed the session, and whether
the client reported the end of the input. -/
structure Session where
  writes : List (List UInt8)
  closed : Bool
  endInput : Bool

/-- Read chunk by chunk. A read of nothing is the end of the input, and `atEnd` are the bytes that are
written then. -/
def pump (atEnd : EscapeFilter → List (List UInt8)) (f : EscapeFilter) :
    List (List UInt8) → Session
  | [] => ⟨atEnd f, false, true⟩
  | [] :: _ => ⟨atEnd f, false, true⟩
  | data :: rest =>
      let (f, forward, closing) := f.feed data
      let writes := if forward.isEmpty then [] else [forward]
      if closing then
        ⟨writes, true, false⟩
      else
        let session := pump atEnd f rest
        { session with writes := writes ++ session.writes }

/-- `ShellSession.pump_input`. -/
def ShellSession.pumpInput (escape : Option UInt8) (reads : List (List UInt8)) : Session :=
  pump (fun _ => []) (.new escape) reads

/-- The session options of an ssh client that decide about the escape byte. `read` refuses any other
number for it. -/
structure SessionRequest where
  tty : Bool
  escape : ℕ
  inRange : escape = 0xFFFFFFFF ∨ escape ≤ 255

/-- `bytes((request.escape,)) if request.tty and request.escape != 0xFFFFFFFF else b""`. -/
def SessionRequest.escapeByte (request : SessionRequest) : Option UInt8 :=
  if request.tty && request.escape != 0xFFFFFFFF then some (UInt8.ofNat request.escape) else none

/-- `MuxClient.input`. -/
def MuxClient.input (request : SessionRequest) (reads : List (List UInt8)) : Session :=
  pump (fun f => if f.pending then [request.escapeByte.toList] else []) (.new request.escapeByte) reads

/-! ## The whole input -/

section Specification

variable (escape : Option UInt8)

/-- The input with each escape pair at the start of a line replaced by one escape byte. The flag says
whether the input is at the start of a line. -/
def unescape : Bool → List UInt8 → List UInt8
  | _, [] => []
  | _, [a] => [a]
  | lineStart, a :: b :: rest =>
      if lineStart ∧ some a = escape ∧ b = a then a :: unescape (isLineEnd a) rest
      else a :: unescape (isLineEnd a) (b :: rest)

/-- The input before the first closing sequence at the start of a line, if there is one. -/
def beforeClosing : Bool → List UInt8 → Option (List UInt8)
  | _, [] => none
  | _, [_] => none
  | lineStart, a :: b :: rest =>
      if lineStart ∧ some a = escape ∧ b = dot then some []
      else if lineStart ∧ some a = escape ∧ b = a then
        (beforeClosing (isLineEnd a) rest).map fun before => a :: b :: before
      else (beforeClosing (isLineEnd a) (b :: rest)).map (a :: ·)

/-- The input has no closing sequence and ends with an escape byte at the start of a line that is not
the second one of a pair. -/
def endsInEscape : Bool → List UInt8 → Bool
  | _, [] => false
  | lineStart, [a] => lineStart && some a = escape
  | lineStart, a :: b :: rest =>
      if lineStart ∧ some a = escape ∧ b = dot then false
      else if lineStart ∧ some a = escape ∧ b = a then endsInEscape (isLineEnd a) rest
      else endsInEscape (isLineEnd a) (b :: rest)

/-- What should be forwarded of an input. -/
def forwarded (lineStart : Bool) (input : List UInt8) : List UInt8 :=
  match beforeClosing escape lineStart input with
  | some before => unescape escape lineStart before
  | none => unescape escape lineStart input

/-- The session did what it should with the input. -/
structure Session.Meets (session : Session) (input : List UInt8) : Prop where
  closed : session.closed = (beforeClosing escape true input).isSome
  writes : session.writes.flatten = forwarded escape true input

end Specification

/-! ## The filter and the whole input -/

section Reading

variable {escape : Option UInt8} {lineStart : Bool} {a b : UInt8} {rest input : List UInt8}

/-- What there is to say of an input: what should be forwarded, whether it closes the session, and
whether it ends in an escape byte. -/
def reading (escape : Option UInt8) (lineStart : Bool) (input : List UInt8) :
    List UInt8 × Bool × Bool :=
  (forwarded escape lineStart input, (beforeClosing escape lineStart input).isSome,
    endsInEscape escape lineStart input)

/-- Put bytes before the ones that should be forwarded. -/
def prepend (new : List UInt8) (r : List UInt8 × Bool × Bool) : List UInt8 × Bool × Bool :=
  (new ++ r.1, r.2)

theorem prepend_prepend (new new' : List UInt8) (r : List UInt8 × Bool × Bool) :
    prepend new (prepend new' r) = prepend (new ++ new') r := by
  unfold prepend
  rw [List.append_assoc]

theorem unescape_cons_cons : unescape escape lineStart (a :: b :: rest) =
    if lineStart ∧ some a = escape ∧ b = a then a :: unescape escape (isLineEnd a) rest
    else a :: unescape escape (isLineEnd a) (b :: rest) := rfl

theorem beforeClosing_cons_cons : beforeClosing escape lineStart (a :: b :: rest) =
    if lineStart ∧ some a = escape ∧ b = dot then some []
    else if lineStart ∧ some a = escape ∧ b = a then
      (beforeClosing escape (isLineEnd a) rest).map fun before => a :: b :: before
    else (beforeClosing escape (isLineEnd a) (b :: rest)).map (a :: ·) := rfl

theorem endsInEscape_cons_cons : endsInEscape escape lineStart (a :: b :: rest) =
    if lineStart ∧ some a = escape ∧ b = dot then false
    else if lineStart ∧ some a = escape ∧ b = a then endsInEscape escape (isLineEnd a) rest
    else endsInEscape escape (isLineEnd a) (b :: rest) := rfl

theorem unescape_cons (h : ¬ (lineStart = true ∧ some a = escape)) :
    unescape escape lineStart (a :: rest) = a :: unescape escape (isLineEnd a) rest := by
  cases rest with
  | nil => rfl
  | cons b rest => rw [unescape_cons_cons, if_neg fun hpair => h ⟨hpair.1, hpair.2.1⟩]

theorem beforeClosing_cons (h : ¬ (lineStart = true ∧ some a = escape)) :
    beforeClosing escape lineStart (a :: rest) =
      (beforeClosing escape (isLineEnd a) rest).map (a :: ·) := by
  cases rest with
  | nil => rfl
  | cons b rest =>
      rw [beforeClosing_cons_cons, if_neg fun hclosing => h ⟨hclosing.1, hclosing.2.1⟩,
        if_neg fun hpair => h ⟨hpair.1, hpair.2.1⟩]

theorem endsInEscape_cons (h : ¬ (lineStart = true ∧ some a = escape)) :
    endsInEscape escape lineStart (a :: rest) = endsInEscape escape (isLineEnd a) rest := by
  cases rest with
  | nil =>
      change (lineStart && decide (some a = escape)) = false
      rw [← Bool.not_eq_true, Bool.and_eq_true, decide_eq_true_eq]
      exact h
  | cons b rest =>
      rw [endsInEscape_cons_cons, if_neg fun hclosing => h ⟨hclosing.1, hclosing.2.1⟩,
        if_neg fun hpair => h ⟨hpair.1, hpair.2.1⟩]

/-- A byte that is no escape byte at the start of a line is forwarded. -/
theorem reading_cons (h : ¬ (lineStart = true ∧ some a = escape)) :
    reading escape lineStart (a :: rest) = prepend [a] (reading escape (isLineEnd a) rest) := by
  unfold reading prepend forwarded
  rw [beforeClosing_cons h, endsInEscape_cons h, unescape_cons h, Option.isSome_map]
  cases beforeClosing escape (isLineEnd a) rest with
  | none => rfl
  | some before =>
      dsimp only [Option.map_some]
      rw [unescape_cons h]
      rfl

/-- Without an escape byte everything is forwarded. -/
theorem reading_none : reading none lineStart input = (input, false, false) := by
  induction input generalizing lineStart with
  | nil => rfl
  | cons a rest ih =>
      rw [reading_cons fun h => Option.some_ne_none a h.2, ih]
      rfl

theorem reading_closing : reading (some a) true (a :: dot :: rest) = ([], true, false) := by
  unfold reading forwarded
  rw [beforeClosing_cons_cons, endsInEscape_cons_cons, if_pos ⟨rfl, rfl, rfl⟩,
    if_pos ⟨rfl, rfl, rfl⟩]
  rfl

/-- A pair is forwarded as one byte. -/
theorem reading_pair (ha : a ≠ dot) :
    reading (some a) true (a :: a :: rest) = prepend [a] (reading (some a) (isLineEnd a) rest) := by
  have hclosing : ¬ (true = true ∧ some a = some a ∧ a = dot) := fun h => ha h.2.2
  unfold reading prepend forwarded
  rw [beforeClosing_cons_cons, endsInEscape_cons_cons, if_neg hclosing, if_neg hclosing,
    if_pos ⟨rfl, rfl, rfl⟩, if_pos ⟨rfl, rfl, rfl⟩, Option.isSome_map]
  cases beforeClosing (some a) (isLineEnd a) rest with
  | none =>
      dsimp only [Option.map_none]
      rw [unescape_cons_cons, if_pos ⟨rfl, rfl, rfl⟩]
      rfl
  | some before =>
      dsimp only [Option.map_some]
      rw [unescape_cons_cons, if_pos ⟨rfl, rfl, rfl⟩]
      rfl

/-- With any other byte after it an escape byte is forwarded, and so is that byte. -/
theorem reading_other (hdot : b ≠ dot) (hne : b ≠ a) :
    reading (some a) true (a :: b :: rest) =
      prepend [a, b] (reading (some a) (isLineEnd b) rest) := by
  have hclosing : ¬ (true = true ∧ some a = some a ∧ b = dot) := fun h => hdot h.2.2
  have hpair : ¬ (true = true ∧ some a = some a ∧ b = a) := fun h => hne h.2.2
  have hb : ¬ (isLineEnd a = true ∧ some b = some a) := fun h => hne (Option.some.inj h.2)
  have hfirst : reading (some a) true (a :: b :: rest) =
      prepend [a] (reading (some a) (isLineEnd a) (b :: rest)) := by
    unfold reading prepend forwarded
    rw [beforeClosing_cons_cons, endsInEscape_cons_cons, if_neg hclosing, if_neg hclosing,
      if_neg hpair, if_neg hpair, Option.isSome_map, beforeClosing_cons hb]
    cases beforeClosing (some a) (isLineEnd b) rest with
    | none =>
        dsimp only [Option.map_none]
        rw [unescape_cons_cons, if_neg hpair]
        rfl
    | some before =>
        dsimp only [Option.map_some]
        rw [unescape_cons_cons, if_neg hpair]
        rfl
  rw [hfirst, reading_cons hb, prepend_prepend]
  rfl

namespace EscapeFilter

variable {f : EscapeFilter} {e : UInt8} {data more out : List UInt8}

/-- The bytes that the filter holds back. -/
def carried (f : EscapeFilter) : List UInt8 := if f.pending then f.escape.toList else []

/-- What the filter holds back and has not seen yet is at the start of a line. -/
def startsLine (f : EscapeFilter) : Bool := f.pending || f.atLineStart

/-- What the loop makes of some bytes, with more bytes after them. -/
structure Feeds (e : UInt8) (f : EscapeFilter) (out data more : List UInt8)
    (result : EscapeFilter × List UInt8 × Bool) (new : List UInt8) : Prop where
  escape : result.1.escape = some e
  forward : result.2.1 = out ++ new
  closing : result.2.2 = true →
    reading (some e) f.startsLine (f.carried ++ (data ++ more)) = (new, true, false)
  open_ : result.2.2 = false →
    reading (some e) f.startsLine (f.carried ++ (data ++ more)) =
      prepend new (reading (some e) result.1.startsLine (result.1.carried ++ more))

/-- The next filter goes on where some bytes ended. -/
theorem Feeds.cons {g : EscapeFilter} {result : EscapeFilter × List UInt8 × Bool}
    {new new' : List UInt8} (h : Feeds e g (out ++ new) data more result new')
    (hread : reading (some e) f.startsLine (f.carried ++ (a :: data ++ more)) =
      prepend new (reading (some e) g.startsLine (g.carried ++ (data ++ more)))) :
    Feeds e f out (a :: data) more result (new ++ new') where
  escape := h.escape
  forward := by rw [h.forward, List.append_assoc]
  closing hclosing := by
    rw [hread, h.closing hclosing]
    rfl
  open_ hopen := by rw [hread, h.open_ hopen, prepend_prepend]

theorem feedLoop_spec (hf : f.escape = some e) (out data more : List UInt8) :
    ∃ new, Feeds e f out data more (feedLoop e f out data) new := by
  induction data generalizing f out with
  | nil =>
      refine ⟨[], hf, ?_, ?_, ?_⟩
      · rw [feedLoop, List.append_nil]
      · exact fun h => nomatch h
      · exact fun _ => rfl
  | cons char rest ih =>
      rw [feedLoop]
      by_cases hpending : f.pending = true
      · have hcarried : f.carried = [e] := by rw [carried, if_pos hpending, hf, Option.toList_some]
        have hstart : f.startsLine = true := by rw [startsLine, hpending, Bool.true_or]
        rw [if_pos hpending]
        by_cases hdot : char = dot
        · -- the closing sequence
          rw [if_pos hdot]
          refine ⟨[], hf, (List.append_nil out).symm, ?_, fun h => nomatch h⟩
          intro _
          rw [hcarried, hstart, hdot]
          exact reading_closing
        · rw [if_neg hdot]
          obtain ⟨new, hnew⟩ := @ih { f with pending := false, atLineStart := isLineEnd char } hf
            (out ++ if char = e then [e] else [e, char])
          refine ⟨(if char = e then [e] else [e, char]) ++ new, ?_⟩
          rw [← apply_ite (out ++ ·)]
          refine hnew.cons ?_
          rw [hcarried, hstart]
          by_cases hchar : char = e
          · -- an escape pair
            rw [if_pos hchar, hchar]
            exact reading_pair (hchar ▸ hdot)
          · rw [if_neg hchar]
            exact reading_other hdot hchar
      · have hcarried : f.carried = [] := by rw [carried, if_neg hpending]
        have hstart : f.startsLine = f.atLineStart := by
          rw [startsLine, Bool.eq_false_iff.mpr hpending, Bool.false_or]
        rw [if_neg hpending]
        by_cases hescape : char = e ∧ f.atLineStart = true
        · -- an escape byte at the start of a line is held back
          rw [if_pos hescape]
          obtain ⟨new, hnew⟩ := @ih { f with pending := true } hf out
          rw [← List.append_nil out] at hnew
          refine ⟨[] ++ new, List.append_nil out ▸ hnew.cons ?_⟩
          have hheld : ({ f with pending := true } : EscapeFilter).carried = [e] := by
            change f.escape.toList = [e]
            rw [hf, Option.toList_some]
          rw [hcarried, hstart, hheld, hescape.1, hescape.2]
          rfl
        · rw [if_neg hescape]
          obtain ⟨new, hnew⟩ := @ih { f with atLineStart := isLineEnd char } hf (out ++ [char])
          refine ⟨[char] ++ new, hnew.cons ?_⟩
          have hempty : ({ f with atLineStart := isLineEnd char } : EscapeFilter).carried = [] := by
            change (if f.pending then f.escape.toList else []) = []
            rw [if_neg hpending]
          have hline : ({ f with atLineStart := isLineEnd char } : EscapeFilter).startsLine =
              isLineEnd char := by
            change (f.pending || isLineEnd char) = isLineEnd char
            rw [Bool.eq_false_iff.mpr hpending, Bool.false_or]
          rw [hcarried, hstart, hempty, hline]
          apply reading_cons
          exact fun h => hescape ⟨Option.some.inj h.2, h.1⟩

/-- Without an escape byte nothing is held back. -/
def Valid (f : EscapeFilter) : Prop := f.escape = none → f.pending = false

theorem Valid.carried_none (h : f.Valid) (hescape : f.escape = none) : f.carried = [] := by
  rw [carried, h hescape, if_neg Bool.false_ne_true]

/-- What a chunk does, with the rest of the input after it. -/
theorem feed_spec (hf : f.Valid) (data more : List UInt8) :
    (f.feed data).1.Valid ∧ (f.feed data).1.escape = f.escape ∧
      ((f.feed data).2.2 = true →
        reading f.escape f.startsLine (f.carried ++ (data ++ more)) =
          ((f.feed data).2.1, true, false)) ∧
      ((f.feed data).2.2 = false →
        reading f.escape f.startsLine (f.carried ++ (data ++ more)) =
          prepend (f.feed data).2.1
            (reading f.escape (f.feed data).1.startsLine ((f.feed data).1.carried ++ more))) := by
  unfold feed
  cases hescape : f.escape with
  | none =>
      refine ⟨hf, hescape, ?_, ?_⟩
      · exact fun h => absurd h Bool.false_ne_true
      · intro _
        rw [reading_none, reading_none]
        dsimp only
        rw [hf.carried_none hescape]
        rfl
  | some e =>
      obtain ⟨new, hnew⟩ := feedLoop_spec hescape [] data more
      have hforward : (feedLoop e f [] data).2.1 = new := hnew.forward
      dsimp only
      rw [hforward]
      refine ⟨?_, hnew.escape, hnew.closing, hnew.open_⟩
      intro h
      rw [hnew.escape] at h
      cases h

end EscapeFilter

open EscapeFilter

variable {f : EscapeFilter} {atEnd : EscapeFilter → List (List UInt8)} {reads : List (List UInt8)}

theorem pump_cons {data : List UInt8} (hdata : data ≠ []) :
    pump atEnd f (data :: reads) =
      if (f.feed data).2.2 then
        ⟨if (f.feed data).2.1.isEmpty then [] else [(f.feed data).2.1], true, false⟩
      else
        { pump atEnd (f.feed data).1 reads with
          writes := (if (f.feed data).2.1.isEmpty then [] else [(f.feed data).2.1]) ++
            (pump atEnd (f.feed data).1 reads).writes } := by
  cases data with
  | nil => exact absurd rfl hdata
  | cons a data => rfl

theorem flatten_writes (forward : List UInt8) :
    (if forward.isEmpty then [] else [forward]).flatten = forward := by
  cases forward with
  | nil => rfl
  | cons a forward => exact List.flatten_singleton

/-- What was written of a whole input, and the filter that was left at its end. -/
theorem pump_spec (atEnd : EscapeFilter → List (List UInt8)) (hf : f.Valid) (hreads : ∀ data ∈ reads, data ≠ []) :
    ∃ new g, g.Valid ∧ g.escape = f.escape ∧
      (pump atEnd f reads).writes.flatten =
        new ++ (if (pump atEnd f reads).closed then [] else (atEnd g).flatten) ∧
      reading f.escape f.startsLine (f.carried ++ reads.flatten) =
        (new ++ (if (pump atEnd f reads).closed then [] else g.carried),
          (pump atEnd f reads).closed, !(pump atEnd f reads).closed && g.pending) := by
  induction reads generalizing f with
  | nil =>
      refine ⟨[], f, hf, rfl, rfl, ?_⟩
      rw [List.flatten_nil, List.append_nil]
      change _ = (f.carried, false, f.pending)
      unfold carried startsLine
      cases hpending : f.pending with
      | false => rfl
      | true =>
          cases hescape : f.escape with
          | none => cases (hf hescape).symm.trans hpending
          | some e =>
              change (_, _, decide (some e = some e)) = _
              rw [decide_eq_true rfl]
              rfl
  | cons data rest ih =>
      obtain ⟨hvalid, hescape, hclosing, hopen⟩ := feed_spec hf data rest.flatten
      rw [pump_cons (hreads data List.mem_cons_self), List.flatten_cons]
      cases hclose : (f.feed data).2.2 with
      | true =>
          refine ⟨(f.feed data).2.1, f, hf, rfl, ?_, ?_⟩
          · rw [if_pos rfl, flatten_writes]
            exact (List.append_nil _).symm
          · rw [if_pos rfl, hclosing hclose]
            exact congrArg (fun l => (l, true, false)) (List.append_nil _).symm
      | false =>
          obtain ⟨new, g, hg, hgescape, hwrites, hread⟩ :=
            ih hvalid fun d hd => hreads d (List.mem_cons_of_mem data hd)
          rw [if_neg Bool.false_ne_true]
          refine ⟨(f.feed data).2.1 ++ new, g, hg, hgescape.trans hescape, ?_, ?_⟩
          · rw [List.flatten_append, flatten_writes, hwrites, List.append_assoc]
          · rw [hescape] at hread
            rw [hopen hclose, hread, prepend, List.append_assoc]

theorem new_valid (escape : Option UInt8) : (EscapeFilter.new escape).Valid := fun _ => rfl

/-- `ShellSession` writes all but an escape byte at the end of the input. -/
theorem pumpInput_spec (escape : Option UInt8) (hreads : ∀ data ∈ reads, data ≠ []) :
    (ShellSession.pumpInput escape reads).closed =
        (beforeClosing escape true reads.flatten).isSome ∧
      (ShellSession.pumpInput escape reads).writes.flatten ++
          (if endsInEscape escape true reads.flatten then escape.toList else []) =
        forwarded escape true reads.flatten := by
  obtain ⟨new, g, -, hescape, hwrites, hread⟩ :=
    pump_spec (fun _ => []) (new_valid escape) hreads
  change reading escape true reads.flatten = _ at hread
  have hforwarded := congrArg Prod.fst hread
  have hclosed := congrArg (fun r => r.2.1) hread
  have hends := congrArg (fun r => r.2.2) hread
  dsimp only [reading] at hforwarded hclosed hends
  refine ⟨hclosed.symm, ?_⟩
  unfold ShellSession.pumpInput
  rw [hwrites, hforwarded, hends]
  cases (pump (fun _ => []) (EscapeFilter.new escape) reads).closed with
  | true => rw [if_pos rfl, if_pos rfl, Bool.not_true, Bool.false_and, if_neg Bool.false_ne_true,
      List.append_nil]
  | false =>
      rw [if_neg Bool.false_ne_true, if_neg Bool.false_ne_true, Bool.not_false, Bool.true_and,
        carried, hescape]
      rw [List.flatten_nil, List.append_nil]
      rfl

theorem input_meets (request : SessionRequest) (hreads : ∀ data ∈ reads, data ≠ []) :
    (MuxClient.input request reads).Meets request.escapeByte reads.flatten := by
  obtain ⟨new, g, -, hescape, hwrites, hread⟩ := pump_spec
    (fun f => if f.pending then [request.escapeByte.toList] else [])
    (new_valid request.escapeByte) hreads
  change reading request.escapeByte true reads.flatten = _ at hread
  have hforwarded := congrArg Prod.fst hread
  have hclosed := congrArg (fun r => r.2.1) hread
  dsimp only [reading] at hforwarded hclosed
  have hheld : (if g.pending then [request.escapeByte.toList] else []).flatten = g.carried := by
    unfold carried
    rw [hescape]
    cases g.pending with
    | true => exact List.flatten_singleton
    | false => rfl
  rw [hheld] at hwrites
  exact ⟨hclosed.symm, hwrites.trans hforwarded.symm⟩

/-- The mux client does with every input what it should. The shell does exactly unless the input ends
in an escape byte at the start of a line. For both, the chunks do not matter. -/
theorem clients_forward_iff (escape : Option UInt8) (request : SessionRequest)
    (hreads : ∀ data ∈ reads, data ≠ []) :
    (MuxClient.input request reads).Meets request.escapeByte reads.flatten ∧
    ((ShellSession.pumpInput escape reads).Meets escape reads.flatten ↔
      endsInEscape escape true reads.flatten = false) ∧
    ∀ reads', (∀ data ∈ reads', data ≠ []) → reads'.flatten = reads.flatten →
      ((MuxClient.input request reads').closed = (MuxClient.input request reads).closed ∧
        (MuxClient.input request reads').writes.flatten =
          (MuxClient.input request reads).writes.flatten) ∧
      (ShellSession.pumpInput escape reads').closed = (ShellSession.pumpInput escape reads).closed ∧
        (ShellSession.pumpInput escape reads').writes.flatten =
          (ShellSession.pumpInput escape reads).writes.flatten := by
  have hmux := input_meets request hreads
  obtain ⟨hclosed, hwrites⟩ := pumpInput_spec escape hreads
  refine ⟨hmux, ?_, ?_⟩
  · constructor
    · intro hmeets
      rw [← hmeets.writes] at hwrites
      rw [← Bool.not_eq_true]
      intro hends
      rw [if_pos hends] at hwrites
      cases escape with
      | none =>
          have hnone := congrArg (fun r => r.2.2) (@reading_none true reads.flatten)
          dsimp only [reading] at hnone
          rw [hnone] at hends
          cases hends
      | some e =>
          have hlength := congrArg List.length hwrites
          rw [List.length_append, Option.toList_some, List.length_singleton] at hlength
          omega
    · intro hends
      rw [hends, if_neg Bool.false_ne_true, List.append_nil] at hwrites
      exact ⟨hclosed, hwrites⟩
  · intro reads' hreads' hsame
    have hmux' := input_meets request hreads'
    obtain ⟨hclosed', hwrites'⟩ := pumpInput_spec escape hreads'
    rw [hsame] at hmux' hclosed' hwrites'
    exact ⟨⟨hmux'.closed.trans hmux.closed.symm, hmux'.writes.trans hmux.writes.symm⟩,
      hclosed'.trans hclosed.symm, List.append_cancel_right (hwrites'.trans hwrites.symm)⟩

/-- The options of a terminal with the tilde for its escape byte. -/
def tildeRequest : SessionRequest := ⟨true, 126, .inr (by decide)⟩

/-- A pair and a line end in two chunks. -/
theorem tilde_pair_forwarded :
    (MuxClient.input tildeRequest [[126], [126, 10]]).Meets tildeRequest.escapeByte [126, 126, 10] ∧
      (ShellSession.pumpInput (some 126) [[126], [126, 10]]).Meets (some 126) [126, 126, 10] := by
  have hreads : ∀ data ∈ ([[126], [126, 10]] : List (List UInt8)), data ≠ [] := by decide
  have hclients := clients_forward_iff (some 126) tildeRequest hreads
  exact ⟨hclients.1, hclients.2.1.mpr (by decide)⟩

/-- A lone tilde at the end of the input: the mux client forwards it, and the shell drops it. -/
theorem lone_tilde_dropped :
    (MuxClient.input tildeRequest [[126]]).writes = [[126]] ∧
      (ShellSession.pumpInput (some 126) [[126]]).writes = [] ∧
      ¬ (ShellSession.pumpInput (some 126) [[126]]).Meets (some 126) [126] := by
  refine ⟨rfl, rfl, ?_⟩
  intro hmeets
  cases hmeets.writes

end Reading

end Cli

end Rmote
