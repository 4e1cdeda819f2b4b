import Rmote.Wire.Transfer

/-!
# The ready boundary

Either side writes `BOUNDARY` before its first frame. The reader takes lines until it finds
the boundary: a login shell, an interpreter or the remote side itself may speak before it.
The bytes arrive in pieces of any size, and a line over the limit of the stream reader is
dropped in parts that depend on these pieces.
-/

namespace Rmote

/-- `BOUNDARY`, the line `PROTOCOL READY`. -/
def boundary : Bytes := [80, 82, 79, 84, 79, 67, 79, 76, 32, 82, 69, 65, 68, 89, 10]

def newline : UInt8 := 10

def maxStartFailureLines : ℕ := 10

def maxStartFailureText : ℕ := 2000

/-- `asyncio.StreamReader`: what it holds, and the pieces that still come before the end. -/
structure StreamReader where
  limit : ℕ
  buffer : Bytes
  coming : List Bytes

/-- The first line of the buffer with its newline, and what follows it. -/
def cutLine : Bytes → Option (Bytes × Bytes)
  | [] => none
  | b :: rest =>
      if b = newline then
        some ([b], rest)
      else
        (cutLine rest).map fun cut => (b :: cut.1, cut.2)

namespace StreamReader

/-- Everything that is not consumed yet. -/
def rest (r : StreamReader) : Bytes := r.buffer ++ r.coming.flatten

/-- One look of `readuntil` at the buffer: `none` waits for data. A line over the limit is
dropped, with its newline or as far as it is there. -/
def look (limit : ℕ) (buffer : Bytes) : Option (Option Bytes × Bytes) :=
  match cutLine buffer with
  | some (line, rest) =>
      if limit < line.length - 1 then some (none, rest) else some (some line, rest)
  | none => if limit < buffer.length then some (none, []) else none

/-- `readline`; the end of the stream gives what is left. A line over the limit gives `none`,
where the source has a `ValueError`. -/
def readline (limit : ℕ) (buffer : Bytes) : List Bytes → Option Bytes × StreamReader
  | [] =>
      match look limit buffer with
      | some (out, rest) => (out, ⟨limit, rest, []⟩)
      | none => (some buffer, ⟨limit, [], []⟩)
  | data :: coming =>
      match look limit buffer with
      | some (out, rest) => (out, ⟨limit, rest, data :: coming⟩)
      | none => readline limit (buffer ++ data) coming

/-- What a deque with `maxlen` keeps. -/
def lastLines (said : List String) : List String := said.drop (said.length - maxStartFailureLines)

/-- `said.append`, for a line that says something. -/
def note (said : List String) (spoken : String) : List String :=
  if spoken = "" then said else lastLines (said ++ [spoken])

/-- The loop of `read_boundary`. `decode` is `line.decode("utf-8", "replace").strip()`, and an
error carries the lines for `start_failure`. -/
def scan (decode : Bytes → String) : ℕ → StreamReader → List String →
    Except (List String) StreamReader
  | 0, _, said => .error said
  | fuel + 1, r, said =>
      match readline r.limit r.buffer r.coming with
      | (none, r) => scan decode fuel r said
      | (some line, r) =>
          if line = boundary then .ok r
          else if line = [] then .error said
          else scan decode fuel r (note said (decode line))

/-- Each turn of the loop consumes a byte, so this fuel is enough. -/
def readBoundary (decode : Bytes → String) (r : StreamReader) :
    Except (List String) StreamReader :=
  scan decode (r.rest.length + 1) r []

end StreamReader

/-- `separator.join(parts)` -/
def joinText (separator : String) (parts : List String) : String :=
  String.ofList (separator.toList.intercalate (parts.map String.toList))

/-- `text[-MAX_START_FAILURE_TEXT:]` -/
def tailText (text : String) : String :=
  String.ofList (text.toList.drop (text.toList.length - maxStartFailureText))

/-- One stream of `start_failure`, if it has evidence. -/
def evidence (label : String) (lines : List String) : List String :=
  let text := joinText " | " lines
  if text = "" then [] else [label ++ ": " ++ tailText text]

/-- `start_failure` -/
def startFailure (said transport : List String) : String :=
  joinText ". " ("Remote process closed the connection before PROTOCOL READY" ::
    (evidence "It said" said ++ evidence "Its transport said" transport))

/-! ## One line -/

theorem cutLine_eq_some {buffer line rest : Bytes} :
    cutLine buffer = some (line, rest) ↔
      ∃ body, newline ∉ body ∧ line = body ++ [newline] ∧ buffer = line ++ rest := by
  induction buffer generalizing line with
  | nil =>
      simp only [cutLine, reduceCtorEq, false_iff]
      rintro ⟨body, -, rfl, heq⟩
      simp at heq
  | cons b buffer ih =>
      rw [cutLine]
      split_ifs with hb
      · subst hb
        constructor
        · rintro ⟨⟩
          exact ⟨[], by simp⟩
        · rintro ⟨_ | ⟨c, body⟩, hbody, rfl, heq⟩
          · cases heq
            rfl
          · exact absurd (by simp [(List.cons.inj heq).1]) hbody
      · rw [Option.map_eq_some_iff]
        constructor
        · rintro ⟨⟨line', rest'⟩, hcut, ⟨⟩⟩
          obtain ⟨body, hbody, rfl, rfl⟩ := ih.mp hcut
          exact ⟨b :: body, by simp [hbody, Ne.symm hb], rfl, rfl⟩
        · rintro ⟨_ | ⟨c, body⟩, hbody, rfl, heq⟩
          · exact absurd (List.cons.inj heq).1 hb
          · obtain ⟨rfl, htail⟩ := List.cons.inj heq
            refine ⟨(body ++ [newline], rest), ih.mpr ⟨body, ?_, rfl, htail⟩, rfl⟩
            exact fun hmem => hbody (List.mem_cons_of_mem b hmem)

theorem cutLine_eq_none {buffer : Bytes} : cutLine buffer = none ↔ newline ∉ buffer := by
  induction buffer with
  | nil => simp [cutLine]
  | cons b buffer ih =>
      rw [cutLine]
      split_ifs with hb
      · simp [hb]
      · rw [Option.map_eq_none_iff, ih, List.mem_cons, not_or]
        exact ⟨fun h => ⟨Ne.symm hb, h⟩, And.right⟩

namespace StreamReader

variable {decode : Bytes → String} {limit : ℕ} {buffer : Bytes} {coming : List Bytes}
  {r r' : StreamReader}

/-- What one call of `readline` gives on a stream. -/
inductive Reads (limit : ℕ) : Bytes → Option Bytes → Bytes → Prop
  | line {body rest : Bytes} (hbody : newline ∉ body) (hshort : body.length ≤ limit) :
      Reads limit (body ++ newline :: rest) (some (body ++ [newline])) rest
  | last {body : Bytes} (hbody : newline ∉ body) (hshort : body.length ≤ limit) :
      Reads limit body (some body) []
  /-- A line over the limit. -/
  | long {body rest : Bytes} (hbody : newline ∉ body) (hlong : limit < body.length) :
      Reads limit (body ++ newline :: rest) none rest
  /-- The part of a line that arrived, over the limit. -/
  | part {body rest : Bytes} (hbody : newline ∉ body) (hlong : limit < body.length) :
      Reads limit (body ++ rest) none rest

theorem look_spec {out : Option Bytes} {rest : Bytes} (h : look limit buffer = some (out, rest))
    (after : Bytes) : Reads limit (buffer ++ after) out (rest ++ after) := by
  rw [look] at h
  rcases hcut : cutLine buffer with _ | ⟨line, rest'⟩
  · rw [hcut] at h
    dsimp only at h
    split_ifs at h with hlong
    cases h
    exact .part (cutLine_eq_none.mp hcut) hlong
  · rw [hcut] at h
    obtain ⟨body, hbody, rfl, rfl⟩ := cutLine_eq_some.mp hcut
    rw [show body ++ [newline] ++ rest' ++ after = body ++ newline :: (rest' ++ after) by simp]
    dsimp only at h
    rw [List.length_append, List.length_singleton, Nat.add_sub_cancel] at h
    split_ifs at h with hlong
    · cases h
      exact .long hbody hlong
    · cases h
      exact .line hbody (not_lt.mp hlong)

theorem look_eq_none : look limit buffer = none ↔ newline ∉ buffer ∧ buffer.length ≤ limit := by
  rw [look]
  rcases hcut : cutLine buffer with _ | ⟨line, rest⟩
  · have hnone := cutLine_eq_none.mp hcut
    dsimp only
    split_ifs with hlong
    · simp [hlong]
    · simp [hnone, not_lt.mp hlong]
  · have hsome : newline ∈ buffer := by
      by_contra hnone
      rw [cutLine_eq_none.mpr hnone] at hcut
      cases hcut
    dsimp only
    split_ifs <;> simp [hsome]

/-- Whatever the pieces are, a line is taken off the stream. -/
theorem readline_spec (limit : ℕ) (coming : List Bytes) (buffer : Bytes) :
    Reads limit (buffer ++ coming.flatten) (readline limit buffer coming).1
        (readline limit buffer coming).2.rest ∧
      (readline limit buffer coming).2.limit = limit := by
  induction coming generalizing buffer with
  | nil =>
      rw [readline]
      rcases hlook : look limit buffer with _ | ⟨out, rest⟩
      · obtain ⟨hbody, hshort⟩ := look_eq_none.mp hlook
        simpa [StreamReader.rest] using Reads.last hbody hshort
      · simpa [StreamReader.rest] using look_spec hlook []
  | cons data coming ih =>
      rw [readline]
      rcases hlook : look limit buffer with _ | ⟨out, rest⟩
      · simpa [List.append_assoc] using ih (buffer ++ data)
      · exact ⟨look_spec hlook _, rfl⟩

theorem Reads.length_lt {stream rest : Bytes} {out : Option Bytes}
    (h : Reads limit stream out rest) (hne : out ≠ some []) : rest.length < stream.length := by
  cases h with
  | line hbody hshort => simp; omega
  | last hbody hshort =>
      rw [List.length_nil]
      exact List.length_pos_iff.mpr fun hnil => hne (by rw [hnil])
  | long hbody hlong => simp; omega
  | part hbody hlong => simp; omega

/-! ## Noise before the boundary -/

/-- Complete lines only. -/
def Whole (noise : Bytes) : Prop := ∀ b, noise.getLast? = some b → b = newline

theorem Whole.split {noise : Bytes} (h : Whole noise) (hne : noise ≠ []) :
    ∃ body rest, newline ∉ body ∧ noise = body ++ newline :: rest := by
  rcases hcut : cutLine noise with _ | ⟨line, rest⟩
  · rw [cutLine_eq_none] at hcut
    have hlast := List.getLast?_eq_some_getLast hne
    exact absurd (h _ hlast ▸ List.mem_of_getLast? hlast) hcut
  · obtain ⟨body, hbody, rfl, rfl⟩ := cutLine_eq_some.mp hcut
    exact ⟨body, rest, hbody, by simp⟩

theorem first_line_inj {body body' rest rest' : Bytes} (hbody : newline ∉ body)
    (hbody' : newline ∉ body') (h : body ++ newline :: rest = body' ++ newline :: rest') :
    body = body' ∧ rest = rest' := by
  have hcut : cutLine (body ++ newline :: rest) = some (body ++ [newline], rest) :=
    cutLine_eq_some.mpr ⟨body, hbody, rfl, by simp⟩
  have hcut' : cutLine (body ++ newline :: rest) = some (body' ++ [newline], rest') :=
    cutLine_eq_some.mpr ⟨body', hbody', rfl, by simp [h]⟩
  rw [hcut] at hcut'
  obtain ⟨hline, hrest⟩ := Prod.mk.inj (Option.some.inj hcut')
  exact ⟨List.append_cancel_right hline, hrest⟩

/-- A line ahead of the boundary is dropped, whole or in part, and nothing behind it. -/
theorem Reads.noise {noise after rest : Bytes} {out : Option Bytes}
    (h : Reads limit (noise ++ after) out rest) (hwhole : Whole noise) (hne : noise ≠ [])
    (hfree : ¬ boundary <:+: noise) :
    ∃ dropped noise', noise = dropped ++ noise' ∧ rest = noise' ++ after ∧ dropped ≠ [] ∧
      (out = none ∨ out = some dropped) := by
  obtain ⟨body₀, tail, hbody₀, rfl⟩ := hwhole.split hne
  rw [List.append_assoc, List.cons_append] at h
  generalize hstream : body₀ ++ newline :: (tail ++ after) = stream at h
  cases h with
  | @line body _ hbody hshort =>
      obtain ⟨rfl, rfl⟩ := first_line_inj hbody₀ hbody hstream
      exact ⟨body₀ ++ [newline], tail, by simp, rfl, by simp, .inr rfl⟩
  | last hbody hshort => exact absurd (by rw [← hstream]; simp) hbody
  | @long body _ hbody hlong =>
      obtain ⟨rfl, rfl⟩ := first_line_inj hbody₀ hbody hstream
      exact ⟨body₀ ++ [newline], tail, by simp, rfl, by simp, .inl rfl⟩
  | @part body _ hbody hlong =>
      rcases List.append_eq_append_iff.mp hstream with ⟨more, rfl, hmore⟩ | ⟨more, rfl, hmore⟩
      · cases more with
        | nil =>
            rw [List.append_nil] at hlong hbody
            have hpos : body₀ ≠ [] := List.length_pos_iff.mp (by omega)
            exact ⟨body₀, newline :: tail, rfl, hmore.symm, hpos, .inl rfl⟩
        | cons b more =>
            rw [List.cons_append] at hmore
            exact absurd (by simp [(List.cons.inj hmore).1]) hbody
      · have hpos : body ≠ [] := List.length_pos_iff.mp (by omega)
        refine ⟨body, more ++ newline :: tail, by simp, by simp [hmore], hpos, .inl rfl⟩

/-- The boundary itself is read as one line. -/
theorem Reads.boundary {after rest : Bytes} {out : Option Bytes}
    (h : Reads limit (Rmote.boundary ++ after) out rest)
    (hlimit : Rmote.boundary.length ≤ limit + 1) : out = some Rmote.boundary ∧ rest = after := by
  have hsplit : Rmote.boundary = Rmote.boundary.dropLast ++ [newline] := by decide
  have hbody₀ : newline ∉ Rmote.boundary.dropLast := by decide
  rw [hsplit, List.append_assoc] at h
  generalize hstream : Rmote.boundary.dropLast ++ ([newline] ++ after) = stream at h
  cases h with
  | @line body _ hbody hshort =>
      obtain ⟨rfl, rfl⟩ := first_line_inj hbody₀ hbody hstream
      exact ⟨congrArg some hsplit.symm, rfl⟩
  | last hbody hshort => exact absurd (by rw [← hstream]; simp) hbody
  | @long body _ hbody hlong =>
      obtain ⟨rfl, rfl⟩ := first_line_inj hbody₀ hbody hstream
      rw [List.length_dropLast] at hlong
      omega
  | @part body _ hbody hlong =>
      rcases List.append_eq_append_iff.mp hstream with ⟨more, rfl, hmore⟩ | ⟨more, hmore, -⟩
      · cases more with
        | nil =>
            rw [List.append_nil, List.length_dropLast] at hlong
            omega
        | cons b more =>
            rw [List.cons_append] at hmore
            exact absurd (by simp [(List.cons.inj hmore).1]) hbody
      · have hlen := congrArg List.length hmore
        rw [List.length_append, List.length_dropLast] at hlen
        omega

/-- The lines of a stream with their newlines; the last one may be without. -/
def linesOf : Bytes → List Bytes
  | [] => []
  | b :: rest =>
      if b = newline then
        [b] :: linesOf rest
      else
        match linesOf rest with
        | [] => [[b]]
        | line :: lines => (b :: line) :: lines

/-- What a reader that gets the lines one after the other reports: what follows the boundary,
or the last lines that say something. -/
def verdict (decode : Bytes → String) (lines : List Bytes) : Except (List String) Bytes :=
  if lines.any (· = boundary) then
    .ok (lines.dropWhile (· ≠ boundary)).tail.flatten
  else
    .error (lastLines ((lines.map decode).filter (· ≠ "")))

theorem linesOf_append {body rest : Bytes} (hbody : newline ∉ body) :
    linesOf (body ++ newline :: rest) = (body ++ [newline]) :: linesOf rest := by
  induction body with
  | nil => simp [linesOf]
  | cons b body ih =>
      have hb : b ≠ newline := fun h => hbody (by simp [h])
      rw [List.cons_append, linesOf, if_neg hb, ih fun h => hbody (List.mem_cons_of_mem b h)]
      rfl

theorem linesOf_last {body : Bytes} (hbody : newline ∉ body) (hne : body ≠ []) :
    linesOf body = [body] := by
  induction body with
  | nil => exact absurd rfl hne
  | cons b body ih =>
      have hb : b ≠ newline := fun h => hbody (by simp [h])
      rw [linesOf, if_neg hb]
      cases body with
      | nil => rfl
      | cons c body => rw [ih (fun h => hbody (List.mem_cons_of_mem b h)) (List.cons_ne_nil c body)]

theorem flatten_linesOf (stream : Bytes) : (linesOf stream).flatten = stream := by
  induction stream with
  | nil => rfl
  | cons b rest ih =>
      rw [linesOf]
      split_ifs with hb
      · rw [List.flatten_cons, ih]
        rfl
      · rcases hlines : linesOf rest with _ | ⟨line, lines⟩
        · rw [hlines] at ih
          rw [← ih]
          rfl
        · rw [hlines] at ih
          rw [← ih]
          rfl

/-- A line that `readline` gives whole. -/
def Short (limit : ℕ) (line : Bytes) : Prop := (line.filter (· ≠ newline)).length ≤ limit

instance (limit : ℕ) (line : Bytes) : Decidable (Short limit line) :=
  inferInstanceAs (Decidable (_ ≤ _))

theorem short_body {body : Bytes} (hbody : newline ∉ body) :
    body.filter (· ≠ newline) = body := by
  rw [List.filter_eq_self]
  intro b hb
  exact decide_eq_true (fun h => hbody (h ▸ hb))

theorem lastLines_append (said : List String) (spoken : String) :
    lastLines (lastLines said ++ [spoken]) = lastLines (said ++ [spoken]) := by
  have hle : said.length - maxStartFailureLines ≤ said.length := Nat.sub_le _ _
  have hcut : lastLines said ++ [spoken] =
      (said ++ [spoken]).drop (said.length - maxStartFailureLines) :=
    (List.drop_append_of_le_length hle).symm
  rw [hcut, lastLines, List.drop_drop, lastLines, List.length_drop]
  congr 1
  simp only [List.length_append, List.length_singleton]
  omega

theorem note_lastLines (said : List String) (spoken : String) :
    note (lastLines said) spoken = lastLines (said ++ [spoken].filter (· ≠ "")) := by
  rw [note]
  split_ifs with hempty
  · simp [hempty]
  · rw [lastLines_append]
    simp [hempty]

theorem linesOf_part {body : Bytes} (hbody : newline ∉ body) (hne : body ≠ []) (rest : Bytes) :
    ∃ more lines, linesOf (body ++ rest) = (body ++ more) :: lines := by
  induction body with
  | nil => exact absurd rfl hne
  | cons b body ih =>
      have hb : b ≠ newline := fun h => hbody (by simp [h])
      rw [List.cons_append, linesOf, if_neg hb]
      by_cases hbody' : body = []
      · subst hbody'
        rcases linesOf ([] ++ rest) with _ | ⟨line, lines⟩
        · exact ⟨[], [], rfl⟩
        · exact ⟨line, lines, rfl⟩
      · obtain ⟨more, lines, heq⟩ := ih (fun h => hbody (List.mem_cons_of_mem b h)) hbody'
        exact ⟨more, lines, by rw [heq]; rfl⟩

/-- A line over the limit is not short. -/
theorem not_short {body more : Bytes} (hbody : newline ∉ body) (hlong : limit < body.length) :
    ¬ Short limit (body ++ more) := by
  rw [Short, List.filter_append, short_body hbody, List.length_append]
  omega

theorem scan_short {fuel : ℕ} (hfuel : r.rest.length < fuel)
    (hshort : ∀ line ∈ linesOf r.rest, Short r.limit line) (said : List String) :
    (scan decode fuel r (lastLines said)).map StreamReader.rest =
      if boundary ∈ linesOf r.rest then
        .ok ((linesOf r.rest).dropWhile (· ≠ boundary)).tail.flatten
      else
        .error (lastLines (said ++ ((linesOf r.rest).map decode).filter (· ≠ ""))) := by
  induction fuel generalizing r said with
  | zero => omega
  | succ fuel ih =>
      obtain ⟨hreads, hsame⟩ := readline_spec r.limit r.coming r.buffer
      change Reads r.limit r.rest _ _ at hreads
      rw [scan]
      rcases hline : readline r.limit r.buffer r.coming with ⟨out, r'⟩
      rw [hline] at hreads hsame
      generalize hrest' : r'.rest = rest' at hreads
      have hnext : out ≠ some [] → (∀ line ∈ linesOf rest', line ∈ linesOf r.rest) →
          ∀ said, (scan decode fuel r' (lastLines said)).map StreamReader.rest =
            if boundary ∈ linesOf rest' then
              .ok ((linesOf rest').dropWhile (· ≠ boundary)).tail.flatten
            else
              .error (lastLines (said ++ ((linesOf rest').map decode).filter (· ≠ ""))) := by
        intro hne hsub
        rw [← hrest'] at hsub ⊢
        refine ih ?_ fun line hmem => hsame ▸ hshort line (hsub line hmem)
        have hlt := hreads.length_lt hne
        rw [hrest']
        omega
      generalize hstream : r.rest = stream at hreads hshort hfuel hnext
      cases hreads with
      | @line body _ hbody hle =>
          rw [linesOf_append hbody] at hnext ⊢
          dsimp only
          by_cases hfound : body ++ [newline] = boundary
          · rw [if_pos hfound, if_pos (by simp [hfound])]
            simp [hfound, flatten_linesOf, Except.map, hrest']
          · have hmem : boundary ∈ (body ++ [newline]) :: linesOf rest' ↔
                boundary ∈ linesOf rest' := by
              rw [List.mem_cons, or_iff_right (Ne.symm hfound)]
            rw [if_neg hfound, if_neg (by simp), note_lastLines,
              hnext (by simp) (fun _ => List.mem_cons_of_mem _)]
            simp only [hmem, List.map_cons, List.append_assoc]
            rw [List.dropWhile_cons_of_pos (by simpa using hfound), ← List.filter_append]
            rfl
      | last hbody hle =>
          by_cases hempty : stream = []
          · subst hempty
            simp [linesOf, Except.map, show ([] : Bytes) ≠ boundary by decide]
          · have hother : stream ≠ boundary := by
              rintro rfl
              exact hbody (by decide)
            rw [linesOf_last hbody hempty] at hnext ⊢
            dsimp only
            rw [if_neg hother, if_neg hempty, note_lastLines,
              hnext (by simpa using hempty) (by simp [linesOf])]
            simp [linesOf, Ne.symm hother]
      | @long body _ hbody hlong =>
          refine absurd (hshort (body ++ [newline]) ?_) (not_short hbody hlong)
          simp [linesOf_append hbody]
      | @part body rest hbody hlong =>
          have hne : body ≠ [] := List.length_pos_iff.mp (by omega)
          obtain ⟨more, lines, heq⟩ := linesOf_part hbody hne rest'
          exact absurd (hshort (body ++ more) (by simp [heq])) (not_short hbody hlong)

/-- On lines within the limit the reader gives what the lines alone decide, whatever the sizes
of the pieces are. -/
theorem readBoundary_eq_verdict (decode : Bytes → String) (r : StreamReader)
    (hshort : ∀ line ∈ linesOf r.rest, Short r.limit line) :
    (readBoundary decode r).map StreamReader.rest = verdict decode (linesOf r.rest) := by
  have hany : (linesOf r.rest).any (· = boundary) = true ↔ boundary ∈ linesOf r.rest := by
    simp
  rw [verdict, if_congr hany rfl rfl]
  exact scan_short (Nat.lt_succ_self _) hshort []

/-- A shell that speaks, then the boundary in two pieces. -/
theorem spoken_verdict :
    (readBoundary (fun _ => "spoken") ⟨20, [104, 105], [[10, 80, 82], boundary.drop 2 ++ [1]]⟩).map
        StreamReader.rest =
      verdict (fun _ => "spoken") (linesOf ([104, 105, 10] ++ boundary ++ [1])) :=
  readBoundary_eq_verdict _ ⟨20, [104, 105], [[10, 80, 82], boundary.drop 2 ++ [1]]⟩ (by decide)

end StreamReader

/-! ## The reason of a failed start -/

theorem intercalate_infix (separator : List Char) (parts : List (List Char)) {part : List Char}
    (h : part ∈ parts) : part <:+: separator.intercalate parts := by
  induction parts with
  | nil => cases h
  | cons a rest ih =>
      cases rest with
      | nil =>
          rw [List.mem_singleton.mp h]
          simp
      | cons b rest =>
          rw [List.intercalate_cons_cons]
          rcases List.mem_cons.mp h with rfl | h
          · exact ⟨[], separator ++ separator.intercalate (b :: rest), by simp⟩
          · obtain ⟨before, after, heq⟩ := ih h
            exact ⟨a ++ separator ++ before, after, by rw [← heq]; simp⟩

theorem intercalate_suffix (separator : List Char) (parts : List (List Char)) (last : List Char) :
    last <:+ separator.intercalate (parts ++ [last]) := by
  induction parts with
  | nil => simp
  | cons a rest ih =>
      obtain ⟨before, heq⟩ := ih
      cases rest with
      | nil => exact ⟨a ++ separator, by simp⟩
      | cons b rest =>
          rw [List.cons_append, List.cons_append, List.intercalate_cons_cons]
          exact ⟨a ++ separator ++ before, by rw [← List.cons_append, ← heq]; simp⟩

/-- The last line of a stream is in what is kept of it. -/
theorem evidence_last (label : String) (lines : List String) {last : String} (hne : last ≠ "")
    (hlen : last.toList.length ≤ maxStartFailureText) :
    ∃ part, evidence label (lines ++ [last]) = [part] ∧ last.toList <:+ part.toList := by
  obtain ⟨before, heq⟩ := intercalate_suffix " | ".toList (lines.map String.toList) last.toList
  have htext : (joinText " | " (lines ++ [last])).toList = before ++ last.toList := by
    rw [joinText, String.toList_ofList, List.map_append, List.map_singleton, heq]
  have hsome : joinText " | " (lines ++ [last]) ≠ "" := by
    intro hempty
    rw [hempty] at htext
    have hnil : last.toList = [] := (List.append_eq_nil_iff.mp htext.symm).2
    exact hne (String.toList_eq_nil_iff.mp hnil)
  refine ⟨_, if_neg hsome, ?_⟩
  rw [String.toList_append, tailText, String.toList_ofList, htext, List.length_append]
  refine List.IsSuffix.trans ?_ (List.suffix_append _ _)
  rw [List.drop_append_of_le_length (by omega)]
  exact List.suffix_append _ _

theorem infix_startFailure {said transport : List String} {part : String}
    (h : part ∈ evidence "It said" said ++ evidence "Its transport said" transport) :
    part.toList <:+: (startFailure said transport).toList := by
  rw [startFailure, joinText, String.toList_ofList]
  exact intercalate_infix _ _ (List.mem_map_of_mem (List.mem_cons_of_mem _ h))

/-- The reason of a failed start names the last line of either stream. -/
theorem startFailure_last (said transport : List String) {last : String} (hne : last ≠ "")
    (hlen : last.toList.length ≤ maxStartFailureText) :
    last.toList <:+: (startFailure (said ++ [last]) transport).toList ∧
      last.toList <:+: (startFailure said (transport ++ [last])).toList := by
  obtain ⟨part, hpart, hlast⟩ := evidence_last "It said" said hne hlen
  obtain ⟨part', hpart', hlast'⟩ := evidence_last "Its transport said" transport hne hlen
  exact ⟨hlast.isInfix.trans (infix_startFailure (by simp [hpart])),
    hlast'.isInfix.trans (infix_startFailure (by simp [hpart']))⟩

end Rmote
