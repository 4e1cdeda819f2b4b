import Rmote.Library.LineSearch

/-!
# Repository sections

`PacmanRepository` keeps the section of a repository in `/etc/pacman.conf`. A section
starts with the line of its name in brackets and goes on to the next line that starts
with a bracket. Two searches find it, `present` writes over it or appends it, and
`absent` cuts it out. Everything is proved on the lines of the file: the section is a
stretch of lines, the text in front of it and behind it are the other lines.
-/

namespace Rmote

namespace PacmanRepository

/-- Whether the file was modified. -/
structure Result where
  name : List Char
  changed : Bool
  deriving DecidableEq, Repr

/-- The `NotImplementedError` of a host without the configuration file. -/
structure NotImplemented where
  operation : String
  deriving DecidableEq, Repr

def NotImplemented.message (error : NotImplemented) : String :=
  s!"{error.operation} needs /etc/pacman.conf of Arch Linux, and this host has none"

/-- The lines of a section. -/
def sectionLines (name : List Char) (servers : List (List Char)) (sigLevel : List Char) :
    List (List Char) :=
  ('[' :: name ++ [']']) ::
    ((if sigLevel = [] then [] else ["SigLevel = ".toList ++ sigLevel]) ++
      servers.map ("Server = ".toList ++ ·))

def buildSection (name : List Char) (servers : List (List Char)) (sigLevel : List Char) : List Char :=
  Text.joinLines (sectionLines name servers sigLevel) ++ ['\n']

/-- A blank of the header line. -/
def isBlank (c : Char) : Bool := c = ' ' || c = '\t'

/-- The pattern of the header line: the name in brackets and blanks up to the end of the
line. The answer is the length of the match. -/
def matchHeader (name text : List Char) : Option ℕ :=
  match Text.dropPrefix ('[' :: name ++ [']']) text with
  | none => none
  | some after =>
      let rest := after.dropWhile isBlank
      if rest = [] ∨ rest.head? = some '\n' then some (text.length - rest.length) else none

/-- The pattern of the start of any section. -/
def matchBracket (text : List Char) : Option Unit :=
  if text.head? = some '[' then some () else none

/-- Where the section of a name starts and where it stops. -/
def sectionBounds (content name : List Char) : Option (ℕ × ℕ) :=
  match Text.searchStart (matchHeader name) true content with
  | none => none
  | some (start, length) =>
      match Text.searchStart matchBracket true (content.drop (start + length)) with
      | some (next, ()) => some (start, start + length + next)
      | none => some (start, content.length)

/-- The text without the newlines at its end. -/
def rstripNewlines (content : List Char) : List Char :=
  (content.reverse.dropWhile (· = '\n')).reverse

/-- A run of more than two newlines becomes two; `run` is the number of newlines that
were written last. -/
def collapseNewlines : ℕ → List Char → List Char
  | _, [] => []
  | run, c :: rest =>
      if c = '\n' then
        if run < 2 then c :: collapseNewlines (run + 1) rest else collapseNewlines run rest
      else
        c :: collapseNewlines 0 rest

/-- Ensure that a section is present. -/
def present (name : List Char) (servers : List (List Char)) (sigLevel : List Char) :
    Option (List Char) → Except NotImplemented Result × Option (List Char)
  | none => (.error ⟨"PacmanRepository.present"⟩, none)
  | some file =>
      let wanted := buildSection name servers sigLevel
      let content := Text.universalNewlines file
      match sectionBounds content name with
      | some (start, stop) =>
          if (content.drop start).take (stop - start) = wanted then
            (.ok ⟨name, false⟩, some file)
          else
            (.ok ⟨name, true⟩, some (content.take start ++ wanted ++ content.drop stop))
      | none => (.ok ⟨name, true⟩, some (rstripNewlines content ++ ['\n', '\n'] ++ wanted))

/-- Remove a section. -/
def absent (name : List Char) :
    Option (List Char) → Except NotImplemented Result × Option (List Char)
  | none => (.error ⟨"PacmanRepository.absent"⟩, none)
  | some file =>
      let content := Text.universalNewlines file
      match sectionBounds content name with
      | none => (.ok ⟨name, false⟩, some file)
      | some (start, stop) =>
          (.ok ⟨name, true⟩, some (collapseNewlines 0 (content.take start ++ content.drop stop)))

/-- The line is the header of the section of that name. -/
def isHeader (name line : List Char) : Bool := (matchHeader name line).isSome

/-- The line starts a section. -/
def isBracket (line : List Char) : Bool := (matchBracket line).isSome

variable {name line : List Char} {ls body rest : List (List Char)} {h r : List Char}

theorem newline_notMem_header (hname : '\n' ∉ name) : '\n' ∉ '[' :: name ++ [']'] := by
  simp [hname]

/-- The header is looked for in one line. -/
theorem matchHeader_append_newline (hname : '\n' ∉ name) (hline : '\n' ∉ line)
    (more : List Char) : matchHeader name (line ++ '\n' :: more) = matchHeader name line := by
  unfold matchHeader
  rw [Text.dropPrefix_append_newline (newline_notMem_header hname)]
  cases hafter : Text.dropPrefix ('[' :: name ++ [']']) line with
  | none => rfl
  | some after =>
      have hblank : isBlank '\n' = false := rfl
      simp only [Option.map_some]
      cases hrest : after.dropWhile isBlank with
      | nil =>
          have hleft : (after ++ '\n' :: more).dropWhile isBlank = '\n' :: more := by
            simp [List.dropWhile_append, hrest, hblank]
          rw [hleft]
          simp
      | cons c left =>
          have hc : c ≠ '\n' := by
            rintro rfl
            have hmem : '\n' ∈ after.dropWhile isBlank := by
              rw [hrest]
              exact List.mem_cons_self
            rw [Text.dropPrefix_eq_some.mp hafter] at hline
            exact hline (List.mem_append_right _ ((List.dropWhile_suffix isBlank).subset hmem))
          have hleft : (after ++ '\n' :: more).dropWhile isBlank = c :: (left ++ '\n' :: more) := by
            rw [List.dropWhile_append, hrest]
            rfl
          rw [hleft]
          simp [hc]

theorem local_matchHeader (hname : '\n' ∉ name) : Text.Local (matchHeader name) := by
  intro text
  by_cases hnewline : '\n' ∈ text
  · obtain ⟨first, more, rfl, hfirst⟩ := List.eq_append_cons_of_mem hnewline
    rw [Text.firstLine_append_newline hfirst, matchHeader_append_newline hname hfirst]
  · rw [Text.firstLine_of_notMem hnewline]

theorem local_matchBracket : Text.Local matchBracket := by
  intro text
  cases text with
  | nil => rfl
  | cons c text =>
      by_cases hc : c = '\n'
      · subst hc
        rfl
      · simp [matchBracket, Text.firstLine, hc]

/-- A header line is matched to its end. -/
theorem matchHeader_eq_length (hline : '\n' ∉ line) (hheader : isHeader name line = true) :
    matchHeader name line = some line.length := by
  unfold isHeader at hheader
  unfold matchHeader at hheader ⊢
  cases hafter : Text.dropPrefix ('[' :: name ++ [']']) line with
  | none =>
      rw [hafter] at hheader
      cases hheader
  | some after =>
      rw [hafter] at hheader
      simp only at hheader ⊢
      split_ifs at hheader ⊢ with hrest
      · rcases hrest with hrest | hrest
        · rw [hrest]
          rfl
        · have hmem : '\n' ∈ after.dropWhile isBlank := List.mem_of_mem_head? hrest
          rw [Text.dropPrefix_eq_some.mp hafter] at hline
          exact absurd (List.mem_append_right _ ((List.dropWhile_suffix isBlank).subset hmem)) hline
      · cases hheader

theorem matchHeader_eq_none (hheader : isHeader name line = false) : matchHeader name line = none :=
  Option.isNone_iff_eq_none.mp (by simpa [isHeader] using hheader)

theorem matchBracket_eq_none (hbracket : isBracket line = false) : matchBracket line = none :=
  Option.isNone_iff_eq_none.mp (by simpa [isBracket] using hbracket)

theorem matchBracket_eq_some (hbracket : isBracket line = true) : matchBracket line = some () := by
  obtain ⟨u, hu⟩ := Option.isSome_iff_exists.mp hbracket
  exact hu

/-- Without a header line there is no section. -/
theorem sectionBounds_eq_none (hname : '\n' ∉ name) (hlines : Text.Lines ls) (hne : ls ≠ [])
    (hnone : ∀ l ∈ ls, isHeader name l = false) : sectionBounds (Text.joinLines ls) name = none := by
  unfold sectionBounds
  rw [Text.searchStart_eq_none (local_matchHeader hname) hlines hne fun l hl =>
    matchHeader_eq_none (hnone l hl)]

/-- What is left of a text behind its header line. -/
theorem drop_header (ls : List (List Char)) (h : List Char) (tail : List (List Char)) :
    (Text.joinLines (ls ++ h :: tail)).drop ((Text.unlines ls).length + h.length) =
      Text.joinLines ([] :: tail) := by
  rw [Text.joinLines_append_cons, List.drop_append, List.drop_eq_nil_of_le (by omega),
    List.nil_append, Nat.add_sub_cancel_left]
  by_cases htail : tail = []
  · subst htail
    rw [Text.joinLines_singleton, Text.joinLines_singleton, List.drop_length]
  · rw [Text.joinLines_cons htail, Text.joinLines_cons htail, List.drop_left, List.nil_append]

/-- The last section goes on to the end of the text. -/
theorem sectionBounds_last (hname : '\n' ∉ name) (hlines : Text.Lines (ls ++ h :: body))
    (hnone : ∀ l ∈ ls, isHeader name l = false) (hheader : isHeader name h = true)
    (hbody : ∀ l ∈ body, isBracket l = false) :
    sectionBounds (Text.joinLines (ls ++ h :: body)) name =
      some ((Text.unlines ls).length, (Text.joinLines (ls ++ h :: body)).length) := by
  rw [Text.lines_append, Text.lines_cons] at hlines
  obtain ⟨hls, hh, hbodyLines⟩ := hlines
  have hstart := Text.searchStart_eq_some (local_matchHeader hname) hls hh
    (fun l hl => matchHeader_eq_none (hnone l hl)) (matchHeader_eq_length hh hheader) body
  have hnext : Text.searchStart matchBracket true (Text.joinLines ([] :: body)) = none := by
    refine Text.searchStart_eq_none local_matchBracket ?_ (by simp) ?_
    · exact Text.lines_cons.mpr ⟨by simp, hbodyLines⟩
    · exact List.forall_mem_cons.mpr ⟨rfl, fun l hl => matchBracket_eq_none (hbody l hl)⟩
  unfold sectionBounds
  rw [hstart]
  simp only
  rw [drop_header, hnext]

/-- Any other section goes on to the next line that starts one. -/
theorem sectionBounds_next (hname : '\n' ∉ name)
    (hlines : Text.Lines (ls ++ h :: (body ++ r :: rest)))
    (hnone : ∀ l ∈ ls, isHeader name l = false) (hheader : isHeader name h = true)
    (hbody : ∀ l ∈ body, isBracket l = false) (hr : isBracket r = true) :
    sectionBounds (Text.joinLines (ls ++ h :: (body ++ r :: rest))) name =
      some ((Text.unlines ls).length, (Text.unlines (ls ++ h :: body)).length) := by
  rw [Text.lines_append, Text.lines_cons, Text.lines_append, Text.lines_cons] at hlines
  obtain ⟨hls, hh, hbodyLines, hrLine, -⟩ := hlines
  have hstart := Text.searchStart_eq_some (local_matchHeader hname) hls hh
    (fun l hl => matchHeader_eq_none (hnone l hl)) (matchHeader_eq_length hh hheader)
    (body ++ r :: rest)
  have hnext : Text.searchStart matchBracket true (Text.joinLines ([] :: (body ++ r :: rest))) =
      some ((Text.unlines ([] :: body)).length, ()) := by
    rw [← List.cons_append]
    refine Text.searchStart_eq_some local_matchBracket ?_ hrLine ?_ (matchBracket_eq_some hr) rest
    · exact Text.lines_cons.mpr ⟨by simp, hbodyLines⟩
    · exact List.forall_mem_cons.mpr ⟨rfl, fun l hl => matchBracket_eq_none (hbody l hl)⟩
  unfold sectionBounds
  rw [hstart]
  simp only
  rw [drop_header, hnext]
  simp only [Text.unlines_append, Text.unlines_cons, List.length_append, List.length_cons,
    List.length_nil]
  congr 2
  omega

/-- The lines around the section that was found. -/
structure Section (name content : List Char) (ls : List (List Char)) (h : List Char)
    (body tail : List (List Char)) : Prop where
  lines_eq : content.splitOn '\n' = ls ++ h :: (body ++ tail)
  no_header : ∀ l ∈ ls, isHeader name l = false
  header : isHeader name h = true
  no_bracket : ∀ l ∈ body, isBracket l = false
  bracket : ∀ r ∈ tail.head?, isBracket r = true

/-- The text behind the section. -/
def behind : List (List Char) → List Char
  | [] => []
  | r :: rest => Text.joinLines (r :: rest)

/-- The text of the section itself. -/
def ended (ls : List (List Char)) : List (List Char) → List Char
  | [] => Text.joinLines ls
  | _ :: _ => Text.unlines ls

theorem joinLines_eq_ended (ls tail : List (List Char)) :
    Text.joinLines (ls ++ tail) = ended ls tail ++ behind tail := by
  cases tail with
  | nil => rw [List.append_nil, ended, behind, List.append_nil]
  | cons r rest => exact Text.joinLines_append_cons ls r rest

variable {content : List Char} {tail : List (List Char)}

/-- A section is found from its first line to where it ends. -/
theorem Section.bounds (hname : '\n' ∉ name)
    (hs : Section name content ls h body tail) :
    sectionBounds content name =
      some ((Text.unlines ls).length, (ended (ls ++ h :: body) tail).length) := by
  have hlines := Text.lines_splitOn content
  have hcontent := Text.joinLines_splitOn content
  rw [hs.lines_eq] at hlines hcontent
  rw [← hcontent]
  cases tail with
  | nil =>
      rw [List.append_nil] at hlines ⊢
      exact sectionBounds_last hname hlines hs.no_header hs.header hs.no_bracket
  | cons r rest =>
      exact sectionBounds_next hname hlines hs.no_header hs.header hs.no_bracket (hs.bracket r rfl)

/-- A text has no header of the name, or its first one starts a section. -/
theorem exists_section (name content : List Char) :
    (∀ l ∈ content.splitOn '\n', isHeader name l = false) ∨
      ∃ ls h body tail, Section name content ls h body tail := by
  rcases Text.exists_first (isHeader name) (content.splitOn '\n') with
    hnone | ⟨ls, h, more, heq, hls, hh⟩
  · exact .inl hnone
  · rcases Text.exists_first isBracket more with hbody | ⟨body, r, rest, rfl, hbody, hr⟩
    · exact .inr ⟨ls, h, more, [], by rw [List.append_nil]; exact heq, hls, hh, hbody, by simp⟩
    · refine .inr ⟨ls, h, body, r :: rest, heq, hls, hh, hbody, fun k hk => ?_⟩
      rw [List.head?_cons, Option.mem_some] at hk
      exact hk ▸ hr

theorem sectionBounds_eq_none_iff (hname : '\n' ∉ name) (content : List Char) :
    sectionBounds content name = none ↔ ∀ l ∈ content.splitOn '\n', isHeader name l = false := by
  constructor
  · intro hnone
    rcases exists_section name content with hlines | ⟨ls, h, body, tail, hs⟩
    · exact hlines
    · rw [hs.bounds hname] at hnone
      cases hnone
  · intro hlines
    have hbounds := sectionBounds_eq_none hname (Text.lines_splitOn content)
      (List.splitOn_ne_nil '\n' content) hlines
    rwa [Text.joinLines_splitOn] at hbounds

theorem Section.take (hs : Section name content ls h body tail) :
    content.take (Text.unlines ls).length = Text.unlines ls := by
  have hcontent := Text.joinLines_splitOn content
  rw [hs.lines_eq, Text.joinLines_append_cons] at hcontent
  rw [← hcontent, List.take_left]

theorem Section.drop (hs : Section name content ls h body tail) :
    content.drop (ended (ls ++ h :: body) tail).length = behind tail := by
  have hcontent := Text.joinLines_splitOn content
  rw [hs.lines_eq, ← List.cons_append, ← List.append_assoc, joinLines_eq_ended] at hcontent
  rw [← hcontent, List.drop_left]

end PacmanRepository

end Rmote
