import Rmote.Tools.PacmanRepository

/-!
# Sections after `present` and `absent`

`present` leaves a text whose section of the name is exactly the wanted one: it stands
where the old section stood, between the same texts, or at the end, behind the old text
and one blank line. `absent` takes the first section of the name out and leaves every
line that is not empty.
-/

namespace Rmote

namespace PacmanRepository

/-- A value that stays on its line when the file is written and read again. -/
def OneLine (value : List Char) : Prop := '\n' ∉ value ∧ '\r' ∉ value

/-- The arguments of `present` are on one line each. -/
structure OneLineArguments (name : List Char) (servers : List (List Char)) (sigLevel : List Char) :
    Prop where
  name : OneLine name
  servers : ∀ server ∈ servers, OneLine server
  sigLevel : OneLine sigLevel

variable {name sigLevel content h : List Char} {servers ls body tail : List (List Char)}

theorem buildSection_eq (name : List Char) (servers : List (List Char)) (sigLevel : List Char) :
    buildSection name servers sigLevel = Text.unlines (sectionLines name servers sigLevel) :=
  (Text.unlines_eq_append (List.cons_ne_nil _ _)).symm

/-- The lines of a section behind its header. -/
theorem exists_sectionLines (hargs : OneLineArguments name servers sigLevel) :
    ∃ more, sectionLines name servers sigLevel = ('[' :: name ++ [']']) :: more ∧
      (∀ l ∈ more, isBracket l = false) ∧ Text.Lines more ∧ ∀ l ∈ more, '\r' ∉ l := by
  refine ⟨_, rfl, fun l hl => ?_, fun l hl => ?_, fun l hl => ?_⟩
  all_goals rcases List.mem_append.mp hl with hl | hl
  · split_ifs at hl
    · cases hl
    · rw [List.mem_singleton.mp hl]
      rfl
  · obtain ⟨server, -, rfl⟩ := List.mem_map.mp hl
    rfl
  · split_ifs at hl
    · cases hl
    · rw [List.mem_singleton.mp hl, List.mem_append, not_or]
      exact ⟨by decide, hargs.sigLevel.1⟩
  · obtain ⟨server, hserver, rfl⟩ := List.mem_map.mp hl
    rw [List.mem_append, not_or]
    exact ⟨by decide, (hargs.servers server hserver).1⟩
  · split_ifs at hl
    · cases hl
    · rw [List.mem_singleton.mp hl, List.mem_append, not_or]
      exact ⟨by decide, hargs.sigLevel.2⟩
  · obtain ⟨server, hserver, rfl⟩ := List.mem_map.mp hl
    rw [List.mem_append, not_or]
    exact ⟨by decide, (hargs.servers server hserver).2⟩

theorem isHeader_wanted (name : List Char) : isHeader name ('[' :: name ++ [']']) = true := by
  have hprefix : Text.dropPrefix ('[' :: name ++ [']']) ('[' :: name ++ [']']) = some [] :=
    Text.dropPrefix_eq_some.mpr (List.append_nil _).symm
  rw [isHeader, matchHeader, hprefix]
  rfl

/-- The wanted section between lines without a header and lines that start with a section
is found where it stands. -/
theorem sectionBounds_written (hargs : OneLineArguments name servers sigLevel) (hls : Text.Lines ls)
    (htail : Text.Lines tail) (hnone : ∀ l ∈ ls, isHeader name l = false)
    (hbracket : ∀ r ∈ tail.head?, isBracket r = true) :
    sectionBounds (Text.unlines ls ++ buildSection name servers sigLevel ++ behind tail) name =
      some ((Text.unlines ls).length,
        (Text.unlines ls).length + (buildSection name servers sigLevel).length) := by
  obtain ⟨more, hmore, hbody, hlines, -⟩ := exists_sectionLines hargs
  have hheaderLine : '\n' ∉ '[' :: name ++ [']'] := newline_notMem_header hargs.name.1
  have hwritten : Text.Lines (('[' :: name ++ [']']) :: more) :=
    Text.lines_cons.mpr ⟨hheaderLine, hlines⟩
  rw [buildSection_eq, hmore, ← Text.unlines_append]
  cases tail with
  | nil =>
      have hs : Section name (Text.unlines (ls ++ ('[' :: name ++ [']']) :: more)) ls
          ('[' :: name ++ [']']) (more ++ [[]]) [] := by
        refine ⟨?_, hnone, isHeader_wanted name, ?_, by simp⟩
        · have hsplit := Text.splitOn_unlines_append (Text.lines_append.mpr ⟨hls, hwritten⟩) []
          rw [List.append_nil, List.splitOn_nil] at hsplit
          rw [hsplit]
          simp
        · exact List.forall_mem_append.mpr ⟨hbody, by simp [isBracket, matchBracket]⟩
      rw [behind, List.append_nil, hs.bounds hargs.name.1, ended, ← List.cons_append,
        ← List.append_assoc, ← Text.unlines_eq_joinLines, Text.unlines_append, List.length_append]
  | cons r rest =>
      have hs : Section name (Text.unlines (ls ++ ('[' :: name ++ [']']) :: more) ++
          behind (r :: rest)) ls ('[' :: name ++ [']']) more (r :: rest) := by
        refine ⟨?_, hnone, isHeader_wanted name, hbody, hbracket⟩
        rw [Text.splitOn_unlines_append (Text.lines_append.mpr ⟨hls, hwritten⟩), behind,
          Text.joinLines, List.splitOn_intercalate '\n' htail (by simp)]
        simp
      rw [hs.bounds hargs.name.1, ended, Text.unlines_append, List.length_append]

/-- What stands in front of a section, in it and behind it, when the text is put together. -/
theorem slices (before wanted after : List Char) :
    (before ++ wanted ++ after).take before.length = before ∧
    ((before ++ wanted ++ after).drop before.length).take
      (before.length + wanted.length - before.length) = wanted ∧
    (before ++ wanted ++ after).drop (before.length + wanted.length) = after := by
  refine ⟨?_, ?_, ?_⟩
  · rw [List.append_assoc, List.take_left]
  · rw [List.append_assoc, List.drop_left, Nat.add_sub_cancel_left, List.take_left]
  · rw [← List.length_append, List.drop_left]

theorem return_notMem_buildSection (hargs : OneLineArguments name servers sigLevel) :
    '\r' ∉ buildSection name servers sigLevel := by
  obtain ⟨more, hmore, -, -, hreturn⟩ := exists_sectionLines hargs
  rw [buildSection_eq, hmore, Text.unlines]
  intro hmem
  obtain ⟨line, hline, hr⟩ := List.mem_flatten.mp hmem
  obtain ⟨l, hl, rfl⟩ := List.mem_map.mp hline
  rcases List.mem_append.mp hr with hr | hr
  · rcases List.mem_cons.mp hl with rfl | hl
    · simp [hargs.name.2] at hr
    · exact hreturn l hl hr
  · exact absurd hr (by decide)

/-- The text with an appended section, line by line. -/
theorem rstripNewlines_append (content : List Char) :
    ∃ k, content = rstripNewlines content ++ List.replicate k '\n' := by
  refine ⟨(content.reverse.takeWhile (· = '\n')).length, ?_⟩
  have hnewlines : content.reverse.takeWhile (· = '\n') =
      List.replicate (content.reverse.takeWhile (· = '\n')).length '\n' := by
    refine List.eq_replicate_iff.mpr ⟨rfl, fun c hc => ?_⟩
    simpa using List.mem_takeWhile_imp hc
  have hreverse := congrArg List.reverse
    (List.takeWhile_append_dropWhile (p := fun c => decide (c = '\n')) (l := content.reverse))
  rw [List.reverse_append, List.reverse_reverse, hnewlines, List.reverse_replicate] at hreverse
  exact hreverse.symm

theorem mem_splitOn_rstripNewlines {l : List Char}
    (hl : l ∈ (rstripNewlines content).splitOn '\n') : l ∈ content.splitOn '\n' := by
  obtain ⟨k, hk⟩ := rstripNewlines_append content
  rw [hk]
  cases k with
  | zero => rwa [List.replicate_zero, List.append_nil]
  | succ k =>
      rw [List.replicate_succ, List.splitOn_append_cons_self]
      exact List.mem_append_left _ hl

/-- The lines of a text that are not empty. -/
def nonemptyLines (content : List Char) : List (List Char) :=
  (content.splitOn '\n').filter (· ≠ [])

/-- The section of the name in a text is the wanted one. -/
def Holds (name : List Char) (servers : List (List Char)) (sigLevel content : List Char)
    (start stop : ℕ) : Prop :=
  sectionBounds content name = some (start, stop) ∧
    (content.drop start).take (stop - start) = buildSection name servers sigLevel

/-- A file that has the wanted section is left alone. -/
theorem present_of_holds {file : List Char} {start stop : ℕ}
    (h : Holds name servers sigLevel (Text.universalNewlines file) start stop) :
    present name servers sigLevel (some file) = (.ok ⟨name, false⟩, some file) := by
  unfold present
  simp only [h.1]
  rw [if_pos h.2]

/-- The text that `present` puts together has the wanted section. -/
theorem holds_written (hargs : OneLineArguments name servers sigLevel) (hls : Text.Lines ls)
    (htail : Text.Lines tail) (hnone : ∀ l ∈ ls, isHeader name l = false)
    (hbracket : ∀ r ∈ tail.head?, isBracket r = true) :
    Holds name servers sigLevel
      (Text.unlines ls ++ buildSection name servers sigLevel ++ behind tail)
      (Text.unlines ls).length
      ((Text.unlines ls).length + (buildSection name servers sigLevel).length) :=
  ⟨sectionBounds_written hargs hls htail hnone hbracket, (slices _ _ _).2.1⟩

/-- What `present` leaves: the wanted section between the same texts as the old one, or behind
the old text and a blank line, and a file that a second call leaves alone. -/
theorem present_spec (hargs : OneLineArguments name servers sigLevel) (file : List Char) :
    ∃ changed file' start stop,
      present name servers sigLevel (some file) = (.ok ⟨name, changed⟩, some file') ∧
      Holds name servers sigLevel (Text.universalNewlines file') start stop ∧
      (∀ s e, sectionBounds (Text.universalNewlines file) name = some (s, e) →
        (Text.universalNewlines file').take start = (Text.universalNewlines file).take s ∧
        (Text.universalNewlines file').drop stop = (Text.universalNewlines file).drop e) ∧
      (sectionBounds (Text.universalNewlines file) name = none →
        (Text.universalNewlines file').take start =
          rstripNewlines (Text.universalNewlines file) ++ ['\n', '\n'] ∧
        (Text.universalNewlines file').drop stop = []) := by
  have hreturn := Text.return_notMem_universalNewlines file
  have hwanted := return_notMem_buildSection hargs
  generalize htext : Text.universalNewlines file = text at hreturn
  rcases exists_section name text with hnone | ⟨ls, h, body, tail, hs⟩
  · have hbounds := (sectionBounds_eq_none_iff hargs.name.1 text).mpr hnone
    let lines := (rstripNewlines text).splitOn '\n' ++ [[]]
    have hlines : Text.unlines lines = rstripNewlines text ++ ['\n', '\n'] := by
      rw [Text.unlines_append, Text.unlines_eq_append (List.splitOn_ne_nil _ _),
        Text.joinLines_splitOn, List.append_assoc]
      rfl
    have hheaders : ∀ l ∈ lines, isHeader name l = false := by
      refine List.forall_mem_append.mpr ⟨fun l hl => hnone l (mem_splitOn_rstripNewlines hl), ?_⟩
      simp [isHeader, matchHeader, Text.dropPrefix]
    have hls : Text.Lines lines :=
      Text.lines_append.mpr ⟨Text.lines_splitOn (rstripNewlines text), by simp [Text.Lines]⟩
    have hholds : Holds name servers sigLevel
        (Text.unlines lines ++ buildSection name servers sigLevel ++ behind [])
        (Text.unlines lines).length
        ((Text.unlines lines).length + (buildSection name servers sigLevel).length) :=
      holds_written hargs hls (by simp [Text.Lines]) hheaders (by simp)
    have hslices := slices (Text.unlines lines) (buildSection name servers sigLevel) []
    have hnew : '\r' ∉ Text.unlines lines ++ buildSection name servers sigLevel ++ [] := by
      obtain ⟨k, hk⟩ := rstripNewlines_append text
      have hkept : '\r' ∉ rstripNewlines text := fun hmem => by
        rw [hk] at hreturn
        exact hreturn (List.mem_append_left _ hmem)
      rw [hlines]
      simp [hkept, hwanted]
    have hself := Text.universalNewlines_eq_self hnew
    refine ⟨true, Text.unlines lines ++ buildSection name servers sigLevel ++ [],
      (Text.unlines lines).length,
      (Text.unlines lines).length + (buildSection name servers sigLevel).length, ?_, ?_, ?_, ?_⟩
    · unfold present
      simp only [htext, hbounds]
      rw [← hlines, List.append_nil]
    · rw [hself]
      exact hholds
    · intro s e hsome
      rw [hbounds] at hsome
      cases hsome
    · intro _
      rw [hself, ← hlines]
      exact ⟨hslices.1, hslices.2.2⟩
  · have hbounds := hs.bounds hargs.name.1
    have htake := hs.take
    have hdrop := hs.drop
    by_cases hsame : (text.drop (Text.unlines ls).length).take
        ((ended (ls ++ h :: body) tail).length - (Text.unlines ls).length) =
        buildSection name servers sigLevel
    · have hholds : Holds name servers sigLevel (Text.universalNewlines file)
          (Text.unlines ls).length (ended (ls ++ h :: body) tail).length := by
        rw [htext]
        exact ⟨hbounds, hsame⟩
      refine ⟨false, file, _, _, present_of_holds hholds, hholds, fun s e hsome => ?_,
        fun hnone => ?_⟩
      · rw [hbounds] at hsome
        obtain ⟨rfl, rfl⟩ := Prod.mk.inj (Option.some.inj hsome)
        rw [htext]
        exact ⟨rfl, rfl⟩
      · rw [hbounds] at hnone
        cases hnone
    · have hlines := Text.lines_splitOn text
      rw [hs.lines_eq, Text.lines_append, Text.lines_cons, Text.lines_append] at hlines
      have hholds := holds_written hargs hlines.1 hlines.2.2.2 hs.no_header hs.bracket
      have hslices := slices (Text.unlines ls) (buildSection name servers sigLevel) (behind tail)
      have hnew : '\r' ∉ Text.unlines ls ++ buildSection name servers sigLevel ++ behind tail := by
        rw [← htake, ← hdrop]
        intro hmem
        rcases List.mem_append.mp hmem with hmem | hmem
        · rcases List.mem_append.mp hmem with hmem | hmem
          · exact hreturn (List.mem_of_mem_take hmem)
          · exact hwanted hmem
        · exact hreturn (List.mem_of_mem_drop hmem)
      have hself := Text.universalNewlines_eq_self hnew
      refine ⟨true, Text.unlines ls ++ buildSection name servers sigLevel ++ behind tail,
        (Text.unlines ls).length,
        (Text.unlines ls).length + (buildSection name servers sigLevel).length, ?_, ?_, ?_, ?_⟩
      · unfold present
        simp only [htext, hbounds]
        rw [if_neg hsame, htake, hdrop]
      · rw [hself]
        exact hholds
      · intro s e hsome
        rw [hbounds] at hsome
        obtain ⟨rfl, rfl⟩ := Prod.mk.inj (Option.some.inj hsome)
        rw [hself, htake, hdrop]
        exact ⟨hslices.1, hslices.2.2⟩
      · intro hnone
        rw [hbounds] at hnone
        cases hnone

/-- Collapsing newlines leaves the lines that are not empty, and what the text starts with. -/
theorem nonemptyLines_collapseNewlines (run : ℕ) (text : List Char) :
    nonemptyLines (collapseNewlines run text) = nonemptyLines text ∧
      (run = 0 → ((collapseNewlines run text).splitOn '\n').head? = (text.splitOn '\n').head?) := by
  have hnewline (text : List Char) : ('\n' :: text).splitOn '\n' = [] :: text.splitOn '\n' := by
    rw [List.splitOn_cons_eq_if_modifyHead, if_pos (by simp)]
  unfold nonemptyLines
  induction text generalizing run with
  | nil => exact ⟨rfl, fun _ => rfl⟩
  | cons c rest ih =>
      by_cases hc : c = '\n'
      · subst hc
        by_cases hrun : run < 2
        · rw [collapseNewlines, if_pos rfl, if_pos hrun, hnewline, hnewline]
          exact ⟨by simpa using (ih (run + 1)).1, fun _ => rfl⟩
        · rw [collapseNewlines, if_pos rfl, if_neg hrun, hnewline]
          exact ⟨by simpa using (ih run).1, fun h => absurd h (by omega)⟩
      · obtain ⟨hlines, hfirst⟩ := ih 0
        obtain ⟨first, others, heq⟩ :=
          List.exists_cons_of_ne_nil (List.splitOn_ne_nil '\n' (collapseNewlines 0 rest))
        obtain ⟨first', others', heq'⟩ :=
          List.exists_cons_of_ne_nil (List.splitOn_ne_nil '\n' rest)
        have hsplit (text : List Char) :
            (c :: text).splitOn '\n' = (text.splitOn '\n').modifyHead (List.cons c) := by
          rw [List.splitOn_cons_eq_if_modifyHead, if_neg (by simpa using hc)]
        have hfirst' := hfirst rfl
        rw [heq, heq', List.head?_cons, List.head?_cons] at hfirst'
        obtain rfl := Option.some.inj hfirst'
        have hothers : others.filter (· ≠ []) = others'.filter (· ≠ []) := by
          rw [heq, heq', List.filter_cons, List.filter_cons] at hlines
          split_ifs at hlines
          · exact (List.cons.inj hlines).2
          · exact hlines
        rw [collapseNewlines, if_neg hc, hsplit, hsplit, heq, heq', List.modifyHead_cons,
          List.modifyHead_cons]
        refine ⟨?_, fun _ => rfl⟩
        rw [List.filter_cons_of_pos (by simp), List.filter_cons_of_pos (by simp), hothers]

theorem mem_of_mem_collapseNewlines {c : Char} {run : ℕ} {text : List Char}
    (hc : c ∈ collapseNewlines run text) : c ∈ text := by
  induction text generalizing run with
  | nil => exact hc
  | cons d rest ih =>
      rw [collapseNewlines] at hc
      split_ifs at hc
      · rcases List.mem_cons.mp hc with rfl | hc
        · exact List.mem_cons_self
        · exact List.mem_cons_of_mem d (ih hc)
      · exact List.mem_cons_of_mem d (ih hc)
      · rcases List.mem_cons.mp hc with rfl | hc
        · exact List.mem_cons_self
        · exact List.mem_cons_of_mem d (ih hc)

theorem nonemptyLines_unlines (hls : Text.Lines ls) :
    nonemptyLines (Text.unlines ls) = ls.filter (· ≠ []) := by
  have hsplit := Text.splitOn_unlines_append hls []
  rw [List.append_nil] at hsplit
  rw [nonemptyLines, hsplit, List.filter_append]
  simp [List.splitOn_nil]

/-- The lines of a text that is put together behind a newline. -/
theorem nonemptyLines_unlines_append (hls : Text.Lines ls) (text : List Char) :
    nonemptyLines (Text.unlines ls ++ text) =
      nonemptyLines (Text.unlines ls) ++ nonemptyLines text := by
  rw [nonemptyLines_unlines hls, nonemptyLines, Text.splitOn_unlines_append hls, List.filter_append, nonemptyLines]

theorem ne_nil_of_isHeader {l : List Char} (hl : isHeader name l = true) : l ≠ [] := by
  rintro rfl
  cases hl

/-- A header line is one of the lines that are not empty. -/
theorem sectionBounds_eq_none_iff_nonempty (hname : '\n' ∉ name) (text : List Char) :
    sectionBounds text name = none ↔ ∀ l ∈ nonemptyLines text, isHeader name l = false := by
  rw [sectionBounds_eq_none_iff hname]
  constructor
  · intro hnone l hl
    exact hnone l (List.mem_filter.mp hl).1
  · intro hnone l hl
    by_contra hheader
    rw [Bool.not_eq_false] at hheader
    have hmem : l ∈ nonemptyLines text :=
      List.mem_filter.mpr ⟨hl, by simpa using ne_nil_of_isHeader hheader⟩
    rw [hnone l hmem] at hheader
    cases hheader

/-- The number of sections of a name in a text. -/
def headers (name content : List Char) : ℕ := (content.splitOn '\n').countP (isHeader name)

/-- Behind the only section of a name there is no header of it. -/
theorem Section.no_header_behind {content : List Char}
    (hs : Section name content ls h body tail) (hone : headers name content ≤ 1) :
    ∀ l ∈ tail, isHeader name l = false := by
  intro l hl
  by_contra hheader
  rw [Bool.not_eq_false] at hheader
  have hpos : 0 < tail.countP (isHeader name) := List.countP_pos_iff.mpr ⟨l, hl, hheader⟩
  rw [headers, hs.lines_eq, List.countP_append, List.countP_cons_of_pos hs.header,
    List.countP_append] at hone
  omega

theorem nonemptyLines_behind (htail : Text.Lines tail) :
    nonemptyLines (behind tail) = tail.filter (· ≠ []) := by
  cases tail with
  | nil => rfl
  | cons r rest => rw [nonemptyLines, behind, Text.joinLines,
      List.splitOn_intercalate '\n' htail (List.cons_ne_nil r rest)]

/-- A file without a section of the name is left alone. -/
theorem absent_of_none {file : List Char}
    (hnone : sectionBounds (Text.universalNewlines file) name = none) :
    absent name (some file) = (.ok ⟨name, false⟩, some file) := by
  unfold absent
  simp only [hnone]

/-- What `absent` leaves: the lines in front of the section and behind it, and no section where
there was one at most. -/
theorem absent_spec (hname : OneLine name) (file : List Char) :
    ∃ changed file', absent name (some file) = (.ok ⟨name, changed⟩, some file') ∧
      (∀ s e, sectionBounds (Text.universalNewlines file) name = some (s, e) →
        nonemptyLines (Text.universalNewlines file') =
          nonemptyLines ((Text.universalNewlines file).take s) ++
            nonemptyLines ((Text.universalNewlines file).drop e)) ∧
      (sectionBounds (Text.universalNewlines file) name = none → file' = file) ∧
      (headers name (Text.universalNewlines file) ≤ 1 →
        sectionBounds (Text.universalNewlines file') name = none) := by
  have hreturn := Text.return_notMem_universalNewlines file
  generalize htext : Text.universalNewlines file = text at hreturn
  rcases exists_section name text with hnone | ⟨ls, h, body, tail, hs⟩
  · have hbounds := (sectionBounds_eq_none_iff hname.1 text).mpr hnone
    refine ⟨false, file, absent_of_none (by rw [htext]; exact hbounds), fun s e hsome => ?_,
      fun _ => rfl, fun _ => by rw [htext]; exact hbounds⟩
    rw [hbounds] at hsome
    cases hsome
  · have hbounds := hs.bounds hname.1
    have htake := hs.take
    have hdrop := hs.drop
    have hlines := Text.lines_splitOn text
    rw [hs.lines_eq, Text.lines_append, Text.lines_cons, Text.lines_append] at hlines
    have hkept : nonemptyLines (collapseNewlines 0 (Text.unlines ls ++ behind tail)) =
        nonemptyLines (Text.unlines ls) ++ nonemptyLines (behind tail) := by
      rw [(nonemptyLines_collapseNewlines 0 _).1, nonemptyLines_unlines_append hlines.1]
    have hnew : '\r' ∉ collapseNewlines 0 (Text.unlines ls ++ behind tail) := by
      rw [← htake, ← hdrop]
      intro hmem
      rcases List.mem_append.mp (mem_of_mem_collapseNewlines hmem) with hmem | hmem
      · exact hreturn (List.mem_of_mem_take hmem)
      · exact hreturn (List.mem_of_mem_drop hmem)
    have hself := Text.universalNewlines_eq_self hnew
    refine ⟨true, collapseNewlines 0 (Text.unlines ls ++ behind tail), ?_, fun s e hsome => ?_,
      fun hnone => ?_, fun hone => ?_⟩
    · unfold absent
      simp only [htext, hbounds]
      rw [htake, hdrop]
    · rw [hbounds] at hsome
      obtain ⟨rfl, rfl⟩ := Prod.mk.inj (Option.some.inj hsome)
      rw [hself, htake, hdrop, hkept]
    · rw [hbounds] at hnone
      cases hnone
    · rw [hself, sectionBounds_eq_none_iff_nonempty hname.1, hkept,
        nonemptyLines_unlines hlines.1, nonemptyLines_behind hlines.2.2.2]
      refine List.forall_mem_append.mpr ⟨fun l hl => ?_, fun l hl => ?_⟩
      · exact hs.no_header l (List.mem_filter.mp hl).1
      · exact hs.no_header_behind hone l (List.mem_filter.mp hl).1

/-- The sections converge. After `present` the section of the name is the wanted one, between
the same texts, or at the end behind the old text, whose newlines at the end became one blank
line; after `absent` the lines around the first section are kept, and no section is left where
there was one at most. Neither changes anything a second time. -/
theorem sections_converge (hargs : OneLineArguments name servers sigLevel) (file : List Char) :
    (∃ changed file' start stop,
      present name servers sigLevel (some file) = (.ok ⟨name, changed⟩, some file') ∧
      Holds name servers sigLevel (Text.universalNewlines file') start stop ∧
      (∀ s e, sectionBounds (Text.universalNewlines file) name = some (s, e) →
        (Text.universalNewlines file').take start = (Text.universalNewlines file).take s ∧
        (Text.universalNewlines file').drop stop = (Text.universalNewlines file).drop e) ∧
      (sectionBounds (Text.universalNewlines file) name = none →
        (Text.universalNewlines file').take start =
          rstripNewlines (Text.universalNewlines file) ++ ['\n', '\n'] ∧
        (Text.universalNewlines file').drop stop = []) ∧
      present name servers sigLevel (some file') = (.ok ⟨name, false⟩, some file')) ∧
    ∃ changed file',
      absent name (some file) = (.ok ⟨name, changed⟩, some file') ∧
      (∀ s e, sectionBounds (Text.universalNewlines file) name = some (s, e) →
        nonemptyLines (Text.universalNewlines file') =
          nonemptyLines ((Text.universalNewlines file).take s) ++
            nonemptyLines ((Text.universalNewlines file).drop e)) ∧
      (sectionBounds (Text.universalNewlines file) name = none → file' = file) ∧
      (headers name (Text.universalNewlines file) ≤ 1 →
        sectionBounds (Text.universalNewlines file') name = none ∧
        absent name (some file') = (.ok ⟨name, false⟩, some file')) := by
  constructor
  · obtain ⟨changed, file', start, stop, hpresent, hholds, hfound, hnone⟩ := present_spec hargs file
    exact ⟨changed, file', start, stop, hpresent, hholds, hfound, hnone, present_of_holds hholds⟩
  · obtain ⟨changed, file', habsent, hkept, hnone, hgone⟩ := absent_spec hargs.name file
    exact ⟨changed, file', habsent, hkept, hnone, fun hone =>
      ⟨hgone hone, absent_of_none (hgone hone)⟩⟩

/-- A repository in a file that has its section already. -/
theorem sections_converge_core :
    OneLineArguments "core".toList ["u".toList] [] ∧
    (∃ changed file' start stop,
      present "core".toList ["u".toList] [] (some "[core]\n".toList) =
        (.ok ⟨"core".toList, changed⟩, some file') ∧
      Holds "core".toList ["u".toList] [] (Text.universalNewlines file') start stop) ∧
    ∃ changed file',
      absent "core".toList (some "[core]\n".toList) = (.ok ⟨"core".toList, changed⟩, some file') ∧
      sectionBounds (Text.universalNewlines file') "core".toList = none := by
  have hargs : OneLineArguments "core".toList ["u".toList] [] :=
    ⟨⟨by decide, by decide⟩, by simp [OneLine], ⟨by decide, by decide⟩⟩
  obtain ⟨⟨changed, file', start, stop, hpresent, hholds, -⟩, removed, left, habsent, -, -, hgone⟩ :=
    sections_converge hargs "[core]\n".toList
  exact ⟨hargs, ⟨changed, file', start, stop, hpresent, hholds⟩, removed, left, habsent,
    (hgone (by decide)).1⟩

/-- A file that ends in blank lines loses them when a section is appended, and of a section
that stands twice one is left, which a second call removes. -/
theorem sections_not_converging :
    sectionBounds "a\n\n\n\n".toList "x".toList = none ∧
    present "x".toList [] [] (some "a\n\n\n\n".toList) =
      (.ok ⟨"x".toList, true⟩, some "a\n\n[x]\n".toList) ∧
    sectionBounds "a\n\n[x]\n".toList "x".toList = some (3, 7) ∧
    "a\n\n[x]\n".toList.take 3 ≠ "a\n\n\n\n".toList ∧
    absent "x".toList (some "[x]\n[x]\n".toList) =
      (.ok ⟨"x".toList, true⟩, some "[x]\n".toList) ∧
    sectionBounds "[x]\n".toList "x".toList = some (0, 4) ∧
    absent "x".toList (some "[x]\n".toList) = (.ok ⟨"x".toList, true⟩, some []) := by
  decide

end PacmanRepository

end Rmote
