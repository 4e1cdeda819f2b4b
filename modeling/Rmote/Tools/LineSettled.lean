import Rmote.Tools.LineInFile

/-!
# A second call with the same arguments

After one call of `line_in_file` the file should have the line, and a second call should
find nothing to do. Two kinds of input miss this. Where the first match is replaced by a
line that does not match itself, the second call goes on to the next match. And an empty
line at the end of a text without a newline there is no line when the text is read again.
`Converges` is the condition on the text and the arguments that leaves out exactly these.
-/

namespace Rmote

namespace FileSystem

/-- The regular expression is found in the line. -/
def LineInFile.found (call : LineInFile) (line : List Char) : Bool :=
  match call.regexp with
  | some pattern => pattern line
  | none => false

/-- The lines of a text that is made of these lines and an ending: an empty last line that
nothing ends is lost. -/
def resplit (ending : List Char) (lines : List (List Char)) : List (List Char) :=
  if ending = [] ∧ lines.getLast? = some [] then lines.dropLast else lines

/-- A second call finds nothing to do. Where the first match is replaced and the line does
not match, no other line that stays may match; and an empty line at the end of a text without
a newline there is only kept as the line of another place. -/
structure Converges (call : LineInFile) (text : List Char) : Prop where
  once : call.mode = .first → call.found call.line = false →
    (resplit (Text.ending text) (Text.splitlines text)).countP call.found ≤ 1
  empty : call.line = [] → Text.ending text = [] →
    if (Text.splitlines text).any call.found then
      ∃ l ∈ (Text.splitlines text).dropLast, call.found l = true ∨ sameLine call.strip l [] = true
    else
      ∃ l ∈ Text.splitlines text, sameLine call.strip l [] = true

/-- The text has the line as one of its lines. -/
def Contains (call : LineInFile) (text : List Char) : Prop :=
  ∃ l ∈ Text.splitlines text, sameLine call.strip l call.line = true

/-- The file has the line, and a call leaves it alone and answers with an empty diff. -/
def Settled (D : Differ) (call : LineInFile) (file : Option (List Char)) : Prop :=
  Contains call (Text.universalNewlines (file.getD [])) ∧ lineInFile D call file = (.ok [], file)

/-- The lines have the wanted one, and those that a call replaces are it already. -/
structure Fixed (call : LineInFile) (lines : List (List Char)) : Prop where
  has : ∃ l ∈ lines, sameLine call.strip l call.line = true
  first : call.mode = .first → ∀ x, lines.find? call.found = some x → x = call.line
  all : call.mode = .all → ∀ x ∈ lines, call.found x = true → x = call.line

variable {call : LineInFile} {lines before after : List (List Char)} {x : List Char}

@[simp] theorem sameLine_self (strip : Bool) (line : List Char) : sameLine strip line line = true := by
  cases strip <;> simp [sameLine]

theorem found_eq {pattern : List Char → Bool} (h : call.regexp = some pattern) :
    call.found = pattern := by
  funext l
  rw [LineInFile.found, h]

theorem unmatched_iff : Unmatched call lines ↔ ∀ l ∈ lines, call.found l = false := by
  unfold Unmatched LineInFile.found
  cases call.regexp with
  | none => simp
  | some pattern => simp

theorem find?_of_unmatched (h : ∀ l ∈ lines, call.found l = false) :
    lines.find? call.found = none :=
  List.find?_eq_none.mpr fun l hl => by simp [h l hl]

theorem find?_append_cons (hbefore : ∀ l ∈ before, call.found l = false)
    (hx : call.found x = true) : (before ++ x :: after).find? call.found = some x := by
  rw [List.find?_append, find?_of_unmatched hbefore, Option.none_or, List.find?_cons_of_pos hx]

/-- Lines that have the wanted one are left alone exactly when those that would be replaced
are it already. -/
theorem edit_fixed_iff (hplain : ∀ l ∈ lines, Text.Plain l) (hline : Text.Plain call.line)
    (hhas : ∃ l ∈ lines, sameLine call.strip l call.line = true) :
    (∀ lines', edit call lines = some lines' → Text.joinLines lines' = Text.joinLines lines) ↔
      Fixed call lines := by
  have hne : lines ≠ [] := by
    obtain ⟨l, hl, -⟩ := hhas
    exact List.ne_nil_of_mem hl
  rcases edit_cases call lines with ⟨hedit, hnone, -⟩ | ⟨-, habsent, -⟩ |
    ⟨pattern, before, x, after, hregexp, hmode, rfl, hbefore, hx, hedit⟩ |
    ⟨pattern, hregexp, hmode, hmatch, hedit⟩
  · have hfound := unmatched_iff.mp hnone
    refine iff_of_true (fun lines' h => ?_) ⟨hhas, fun _ x hx => ?_, ?_⟩
    · rw [hedit] at h
      cases h
    · rw [find?_of_unmatched hfound] at hx
      cases hx
    · intro _ x hx htrue
      rw [hfound x hx] at htrue
      cases htrue
  · obtain ⟨l, hl, hsame⟩ := hhas
    rw [habsent l hl] at hsame
    cases hsame
  · rw [← found_eq hregexp] at hbefore hx
    have hedited : ∀ l ∈ before ++ call.line :: after, Text.Plain l := by
      intro l hl
      rcases List.mem_append.mp hl with hl | hl
      · exact hplain l (List.mem_append_left _ hl)
      · rcases List.mem_cons.mp hl with rfl | hl
        · exact hline
        · exact hplain l (List.mem_append_right _ (List.mem_cons_of_mem x hl))
    constructor
    · intro h
      have heq := (Text.joinLines_inj hedited hplain (by simp) hne).mp (h _ hedit)
      have hxline : x = call.line := by simpa using heq.symm
      refine ⟨hhas, fun _ y hy => ?_, fun hall => ?_⟩
      · rw [find?_append_cons hbefore hx] at hy
        exact Option.some.inj hy ▸ hxline
      · rw [hmode] at hall
        cases hall
    · intro h lines' hlines'
      have hxline := h.first hmode x (find?_append_cons hbefore hx)
      rw [hedit] at hlines'
      rw [← Option.some.inj hlines', hxline]
  · rw [← found_eq hregexp] at hedit
    have hedited : ∀ l ∈ lines.map (fun l => if call.found l then call.line else l),
        Text.Plain l := by
      intro l hl
      obtain ⟨m, hm, rfl⟩ := List.mem_map.mp hl
      split_ifs
      · exact hline
      · exact hplain m hm
    constructor
    · intro h
      have heq := (Text.joinLines_inj hedited hplain (by simpa using hne) hne).mp (h _ hedit)
      refine ⟨hhas, fun hfirst => ?_, fun _ x hx hfound => ?_⟩
      · rw [hmode] at hfirst
        cases hfirst
      · have hself := List.map_inj_left.mp (heq.trans (List.map_id lines).symm) x hx
        rw [if_pos hfound] at hself
        exact hself.symm
    · intro h lines' hlines'
      rw [hedit] at hlines'
      rw [← Option.some.inj hlines']
      refine congrArg Text.joinLines ((List.map_congr_left fun l hl => ?_).trans (List.map_id lines))
      split_ifs with hfound
      · exact (h.all hmode l hl hfound).symm
      · rfl

theorem resplit_append_cons (e x : List Char) (before : List (List Char)) (h : after ≠ []) :
    resplit e (before ++ x :: after) = before ++ x :: resplit e after := by
  have hlast : (before ++ x :: after).getLast? = after.getLast? := by
    rw [List.getLast?_append_of_ne_nil _ (by simp), List.getLast?_cons_of_ne_nil h]
  have hdrop : (before ++ x :: after).dropLast = before ++ x :: after.dropLast := by
    rw [List.dropLast_append_of_ne_nil (by simp), List.dropLast_cons_of_ne_nil h]
  rw [resplit, resplit, hlast, hdrop]
  split_ifs <;> rfl

theorem resplit_append_singleton (e x : List Char) (before : List (List Char)) :
    resplit e (before ++ [x]) = if e = [] ∧ x = [] then before else before ++ [x] := by
  rw [resplit, List.getLast?_concat, List.dropLast_concat]
  simp only [Option.some.injEq]

theorem resplit_sublist (e : List Char) (lines : List (List Char)) : (resplit e lines).Sublist lines := by
  unfold resplit
  split_ifs
  · exact List.dropLast_sublist lines
  · exact List.Sublist.refl lines

/-- An appended line is there afterwards unless it is empty and nothing ends it. -/
theorem fixed_append (hnone : ∀ l ∈ lines, call.found l = false)
    (habsent : ∀ l ∈ lines, sameLine call.strip l call.line = false) (e : List Char) :
    Fixed call (resplit e (lines ++ [call.line])) ↔ ¬ (e = [] ∧ call.line = []) := by
  rw [resplit_append_singleton]
  split_ifs with hlost
  · refine iff_of_false (fun h => ?_) (not_not.mpr hlost)
    obtain ⟨l, hl, hsame⟩ := h.has
    rw [habsent l hl] at hsame
    cases hsame
  · refine iff_of_true ⟨⟨call.line, by simp, sameLine_self _ _⟩, fun _ x hx => ?_, fun _ x hx hfound => ?_⟩
      hlost
    · rw [List.find?_append, find?_of_unmatched hnone, Option.none_or] at hx
      exact List.mem_singleton.mp (List.mem_of_find?_eq_some hx)
    · rcases List.mem_append.mp hx with hx | hx
      · rw [hnone x hx] at hfound
        cases hfound
      · exact List.mem_singleton.mp hx

/-- The first match was replaced. Afterwards the line has to be there, and where it does not
match itself, no other match may stay. -/
theorem fixed_first (hmode : call.mode = .first) (hbefore : ∀ l ∈ before, call.found l = false)
    (hx : call.found x = true) (e : List Char) :
    Fixed call (resplit e (before ++ call.line :: after)) ↔
      (call.found call.line = false →
        (resplit e (before ++ x :: after)).countP call.found ≤ 1) ∧
      (call.line = [] → e = [] → ∃ l ∈ (before ++ x :: after).dropLast,
        call.found l = true ∨ sameLine call.strip l [] = true) := by
  have hnotall : call.mode ≠ .all := by rw [hmode]; simp
  have hcount : before.countP call.found = 0 :=
    List.countP_eq_zero.mpr fun l hl => by simp [hbefore l hl]
  by_cases hafter : after = []
  · subst hafter
    have hone : (resplit e (before ++ [x])).countP call.found ≤ 1 := by
      refine ((resplit_sublist e _).countP_le).trans ?_
      simp [hcount, hx]
    rw [resplit_append_singleton, List.dropLast_concat]
    split_ifs with hlost
    · obtain ⟨he, hline⟩ := hlost
      constructor
      · intro h
        obtain ⟨l, hl, hsame⟩ := h.has
        exact ⟨fun _ => hone, fun _ _ => ⟨l, hl, .inr (hline ▸ hsame)⟩⟩
      · rintro ⟨-, hempty⟩
        obtain ⟨l, hl, hfound | hsame⟩ := hempty hline he
        · rw [hbefore l hl] at hfound
          cases hfound
        · refine ⟨⟨l, hl, hline ▸ hsame⟩, fun _ y hy => ?_, fun h => absurd h hnotall⟩
          rw [find?_of_unmatched hbefore] at hy
          cases hy
    · refine iff_of_true ⟨⟨call.line, by simp, sameLine_self _ _⟩, fun _ y hy => ?_,
        fun h => absurd h hnotall⟩ ⟨fun _ => hone, fun hline he => absurd ⟨he, hline⟩ hlost⟩
      rw [List.find?_append, find?_of_unmatched hbefore, Option.none_or] at hy
      exact List.mem_singleton.mp (List.mem_of_find?_eq_some hy)
  · rw [resplit_append_cons _ _ _ hafter, resplit_append_cons _ _ _ hafter, List.countP_append,
      hcount, List.countP_cons_of_pos hx]
    have hkept : ∃ l ∈ (before ++ x :: after).dropLast,
        call.found l = true ∨ sameLine call.strip l [] = true := by
      rw [List.dropLast_append_of_ne_nil (by simp), List.dropLast_cons_of_ne_nil hafter]
      exact ⟨x, by simp, .inl hx⟩
    cases hline : call.found call.line with
    | true =>
        refine iff_of_true ⟨⟨call.line, by simp, sameLine_self _ _⟩, fun _ y hy => ?_,
          fun h => absurd h hnotall⟩ ⟨fun h => by simp at h, fun _ _ => hkept⟩
        rw [find?_append_cons hbefore hline] at hy
        exact (Option.some.inj hy).symm
    | false =>
        constructor
        · intro h
          refine ⟨fun _ => ?_, fun _ _ => hkept⟩
          have hrest : (resplit e after).find? call.found = none := by
            refine Option.eq_none_iff_forall_ne_some.mpr fun y hy => ?_
            have hfind : (before ++ call.line :: resplit e after).find? call.found = some y := by
              rw [List.find?_append, find?_of_unmatched hbefore, Option.none_or,
                List.find?_cons_of_neg (by simp [hline]), hy]
            have hyline := h.first hmode y hfind
            have hyfound := List.find?_some hy
            rw [hyline, hline] at hyfound
            cases hyfound
          have hzero : (resplit e after).countP call.found = 0 :=
            List.countP_eq_zero.mpr fun l hl => List.find?_eq_none.mp hrest l hl
          omega
        · rintro ⟨hone, -⟩
          have hzero : (resplit e after).countP call.found = 0 := by
            have := hone rfl
            omega
          have hrest : (resplit e after).find? call.found = none :=
            List.find?_eq_none.mpr fun l hl => List.countP_eq_zero.mp hzero l hl
          refine ⟨⟨call.line, by simp, sameLine_self _ _⟩, fun _ y hy => ?_,
            fun h => absurd h hnotall⟩
          rw [List.find?_append, find?_of_unmatched hbefore, Option.none_or,
            List.find?_cons_of_neg (by simp [hline]), hrest] at hy
          cases hy

/-- All matches were replaced. Afterwards only the line can match, so it only has to be
there. -/
theorem fixed_all (hmode : call.mode = .all) (hmatch : ∃ l ∈ lines, call.found l = true)
    (e : List Char) :
    Fixed call (resplit e (lines.map fun l => if call.found l then call.line else l)) ↔
      (call.line = [] → e = [] → ∃ l ∈ lines.dropLast,
        call.found l = true ∨ sameLine call.strip l [] = true) := by
  let f : List Char → List Char := fun l => if call.found l then call.line else l
  have hfixed : ∀ ls : List (List Char), Fixed call (ls.map f) ↔
      ∃ l ∈ ls.map f, sameLine call.strip l call.line = true := by
    intro ls
    refine ⟨Fixed.has, fun h => ⟨h, fun hfirst => ?_, fun _ x hx hfound => ?_⟩⟩
    · rw [hmode] at hfirst
      cases hfirst
    · obtain ⟨l, -, rfl⟩ := List.mem_map.mp hx
      simp only [f] at hfound ⊢
      split_ifs at hfound ⊢ with hl
      · rfl
      · exact absurd hfound hl
  obtain ⟨before, z, rfl⟩ : ∃ before z, lines = before ++ [z] := by
    obtain ⟨l, hl, -⟩ := hmatch
    exact ⟨lines.dropLast, lines.getLast (List.ne_nil_of_mem hl),
      (List.dropLast_append_getLast (List.ne_nil_of_mem hl)).symm⟩
  have hmap : (before ++ [z]).map f = before.map f ++ [f z] := by simp
  obtain ⟨m, hm, hfound⟩ := hmatch
  have hm' : f m = call.line := if_pos hfound
  rw [show ((before ++ [z]).map fun l => if call.found l then call.line else l) =
    before.map f ++ [f z] from hmap, resplit_append_singleton, List.dropLast_concat]
  split_ifs with hlost
  · obtain ⟨he, hz⟩ := hlost
    rw [hfixed]
    by_cases hline : call.line = []
    · constructor
      · rintro ⟨l, hl, hsame⟩ - -
        obtain ⟨k, hk, rfl⟩ := List.mem_map.mp hl
        refine ⟨k, hk, ?_⟩
        simp only [f] at hsame
        split_ifs at hsame with hkfound
        · exact .inl hkfound
        · exact .inr (hline ▸ hsame)
      · intro h
        obtain ⟨l, hl, hlfound⟩ := h hline he
        refine ⟨f l, List.mem_map_of_mem hl, ?_⟩
        simp only [f]
        split_ifs with hkfound
        · exact sameLine_self _ _
        · rw [hline]
          exact hlfound.resolve_left hkfound
    · refine iff_of_true ⟨f m, List.mem_map_of_mem ?_, by rw [hm', sameLine_self]⟩
        fun h => absurd h hline
      rcases List.mem_append.mp hm with hm | hm
      · exact hm
      · rw [← List.mem_singleton.mp hm, hm'] at hz
        exact absurd hz hline
  · rw [← hmap, hfixed]
    refine iff_of_true ⟨f m, List.mem_map_of_mem hm, by rw [hm', sameLine_self]⟩ fun hline he => ?_
    refine ⟨m, ?_, .inl hfound⟩
    rcases List.mem_append.mp hm with hm | hm
    · exact hm
    · rw [← List.mem_singleton.mp hm, hm', hline] at hlost
      exact absurd ⟨he, rfl⟩ hlost

/-- The text after an edit of its lines converges exactly under the condition. -/
theorem fixed_iff_converges {text : List Char} {lines : List (List Char)}
    (hedit : edit call (Text.splitlines text) = some lines) :
    Fixed call (resplit (Text.ending text) lines) ↔ Converges call text := by
  rcases edit_cases call (Text.splitlines text) with ⟨hnone, -⟩ | ⟨hnone, habsent, heq⟩ |
    ⟨pattern, before, x, after, hregexp, hmode, hlines, hbefore, hx, heq⟩ |
    ⟨pattern, hregexp, hmode, hmatch, heq⟩
  · rw [hnone] at hedit
    cases hedit
  · rw [heq] at hedit
    obtain rfl := Option.some.inj hedit
    have hfound := unmatched_iff.mp hnone
    rw [fixed_append hfound habsent]
    have hany : (Text.splitlines text).any call.found = false :=
      List.any_eq_false.mpr fun l hl => by simp [hfound l hl]
    constructor
    · intro hkept
      refine ⟨fun _ _ => ?_, fun hline he => absurd ⟨he, hline⟩ hkept⟩
      refine ((resplit_sublist _ _).countP_le).trans ?_
      rw [List.countP_eq_zero.mpr fun l hl => by simp [hfound l hl]]
      omega
    · rintro ⟨-, hempty⟩ ⟨he, hline⟩
      have hthere := hempty hline he
      rw [hany, if_neg (by simp)] at hthere
      obtain ⟨l, hl, hsame⟩ := hthere
      rw [← hline, habsent l hl] at hsame
      cases hsame
  · rw [heq] at hedit
    obtain rfl := Option.some.inj hedit
    rw [← found_eq hregexp] at hbefore hx
    have hany : (Text.splitlines text).any call.found = true := by
      rw [hlines]
      simp [hx]
    rw [fixed_first hmode hbefore hx, ← hlines]
    constructor
    · rintro ⟨honce, hempty⟩
      refine ⟨fun _ => honce, fun hline he => ?_⟩
      rw [if_pos hany]
      exact hempty hline he
    · rintro ⟨honce, hempty⟩
      refine ⟨honce hmode, fun hline he => ?_⟩
      have hthere := hempty hline he
      rwa [if_pos hany] at hthere
  · rw [heq] at hedit
    obtain rfl := Option.some.inj hedit
    rw [← found_eq hregexp] at hmatch ⊢
    have hany : (Text.splitlines text).any call.found = true := List.any_eq_true.mpr hmatch
    rw [fixed_all hmode hmatch]
    constructor
    · intro hempty
      refine ⟨fun hfirst => ?_, fun hline he => ?_⟩
      · rw [hmode] at hfirst
        cases hfirst
      · rw [if_pos hany]
        exact hempty hline he
    · rintro ⟨-, hempty⟩ hline he
      have hthere := hempty hline he
      rwa [if_pos hany] at hthere

/-- An edited line is the wanted one or one of the lines before. -/
theorem mem_edit {lines' : List (List Char)} (hedit : edit call lines = some lines') :
    lines' ≠ [] ∧ ∀ l ∈ lines', l = call.line ∨ l ∈ lines := by
  rcases edit_cases call lines with ⟨hnone, -⟩ | ⟨-, -, heq⟩ |
    ⟨pattern, before, x, after, -, -, rfl, -, -, heq⟩ | ⟨pattern, -, -, ⟨m, hm, -⟩, heq⟩
  · rw [hnone] at hedit
    cases hedit
  · rw [heq] at hedit
    obtain rfl := Option.some.inj hedit
    refine ⟨by simp, fun l hl => ?_⟩
    rcases List.mem_append.mp hl with hl | hl
    · exact .inr hl
    · exact .inl (List.mem_singleton.mp hl)
  · rw [heq] at hedit
    obtain rfl := Option.some.inj hedit
    refine ⟨by simp, fun l hl => ?_⟩
    rcases List.mem_append.mp hl with hl | hl
    · exact .inr (List.mem_append_left _ hl)
    · rcases List.mem_cons.mp hl with rfl | hl
      · exact .inl rfl
      · exact .inr (List.mem_append_right _ (List.mem_cons_of_mem x hl))
  · rw [heq] at hedit
    obtain rfl := Option.some.inj hedit
    refine ⟨by simpa using List.ne_nil_of_mem hm, fun l hl => ?_⟩
    obtain ⟨k, hk, rfl⟩ := List.mem_map.mp hl
    split_ifs
    · exact .inl rfl
    · exact .inr hk

theorem rewrite_eq_none {text : List Char} :
    rewrite call text = none ↔ ∀ lines, edit call (Text.splitlines text) = some lines →
      Text.joinLines lines ++ Text.ending text = text := by
  unfold rewrite
  cases edit call (Text.splitlines text) with
  | none => simp
  | some lines => simp

theorem rewrite_ne {text after : List Char} (h : rewrite call text = some after) : after ≠ text := by
  unfold rewrite at h
  cases hedit : edit call (Text.splitlines text) with
  | none => simp [hedit] at h
  | some lines =>
      simp only [hedit] at h
      split_ifs at h with hsame
      exact Option.some.inj h ▸ hsame

/-- A file is settled when its text has the line and is not rewritten: a diff of two texts
is never empty unless they are the same. -/
theorem settled_iff_rewrite (D : Differ) (call : LineInFile) (content : List Char) :
    Settled D call (some content) ↔
      Contains call (Text.universalNewlines content) ∧
        rewrite call (Text.universalNewlines content) = none := by
  unfold Settled lineInFile
  simp only [Option.isNone_some, Bool.false_and, Bool.false_eq_true, if_false, Option.getD_some]
  cases hrewrite : rewrite call (Text.universalNewlines content) with
  | none => simp
  | some after =>
      have hne := rewrite_ne hrewrite
      have hdiff : D.unifiedDiff (Text.keepends (Text.universalNewlines content))
          (Text.keepends after) ≠ [] := fun h =>
        hne (Text.keepends_injective ((D.eq_nil_iff _ _).mp h)).symm
      simp [hdiff]

/-- What a file is read as after a call, given what it was read as before. -/
theorem universalNewlines_lineInFile {D : Differ} {file file' : Option (List Char)}
    {diff : List Char} (hline : Text.Plain call.line)
    (hcall : lineInFile D call file = (.ok diff, file')) :
    ∃ content, file' = some content ∧ Text.universalNewlines content =
      (rewrite call (Text.universalNewlines (file.getD []))).getD
        (Text.universalNewlines (file.getD [])) := by
  unfold lineInFile at hcall
  split_ifs at hcall
  · cases hcall
  · simp only at hcall
    cases hrewrite : rewrite call (Text.universalNewlines (file.getD [])) with
    | none =>
        rw [hrewrite] at hcall
        exact ⟨file.getD [], (Prod.mk.inj hcall).2.symm, rfl⟩
    | some after =>
        rw [hrewrite] at hcall
        refine ⟨after, (Prod.mk.inj hcall).2.symm, Text.universalNewlines_eq_self ?_⟩
        refine Text.return_notMem_of_onlyNewlines ?_
        unfold rewrite at hrewrite
        cases hedit : edit call (Text.splitlines (Text.universalNewlines (file.getD []))) with
        | none => simp [hedit] at hrewrite
        | some lines =>
            simp only [hedit] at hrewrite
            split_ifs at hrewrite
            obtain rfl := Option.some.inj hrewrite
            refine Text.onlyNewlines_append (Text.onlyNewlines_joinLines fun l hl => ?_)
              (Text.onlyNewlines_ending _)
            rcases (mem_edit hedit).2 l hl with rfl | hl
            · exact hline
            · exact Text.plain_of_mem_splitlines hl

/-- After a successful call with a line without line ends, the file has the line and a second
call with the same arguments leaves it alone, with an empty diff, exactly when the text before
and the arguments meet `Converges`. -/
theorem settled_iff (D : Differ) (call : LineInFile) (file file' : Option (List Char))
    (diff : List Char) (hline : Text.Plain call.line)
    (hcall : lineInFile D call file = (.ok diff, file')) :
    Settled D call file' ↔ Converges call (Text.universalNewlines (file.getD [])) := by
  obtain ⟨content, rfl, htext⟩ := universalNewlines_lineInFile hline hcall
  rw [settled_iff_rewrite, htext]
  generalize Text.universalNewlines (file.getD []) = text
  cases hedit : edit call (Text.splitlines text) with
  | none =>
      have hkept : rewrite call text = none := by
        unfold rewrite
        rw [hedit]
      rw [hkept, Option.getD_none]
      rcases edit_cases call (Text.splitlines text) with ⟨-, hnone, l, hl, hsame⟩ | ⟨-, -, heq⟩ |
        ⟨_, _, _, _, _, _, _, _, _, heq⟩ | ⟨_, _, _, _, heq⟩
      · have hfound := unmatched_iff.mp hnone
        refine iff_of_true ⟨⟨l, hl, hsame⟩, hkept⟩ ⟨fun _ _ => ?_, fun hempty _ => ?_⟩
        · refine ((resplit_sublist _ _).countP_le).trans ?_
          rw [List.countP_eq_zero.mpr fun l hl => by simp [hfound l hl]]
          omega
        · rw [List.any_eq_false.mpr fun l hl => by simp [hfound l hl], if_neg (by simp)]
          exact ⟨l, hl, hempty ▸ hsame⟩
      all_goals
        rw [hedit] at heq
        cases heq
  | some lines =>
      rw [← fixed_iff_converges hedit]
      have hplain : ∀ l ∈ lines, Text.Plain l := by
        intro l hl
        rcases (mem_edit hedit).2 l hl with rfl | hl
        · exact hline
        · exact Text.plain_of_mem_splitlines hl
      have hafter : (rewrite call text).getD text = Text.joinLines lines ++ Text.ending text := by
        unfold rewrite
        simp only [hedit]
        split_ifs with hsame
        · exact hsame.symm
        · rfl
      have hsplit := Text.splitlines_joinLines_ending hplain (mem_edit hedit).1 text
      have honly : Text.OnlyNewlines (Text.joinLines lines ++ Text.ending text) :=
        Text.onlyNewlines_append (Text.onlyNewlines_joinLines hplain) (Text.onlyNewlines_ending text)
      rw [hafter, rewrite_eq_none, Contains]
      generalize Text.joinLines lines ++ Text.ending text = after at hsplit honly ⊢
      have hjoin := (Text.joinLines_splitlines_iff after).mpr honly
      have hsame : ∀ lines', Text.joinLines lines' ++ Text.ending after = after ↔
          Text.joinLines lines' = Text.joinLines (Text.splitlines after) := by
        intro lines'
        nth_rewrite 2 [← hjoin]
        exact List.append_left_inj _
      simp only [hsame]
      have hresplit : resplit (Text.ending text) lines = Text.splitlines after := hsplit.symm
      rw [hresplit]
      have hafterPlain : ∀ l ∈ Text.splitlines after, Text.Plain l := fun l hl =>
        Text.plain_of_mem_splitlines hl
      constructor
      · rintro ⟨hhas, hfixed⟩
        exact (edit_fixed_iff hafterPlain hline hhas).mp hfixed
      · intro hfixed
        exact ⟨hfixed.has, (edit_fixed_iff hafterPlain hline hfixed.has).mpr hfixed⟩

/-- Replace the first line that starts with `foo` by `baz`. -/
def replaceFoo : LineInFile where
  path := "file"
  line := "baz".toList
  regexp := some fun l => l.take 3 == "foo".toList
  strip := true
  create := false
  mode := .first

theorem settled_iff_baz :
    Settled Differ.whole replaceFoo (some "bar\nbaz\n".toList) ↔
      Converges replaceFoo "bar\nbaz\n".toList :=
  settled_iff Differ.whole replaceFoo (some "bar\nbaz\n".toList) (some "bar\nbaz\n".toList) []
    (by decide) (by decide)

/-- With two matches the second call replaces the second one. -/
theorem replaceFoo_not_settled :
    (lineInFile Differ.whole replaceFoo (some "foo\nfoo\nbar\n".toList)).2 =
      some "baz\nfoo\nbar\n".toList ∧
    (lineInFile Differ.whole replaceFoo (some "baz\nfoo\nbar\n".toList)).2 =
      some "baz\nbaz\nbar\n".toList ∧
    ¬ Settled Differ.whole replaceFoo (some "baz\nfoo\nbar\n".toList) := by
  have hsecond : (lineInFile Differ.whole replaceFoo (some "baz\nfoo\nbar\n".toList)).2 =
      some "baz\nbaz\nbar\n".toList := by decide
  refine ⟨by decide, hsecond, fun h => ?_⟩
  rw [h.2] at hsecond
  exact absurd hsecond (by decide)

end FileSystem

end Rmote
