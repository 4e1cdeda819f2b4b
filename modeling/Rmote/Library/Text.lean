import Mathlib.Data.List.Basic
import Mathlib.Data.List.TakeWhile

/-!
# Texts and their lines

A text is a list of characters. `splitlines` cuts it at every character that ends a
line, and there are ten of them besides the pair of a carriage return and a newline;
`newlineLines` cuts it at newlines only. `joinLines` puts newlines between lines. A
text is `universalNewlines` of the file that it was read from, so it holds no carriage
return. Cutting and joining again gives the text back exactly when no other character
in it ends a line.
-/

namespace Text

/-- White space, as `strip` takes it off. -/
def isSpace (c : Char) : Bool :=
  let n := c.toNat
  (9 ≤ n && n ≤ 13) || (28 ≤ n && n ≤ 32) || n = 0x85 || n = 0xa0 || n = 0x1680 ||
    (0x2000 ≤ n && n ≤ 0x200a) || n = 0x2028 || n = 0x2029 || n = 0x202f || n = 0x205f ||
    n = 0x3000

/-- A character that ends a line. -/
def isBoundary (c : Char) : Bool :=
  let n := c.toNat
  (10 ≤ n && n ≤ 13) || (28 ≤ n && n ≤ 30) || n = 0x85 || n = 0x2028 || n = 0x2029

/-- A text on one line. -/
def Plain (line : List Char) : Prop := ∀ c ∈ line, isBoundary c = false

instance (line : List Char) : Decidable (Plain line) := List.decidableBAll _ line

def lstrip (text : List Char) : List Char := text.dropWhile isSpace

def rstrip (text : List Char) : List Char := (text.reverse.dropWhile isSpace).reverse

def strip (text : List Char) : List Char := rstrip (lstrip text)

/-- One more character in front of the first line. -/
def consLine (c : Char) : List (List Char) → List (List Char)
  | [] => [[c]]
  | line :: lines => (c :: line) :: lines

/-- The lines of a text, without what ends them. -/
def splitlines : List Char → List (List Char)
  | [] => []
  | '\r' :: '\n' :: rest => [] :: splitlines rest
  | c :: rest => if isBoundary c then [] :: splitlines rest else consLine c (splitlines rest)

/-- The lines of a text, each with what ends it. -/
def keepends : List Char → List (List Char)
  | [] => []
  | '\r' :: '\n' :: rest => ['\r', '\n'] :: keepends rest
  | c :: rest => if isBoundary c then [c] :: keepends rest else consLine c (keepends rest)

/-- The lines of a text that only newlines separate. -/
def newlineLines : List Char → List (List Char)
  | [] => []
  | c :: rest => if c = '\n' then [] :: newlineLines rest else consLine c (newlineLines rest)

/-- Lines with a newline between each two of them. -/
def joinLines (lines : List (List Char)) : List Char := ['\n'].intercalate lines

/-- The newline at the end of a text, if it has one. -/
def ending (text : List Char) : List Char := if text.getLast? = some '\n' then ['\n'] else []

/-- What a file is read as in text mode: every line ends with a newline. -/
def universalNewlines : List Char → List Char
  | [] => []
  | '\r' :: '\n' :: rest => '\n' :: universalNewlines rest
  | c :: rest => (if c = '\r' then '\n' else c) :: universalNewlines rest

/-- The text in front of the first separator and the text behind it, which is missing
without a separator. -/
def partition (sep : Char) (text : List Char) : List Char × Option (List Char) :=
  (text.takeWhile (· ≠ sep), (text.dropWhile (· ≠ sep)).tail?)

variable {c : Char} {line rest text : List Char} {lines : List (List Char)}

@[simp] theorem plain_nil : Plain [] := by simp [Plain]

@[simp] theorem plain_cons : Plain (c :: line) ↔ isBoundary c = false ∧ Plain line :=
  List.forall_mem_cons

@[simp] theorem plain_append : Plain (line ++ text) ↔ Plain line ∧ Plain text :=
  List.forall_mem_append

theorem ne_newline_of_isBoundary (h : isBoundary c = false) : c ≠ '\n' := by
  rintro rfl
  cases h

/-- The first member with a property, and what is around it. -/
theorem exists_first {α : Type*} (p : α → Bool) (l : List α) :
    (∀ a ∈ l, p a = false) ∨ ∃ before a after, l = before ++ a :: after ∧
      (∀ b ∈ before, p b = false) ∧ p a = true := by
  cases hfind : l.find? p with
  | none =>
      exact .inl fun a ha => by simpa using List.find?_eq_none.mp hfind a ha
  | some a =>
      obtain ⟨ha, before, after, rfl, hbefore⟩ := List.find?_eq_some_iff_append.mp hfind
      exact .inr ⟨before, a, after, rfl, fun b hb => by simpa using hbefore b hb, ha⟩

section Lines

theorem splitlines_pair : splitlines ('\r' :: '\n' :: rest) = [] :: splitlines rest := rfl

/-- Away from a carriage return and a newline together, a line ends at a single character. -/
theorem splitlines_of_not_pair (hpair : ∀ more, c = '\r' → rest = '\n' :: more → False) :
    splitlines (c :: rest) =
      if isBoundary c then [] :: splitlines rest else consLine c (splitlines rest) := by
  rw [splitlines]
  exact hpair

theorem splitlines_cons (h : isBoundary c = false) :
    splitlines (c :: rest) = consLine c (splitlines rest) := by
  rw [splitlines_of_not_pair, h]
  · rfl
  · rintro _ rfl
    cases h

theorem splitlines_boundary (h : isBoundary c = true) (hpair : c = '\r' → rest.head? ≠ some '\n') :
    splitlines (c :: rest) = [] :: splitlines rest := by
  rw [splitlines_of_not_pair, if_pos h]
  rintro _ rfl rfl
  exact hpair rfl rfl

@[simp] theorem splitlines_newline : splitlines ('\n' :: rest) = [] :: splitlines rest :=
  splitlines_boundary rfl fun h => by cases h

theorem consLine_ne_nil : consLine c lines ≠ [] := by
  cases lines <;> simp [consLine]

theorem splitlines_append (h : Plain line) :
    splitlines (line ++ rest) = line.foldr consLine (splitlines rest) := by
  induction line with
  | nil => rfl
  | cons c line ih =>
      rw [plain_cons] at h
      rw [List.cons_append, splitlines_cons h.1, ih h.2, List.foldr_cons]

/-- Characters in front of the first line. -/
theorem foldr_consLine (hne : line ≠ []) :
    line.foldr consLine lines = (line ++ lines.headD []) :: lines.tail := by
  induction line with
  | nil => exact absurd rfl hne
  | cons c line ih =>
      rw [List.foldr_cons]
      by_cases hline : line = []
      · subst hline
        cases lines <;> rfl
      · rw [ih hline]
        rfl

/-- No character of a line ends a line. -/
theorem plain_of_mem_splitlines (h : line ∈ splitlines text) : Plain line := by
  induction text using splitlines.induct generalizing line with
  | case1 => simp [splitlines] at h
  | case2 rest ih =>
      rw [splitlines_pair] at h
      rcases List.mem_cons.mp h with rfl | h
      · exact plain_nil
      · exact ih h
  | case3 c rest hpair hb ih =>
      rw [splitlines_of_not_pair hpair, if_pos hb] at h
      rcases List.mem_cons.mp h with rfl | h
      · exact plain_nil
      · exact ih h
  | case4 c rest hpair hb ih =>
      have hc : isBoundary c = false := by simpa using hb
      rw [splitlines_cons hc] at h
      cases hrest : splitlines rest with
      | nil =>
          rw [hrest, consLine, List.mem_singleton] at h
          rw [h]
          simpa using hc
      | cons first others =>
          rw [hrest, consLine] at h
          rcases List.mem_cons.mp h with rfl | h
          · exact plain_cons.mpr ⟨hc, ih (hrest ▸ List.mem_cons_self)⟩
          · exact ih (hrest ▸ List.mem_cons_of_mem first h)

/-- A line that a newline ends is the first one. -/
theorem splitlines_append_newline (h : Plain line) :
    splitlines (line ++ '\n' :: rest) = line :: splitlines rest := by
  induction line with
  | nil => exact splitlines_newline
  | cons c line ih =>
      rw [plain_cons] at h
      rw [List.cons_append, splitlines_cons h.1, ih h.2]
      rfl

theorem splitlines_plain (h : Plain line) (hne : line ≠ []) : splitlines line = [line] := by
  induction line with
  | nil => exact absurd rfl hne
  | cons c line ih =>
      rw [plain_cons] at h
      rw [splitlines_cons h.1]
      cases line with
      | nil => rfl
      | cons d line => rw [ih h.2 (by simp), consLine]

theorem joinLines_cons (h : lines ≠ []) :
    joinLines (line :: lines) = line ++ '\n' :: joinLines lines := by
  cases lines with
  | nil => exact absurd rfl h
  | cons second others =>
      rw [joinLines, List.intercalate_cons_cons, List.append_assoc]
      rfl

@[simp] theorem joinLines_singleton : joinLines [line] = line := List.intercalate_singleton

/-- Lines can be told from what they are joined to. -/
theorem joinLines_inj {lines' : List (List Char)} (h : ∀ l ∈ lines, Plain l)
    (h' : ∀ l ∈ lines', Plain l) (hne : lines ≠ []) (hne' : lines' ≠ []) :
    joinLines lines = joinLines lines' ↔ lines = lines' := by
  have hnewline : ∀ {l : List Char}, Plain l → '\n' ∉ l := fun hl hmem =>
    ne_newline_of_isBoundary (hl '\n' hmem) rfl
  constructor
  · intro heq
    rw [← List.splitOn_intercalate '\n' (fun l hl => hnewline (h l hl)) hne,
      ← List.splitOn_intercalate '\n' (fun l hl => hnewline (h' l hl)) hne']
    exact congrArg (List.splitOn '\n') heq
  · exact congrArg joinLines

/-- Lines that are joined, with a newline behind the last one, are cut into the same lines. -/
theorem splitlines_joinLines_newline (h : ∀ l ∈ lines, Plain l) (hne : lines ≠ []) :
    splitlines (joinLines lines ++ ['\n']) = lines := by
  induction lines with
  | nil => exact absurd rfl hne
  | cons l lines ih =>
      have hl := h l List.mem_cons_self
      by_cases hlines : lines = []
      · subst hlines
        rw [joinLines_singleton, splitlines_append_newline hl]
        rfl
      · rw [joinLines_cons hlines, List.append_assoc, List.cons_append,
          splitlines_append_newline hl, ih (fun m hm => h m (List.mem_cons_of_mem l hm)) hlines]

/-- Without that newline, an empty last line is lost. -/
theorem splitlines_joinLines (h : ∀ l ∈ lines, Plain l) (hne : lines ≠ []) :
    splitlines (joinLines lines) = if lines.getLast? = some [] then lines.dropLast else lines := by
  induction lines with
  | nil => exact absurd rfl hne
  | cons l lines ih =>
      have hl := h l List.mem_cons_self
      by_cases hlines : lines = []
      · subst hlines
        rw [joinLines_singleton]
        by_cases hempty : l = []
        · rw [hempty]
          rfl
        · rw [splitlines_plain hl hempty]
          simp [hempty]
      · have hrest := ih (fun m hm => h m (List.mem_cons_of_mem l hm)) hlines
        rw [joinLines_cons hlines, splitlines_append_newline hl, hrest,
          List.getLast?_cons_of_ne_nil hlines, List.dropLast_cons_of_ne_nil hlines]
        split_ifs <;> rfl

theorem ending_cases (text : List Char) : ending text = [] ∨ ending text = ['\n'] := by
  unfold ending
  split_ifs
  · exact .inr rfl
  · exact .inl rfl

/-- Lines that are joined and ended like another text are cut into the same lines, but for
an empty last one that nothing ends. -/
theorem splitlines_joinLines_ending (h : ∀ l ∈ lines, Plain l) (hne : lines ≠ [])
    (text : List Char) :
    splitlines (joinLines lines ++ ending text) =
      if ending text = [] ∧ lines.getLast? = some [] then lines.dropLast else lines := by
  rcases ending_cases text with hend | hend
  · rw [hend, List.append_nil, splitlines_joinLines h hne]
    simp
  · rw [hend, splitlines_joinLines_newline h hne, if_neg]
    simp

theorem flatten_keepends (text : List Char) : (keepends text).flatten = text := by
  induction text using keepends.induct with
  | case1 => rfl
  | case2 rest ih =>
      rw [keepends, List.flatten_cons, ih]
      rfl
  | case3 c rest hpair hb ih =>
      rw [keepends, if_pos hb, List.flatten_cons, ih]
      · rfl
      · exact hpair
  | case4 c rest hpair hb ih =>
      rw [keepends, if_neg hb]
      · cases hrest : keepends rest with
        | nil =>
            rw [hrest] at ih
            rw [← ih]
            rfl
        | cons first others =>
            rw [hrest] at ih
            rw [← ih]
            rfl
      · exact hpair

/-- Two texts with the same lines are the same. -/
theorem keepends_injective : Function.Injective keepends := by
  intro a b h
  rw [← flatten_keepends a, h, flatten_keepends]

end Lines

section Newlines

theorem universalNewlines_pair :
    universalNewlines ('\r' :: '\n' :: rest) = '\n' :: universalNewlines rest := rfl

theorem universalNewlines_of_not_pair (hpair : ∀ more, c = '\r' → rest = '\n' :: more → False) :
    universalNewlines (c :: rest) =
      (if c = '\r' then '\n' else c) :: universalNewlines rest := by
  rw [universalNewlines]
  exact hpair

/-- A text that was read in text mode holds no carriage return. -/
theorem return_notMem_universalNewlines (text : List Char) : '\r' ∉ universalNewlines text := by
  induction text using universalNewlines.induct with
  | case1 => exact List.not_mem_nil
  | case2 rest ih => simp [universalNewlines_pair, ih]
  | case3 c rest hpair ih =>
      rw [universalNewlines_of_not_pair hpair, List.mem_cons, not_or]
      refine ⟨?_, ih⟩
      split_ifs with hc
      · decide
      · exact fun h => hc h.symm

theorem universalNewlines_eq_self (h : '\r' ∉ text) : universalNewlines text = text := by
  induction text with
  | nil => rfl
  | cons c rest ih =>
      rw [List.mem_cons, not_or] at h
      rw [universalNewlines_of_not_pair, if_neg (Ne.symm h.1), ih h.2]
      rintro _ rfl
      exact absurd rfl h.1

theorem newlineLines_cons : newlineLines (c :: rest) =
    if c = '\n' then [] :: newlineLines rest else consLine c (newlineLines rest) := rfl

theorem newlineLines_eq_nil : newlineLines text = [] ↔ text = [] := by
  cases text with
  | nil => exact ⟨fun _ => rfl, fun _ => rfl⟩
  | cons c rest =>
      rw [newlineLines_cons]
      split_ifs
      · simp
      · simp [consLine_ne_nil]

/-- A text is its lines, and the newline at its end. -/
theorem joinLines_newlineLines (text : List Char) :
    joinLines (newlineLines text) ++ ending text = text := by
  induction text with
  | nil => rfl
  | cons c rest ih =>
      by_cases hrest : rest = []
      · subst hrest
        by_cases hc : c = '\n'
        · subst hc
          rfl
        · rw [newlineLines_cons, if_neg hc]
          simp [newlineLines, ending, consLine, hc]
      · have hlines : newlineLines rest ≠ [] := fun h => hrest (newlineLines_eq_nil.mp h)
        have hending : ending (c :: rest) = ending rest := by
          rw [ending, ending, List.getLast?_cons_of_ne_nil hrest]
        rw [newlineLines_cons, hending]
        split_ifs with hc
        · rw [joinLines_cons hlines, List.nil_append, List.cons_append, ih, hc]
        · obtain ⟨first, others, hfirst⟩ := List.exists_cons_of_ne_nil hlines
          have hjoin : joinLines (consLine c (newlineLines rest)) =
              c :: joinLines (newlineLines rest) := by
            rw [hfirst, consLine]
            by_cases hothers : others = []
            · rw [hothers, joinLines_singleton, joinLines_singleton]
            · rw [joinLines_cons hothers, joinLines_cons hothers]
              rfl
          rw [hjoin, List.cons_append, ih]

/-- Only newlines end the lines of a text. -/
def OnlyNewlines (text : List Char) : Prop := ∀ c ∈ text, isBoundary c = true → c = '\n'

instance (text : List Char) : Decidable (OnlyNewlines text) := List.decidableBAll _ text

theorem splitlines_of_onlyNewlines (h : OnlyNewlines text) : splitlines text = newlineLines text := by
  induction text with
  | nil => rfl
  | cons c rest ih =>
      have hrest := ih fun d hd => h d (List.mem_cons_of_mem c hd)
      rw [newlineLines_cons]
      split_ifs with hc
      · rw [hc, splitlines_newline, hrest]
      · have hb : isBoundary c = false :=
          Bool.eq_false_iff.mpr fun hb => hc (h c List.mem_cons_self hb)
        rw [splitlines_cons hb, hrest]

theorem return_notMem_of_onlyNewlines (h : OnlyNewlines text) : '\r' ∉ text := fun hmem =>
  absurd (h '\r' hmem rfl) (by decide)

theorem onlyNewlines_joinLines (h : ∀ l ∈ lines, Plain l) : OnlyNewlines (joinLines lines) := by
  induction lines with
  | nil => simp [joinLines, OnlyNewlines]
  | cons l lines ih =>
      have hl : OnlyNewlines l := fun c hc hb => by
        rw [h l List.mem_cons_self c hc] at hb
        cases hb
      have hrest := ih fun m hm => h m (List.mem_cons_of_mem l hm)
      by_cases hlines : lines = []
      · subst hlines
        rwa [joinLines_singleton]
      · rw [joinLines_cons hlines]
        intro c hc hb
        rcases List.mem_append.mp hc with hc | hc
        · exact hl c hc hb
        · rcases List.mem_cons.mp hc with rfl | hc
          · rfl
          · exact hrest c hc hb

theorem onlyNewlines_append (h : OnlyNewlines line) (h' : OnlyNewlines text) :
    OnlyNewlines (line ++ text) :=
  List.forall_mem_append.mpr ⟨h, h'⟩

theorem onlyNewlines_ending (text : List Char) : OnlyNewlines (ending text) := by
  rcases ending_cases text with h | h
  · rw [h]
    simp [OnlyNewlines]
  · rw [h]
    simp [OnlyNewlines]

/-- Cutting a text into lines and joining them gives the text back exactly when nothing
but newlines ends its lines. -/
theorem joinLines_splitlines_iff (text : List Char) :
    joinLines (splitlines text) ++ ending text = text ↔ OnlyNewlines text := by
  constructor
  · intro h
    rw [← h]
    exact onlyNewlines_append (onlyNewlines_joinLines fun l hl => plain_of_mem_splitlines hl)
      (onlyNewlines_ending text)
  · intro h
    rw [splitlines_of_onlyNewlines h, joinLines_newlineLines]

end Newlines

section Strip

theorem lstrip_eq_self (h : ∀ d, text.head? = some d → isSpace d = false) : lstrip text = text := by
  cases text with
  | nil => rfl
  | cons c rest => exact List.dropWhile_cons_of_neg (by simp [h c rfl])

/-- The text that is left starts with no white space. -/
theorem isSpace_head_lstrip (h : (lstrip text).head? = some c) : isSpace c = false := by
  induction text with
  | nil => cases h
  | cons d rest ih =>
      rw [lstrip, List.dropWhile_cons] at h
      split_ifs at h with hd
      · exact ih h
      · obtain rfl := Option.some.inj h
        simpa using hd

theorem lstrip_append_cons (before after : List Char) (hc : isSpace c = false) :
    lstrip (before ++ c :: after) = lstrip before ++ c :: after := by
  induction before with
  | nil => exact List.dropWhile_cons_of_neg (by simp [hc])
  | cons d before ih =>
      rw [List.cons_append, lstrip, lstrip, List.dropWhile_cons, List.dropWhile_cons]
      split_ifs
      · exact ih
      · rfl

theorem rstrip_append_cons (before after : List Char) (hc : isSpace c = false) :
    rstrip (before ++ c :: after) = before ++ c :: rstrip after := by
  have hreverse : (before ++ c :: after).reverse = after.reverse ++ c :: before.reverse := by simp
  have hdrop := lstrip_append_cons after.reverse before.reverse hc
  rw [rstrip, hreverse]
  unfold lstrip at hdrop
  rw [hdrop, rstrip]
  simp

theorem strip_append_cons (before after : List Char) (hc : isSpace c = false) :
    strip (before ++ c :: after) = lstrip before ++ c :: rstrip after := by
  rw [strip, lstrip_append_cons before after hc, rstrip_append_cons (lstrip before) after hc]

@[simp] theorem strip_nil : strip [] = [] := rfl

theorem lstrip_cons_of_isSpace (hc : isSpace c = true) : lstrip (c :: text) = lstrip text :=
  List.dropWhile_cons_of_pos hc

theorem strip_cons_of_isSpace (hc : isSpace c = true) : strip (c :: text) = strip text := by
  rw [strip, lstrip_cons_of_isSpace hc, strip]

theorem rstrip_append_of_isSpace (hc : isSpace c = true) : rstrip (text ++ [c]) = rstrip text := by
  rw [rstrip, List.reverse_append, List.reverse_singleton, List.singleton_append,
    List.dropWhile_cons_of_pos hc, rstrip]

/-- White space in front is kept only where something stands behind it. -/
theorem rstrip_cons (c : Char) (text : List Char) :
    rstrip (c :: text) = if isSpace c = true ∧ rstrip text = [] then [] else c :: rstrip text := by
  have hnil : rstrip text = [] ↔ text.reverse.dropWhile isSpace = [] := by
    rw [rstrip, List.reverse_eq_nil_iff]
  rw [rstrip, List.reverse_cons, List.dropWhile_append]
  by_cases hrest : text.reverse.dropWhile isSpace = []
  · rw [if_pos (by rw [hrest]; rfl)]
    cases hc : isSpace c with
    | true => rw [List.dropWhile_cons_of_pos hc, if_pos ⟨rfl, hnil.mpr hrest⟩]; rfl
    | false =>
        rw [List.dropWhile_cons_of_neg (by simp [hc]), if_neg (by simp), hnil.mpr hrest]
        rfl
  · rw [if_neg (by simpa using hrest), if_neg fun h => hrest (hnil.mp h.2), List.reverse_append,
      rstrip]
    rfl

theorem rstrip_rstrip (text : List Char) : rstrip (rstrip text) = rstrip text := by
  have hreverse : lstrip (lstrip text.reverse) = lstrip text.reverse :=
    lstrip_eq_self fun _ => isSpace_head_lstrip
  unfold lstrip at hreverse
  rw [rstrip.eq_1 text, rstrip, List.reverse_reverse, hreverse]

theorem strip_append_of_isSpace (hc : isSpace c = true) : strip (text ++ [c]) = strip text := by
  rw [strip, strip, lstrip, List.dropWhile_append]
  split_ifs with hblank
  · rw [List.isEmpty_iff] at hblank
    rw [lstrip, hblank, List.dropWhile_cons_of_pos hc]
    rfl
  · exact rstrip_append_of_isSpace hc

theorem strip_lstrip (text : List Char) : strip (lstrip text) = strip text := by
  rw [strip, lstrip_eq_self fun _ => isSpace_head_lstrip, strip]

theorem strip_rstrip (text : List Char) : strip (rstrip text) = strip text := by
  induction text with
  | nil => rfl
  | cons c text ih =>
      rw [rstrip_cons]
      cases hc : isSpace c with
      | true =>
          rw [strip_cons_of_isSpace hc, ← ih]
          split_ifs with hnil
          · rw [hnil.2]
          · exact strip_cons_of_isSpace hc
      | false =>
          have hkept : ∀ more, strip (c :: more) = c :: rstrip more := fun more =>
            strip_append_cons [] more hc
          rw [if_neg (by simp), hkept, hkept, rstrip_rstrip]

@[simp] theorem strip_strip (text : List Char) : strip (strip text) = strip text := by
  rw [strip.eq_1 text, strip_rstrip, strip_lstrip, strip]

/-- What is left starts with no white space. -/
theorem isSpace_head_strip (h : (strip text).head? = some c) : isSpace c = false := by
  cases hleft : lstrip text with
  | nil =>
      rw [strip, hleft] at h
      cases h
  | cons d rest =>
      have hd : isSpace d = false := isSpace_head_lstrip (by rw [hleft]; rfl)
      rw [strip, hleft, rstrip_cons, if_neg (by simp [hd])] at h
      exact Option.some.inj h ▸ hd

theorem mem_of_mem_strip (h : c ∈ strip text) : c ∈ text := by
  have hright : c ∈ lstrip text := by
    rw [strip, rstrip, List.mem_reverse] at h
    exact List.mem_reverse.mp ((List.dropWhile_suffix isSpace).subset h)
  exact (List.dropWhile_suffix isSpace).subset hright

end Strip

section Partition

variable {sep : Char} {before after : List Char}

theorem partition_append_cons (h : sep ∉ before) (after : List Char) :
    partition sep (before ++ sep :: after) = (before, some after) := by
  have hbefore : ∀ c ∈ before, decide (c ≠ sep) = true := fun c hc =>
    decide_eq_true fun heq => h (heq ▸ hc)
  rw [partition, List.takeWhile_append_of_pos hbefore, List.dropWhile_append_of_pos hbefore]
  simp

theorem partition_eq_some (h : partition sep text = (before, some after)) :
    text = before ++ sep :: after ∧ sep ∉ before := by
  obtain ⟨rfl, htail⟩ := Prod.mk.inj h
  have hsep : sep ∉ text.takeWhile (· ≠ sep) := fun hmem => by
    simpa using List.mem_takeWhile_imp hmem
  refine ⟨?_, hsep⟩
  cases hdrop : text.dropWhile (· ≠ sep) with
  | nil =>
      rw [hdrop] at htail
      cases htail
  | cons c rest =>
      rw [hdrop] at htail
      obtain rfl := Option.some.inj htail
      have hc : c = sep := by
        have hhead := List.head?_dropWhile_not (fun c => decide (c ≠ sep)) text
        rw [hdrop] at hhead
        simpa using hhead
      have htext := List.takeWhile_append_dropWhile (p := fun c => decide (c ≠ sep)) (l := text)
      rw [hdrop, hc] at htext
      exact htext.symm

end Partition

end Text
