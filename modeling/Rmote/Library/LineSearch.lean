import Rmote.Library.Text

/-!
# Searching a text line by line

`searchStart` is a search for a pattern that is anchored to the start of a line: it
tries every position behind a newline, and the first one of the text. Where the pattern
looks at one line only (`Local`), the search goes through the lines of the text, and the
position that it finds is the length of the lines in front.
-/

namespace Text

variable {α : Type*}

/-- Lines with a newline behind each of them. -/
def unlines (lines : List (List Char)) : List Char := (lines.map (· ++ ['\n'])).flatten

/-- A text up to its first newline. -/
def firstLine (text : List Char) : List Char := text.takeWhile (· ≠ '\n')

/-- The first start of a line at which `p` matches, with what it matched there. -/
def searchStart (p : List Char → Option α) : Bool → List Char → Option (ℕ × α)
  | atStart, [] => if atStart then (p []).map (0, ·) else none
  | atStart, c :: rest =>
      match if atStart then p (c :: rest) else none with
      | some a => some (0, a)
      | none => (searchStart p (c = '\n') rest).map fun found => (found.1 + 1, found.2)

/-- What is left of a text behind a prefix. -/
def dropPrefix : List Char → List Char → Option (List Char)
  | [], text => some text
  | c :: before, d :: text => if c = d then dropPrefix before text else none
  | _ :: _, [] => none

/-- The pattern looks at the first line of a text only. -/
def Local (p : List Char → Option α) : Prop := ∀ text, p text = p (firstLine text)

/-- No line holds a newline. -/
def Lines (lines : List (List Char)) : Prop := ∀ l ∈ lines, '\n' ∉ l

variable {p : List Char → Option α} {l rest : List Char} {ls ms : List (List Char)} {a : α}

theorem lines_splitOn (text : List Char) : Lines (text.splitOn '\n') := by
  induction text with
  | nil => simp [Lines, List.splitOn_nil]
  | cons c text ih =>
      rw [List.splitOn_cons_eq_if_modifyHead]
      split_ifs with hc
      · exact List.forall_mem_cons.mpr ⟨by simp, ih⟩
      · obtain ⟨first, others, heq⟩ := List.exists_cons_of_ne_nil (List.splitOn_ne_nil '\n' text)
        rw [heq] at ih ⊢
        rw [List.modifyHead_cons]
        refine List.forall_mem_cons.mpr ⟨?_, fun m hm => ih m (List.mem_cons_of_mem first hm)⟩
        rw [List.mem_cons, not_or]
        exact ⟨fun h => hc (beq_iff_eq.mpr h.symm), ih first List.mem_cons_self⟩

@[simp] theorem lines_cons : Lines (l :: ls) ↔ '\n' ∉ l ∧ Lines ls := List.forall_mem_cons

@[simp] theorem lines_append : Lines (ls ++ ms) ↔ Lines ls ∧ Lines ms := List.forall_mem_append

@[simp] theorem unlines_nil : unlines [] = [] := rfl

theorem unlines_cons : unlines (l :: ls) = l ++ '\n' :: unlines ls := by
  unfold unlines
  simp

theorem unlines_append : unlines (ls ++ ms) = unlines ls ++ unlines ms := by
  induction ls with
  | nil => rfl
  | cons l ls ih => rw [List.cons_append, unlines_cons, unlines_cons, ih, List.append_assoc,
      List.cons_append]

/-- A line of a text ends the lines in front of it. -/
theorem joinLines_append_cons (ls : List (List Char)) (l : List Char) (ms : List (List Char)) :
    joinLines (ls ++ l :: ms) = unlines ls ++ joinLines (l :: ms) := by
  induction ls with
  | nil => rfl
  | cons k ls ih =>
      rw [List.cons_append, joinLines_cons (by simp), ih, unlines_cons, List.append_assoc,
        List.cons_append]

theorem unlines_eq_joinLines (ls : List (List Char)) : unlines ls = joinLines (ls ++ [[]]) := by
  rw [joinLines_append_cons, joinLines_singleton, List.append_nil]

theorem unlines_eq_append (hne : ls ≠ []) : unlines ls = joinLines ls ++ ['\n'] := by
  induction ls with
  | nil => exact absurd rfl hne
  | cons l ls ih =>
      by_cases hls : ls = []
      · subst hls
        rw [unlines_cons, joinLines_singleton]
        rfl
      · rw [unlines_cons, joinLines_cons hls, ih hls, List.append_assoc, List.cons_append]

@[simp] theorem joinLines_splitOn (text : List Char) : joinLines (text.splitOn '\n') = text :=
  List.intercalate_splitOn '\n'

/-- The lines of lines that are ended and a text behind them. -/
theorem splitOn_unlines_append (hls : Lines ls) (text : List Char) :
    (unlines ls ++ text).splitOn '\n' = ls ++ text.splitOn '\n' := by
  induction ls with
  | nil => rfl
  | cons l ls ih =>
      rw [lines_cons] at hls
      rw [unlines_cons, List.append_assoc, List.cons_append,
        List.splitOn_append_cons_self_of_not_mem hls.1, ih hls.2, List.cons_append]

/-- The first piece of a text goes on to its first separator. -/
theorem splitOn_append_of_notMem {sep : Char} (h : sep ∉ l) :
    (l ++ rest).splitOn sep = (l ++ (rest.splitOn sep).headD []) :: (rest.splitOn sep).tail := by
  induction l with
  | nil =>
      obtain ⟨first, others, heq⟩ := List.exists_cons_of_ne_nil (List.splitOn_ne_nil sep rest)
      rw [List.nil_append, heq]
      rfl
  | cons c l ih =>
      rw [List.mem_cons, not_or] at h
      rw [List.cons_append, List.splitOn_cons_eq_if_modifyHead, if_neg (by simpa using Ne.symm h.1),
        ih h.2, List.modifyHead_cons, List.cons_append]

theorem mem_intercalate {sep c : Char} {pieces : List (List Char)} (hl : l ∈ pieces) (hc : c ∈ l) :
    c ∈ [sep].intercalate pieces := by
  induction pieces with
  | nil => cases hl
  | cons piece pieces ih =>
      cases pieces with
      | nil =>
          rw [List.mem_singleton] at hl
          subst hl
          simpa [List.intercalate] using hc
      | cons next pieces =>
          rw [List.intercalate_cons_cons]
          rcases List.mem_cons.mp hl with rfl | hl
          · exact List.mem_append_left _ (List.mem_append_left _ hc)
          · exact List.mem_append_right _ (ih hl)

/-- Pieces with separators between them hold what the pieces hold, and separators. -/
theorem forall_mem_intercalate {p : Char → Prop} {sep : Char} (hsep : p sep)
    {pieces : List (List Char)} (h : ∀ piece ∈ pieces, ∀ c ∈ piece, p c) :
    ∀ c ∈ [sep].intercalate pieces, p c := by
  induction pieces with
  | nil => simp [List.intercalate]
  | cons piece pieces ih =>
      rw [List.forall_mem_cons] at h
      cases pieces with
      | nil => simpa [List.intercalate] using h.1
      | cons next pieces =>
          rw [List.intercalate_cons_cons]
          intro c hc
          rcases List.mem_append.mp hc with hc | hc
          · rcases List.mem_append.mp hc with hc | hc
            · exact h.1 c hc
            · exact List.mem_singleton.mp hc ▸ hsep
          · exact ih h.2 c hc

/-- The pieces of a text hold nothing that the text does not hold. -/
theorem mem_of_mem_splitOn {sep c : Char} {text : List Char} (hl : l ∈ text.splitOn sep)
    (hc : c ∈ l) : c ∈ text := by
  have hmem : c ∈ [sep].intercalate (text.splitOn sep) := mem_intercalate hl hc
  rwa [List.intercalate_splitOn] at hmem

theorem firstLine_of_notMem (h : '\n' ∉ l) : firstLine l = l :=
  List.takeWhile_eq_self_iff.mpr fun _ hc => decide_eq_true fun heq => h (heq ▸ hc)

theorem firstLine_append_newline (h : '\n' ∉ l) : firstLine (l ++ '\n' :: rest) = l := by
  have hl : ∀ c ∈ l, decide (c ≠ '\n') = true := fun _ hc =>
    decide_eq_true fun heq => h (heq ▸ hc)
  rw [firstLine, List.takeWhile_append_of_pos hl]
  simp

@[simp] theorem searchStart_nil (atStart : Bool) :
    searchStart p atStart [] = if atStart then (p []).map (0, ·) else none := rfl

theorem searchStart_false_cons (c : Char) (rest : List Char) :
    searchStart p false (c :: rest) =
      (searchStart p (c = '\n') rest).map fun found => (found.1 + 1, found.2) := rfl

theorem searchStart_of_none {c : Char} (h : p (c :: rest) = none) :
    searchStart p true (c :: rest) =
      (searchStart p (c = '\n') rest).map fun found => (found.1 + 1, found.2) := by
  rw [searchStart, if_pos rfl, h]

/-- Inside a line nothing is found before its end. -/
theorem searchStart_inside (h : '\n' ∉ l) :
    searchStart p false (l ++ '\n' :: rest) =
      (searchStart p true rest).map fun found => (found.1 + (l.length + 1), found.2) := by
  induction l with
  | nil => rfl
  | cons c l ih =>
      rw [List.mem_cons, not_or] at h
      have hc : decide (c = '\n') = false := decide_eq_false (Ne.symm h.1)
      rw [List.cons_append, searchStart_false_cons, hc, ih h.2, Option.map_map]
      rfl

theorem searchStart_inside_last (h : '\n' ∉ l) : searchStart p false l = none := by
  induction l with
  | nil => rfl
  | cons c l ih =>
      rw [List.mem_cons, not_or] at h
      have hc : decide (c = '\n') = false := decide_eq_false (Ne.symm h.1)
      rw [searchStart_false_cons, hc, ih h.2]
      rfl

/-- A line that does not match is passed over. -/
theorem searchStart_pass (hp : Local p) (h : '\n' ∉ l) (hl : p l = none) :
    searchStart p true (l ++ '\n' :: rest) =
      (searchStart p true rest).map fun found => (found.1 + (l.length + 1), found.2) := by
  have hfirst : p (l ++ '\n' :: rest) = none := by
    rw [hp, firstLine_append_newline h, hl]
  cases l with
  | nil =>
      rw [List.nil_append] at hfirst ⊢
      rw [searchStart_of_none hfirst]
      rfl
  | cons c l =>
      rw [List.mem_cons, not_or] at h
      have hc : decide (c = '\n') = false := decide_eq_false (Ne.symm h.1)
      rw [List.cons_append] at hfirst ⊢
      rw [searchStart_of_none hfirst, hc, searchStart_inside h.2, Option.map_map]
      rfl

theorem searchStart_of_match (hl : p l = some a) : searchStart p true l = some (0, a) := by
  cases l with
  | nil => rw [searchStart_nil, if_pos rfl, hl, Option.map_some]
  | cons c l => rw [searchStart, if_pos rfl, hl]

theorem searchStart_eq_none (hp : Local p) (hlines : Lines ls) (hne : ls ≠ [])
    (hnone : ∀ l ∈ ls, p l = none) : searchStart p true (joinLines ls) = none := by
  induction ls with
  | nil => exact absurd rfl hne
  | cons l ls ih =>
      rw [lines_cons] at hlines
      have hl := hnone l List.mem_cons_self
      by_cases hls : ls = []
      · subst hls
        rw [joinLines_singleton]
        cases l with
        | nil => rw [searchStart_nil, if_pos rfl, hl, Option.map_none]
        | cons c l =>
            have hc := hlines.1
            rw [List.mem_cons, not_or] at hc
            rw [searchStart_of_none hl, decide_eq_false (Ne.symm hc.1),
              searchStart_inside_last hc.2]
            rfl
      · rw [joinLines_cons hls, searchStart_pass hp hlines.1 hl,
          ih hlines.2 hls fun m hm => hnone m (List.mem_cons_of_mem l hm)]
        rfl

/-- The first line that matches is found behind the lines in front of it. -/
theorem searchStart_eq_some (hp : Local p) (hls : Lines ls) (hl : '\n' ∉ l)
    (hnone : ∀ k ∈ ls, p k = none) (hsome : p l = some a) (ms : List (List Char)) :
    searchStart p true (joinLines (ls ++ l :: ms)) = some ((unlines ls).length, a) := by
  induction ls with
  | nil =>
      refine searchStart_of_match ?_
      by_cases hms : ms = []
      · rw [hms, List.nil_append, joinLines_singleton, hsome]
      · rw [List.nil_append, joinLines_cons hms, hp, firstLine_append_newline hl, hsome]
  | cons k ls ih =>
      rw [lines_cons] at hls
      rw [List.cons_append, joinLines_cons (by simp),
        searchStart_pass hp hls.1 (hnone k List.mem_cons_self),
        ih hls.2 fun m hm => hnone m (List.mem_cons_of_mem k hm), unlines_cons]
      simp only [Option.map_some, List.length_append, List.length_cons]
      congr 2
      omega

@[simp] theorem dropPrefix_nil (text : List Char) : dropPrefix [] text = some text := rfl

@[simp] theorem dropPrefix_cons_nil (c : Char) (before : List Char) :
    dropPrefix (c :: before) [] = none := rfl

theorem dropPrefix_cons (c d : Char) (before text : List Char) :
    dropPrefix (c :: before) (d :: text) = if c = d then dropPrefix before text else none := rfl

theorem dropPrefix_append_newline {before : List Char} (h : '\n' ∉ before) :
    dropPrefix before (l ++ '\n' :: rest) = (dropPrefix before l).map (· ++ '\n' :: rest) := by
  induction before generalizing l with
  | nil => rfl
  | cons c before ih =>
      rw [List.mem_cons, not_or] at h
      cases l with
      | nil => simp [dropPrefix_cons, Ne.symm h.1]
      | cons d l =>
          rw [List.cons_append, dropPrefix_cons, dropPrefix_cons, ih h.2]
          split_ifs <;> rfl

theorem dropPrefix_eq_some {before after : List Char} :
    dropPrefix before l = some after ↔ l = before ++ after := by
  induction before generalizing l with
  | nil => simp [eq_comm]
  | cons c before ih =>
      cases l with
      | nil => simp
      | cons d l =>
          rw [dropPrefix_cons, List.cons_append, List.cons.injEq]
          split_ifs with hc
          · rw [ih, hc]
            simp
          · simp [Ne.symm hc]

end Text
