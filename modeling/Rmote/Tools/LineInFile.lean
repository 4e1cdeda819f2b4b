import Rmote.Library.Text

/-!
# A line in a file

`line_in_file` makes sure that a file has a line: it replaces the first line, or all
lines, that a pattern matches, and otherwise appends the line unless it is there. The
file is read in text mode and cut at every character that ends a line, and what is
written has newlines only. So the lines that are not touched stay as they are exactly
where nothing but newlines ended the lines before (`framed_iff`).
-/

namespace Rmote

namespace FileSystem

/-- Which of the lines that match are replaced. -/
inductive LineInFileMatch where
  | first
  | all
  deriving DecidableEq, Repr

/-- The arguments of `line_in_file`. The regular expression is the set of lines in
which it is found. -/
structure LineInFile where
  path : String
  line : List Char
  regexp : Option (List Char → Bool)
  strip : Bool
  create : Bool
  mode : LineInFileMatch

/-- The `FileNotFoundError` for a file that must not be created. -/
structure FileNotFound where
  path : String
  deriving DecidableEq, Repr

def FileNotFound.message (error : FileNotFound) : String := s!"File {error.path} does not exist"

/-- `difflib.unified_diff` on the lines of two texts, joined. -/
structure Differ where
  unifiedDiff : List (List Char) → List (List Char) → List Char
  eq_nil_iff : ∀ a b, unifiedDiff a b = [] ↔ a = b

/-- A differ that writes all old lines behind a minus and all new ones behind a plus. -/
def Differ.whole : Differ where
  unifiedDiff a b := if a = b then [] else (a.map ('-' :: ·) ++ b.map ('+' :: ·) ++ [['\n']]).flatten
  eq_nil_iff a b := by
    split_ifs with h
    · simp [h]
    · simp [h]

/-- The loop over the lines, with the number of those that were replaced. -/
def replaceLines (mode : LineInFileMatch) (pattern : List Char → Bool) (line : List Char) :
    List (List Char) → List (List Char) × ℕ
  | [] => ([], 0)
  | fileLine :: lines =>
      if pattern fileLine then
        match mode with
        | .first => (line :: lines, 1)
        | .all =>
            let (lines, replaced) := replaceLines mode pattern line lines
            (line :: lines, replaced + 1)
      else
        let (lines, replaced) := replaceLines mode pattern line lines
        (fileLine :: lines, replaced)

/-- Whether a line of the file is the wanted one. -/
def sameLine (strip : Bool) (fileLine line : List Char) : Bool :=
  if strip then Text.strip fileLine = Text.strip line else fileLine = line

/-- The lines after the edit, `none` when the line is already present. -/
def edit (call : LineInFile) (lines : List (List Char)) : Option (List (List Char)) :=
  let (lines, replaced) :=
    match call.regexp with
    | some pattern => replaceLines call.mode pattern call.line lines
    | none => (lines, 0)
  if replaced = 0 then
    if lines.any fun fileLine => sameLine call.strip fileLine call.line then
      none
    else
      some (lines ++ [call.line])
  else
    some lines

/-- The new text of the file, `none` when it stays as it is. -/
def rewrite (call : LineInFile) (original : List Char) : Option (List Char) :=
  match edit call (Text.splitlines original) with
  | none => none
  | some lines =>
      let newContent := Text.joinLines lines ++ Text.ending original
      if newContent = original then none else some newContent

/-- Ensure that a line is present in a file. The answer is the diff, empty without a
change, and the file after it. -/
def lineInFile (D : Differ) (call : LineInFile) (file : Option (List Char)) :
    Except FileNotFound (List Char) × Option (List Char) :=
  if file.isNone && !call.create then
    (.error ⟨call.path⟩, file)
  else
    let content := file.getD []
    let original := Text.universalNewlines content
    match rewrite call original with
    | none => (.ok [], some content)
    | some newContent =>
        (.ok (D.unifiedDiff (Text.keepends original) (Text.keepends newContent)), some newContent)

section Replace

variable {mode : LineInFileMatch} {pattern : List Char → Bool} {line x : List Char}
  {lines before after : List (List Char)}

theorem replaceLines_of_none (h : ∀ l ∈ lines, pattern l = false) :
    replaceLines mode pattern line lines = (lines, 0) := by
  induction lines with
  | nil => rfl
  | cons l lines ih =>
      have hrest := ih fun m hm => h m (List.mem_cons_of_mem l hm)
      simp [replaceLines, h l List.mem_cons_self, hrest]

theorem replaceLines_first (h : ∀ l ∈ before, pattern l = false) (hx : pattern x = true) :
    replaceLines .first pattern line (before ++ x :: after) = (before ++ line :: after, 1) := by
  induction before with
  | nil => simp [replaceLines, hx]
  | cons l before ih =>
      have hrest := ih fun m hm => h m (List.mem_cons_of_mem l hm)
      simp [replaceLines, h l List.mem_cons_self, hrest]

theorem replaceLines_all :
    replaceLines .all pattern line lines =
      (lines.map fun l => if pattern l then line else l, lines.countP pattern) := by
  induction lines with
  | nil => rfl
  | cons l lines ih =>
      cases hl : pattern l with
      | true => simp [replaceLines, hl, ih]
      | false => simp [replaceLines, hl, ih]

end Replace

/-- No line is found by the regular expression, if there is one. -/
def Unmatched (call : LineInFile) (lines : List (List Char)) : Prop :=
  ∀ pattern, call.regexp = some pattern → ∀ l ∈ lines, pattern l = false

/-- Everything that the edit of the lines does. -/
theorem edit_cases (call : LineInFile) (lines : List (List Char)) :
    (edit call lines = none ∧ Unmatched call lines ∧
      ∃ l ∈ lines, sameLine call.strip l call.line = true) ∨
    (Unmatched call lines ∧ (∀ l ∈ lines, sameLine call.strip l call.line = false) ∧
      edit call lines = some (lines ++ [call.line])) ∨
    (∃ pattern before x after, call.regexp = some pattern ∧ call.mode = .first ∧
      lines = before ++ x :: after ∧ (∀ l ∈ before, pattern l = false) ∧ pattern x = true ∧
      edit call lines = some (before ++ call.line :: after)) ∨
    (∃ pattern, call.regexp = some pattern ∧ call.mode = .all ∧
      (∃ l ∈ lines, pattern l = true) ∧
      edit call lines = some (lines.map fun l => if pattern l then call.line else l)) := by
  have hunmatched : Unmatched call lines →
      (edit call lines = none ∧ Unmatched call lines ∧
        ∃ l ∈ lines, sameLine call.strip l call.line = true) ∨
      (Unmatched call lines ∧ (∀ l ∈ lines, sameLine call.strip l call.line = false) ∧
        edit call lines = some (lines ++ [call.line])) := by
    intro hnone
    have hedit : edit call lines =
        if lines.any fun l => sameLine call.strip l call.line then none
        else some (lines ++ [call.line]) := by
      unfold edit
      cases hregexp : call.regexp with
      | none => rfl
      | some pattern =>
          simp only
          rw [replaceLines_of_none (hnone pattern hregexp)]
          rfl
    by_cases hany : lines.any (fun l => sameLine call.strip l call.line) = true
    · rw [if_pos hany] at hedit
      exact .inl ⟨hedit, hnone, List.any_eq_true.mp hany⟩
    · rw [if_neg hany] at hedit
      refine .inr ⟨hnone, fun l hl => ?_, hedit⟩
      exact Bool.eq_false_iff.mpr fun h => hany (List.any_eq_true.mpr ⟨l, hl, h⟩)
  cases hregexp : call.regexp with
  | none =>
      have hnone : Unmatched call lines := fun pattern h => by
        rw [hregexp] at h
        cases h
      rcases hunmatched hnone with h | h
      · exact .inl h
      · exact .inr (.inl h)
  | some pattern =>
      by_cases hmatch : ∃ l ∈ lines, pattern l = true
      · cases hmode : call.mode with
        | first =>
            obtain hnone | ⟨before, x, after, rfl, hbefore, hx⟩ := Text.exists_first pattern lines
            · obtain ⟨l, hl, hmatch⟩ := hmatch
              exact absurd hmatch (Bool.eq_false_iff.mp (hnone l hl))
            refine .inr (.inr (.inl ⟨pattern, before, x, after, rfl, rfl, rfl, hbefore, hx, ?_⟩))
            simp [edit, hregexp, hmode, replaceLines_first hbefore hx]
        | all =>
            refine .inr (.inr (.inr ⟨pattern, rfl, rfl, hmatch, ?_⟩))
            have hcount : lines.countP pattern ≠ 0 := by
              rw [← Nat.pos_iff_ne_zero, List.countP_pos_iff]
              exact hmatch
            simp [edit, hregexp, hmode, replaceLines_all, hcount]
      · have hnone : Unmatched call lines := by
          intro pattern' h l hl
          rw [hregexp] at h
          obtain rfl := Option.some.inj h
          exact Bool.eq_false_iff.mpr fun hl' => hmatch ⟨l, hl, hl'⟩
        rcases hunmatched hnone with h | h
        · exact .inl h
        · exact .inr (.inl h)

end FileSystem

end Rmote
