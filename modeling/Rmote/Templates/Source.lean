import Mathlib.Data.List.TakeWhile

/-!
# Template sources and their positions

A source is a list of characters, and a position an index into it. `TemplateSource.error`
turns a position into a line and a column, as an editor counts them. `characterAt` reads
such a pair back, so that one can say what a diagnostic points to.
-/

namespace Rmote

namespace Templates

/-- `TemplateSyntaxError`: the message, the line, the column and the text of the line. -/
structure TemplateSyntaxError where
  message : String
  line : Nat
  column : Nat
  text : List Char
  deriving DecidableEq, Repr

/-- The offset after the last newline before `position`. -/
def lineStart (source : List Char) (position : Nat) : Nat :=
  ((source.take position).reverse.dropWhile (· ≠ '\n')).length

/-- `TemplateSource.error`. -/
def sourceError (source : List Char) (message : String) (position : Nat) :
    TemplateSyntaxError where
  message := message
  line := (source.take position).count '\n' + 1
  column := position - lineStart source position + 1
  text := ((source.take position).drop (lineStart source position)) ++
    (source.drop position).takeWhile (· ≠ '\n')

/-- The character in a line and a column, both counted from one. A newline is the last
character of its line. -/
def characterAt : List Char → Nat → Nat → Option Char
  | c :: _, 1, 1 => some c
  | c :: rest, 1, column + 2 => if c = '\n' then none else characterAt rest 1 (column + 1)
  | c :: rest, line + 2, column =>
      characterAt rest (if c = '\n' then line + 1 else line + 2) column
  | _, _, _ => none

/-- How many characters stand after the last newline. -/
def columnAfter (before : List Char) : Nat :=
  (before.reverse.takeWhile (· ≠ '\n')).length

theorem columnAfter_of_not_mem {before : List Char} (h : '\n' ∉ before) :
    columnAfter before = before.length := by
  unfold columnAfter
  rw [List.takeWhile_eq_self_iff.mpr, List.length_reverse]
  intro c hc
  simp only [ne_eq, decide_not, Bool.not_eq_true', decide_eq_false_iff_not]
  rintro rfl
  exact h (List.mem_reverse.mp hc)

theorem columnAfter_cons_of_mem {before : List Char} (c : Char) (h : '\n' ∈ before) :
    columnAfter (c :: before) = columnAfter before := by
  unfold columnAfter
  rw [List.reverse_cons, List.takeWhile_append, if_neg]
  intro hall
  have hself : before.reverse.takeWhile (· ≠ '\n') = before.reverse :=
    (List.takeWhile_prefix _).eq_of_length hall
  have hnewline := List.takeWhile_eq_self_iff.mp hself '\n' (List.mem_reverse.mpr h)
  simp at hnewline

theorem columnAfter_newline (before : List Char) :
    columnAfter ('\n' :: before) = columnAfter before := by
  by_cases h : '\n' ∈ before
  · exact columnAfter_cons_of_mem _ h
  · rw [columnAfter_of_not_mem h]
    unfold columnAfter
    rw [List.reverse_cons, List.takeWhile_append_of_pos, List.takeWhile_cons_of_neg]
    · simp
    · simp
    · intro c hc
      simp only [ne_eq, decide_not, Bool.not_eq_true', decide_eq_false_iff_not]
      rintro rfl
      exact h (List.mem_reverse.mp hc)

/-- Reading back the line and the column that lead to a character. -/
theorem characterAt_append (before : List Char) (c : Char) (after : List Char) :
    characterAt (before ++ c :: after) (before.count '\n' + 1) (columnAfter before + 1) = some c := by
  induction before with
  | nil => rfl
  | cons b before ih =>
      by_cases hb : b = '\n'
      · subst hb
        rw [List.count_cons_self, columnAfter_newline]
        change characterAt (before ++ c :: after) (if '\n' = '\n' then _ else _) _ = _
        rw [if_pos rfl]
        exact ih
      · rw [List.count_cons_of_ne hb]
        by_cases hmem : '\n' ∈ before
        · rw [columnAfter_cons_of_mem _ hmem]
          obtain ⟨n, hn⟩ := Nat.exists_eq_add_of_lt (List.count_pos_iff.mpr hmem)
          rw [hn] at ih ⊢
          change characterAt (before ++ c :: after) (if b = '\n' then _ else _) _ = _
          rw [if_neg hb]
          exact ih
        · have hcolumn : columnAfter (b :: before) = columnAfter before + 1 := by
            rw [columnAfter_of_not_mem hmem, columnAfter_of_not_mem]
            · rfl
            · intro h
              rcases List.mem_cons.mp h with h | h
              · exact hb h.symm
              · exact hmem h
          rw [hcolumn, List.count_eq_zero.mpr hmem]
          rw [List.count_eq_zero.mpr hmem] at ih
          change (if b = '\n' then _ else _) = _
          rw [if_neg hb]
          exact ih

theorem sub_lineStart {source : List Char} {position : Nat} (h : position ≤ source.length) :
    position - lineStart source position = columnAfter (source.take position) := by
  unfold lineStart columnAfter
  have hlength := congrArg List.length
    (List.takeWhile_append_dropWhile (p := (· ≠ '\n')) (l := (source.take position).reverse))
  rw [List.length_append, List.length_reverse, List.length_take_of_le h] at hlength
  omega

/-- The diagnostic for a position of the source names the character there. -/
theorem characterAt_sourceError {source : List Char} {position : Nat}
    (h : position < source.length) (message : String) :
    characterAt source (sourceError source message position).line
      (sourceError source message position).column = some source[position] := by
  have hsplit : source.take position ++ source[position] :: source.drop (position + 1) = source := by
    rw [← List.drop_eq_getElem_cons h, List.take_append_drop]
  have hread := characterAt_append (source.take position) source[position]
    (source.drop (position + 1))
  rw [hsplit] at hread
  change characterAt source (_ + 1) (position - lineStart source position + 1) = _
  rw [sub_lineStart (Nat.le_of_lt h)]
  exact hread

end Templates

end Rmote
