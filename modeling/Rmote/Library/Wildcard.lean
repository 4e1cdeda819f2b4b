import Mathlib.Data.List.Basic

/-!
# Sequences with gaps

A pattern is a list of items, each of which stands for one element with some property, or for any
number of elements. `Aligned` says that a list can be cut along the items of a pattern.
-/

namespace Wildcard

universe u

variable {α : Type u}

/-- A part of a pattern. -/
inductive Item (α : Type u) where
  | many
  | one (accepts : α → Bool)

/-- The list is cut along the items, from the left to the right. -/
inductive Aligned : List (Item α) → List α → Prop
  | nil : Aligned [] []
  | many {items : List (Item α)} {rest : List α} (segment : List α) (h : Aligned items rest) :
      Aligned (.many :: items) (segment ++ rest)
  | one {accepts : α → Bool} {a : α} {items : List (Item α)} {rest : List α}
      (ha : accepts a = true) (h : Aligned items rest) :
      Aligned (.one accepts :: items) (a :: rest)

theorem aligned_nil_iff {l : List α} : Aligned [] l ↔ l = [] := by
  constructor
  · intro h
    cases h
    rfl
  · rintro rfl
    exact .nil

/-- A gap is over, or it takes the first element. -/
theorem aligned_many_iff {items : List (Item α)} {l : List α} :
    Aligned (.many :: items) l ↔
      Aligned items l ∨ ∃ a rest, l = a :: rest ∧ Aligned (.many :: items) rest := by
  constructor
  · intro h
    cases h with
    | many segment h =>
        cases segment with
        | nil => exact .inl h
        | cons a segment => exact .inr ⟨a, segment ++ _, rfl, .many segment h⟩
  · rintro (h | ⟨a, rest, rfl, h⟩)
    · exact .many [] h
    · cases h with
      | many segment h => exact .many (a :: segment) h

theorem aligned_one_iff {accepts : α → Bool} {items : List (Item α)} {l : List α} :
    Aligned (.one accepts :: items) l ↔
      ∃ a rest, l = a :: rest ∧ accepts a = true ∧ Aligned items rest := by
  constructor
  · intro h
    cases h with
    | one ha h => exact ⟨_, _, rfl, ha, h⟩
  · rintro ⟨a, rest, rfl, ha, h⟩
    exact .one ha h

end Wildcard
