import Mathlib.Data.Finset.Card

/-!
# Walks that record where they are

A walk over a finite graph that records an object before it goes on to the parts of it cannot nest
deeper than there are objects: each nested call has one object less that is not recorded.
-/

namespace Recorded

variable {α : Type*} [DecidableEq α] {objects : Finset α} {seen : List α} {a : α}

/-- How many objects are not recorded. -/
def unrecorded (objects : Finset α) (seen : List α) : ℕ := (objects.filter (· ∉ seen)).card

theorem unrecorded_le (objects : Finset α) (seen : List α) :
    unrecorded objects seen ≤ objects.card :=
  Finset.card_filter_le _ _

/-- Recording an object of the graph leaves one less. -/
theorem unrecorded_cons (ha : a ∈ objects) (hseen : a ∉ seen) :
    unrecorded objects (a :: seen) + 1 = unrecorded objects seen := by
  unfold unrecorded
  have herase : objects.filter (· ∉ a :: seen) = (objects.filter (· ∉ seen)).erase a := by
    ext b
    simp only [Finset.mem_filter, Finset.mem_erase, List.mem_cons, not_or]
    constructor
    · rintro ⟨hb, hne, hmem⟩
      exact ⟨hne, hb, hmem⟩
    · rintro ⟨hne, hb, hmem⟩
      exact ⟨hb, hne, hmem⟩
  rw [herase]
  exact Finset.card_erase_add_one (Finset.mem_filter.mpr ⟨ha, hseen⟩)

end Recorded
