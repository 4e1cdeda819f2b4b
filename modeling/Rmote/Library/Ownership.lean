import Mathlib.Logic.Function.Basic
import Mathlib.Data.List.Nodup
import Mathlib.Data.List.Perm.Basic

/-!
# A table and its holders

A table gives out entries that somebody has to give back. `Held table held` says that the
places of a system hold exactly the entries that are open, each of them once: then an entry
that is used is still the one that was opened, and no entry is given back twice or never.
-/

namespace Ownership

variable {ι δ : Type*} {table : ι → Option δ} {held held' : List (ι × δ)} {i : ι} {d : δ}

/-- What the places hold is what is open, each entry once. -/
structure Held (table : ι → Option δ) (held : List (ι × δ)) : Prop where
  nodup : held.Nodup
  covers : ∀ i d, (i, d) ∈ held ↔ table i = some d

theorem held_nil : Held (fun _ : ι => (none : Option δ)) [] where
  nodup := List.nodup_nil
  covers i d := by simp

theorem Held.perm (h : Held table held) (hperm : held.Perm held') : Held table held' where
  nodup := hperm.nodup_iff.mp h.nodup
  covers i d := hperm.mem_iff.symm.trans (h.covers i d)

theorem Held.closed (h : Held table []) (i : ι) : table i = none := by
  rcases hi : table i with _ | d
  · rfl
  · exact absurd ((h.covers i d).mpr hi) List.not_mem_nil

/-- An entry that is free is opened. -/
theorem Held.acquire [DecidableEq ι] (h : Held table held) (hfree : table i = none) (d : δ) :
    Held (Function.update table i (some d)) ((i, d) :: held) where
  nodup := by
    refine List.nodup_cons.mpr ⟨fun hmem => ?_, h.nodup⟩
    rw [h.covers, hfree] at hmem
    cases hmem
  covers j e := by
    rw [List.mem_cons, h.covers, Function.update_apply]
    split_ifs with hj
    · subst hj
      simp [hfree, eq_comm]
    · simp [hj]

/-- An entry is closed by the place that holds it. -/
theorem Held.release [DecidableEq ι] (h : Held table ((i, d) :: held)) :
    Held (Function.update table i none) held where
  nodup := (List.nodup_cons.mp h.nodup).2
  covers j e := by
    have hi : table i = some d := (h.covers i d).mp List.mem_cons_self
    rw [Function.update_apply]
    split_ifs with hj
    · subst hj
      simp only [iff_false]
      intro hmem
      have he := (h.covers j e).mp (List.mem_cons_of_mem _ hmem)
      rw [hi] at he
      cases he
      exact (List.nodup_cons.mp h.nodup).1 hmem
    · rw [← h.covers, List.mem_cons, or_iff_right]
      rintro ⟨⟩
      exact hj rfl

/-- One place of a list of places changes what it holds. -/
theorem exists_rest {α β : Type*} (f : α → List β) {l : List α} {i : ℕ} {a : α}
    (h : l[i]? = some a) :
    ∃ rest, (l.flatMap f).Perm (f a ++ rest) ∧ ∀ b, ((l.set i b).flatMap f).Perm (f b ++ rest) := by
  induction l generalizing i with
  | nil => simp at h
  | cons x l ih =>
      cases i with
      | zero =>
          cases Option.some.inj h
          exact ⟨l.flatMap f, .refl _, fun b => .refl _⟩
      | succ i =>
          obtain ⟨rest, hrest, hset⟩ := ih (by simpa using h)
          refine ⟨f x ++ rest, ?_, fun b => ?_⟩
          · exact (hrest.append_left (f x)).trans (List.perm_append_comm_assoc ..)
          · exact ((hset b).append_left (f x)).trans (List.perm_append_comm_assoc ..)

end Ownership
