import Mathlib.Data.List.Infix

/-!
# Addresses in a tree

An address is a list of names with the innermost name first, so `n :: p` is the child `n` of
`p`, the root is `[]`, and `p <:+ q` says that `q` is `p` or lies below it. The addresses below
`p` are `p` itself and those below exactly one of its children.
-/

namespace Paths

variable {α : Type*} {n m : α} {p q r : List α}

/-- What lies below `p` is `p`, or lies below one of its children. -/
theorem below_iff : p <:+ q ↔ q = p ∨ ∃ n, (n :: p) <:+ q := by
  constructor
  · rintro ⟨l, rfl⟩
    rcases List.eq_nil_or_concat l with rfl | ⟨l, n, rfl⟩
    · exact .inl rfl
    · exact .inr ⟨n, l, by simp⟩
  · rintro (rfl | ⟨n, hn⟩)
    · exact List.suffix_refl _
    · exact (List.suffix_cons n p).trans hn

theorem below_of_child (h : (n :: p) <:+ q) : p <:+ q := (List.suffix_cons n p).trans h

/-- An address lies below one child only. -/
theorem child_unique (hn : (n :: p) <:+ q) (hm : (m :: p) <:+ q) : n = m := by
  have h := (List.suffix_of_suffix_length_le hn hm (by simp)).eq_of_length (by simp)
  exact (List.cons.inj h).1

theorem not_child_below (n : α) (p : List α) : ¬ (n :: p) <:+ p := by
  intro h
  have hlength := h.length_le
  rw [List.length_cons] at hlength
  omega

/-- Between an address and its child there is nothing. -/
theorem between (hn : (n :: p) <:+ q) (hp : p <:+ r) (hr : r <:+ q) :
    r = p ∨ (n :: p) <:+ r := by
  rcases below_iff.mp hp with heq | ⟨m, hm⟩
  · exact .inl heq
  · rw [child_unique hn (hm.trans hr)]
    exact .inr hm

/-- Two addresses above a third one are comparable. -/
theorem comparable (hp : p <:+ r) (hq : q <:+ r) : p <:+ q ∨ q <:+ p :=
  List.suffix_or_suffix_of_suffix hp hq

end Paths
