import Mathlib.Data.List.Basic
import Mathlib.Algebra.Order.Ring.Nat

/-!
# Cutting a list into blocks

`cut n l` are the consecutive blocks of `n` elements of `l`; the last one may be shorter.
`Fits n r bs` says that `bs` are the lengths of the first blocks of a list of `r` elements,
so a list that grows block by block is known before it is complete. `place o bs` puts the
offset before each block.
-/

namespace Blocks

variable {α : Type*}

/-- The first blocks of a list, at most `fuel` of them. -/
def cutAux (n : ℕ) : ℕ → List α → List (List α)
  | 0, _ => []
  | fuel + 1, l => if l.isEmpty then [] else l.take n :: cutAux n fuel (l.drop n)

/-- The consecutive blocks of a list. -/
def cut (n : ℕ) (l : List α) : List (List α) := cutAux n l.length l

/-- These can be the first blocks of a list of `r` elements. -/
def Fits (n : ℕ) : ℕ → List (List α) → Prop
  | _, [] => True
  | r, b :: bs => 0 < b.length ∧ b.length = min n r ∧ Fits n (r - b.length) bs

/-- The blocks with their offsets. -/
def place : ℕ → List (List α) → List (ℕ × List α)
  | _, [] => []
  | o, b :: bs => (o, b) :: place (o + b.length) bs

variable {n r o : ℕ} {l : List α} {b : List α} {bs bs' : List (List α)}

theorem fits_append :
    Fits n r (bs ++ bs') ↔ Fits n r bs ∧ Fits n (r - bs.flatten.length) bs' := by
  induction bs generalizing r with
  | nil => simp [Fits]
  | cons b bs ih =>
      simp only [List.cons_append, Fits, ih, List.flatten_cons, List.length_append, Nat.sub_sub,
        and_assoc]

/-- The first block is cut off. -/
theorem cutAux_append {fuel : ℕ} (hpos : 0 < b.length) (hshort : b.length ≤ n)
    (hlast : l ≠ [] → b.length = n) :
    cutAux n (fuel + 1) (b ++ l) = b :: cutAux n fuel l := by
  have hsome : (b ++ l).isEmpty = false := by
    cases b with
    | nil => cases hpos
    | cons a b => rfl
  rw [cutAux, hsome]
  cases l with
  | nil =>
      rw [List.append_nil, List.take_of_length_le hshort, List.drop_of_length_le hshort]
      rfl
  | cons a l =>
      have hfull : b.length = n := hlast (List.cons_ne_nil a l)
      rw [← hfull, List.take_left, List.drop_left]
      rfl

theorem cutAux_flatten {fuel : ℕ} (h : Fits n bs.flatten.length bs)
    (hfuel : bs.flatten.length ≤ fuel) : cutAux n fuel bs.flatten = bs := by
  induction bs generalizing fuel with
  | nil => cases fuel <;> rfl
  | cons b bs ih =>
      obtain ⟨hpos, hlength, hrest⟩ := h
      rw [List.flatten_cons, List.length_append] at hlength hrest hfuel
      rw [Nat.add_sub_cancel_left] at hrest
      cases fuel with
      | zero => omega
      | succ fuel =>
          rw [List.flatten_cons, cutAux_append hpos (by omega), ih hrest (by omega)]
          intro hne
          have hsome : 0 < bs.flatten.length := List.length_pos_of_ne_nil hne
          omega

/-- Blocks of the right lengths are the blocks of what they make up. -/
theorem cut_flatten (h : Fits n bs.flatten.length bs) : cut n bs.flatten = bs :=
  cutAux_flatten h le_rfl

theorem flatten_cutAux (hn : 0 < n) {fuel : ℕ} (hfuel : l.length ≤ fuel) :
    (cutAux n fuel l).flatten = l := by
  induction fuel generalizing l with
  | zero => rw [List.eq_nil_of_length_eq_zero (Nat.le_zero.mp hfuel)]; rfl
  | succ fuel ih =>
      rw [cutAux]
      cases l with
      | nil => rfl
      | cons a l =>
          have hdrop : ((a :: l).drop n).length ≤ fuel := by
            rw [List.length_drop]
            omega
          simp only [List.isEmpty_cons, Bool.false_eq_true, if_false, List.flatten_cons, ih hdrop,
            List.take_append_drop]

/-- The blocks of a list make it up. -/
theorem flatten_cut (hn : 0 < n) (l : List α) : (cut n l).flatten = l := flatten_cutAux hn le_rfl

@[simp] theorem place_append (o : ℕ) (bs bs' : List (List α)) :
    place o (bs ++ bs') = place o bs ++ place (o + bs.flatten.length) bs' := by
  induction bs generalizing o with
  | nil => rfl
  | cons b bs ih => simp [place, ih, Nat.add_assoc]

end Blocks
