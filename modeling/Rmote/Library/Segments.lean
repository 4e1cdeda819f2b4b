import Mathlib.Algebra.BigOperators.Group.List.Basic
import Mathlib.Algebra.Order.Ring.Nat

/-!
# Goods in flight, counted in segments

Goods with a weight travel in order and are grouped into segments on the way, and
only the weight and the number of goods of a segment are known. `Covers tight w l
segs` says that the segments, in order, account for the first goods of `l`: a
segment never weighs less than its goods, and exactly as much when `tight` holds.
The segments may be regrouped on the way, goods may join the last segment, and the
first segment leaves together with its goods.
-/

namespace Segments

variable {α : Type*} (tight : Prop) (w : α → ℕ)

/-- The weight `b` stands for the goods `l`. -/
def Weighs (l : List α) (b : ℕ) : Prop :=
  (l.map w).sum ≤ b ∧ (tight → b = (l.map w).sum)

/-- The segments account for the first goods of the list. -/
def Covers : List α → List (ℕ × ℕ) → Prop
  | _, [] => True
  | l, (b, k) :: segs => k ≤ l.length ∧ Weighs tight w (l.take k) b ∧ Covers (l.drop k) segs

/-- The number of goods in the segments. -/
def count (segs : List (ℕ × ℕ)) : ℕ := (segs.map Prod.snd).sum

/-- The weight of the segments. -/
def weight (segs : List (ℕ × ℕ)) : ℕ := (segs.map Prod.fst).sum

@[simp] theorem count_nil : count [] = 0 := rfl

@[simp] theorem count_cons (b k : ℕ) (segs : List (ℕ × ℕ)) :
    count ((b, k) :: segs) = k + count segs := rfl

@[simp] theorem count_append (segs segs' : List (ℕ × ℕ)) :
    count (segs ++ segs') = count segs + count segs' := by
  simp [count]

@[simp] theorem weight_nil : weight [] = 0 := rfl

@[simp] theorem weight_cons (b k : ℕ) (segs : List (ℕ × ℕ)) :
    weight ((b, k) :: segs) = b + weight segs := rfl

@[simp] theorem weight_append (segs segs' : List (ℕ × ℕ)) :
    weight (segs ++ segs') = weight segs + weight segs' := by
  simp [weight]

variable {tight w} {l : List α} {segs segs' : List (ℕ × ℕ)} {b b' k k' : ℕ}

theorem weighs_nil : Weighs tight w [] 0 := ⟨le_rfl, fun _ => rfl⟩

theorem weighs_append {l l' : List α} (h : Weighs tight w l b) (h' : Weighs tight w l' b') :
    Weighs tight w (l ++ l') (b + b') := by
  constructor
  · rw [List.map_append, List.sum_append]
    exact Nat.add_le_add h.1 h'.1
  · intro htight
    rw [List.map_append, List.sum_append, h.2 htight, h'.2 htight]

/-- One condition may be dropped for a stronger one. -/
theorem Covers.imp {tight' : Prop} (h : Covers tight w l segs) (himp : tight' → tight) :
    Covers tight' w l segs := by
  induction segs generalizing l with
  | nil => trivial
  | cons seg segs ih =>
      obtain ⟨hk, hweighs, hrest⟩ := h
      exact ⟨hk, ⟨hweighs.1, fun htight => hweighs.2 (himp htight)⟩, ih hrest⟩

theorem covers_append :
    Covers tight w l (segs ++ segs') ↔
      Covers tight w l segs ∧ Covers tight w (l.drop (count segs)) segs' := by
  induction segs generalizing l with
  | nil => simp [Covers]
  | cons seg segs ih =>
      obtain ⟨b, k⟩ := seg
      simp only [List.cons_append, Covers, ih, count_cons, List.drop_drop, and_assoc]

theorem Covers.count_le (h : Covers tight w l segs) : count segs ≤ l.length := by
  induction segs generalizing l with
  | nil => exact Nat.zero_le _
  | cons seg segs ih =>
      obtain ⟨hk, -, hrest⟩ := h
      have hle := ih hrest
      rw [List.length_drop] at hle
      rw [count_cons]
      omega

/-- More goods may follow. -/
theorem Covers.append (h : Covers tight w l segs) (l' : List α) :
    Covers tight w (l ++ l') segs := by
  induction segs generalizing l with
  | nil => trivial
  | cons seg segs ih =>
      obtain ⟨hk, hweighs, hrest⟩ := h
      refine ⟨?_, ?_, ?_⟩
      · rw [List.length_append]
        omega
      · rwa [List.take_append_of_le_length hk]
      · rw [List.drop_append_of_le_length hk]
        exact ih hrest

/-- One more good joins the last segment. -/
theorem Covers.grow {a : α} (h : Covers tight w l (segs ++ [(b, k)]))
    (hall : count (segs ++ [(b, k)]) = l.length) :
    Covers tight w (l ++ [a]) (segs ++ [(b + w a, k + 1)]) := by
  obtain ⟨hsegs, hk, hweighs, -⟩ := covers_append.mp h
  rw [count_append, count_cons, count_nil, add_zero] at hall
  have hrest : (l.drop (count segs)).length = k := by
    rw [List.length_drop]
    omega
  have hdrop : (l ++ [a]).drop (count segs) = l.drop (count segs) ++ [a] :=
    List.drop_append_of_le_length (by omega)
  refine covers_append.mpr ⟨hsegs.append [a], ?_, ?_, trivial⟩
  · rw [hdrop, List.length_append, hrest]
    rfl
  · rw [List.take_of_length_le hrest.le] at hweighs
    rw [hdrop, List.take_of_length_le (by simp [hrest])]
    exact weighs_append hweighs ⟨by simp, fun _ => by simp⟩

/-- Whatever goods the first segments account for, the others do. -/
def Regroups (tight : Prop) (w : α → ℕ) (segs segs' : List (ℕ × ℕ)) : Prop :=
  (∀ l, Covers tight w l segs → Covers tight w l segs') ∧ count segs' = count segs

theorem Regroups.refl (segs : List (ℕ × ℕ)) : Regroups tight w segs segs :=
  ⟨fun _ h => h, rfl⟩

theorem Regroups.trans {segs'' : List (ℕ × ℕ)} (h : Regroups tight w segs segs')
    (h' : Regroups tight w segs' segs'') : Regroups tight w segs segs'' :=
  ⟨fun l hl => h'.1 l (h.1 l hl), h'.2.trans h.2⟩

theorem Regroups.append_left (h : Regroups tight w segs segs') (before : List (ℕ × ℕ)) :
    Regroups tight w (before ++ segs) (before ++ segs') := by
  constructor
  · intro l hl
    obtain ⟨hbefore, hrest⟩ := covers_append.mp hl
    exact covers_append.mpr ⟨hbefore, h.1 _ hrest⟩
  · rw [count_append, count_append, h.2]

theorem Regroups.append_right (h : Regroups tight w segs segs') (after : List (ℕ × ℕ)) :
    Regroups tight w (segs ++ after) (segs' ++ after) := by
  constructor
  · intro l hl
    obtain ⟨hsegs, hrest⟩ := covers_append.mp hl
    exact covers_append.mpr ⟨h.1 l hsegs, by rwa [h.2]⟩
  · rw [count_append, count_append, h.2]

/-- Two segments that follow each other become one. -/
theorem regroups_merge (b k b' k' : ℕ) (segs : List (ℕ × ℕ)) :
    Regroups tight w ((b, k) :: (b', k') :: segs) ((b + b', k + k') :: segs) := by
  constructor
  · rintro l ⟨hk, hweighs, hk', hweighs', hrest⟩
    rw [List.length_drop] at hk'
    refine ⟨by omega, ?_, ?_⟩
    · rw [List.take_add]
      exact weighs_append hweighs hweighs'
    · rw [List.drop_drop] at hrest
      exact hrest
  · simp only [count_cons]
    omega

/-- An empty segment stands for nothing. -/
theorem regroups_zero (segs : List (ℕ × ℕ)) : Regroups tight w segs ((0, 0) :: segs) := by
  constructor
  · intro l h
    exact ⟨Nat.zero_le _, by simpa using weighs_nil, by simpa using h⟩
  · simp

/-- A segment may get heavier, but not while the weights are tight. -/
theorem regroups_heavier (hle : b ≤ b') (heq : tight → b' = b) (segs : List (ℕ × ℕ)) :
    Regroups tight w ((b, k) :: segs) ((b', k) :: segs) := by
  constructor
  · rintro l ⟨hk, hweighs, hrest⟩
    refine ⟨hk, ⟨hweighs.1.trans hle, fun htight => ?_⟩, hrest⟩
    rw [heq htight]
    exact hweighs.2 htight
  · rfl

/-- Segments that account for all the goods weigh what the goods weigh, or more. -/
theorem Covers.weighs (h : Covers tight w l segs) (hall : count segs = l.length) :
    Weighs tight w l (weight segs) := by
  induction segs generalizing l with
  | nil =>
      rw [count_nil] at hall
      rw [List.eq_nil_of_length_eq_zero hall.symm]
      exact weighs_nil
  | cons seg segs ih =>
      obtain ⟨b, k⟩ := seg
      obtain ⟨hk, hweighs, hrest⟩ := h
      rw [count_cons] at hall
      have hrec := ih hrest (by rw [List.length_drop]; omega)
      rw [weight_cons, ← List.take_append_drop k l]
      exact weighs_append hweighs hrec

end Segments
