import Mathlib.Data.List.Basic

/-!
# The latest element

Elements arrive one after the other, and a new one takes the place of the old one if the relation
`r`, "at most as late", allows it. The relation is only transitive: it need not relate an element to
itself, and two elements may not be comparable. If it puts any two different elements in a strict
order, what is left at the end is the latest of all, so neither the order of the arrivals nor a
repetition matters.
-/

namespace Latest

variable {α : Type*} (r : α → α → Prop)

/-- Keep the new element unless the old one is later. -/
def later [DecidableRel r] : Option α → α → Option α
  | some old, new => if r old new then some new else some old
  | none, new => some new

/-- Of two different elements one is strictly before the other. -/
def Comparable (l : List α) : Prop :=
  ∀ x ∈ l, ∀ y ∈ l, x ≠ y → (r x y ∧ ¬ r y x) ∨ (r y x ∧ ¬ r x y)

/-- An element of the list with all others strictly before it. -/
structure IsLatest (l : List α) (m : α) : Prop where
  mem : m ∈ l
  before : ∀ x ∈ l, x ≠ m → r x m ∧ ¬ r m x

variable {r} {l l' : List α} {m m' : α}

theorem IsLatest.unique (h : IsLatest r l m) (h' : IsLatest r l m') : m = m' := by
  by_contra hne
  exact (h.before m' h'.mem (Ne.symm hne)).2 (h'.before m h.mem hne).1

theorem IsLatest.congr (hmem : ∀ x, x ∈ l ↔ x ∈ l') (h : IsLatest r l m) : IsLatest r l' m :=
  ⟨(hmem m).mp h.mem, fun x hx => h.before x ((hmem x).mpr hx)⟩

theorem Comparable.subset (h : Comparable r l) (hsub : ∀ x ∈ l', x ∈ l) : Comparable r l' :=
  fun x hx y hy => h x (hsub x hx) y (hsub y hy)

variable [DecidableRel r]

/-- What is left was there or has arrived. -/
theorem mem_of_foldl_later {o : Option α} (h : l.foldl (later r) o = some m) : o = some m ∨ m ∈ l := by
  induction l generalizing o with
  | nil => exact .inl h
  | cons x l ih =>
      rcases ih h with hlater | hm
      · cases o with
        | none =>
            rw [later] at hlater
            rw [← Option.some.inj hlater]
            exact .inr List.mem_cons_self
        | some old =>
            rw [later] at hlater
            split_ifs at hlater
            · rw [← Option.some.inj hlater]
              exact .inr List.mem_cons_self
            · exact .inl hlater
      · exact .inr (List.mem_cons_of_mem x hm)

variable (htrans : ∀ x y z, r x y → r y z → r x z)

include htrans

/-- What is left of an element and of those that arrive after it. -/
theorem exists_foldl_later (h : Comparable r (m :: l)) :
    ∃ m', l.foldl (later r) (some m) = some m' ∧ IsLatest r (m :: l) m' := by
  induction l generalizing m with
  | nil =>
      refine ⟨m, rfl, List.mem_singleton_self m, ?_⟩
      intro x hx hne
      exact absurd (List.mem_singleton.mp hx) hne
  | cons x l ih =>
      by_cases hmx : r m x
      · -- the new element stays, and the old one is before everything that is after the new one
        obtain ⟨m', hfold, hlatest⟩ := ih (m := x)
          (h.subset fun y hy => List.mem_cons_of_mem m hy)
        refine ⟨m', ?_, List.mem_cons_of_mem m hlatest.mem, ?_⟩
        · rw [List.foldl_cons, later, if_pos hmx, hfold]
        · intro y hy hne
          rcases List.mem_cons.mp hy with rfl | hy
          · rcases h y List.mem_cons_self m' (List.mem_cons_of_mem y hlatest.mem) hne with hbefore |
              ⟨-, hafter⟩
            · exact hbefore
            · by_cases hx : x = m'
              · exact absurd (hx ▸ hmx) hafter
              · exact absurd (htrans y x m' hmx (hlatest.before x List.mem_cons_self hx).1) hafter
          · exact hlatest.before y hy hne
      · -- the old element stays, and the new one is not after it
        obtain ⟨m', hfold, hlatest⟩ := ih (m := m) (h.subset fun y hy => by
          rcases List.mem_cons.mp hy with rfl | hy
          · exact List.mem_cons_self
          · exact List.mem_cons_of_mem m (List.mem_cons_of_mem x hy))
        have hmem : m' ∈ m :: x :: l := by
          rcases List.mem_cons.mp hlatest.mem with rfl | hm'
          · exact List.mem_cons_self
          · exact List.mem_cons_of_mem m (List.mem_cons_of_mem x hm')
        refine ⟨m', ?_, hmem, ?_⟩
        · rw [List.foldl_cons, later, if_neg hmx, hfold]
        · intro y hy hne
          rcases List.mem_cons.mp hy with rfl | hy
          · exact hlatest.before y List.mem_cons_self hne
          · rcases List.mem_cons.mp hy with rfl | hy
            · rcases h y (List.mem_cons_of_mem m List.mem_cons_self) m' hmem hne with hbefore |
                ⟨hafter, hnot⟩
              · exact hbefore
              · by_cases hm : m = m'
                · exact absurd (hm ▸ hafter) hmx
                · exact absurd (htrans m m' y (hlatest.before m List.mem_cons_self hm).1 hafter) hmx
            · exact hlatest.before y (List.mem_cons_of_mem m hy) hne

/-- The latest of the elements is what is left. -/
theorem foldl_later_eq_some (h : Comparable r l) :
    l.foldl (later r) none = some m ↔ IsLatest r l m := by
  cases l with
  | nil =>
      refine iff_of_false nofun ?_
      exact fun hlatest => absurd hlatest.mem List.not_mem_nil
  | cons x l =>
      obtain ⟨m', hfold, hlatest⟩ := exists_foldl_later htrans h
      rw [List.foldl_cons, later, hfold]
      constructor
      · intro hm
        rw [← Option.some.inj hm]
        exact hlatest
      · intro hm
        rw [hlatest.unique hm]

/-- The order and the repetitions do not matter. -/
theorem foldl_later_congr (h : Comparable r l) (hmem : ∀ x, x ∈ l ↔ x ∈ l') :
    l.foldl (later r) none = l'.foldl (later r) none := by
  apply Option.ext
  intro m
  rw [foldl_later_eq_some htrans h,
    foldl_later_eq_some htrans (h.subset fun x hx => (hmem x).mpr hx)]
  exact ⟨fun hm => hm.congr hmem, fun hm => hm.congr fun x => (hmem x).symm⟩

/-- What is there is never replaced by something earlier. -/
theorem foldl_later_mono (m : α) (l : List α) :
    ∃ m', l.foldl (later r) (some m) = some m' ∧ (m' = m ∨ r m m') := by
  induction l generalizing m with
  | nil => exact ⟨m, rfl, .inl rfl⟩
  | cons x l ih =>
      rw [List.foldl_cons, later]
      split_ifs with hmx
      · obtain ⟨m', hfold, hm'⟩ := ih x
        refine ⟨m', hfold, .inr ?_⟩
        rcases hm' with rfl | hm'
        · exact hmx
        · exact htrans m x m' hmx hm'
      · exact ih m

end Latest
