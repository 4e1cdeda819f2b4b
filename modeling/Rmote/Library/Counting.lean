import Rmote.Library.Dict
import Mathlib.Algebra.Order.BigOperators.Group.List
import Mathlib.Algebra.Order.Ring.Nat
import Mathlib.Data.List.Perm.Subperm

/-!
# Weights over a list of agents

A system keeps its agents in a list and changes one of them at a time with
`List.set`. Each agent `a` has a key and a weight. The lemmas follow a sum over
the agents through such a change, and bound a dictionary whose keys are keys of
agents by the number and the weight of these agents.
-/

namespace Counting

variable {α : Type*}

/-- Replacing one agent replaces its term of a sum. -/
theorem sum_map_set (f : α → ℕ) {l : List α} {i : ℕ} {a : α} (b : α) (h : l[i]? = some a) :
    ((l.set i b).map f).sum + f a = (l.map f).sum + f b := by
  induction l generalizing i with
  | nil => simp at h
  | cons x l ih =>
      cases i with
      | zero =>
          have hx : x = a := by simpa using h
          subst hx
          simp only [List.set_cons_zero, List.map_cons, List.sum_cons]
          omega
      | succ i =>
          have hrest := ih (by simpa using h)
          simp only [List.set_cons_succ, List.map_cons, List.sum_cons]
          omega

/-- Replacing one agent replaces its mark. -/
theorem countP_set_add (p : α → Bool) {l : List α} {i : ℕ} {a : α} (b : α) (h : l[i]? = some a) :
    (l.set i b).countP p + (if p a then 1 else 0) = l.countP p + (if p b then 1 else 0) := by
  obtain ⟨hlt, hget⟩ := List.getElem?_eq_some_iff.mp h
  rw [List.countP_set hlt, hget]
  cases hp : p a with
  | false => simp
  | true =>
      have hpos : 0 < l.countP p := List.countP_pos_iff.mpr ⟨a, List.mem_of_getElem? h, hp⟩
      simp only [ite_true]
      omega

/-- An agent survives the change of another one. -/
theorem eq_or_mem_set {l : List α} {i : ℕ} {a c : α} (b : α) (h : l[i]? = some a) (hc : c ∈ l) :
    c = a ∨ c ∈ l.set i b := by
  obtain ⟨j, hj⟩ := List.mem_iff_getElem?.mp hc
  by_cases hij : i = j
  · subst hij
    exact .inl (Option.some.inj (hj.symm.trans h))
  · exact .inr (List.mem_iff_getElem?.mpr ⟨j, by rwa [List.getElem?_set_ne hij]⟩)

theorem mem_set_self {l : List α} {i : ℕ} {a : α} (b : α) (h : l[i]? = some a) :
    b ∈ l.set i b :=
  List.mem_iff_getElem?.mpr ⟨i, List.getElem?_set_self (List.getElem?_eq_some_iff.mp h).1⟩

/-- What is found after one agent changed. -/
theorem getElem?_set_cases {l : List α} {j k : ℕ} {a b : α}
    (h : (l.set j a)[k]? = some b) : k = j ∧ b = a ∨ k ≠ j ∧ l[k]? = some b := by
  rw [List.getElem?_set] at h
  split_ifs at h with hjk hlt
  · exact .inl ⟨hjk.symm, (Option.some.inj h).symm⟩
  · exact .inr ⟨Ne.symm hjk, h⟩

/-- What is found after one agent came. -/
theorem getElem?_snoc_cases {l : List α} {k : ℕ} {a b : α}
    (h : (l ++ [a])[k]? = some b) : l[k]? = some b ∨ k = l.length ∧ b = a := by
  rw [List.getElem?_append] at h
  split_ifs at h with hlt
  · exact .inl h
  · have hk : k - l.length = 0 := by
      by_contra hne
      rw [List.getElem?_eq_none (by rw [List.length_singleton]; omega)] at h
      cases h
    rw [hk] at h
    exact .inr ⟨by omega, (Option.some.inj h).symm⟩

theorem getElem?_snoc {l : List α} {k : ℕ} {b : α} (h : l[k]? = some b) (a : α) :
    (l ++ [a])[k]? = some b := by
  rw [List.getElem?_append_left (List.getElem?_eq_some_iff.mp h).1]
  exact h

/-- The weight of the agents with the key `k`. -/
def weightAt (key weight : α → ℕ) (l : List α) (k : ℕ) : ℕ :=
  (l.map fun a => if key a = k then weight a else 0).sum

theorem weightAt_set (key weight : α → ℕ) {l : List α} {i : ℕ} {a : α} (b : α)
    (h : l[i]? = some a) (hkey : key b = key a) (k : ℕ) :
    weightAt key weight (l.set i b) k + (if key a = k then weight a else 0) =
      weightAt key weight l k + (if key a = k then weight b else 0) := by
  have hsum := sum_map_set (fun a => if key a = k then weight a else 0) b h
  simp only [hkey] at hsum
  exact hsum

theorem weightAt_append (key weight : α → ℕ) (l : List α) (b : α) (k : ℕ) :
    weightAt key weight (l ++ [b]) k =
      weightAt key weight l k + (if key b = k then weight b else 0) := by
  simp [weightAt]

/-- Distinct keys pick a term at most once. -/
theorem sum_indicator_le {keys : List ℕ} (hkeys : keys.Nodup) (k w : ℕ) :
    (keys.map fun k' => if k = k' then w else 0).sum ≤ w := by
  induction keys with
  | nil => simp
  | cons k' keys ih =>
      rw [List.nodup_cons] at hkeys
      rw [List.map_cons, List.sum_cons]
      by_cases hk : k = k'
      · subst hk
        have hzero : (keys.map fun k' => if k = k' then w else 0).sum = 0 := by
          apply List.sum_eq_zero
          intro x hx
          obtain ⟨k', hk', rfl⟩ := List.mem_map.mp hx
          have hne : k ≠ k' := fun heq => hkeys.1 (heq ▸ hk')
          exact if_neg hne
        simp [hzero]
      · simpa [hk] using ih hkeys.2

/-- The weights at distinct keys add up to no more than all the weights. -/
theorem sum_weightAt_le (key weight : α → ℕ) {keys : List ℕ} (hkeys : keys.Nodup) (l : List α) :
    (keys.map (weightAt key weight l)).sum ≤ (l.map weight).sum := by
  induction l with
  | nil =>
      have hzero : weightAt key weight [] = fun _ => 0 := rfl
      simp [hzero]
  | cons a l ih =>
      have hsplit : (keys.map (weightAt key weight (a :: l))).sum =
          (keys.map fun k => if key a = k then weight a else 0).sum +
            (keys.map (weightAt key weight l)).sum := by
        rw [← List.sum_map_add]
        rfl
      have hhead := sum_indicator_le hkeys (key a) (weight a)
      rw [hsplit, List.map_cons, List.sum_cons]
      omega

/-- The total of a dictionary, key by key. -/
theorem total_eq_sum_keys (d : AList fun _ : ℕ => ℕ) :
    Dict.total d = (d.keys.map fun k => (d.lookup k).getD 0).sum := by
  obtain ⟨l, hl⟩ := d
  simp only [Dict.total, AList.keys, AList.lookup]
  induction l with
  | nil => rfl
  | cons e l ih =>
      obtain ⟨k, n⟩ := e
      rw [List.nodupKeys_cons] at hl
      have hrest : (l.keys.map fun k' => (List.dlookup k' (⟨k, n⟩ :: l)).getD 0) =
          l.keys.map fun k' => (List.dlookup k' l).getD 0 := by
        apply List.map_congr_left
        intro k' hk'
        rw [List.dlookup_cons_ne]
        exact fun heq => hl.1 (heq ▸ hk')
      rw [List.keys_cons, List.map_cons, List.map_cons, List.sum_cons, List.sum_cons, hrest,
        ← ih hl.2]
      simp

/-- A dictionary bounded key by key by the weights of the agents is bounded by
their total weight. -/
theorem total_le (key weight : α → ℕ) {d : AList fun _ : ℕ => ℕ} {l : List α}
    (h : ∀ k, (d.lookup k).getD 0 ≤ weightAt key weight l k) :
    Dict.total d ≤ (l.map weight).sum := by
  rw [total_eq_sum_keys]
  refine le_trans ?_ (sum_weightAt_le key weight d.keys_nodup l)
  exact List.sum_le_sum fun k _ => h k

/-- Distinct keys that all belong to marked agents are no more than the marked
agents. -/
theorem length_le_countP (key : α → ℕ) {mark : α → Bool} {l : List α} {keys : List ℕ}
    (hkeys : keys.Nodup) (h : ∀ k ∈ keys, ∃ a ∈ l, mark a = true ∧ key a = k) :
    keys.length ≤ l.countP mark := by
  have hsub : keys ⊆ (l.filter mark).map key := by
    intro k hk
    obtain ⟨a, ha, hmark, rfl⟩ := h k hk
    exact List.mem_map_of_mem (List.mem_filter.mpr ⟨ha, hmark⟩)
  have hle := (List.subperm_of_subset hkeys hsub).length_le
  rwa [List.length_map, ← List.countP_eq_length_filter] at hle

/-- A mark that one of two others implies. -/
theorem countP_le_add {p q r : α → Bool} {l : List α}
    (h : ∀ a ∈ l, p a = true → q a = true ∨ r a = true) :
    l.countP p ≤ l.countP q + l.countP r := by
  induction l with
  | nil => simp
  | cons a l ih =>
      have hrest := ih fun a' ha' => h a' (List.mem_cons_of_mem a ha')
      have hhead := h a List.mem_cons_self
      simp only [List.countP_cons]
      cases hp : p a with
      | false =>
          simp only [Bool.false_eq_true, ite_false]
          omega
      | true =>
          rcases hhead hp with hq | hr
          · simp only [hq, ite_true]
            omega
          · simp only [hr, ite_true]
            omega

/-- What is marked at most once is one entry. -/
theorem eq_of_countP_le_one {p : α → Bool} {l : List α} (h : l.countP p ≤ 1) {a b : α}
    (ha : a ∈ l) (hb : b ∈ l) (hpa : p a = true) (hpb : p b = true) : a = b := by
  by_contra hne
  have hpair : [a, b].Nodup := by simpa using hne
  have hsub : [a, b] ⊆ l.filter p := by
    intro c hc
    rw [List.mem_filter]
    rcases List.mem_pair.mp hc with rfl | rfl
    · exact ⟨ha, hpa⟩
    · exact ⟨hb, hpb⟩
  have hle := (List.subperm_of_subset hpair hsub).length_le
  rw [← List.countP_eq_length_filter] at hle
  exact absurd (le_trans hle h) (by simp)

/-- A list without repetition gets one more entry with a new key. -/
theorem nodup_filterMap_snoc {β : Type*} {f : α → Option β} {l : List α} {a : α}
    (h : (l.filterMap f).Nodup) (hnew : ∀ b, f a = some b → b ∉ l.filterMap f) :
    ((l ++ [a]).filterMap f).Nodup := by
  rw [List.filterMap_append]
  cases hb : f a with
  | none => simpa [hb] using h
  | some b =>
      rw [List.filterMap_cons_some hb, List.filterMap_nil, List.nodup_append]
      refine ⟨h, List.nodup_singleton b, fun c hc d hd heq => ?_⟩
      rw [heq, List.mem_singleton.mp hd] at hc
      exact hnew b hb hc

/-- Entries that all have one key are no more than the occurrences of the key. -/
theorem countP_le_count_filterMap {β : Type*} [DecidableEq β] {f : α → Option β} {p : α → Bool}
    {b : β} {l : List α} (h : ∀ a ∈ l, p a = true → f a = some b) :
    l.countP p ≤ (l.filterMap f).count b := by
  induction l with
  | nil => simp
  | cons a l ih =>
      have hrest := ih fun a' ha' => h a' (List.mem_cons_of_mem a ha')
      cases hp : p a with
      | true =>
          rw [List.countP_cons_of_pos hp, List.filterMap_cons_some (h a List.mem_cons_self hp),
            List.count_cons_self]
          exact Nat.succ_le_succ hrest
      | false =>
          rw [List.countP_cons_of_neg (by simp [hp])]
          cases hb : f a with
          | none =>
              rw [List.filterMap_cons_none hb]
              exact hrest
          | some b' =>
              rw [List.filterMap_cons_some hb]
              exact hrest.trans (List.count_le_count_cons)

end Counting
