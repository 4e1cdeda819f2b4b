import Mathlib.Data.List.AList
import Mathlib.Algebra.BigOperators.Group.List.Basic
import Mathlib.Algebra.Ring.Nat

/-!
# Counting in a finite dictionary

A dictionary is an association list with distinct keys. `size` counts its
entries, `weight w` adds up what its values weigh and `total` adds up the values
of a dictionary of natural numbers. All are described through `insert` and `erase`,
so a proof about a program that keeps such counters next to its dictionary never
looks at the entries.
-/

namespace Dict

variable {α β : Type*}

/-- The number of entries. -/
def size (d : AList fun _ : α => β) : ℕ := d.keys.length

/-- The sum of what the values weigh. -/
def weight (w : β → ℕ) (d : AList fun _ : α => β) : ℕ := (d.entries.map fun e => w e.2).sum

/-- The sum of the values. -/
def total (d : AList fun _ : α => ℕ) : ℕ := (d.entries.map Sigma.snd).sum

@[simp] theorem size_empty : size (∅ : AList fun _ : α => β) = 0 := rfl

@[simp] theorem weight_empty (w : β → ℕ) : weight w (∅ : AList fun _ : α => β) = 0 := rfl

@[simp] theorem total_empty : total (∅ : AList fun _ : α => ℕ) = 0 := rfl

theorem weight_eq_zero {w : β → ℕ} {d : AList fun _ : α => β} (h : ∀ a, a ∉ d) :
    weight w d = 0 := by
  have hnil : d.entries = [] := by
    refine List.eq_nil_iff_forall_not_mem.mpr fun e he => h e.1 ?_
    exact AList.mem_keys.mpr (List.mem_map_of_mem he)
  rw [weight, hnil]
  rfl

theorem total_eq_weight (d : AList fun _ : α => ℕ) : total d = weight id d := rfl

variable [DecidableEq α]

theorem size_insert_of_mem {d : AList fun _ : α => β} {a : α} (b : β) (h : a ∈ d) :
    size (d.insert a b) = size d := by
  have hmem : a ∈ d.keys := h
  have hpos : 0 < d.keys.length := List.length_pos_of_mem hmem
  rw [size, size, AList.keys_insert, List.length_cons, List.length_erase_of_mem hmem]
  omega

theorem size_insert_of_notMem {d : AList fun _ : α => β} {a : α} (b : β) (h : a ∉ d) :
    size (d.insert a b) = size d + 1 := by
  have hmem : a ∉ d.keys := h
  rw [size, size, AList.keys_insert, List.length_cons, List.erase_of_not_mem hmem]

theorem size_erase_of_mem {d : AList fun _ : α => β} {a : α} (h : a ∈ d) :
    size (d.erase a) + 1 = size d := by
  have hmem : a ∈ d.keys := h
  have hpos : 0 < d.keys.length := List.length_pos_of_mem hmem
  rw [size, size, AList.keys_erase, List.length_erase_of_mem hmem]
  omega

/-- The values of a list of entries weigh what the value at `a` and the rest weigh. -/
theorem sum_kerase (w : β → ℕ) (a : α) (l : List (Sigma fun _ : α => β)) :
    ((List.kerase a l).map fun e => w e.2).sum + ((List.dlookup a l).map w).getD 0 =
      (l.map fun e => w e.2).sum := by
  induction l with
  | nil => simp
  | cons e l ih =>
      obtain ⟨k, n⟩ := e
      by_cases hk : a = k
      · subst hk
        simp [add_comm]
      · rw [List.kerase_cons_ne hk, List.dlookup_cons_ne _ _ hk]
        simp only [List.map_cons, List.sum_cons]
        omega

theorem weight_erase (w : β → ℕ) (d : AList fun _ : α => β) (a : α) :
    weight w (d.erase a) + ((d.lookup a).map w).getD 0 = weight w d :=
  sum_kerase w a d.entries

theorem weight_insert (w : β → ℕ) (d : AList fun _ : α => β) (a : α) (b : β) :
    weight w (d.insert a b) + ((d.lookup a).map w).getD 0 = weight w d + w b := by
  have herase := weight_erase w d a
  have hinsert : weight w (d.insert a b) = w b + weight w (d.erase a) := by
    rw [weight, AList.entries_insert, List.map_cons, List.sum_cons]
    rfl
  omega

theorem total_erase (d : AList fun _ : α => ℕ) (a : α) :
    total (d.erase a) + (d.lookup a).getD 0 = total d := by
  simpa [total_eq_weight] using weight_erase id d a

theorem total_insert (d : AList fun _ : α => ℕ) (a : α) (n : ℕ) :
    total (d.insert a n) + (d.lookup a).getD 0 = total d + n := by
  simpa [total_eq_weight] using weight_insert id d a n

/-- A dictionary that holds at each key what the value of another one weighs adds up
to the weight of that other one. -/
theorem total_eq_weight_of_lookup (w : β → ℕ) {d : AList fun _ : α => ℕ}
    {e : AList fun _ : α => β} (h : ∀ a, d.lookup a = (e.lookup a).map w) :
    total d = weight w e := by
  let weighed : List (Sigma fun _ : α => ℕ) := e.entries.map (Sigma.map id fun _ b => w b)
  have hkeys : weighed.keys = e.entries.keys := by
    simp [weighed, List.keys, Sigma.map]
  have hperm : d.entries.Perm weighed := by
    refine List.lookup_ext d.nodupKeys ?_ fun a n => ?_
    · rw [List.NodupKeys, hkeys]
      exact e.nodupKeys
    · rw [List.dlookup_map₂]
      exact iff_of_eq (congrArg (n ∈ ·) (h a))
  rw [total, (hperm.map Sigma.snd).sum_eq, List.map_map]
  rfl

end Dict
