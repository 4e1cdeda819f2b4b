import Rmote.Rsync.Removal

/-!
# The removal of an extra entry

`remove` takes away an entry with everything below it, except what the patterns exclude. It
returns for every tree: of the paths below the entry those are left that are excluded, lie below
an excluded one or above one, and nothing else changes.
-/

namespace Rmote

namespace Rsync

open Hoare

/-- Remove extra entries. The number is a bound for the depth of the tree below the path. -/
def remove (patterns : List String) : ℕ → Path → Call ℕ
  | 0, _ => throw .recursion
  | fuel + 1, p => do
      match inspect (← get) p with
      | none => return 0
      | some entry =>
          if excluded p entry.kind patterns then return 0
          else if entry.kind = .directory then
            let entries ← scan p
            let count ← entries.foldlM (fun count item => do
              return count + (← remove patterns fuel (item.1 :: p))) 0
            if (← scan p).isEmpty then
              discard p
              return count + 1
            else
              return count
          else
            discard p
            return 1

variable {patterns : List String} {t s : Tree} {p q : Path} {count : ℕ}

/-- The path names something that is excluded. -/
def ExcludedAt (patterns : List String) (t : Tree) (p : Path) : Prop :=
  ∃ node, t.get p = some node ∧ excluded p node.kind patterns = true

/-- The removal of `p` spares `q`. -/
def Kept (patterns : List String) (t : Tree) (p q : Path) : Prop :=
  (∃ r, p <:+ r ∧ r <:+ q ∧ ExcludedAt patterns t r) ∨ ∃ r, q <:+ r ∧ ExcludedAt patterns t r

/-- What the removal of `p` does to the tree `t`. -/
structure Removed (patterns : List String) (t : Tree) (p : Path) (count : ℕ) (s : Tree) :
    Prop where
  gone : ∀ q, p <:+ q → ¬ Kept patterns t p q → s.get q = none
  same : ∀ q, ¬ p <:+ q ∨ Kept patterns t p q → s.get q = t.get q
  zero : count = 0 → s = t
  pos : 0 < count → ∃ q, t.get q ≠ none ∧ s.get q = none

theorem ExcludedAt.get (h : ExcludedAt patterns t p) : t.get p ≠ none := by
  obtain ⟨node, hnode, -⟩ := h
  rw [hnode]
  nofun

theorem excludedAt_congr (h : s.get p = t.get p) :
    ExcludedAt patterns s p ↔ ExcludedAt patterns t p := by
  rw [ExcludedAt, ExcludedAt, h]

theorem not_excludedAt {node : Node} (hnode : t.get p = some node)
    (h : ¬ excluded p node.kind patterns = true) : ¬ ExcludedAt patterns t p := by
  rintro ⟨node', hnode', hexcluded⟩
  rw [hnode] at hnode'
  cases hnode'
  exact h hexcluded

/-- `remove` is the removal that spares what the patterns exclude. -/
theorem remove_eq (fuel : ℕ) :
    remove patterns fuel = removal (fun p kind => excluded p kind patterns) fuel := by
  induction fuel with
  | zero => rfl
  | succ fuel ih =>
      funext p
      rw [remove, ih]
      exact rfl

/-- What `remove` does, with a bound that the tree below the path does not reach. -/
theorem triple_remove (patterns : List String) (fuel : ℕ) (t : Tree) (p : Path) (hpos : 0 < fuel)
    (hfuel : ∀ q, p <:+ q → t.get q ≠ none → q.length < fuel + p.length) :
    Triple (fun s => s = t) (remove patterns fuel p) (Removed patterns t p) (fun _ => False) := by
  rw [remove_eq]
  refine (triple_removal _ fuel t p hpos hfuel).mono (fun _ h => h) (fun count s hs => ?_)
    fun _ h => h
  refine ⟨hs.gone, hs.same, hs.zero, fun hcount => ?_⟩
  rw [← hs.length_gone] at hcount
  obtain ⟨q, hq⟩ := List.exists_mem_of_length_pos hcount
  exact ⟨q, mem_gone.mp hq⟩

/-- `remove` leaves a tree alone in which everything below the path is spared. -/
theorem run_remove {fuel : ℕ} (hpos : 0 < fuel)
    (hfuel : ∀ q, p <:+ q → t.get q ≠ none → q.length < fuel + p.length)
    (hkept : ∀ q, p <:+ q → t.get q ≠ none → Kept patterns t p q) :
    (remove patterns fuel p).run t = .ok 0 t := by
  have h := triple_remove patterns fuel t p hpos hfuel t rfl
  cases hrun : (remove patterns fuel p).run t with
  | error e s =>
      rw [hrun] at h
      exact h.elim
  | ok count s =>
      rw [hrun] at h
      have hzero : count = 0 := by
        by_contra hcount
        obtain ⟨q, hq, hgone⟩ := h.pos (Nat.pos_of_ne_zero hcount)
        have hsame : s.get q = t.get q := by
          by_cases hpq : p <:+ q
          · exact h.same q (.inr (hkept q hpq hq))
          · exact h.same q (.inl hpq)
        exact hq (hsame ▸ hgone)
      rw [hzero, h.zero hzero]

end Rsync

end Rmote
