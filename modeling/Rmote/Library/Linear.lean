import Mathlib.Data.List.Basic
import Rmote.Library.Simulation

/-!
# Calls in one order

Calls of several callers on one object take effect one at a time. `Explains perform start log s`
says that the entries of the log, one after the other, lead a sequential object from `start` to
`s` and have the answers that the log gives. An entry has its caller with it.
-/

namespace Linear

variable {σ ο ρ : Type*} {perform : σ → ο → σ × ρ} {start s : σ} {log : List (ℕ × ο × ρ)}

/-- A log of calls, in the order in which they take effect. -/
inductive Explains (perform : σ → ο → σ × ρ) (start : σ) : List (ℕ × ο × ρ) → σ → Prop
  | nil : Explains perform start [] start
  | snoc {log : List (ℕ × ο × ρ)} {s : σ} (h : Explains perform start log s) (i : ℕ) (o : ο) :
      Explains perform start (log ++ [(i, o, (perform s o).2)]) (perform s o).1

/-- A call with a known effect. -/
theorem Explains.commit (h : Explains perform start log s) (i : ℕ) {o : ο} {t : σ} {r : ρ}
    (heq : perform s o = (t, r)) : Explains perform start (log ++ [(i, o, r)]) t := by
  have hsnoc := h.snoc i o
  rw [heq] at hsnoc
  exact hsnoc

theorem answers_append (s : σ) (os : List ο) (o : ο) :
    Simulation.answers perform s (os ++ [o]) =
      Simulation.answers perform s os ++
        [(perform (os.foldl (fun s o => (perform s o).1) s) o).2] := by
  induction os generalizing s with
  | nil => rfl
  | cons o' os ih => rw [List.cons_append, Simulation.answers, ih]; rfl

theorem Explains.state (h : Explains perform start log s) :
    (log.map fun e => e.2.1).foldl (fun s o => (perform s o).1) start = s := by
  induction h with
  | nil => rfl
  | snoc h i o ih => rw [List.map_append, List.foldl_append, ih]; rfl

/-- The answers of the log are those of the sequential object. -/
theorem Explains.answers (h : Explains perform start log s) :
    Simulation.answers perform start (log.map fun e => e.2.1) = log.map fun e => e.2.2 := by
  induction h with
  | nil => rfl
  | snoc h i o ih =>
      rw [List.map_append, List.map_append, List.map_singleton, answers_append, ih, h.state]
      rfl

end Linear
