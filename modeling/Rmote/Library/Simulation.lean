import Mathlib.Data.List.Forall2

/-!
# Answers of two machines to the same requests

A machine answers every request and goes to a new state. `answers step s os` are its answers to
the requests `os`, and `Along step ok s os` says that each request meets a condition in the state
it comes to. Two machines that are related before the requests give related answers to all of
them when one request keeps them related.
-/

namespace Simulation

variable {σ τ ο ρ π : Type*}

/-- The answers to a list of requests. -/
def answers (step : σ → ο → σ × ρ) : σ → List ο → List ρ
  | _, [] => []
  | s, o :: os => (step s o).2 :: answers step (step s o).1 os

/-- Every request meets the condition in the state it comes to. -/
def Along (step : σ → ο → σ × ρ) (ok : σ → ο → Prop) : σ → List ο → Prop
  | _, [] => True
  | s, o :: os => ok s o ∧ Along step ok (step s o).1 os

/-- What one request keeps related, all requests keep related. -/
theorem answers_related {f : σ → ο → σ × ρ} {g : τ → ο → τ × π} {ok : τ → ο → Prop}
    (R : σ → τ → Prop) (M : ρ → π → Prop)
    (hstep : ∀ s t o, R s t → ok t o → R (f s o).1 (g t o).1 ∧ M (f s o).2 (g t o).2)
    {s : σ} {t : τ} {os : List ο} (hstart : R s t) (hok : Along g ok t os) :
    List.Forall₂ M (answers f s os) (answers g t os) := by
  induction os generalizing s t with
  | nil => exact .nil
  | cons o os ih =>
      obtain ⟨hnext, hanswer⟩ := hstep s t o hstart hok.1
      exact .cons hanswer (ih hnext hok.2)

end Simulation
