import Mathlib.Logic.Basic

/-!
# Pre- and postconditions of code that raises

`EStateM ε σ α` is code over a state that either returns a value or raises, and that
keeps what it wrote to the state in both cases. `Triple P m Q E` says that `m`, run from a
state that satisfies `P`, returns with `Q` or raises with `E`. The rules follow the
structure of the code, so a proof about a function never runs the functions that it calls.
-/

namespace Hoare

universe u

variable {ε σ α β : Type u}

/-- From a state with `P` the code returns with `Q`, or it raises with `E`. -/
def Triple (P : σ → Prop) (m : EStateM ε σ α) (Q : α → σ → Prop) (E : σ → Prop) : Prop :=
  ∀ s, P s → match m.run s with
    | .ok a t => Q a t
    | .error _ t => E t

variable {P : σ → Prop} {Q : β → σ → Prop} {R : α → σ → Prop} {E : σ → Prop}
  {m : EStateM ε σ α}

theorem Triple.ok (h : Triple P m R E) {s t : σ} {a : α} (hs : P s) (hrun : m.run s = .ok a t) :
    R a t := by
  have hs' := h s hs
  rw [hrun] at hs'
  exact hs'

theorem Triple.error (h : Triple P m R E) {s t : σ} {e : ε} (hs : P s)
    (hrun : m.run s = .error e t) : E t := by
  have hs' := h s hs
  rw [hrun] at hs'
  exact hs'

theorem triple_of_run (h : ∀ s, P s → ∃ a t, m.run s = .ok a t ∧ R a t) : Triple P m R E := by
  intro s hs
  obtain ⟨a, t, hrun, ha⟩ := h s hs
  rw [hrun]
  exact ha

theorem triple_pure {a : α} (h : ∀ s, P s → R a s) : Triple P (pure a : EStateM ε σ α) R E := h

theorem triple_throw {e : ε} (h : ∀ s, P s → E s) : Triple P (throw e : EStateM ε σ α) R E := h

theorem triple_modify {f : σ → σ} {R : PUnit → σ → Prop} (h : ∀ s, P s → R .unit (f s)) :
    Triple P (modify f : EStateM ε σ PUnit) R E := h

/-- Code that reads the state goes on with what it read. -/
theorem triple_get_bind {f : σ → EStateM ε σ β} (h : ∀ s, P s → Triple (fun t => t = s) (f s) Q E) :
    Triple P (get >>= f) Q E := by
  intro s hs
  exact h s hs s rfl

theorem Triple.bind {f : α → EStateM ε σ β} (h : Triple P m R E)
    (hf : ∀ a, Triple (R a) (f a) Q E) : Triple P (m >>= f) Q E := by
  intro s hs
  rw [EStateM.run_bind]
  have hs' := h s hs
  cases hrun : m.run s with
  | ok a t =>
      rw [hrun] at hs'
      exact hf a t hs'
  | error e t =>
      rw [hrun] at hs'
      exact hs'

/-- The first part of the code is known to return. -/
theorem triple_bind_run {f : α → EStateM ε σ β} {s t : σ} {a : α} (h : m.run s = .ok a t)
    (hf : Triple (fun u => u = t) (f a) Q E) : Triple (fun u => u = s) (m >>= f) Q E := by
  intro u hu
  rw [hu, EStateM.run_bind, h]
  exact hf t rfl

/-- A triple from each of the states is a triple from all of them. -/
theorem triple_of_forall (h : ∀ s, P s → Triple (fun u => u = s) m R E) : Triple P m R E :=
  fun s hs => h s hs s rfl

/-- A fact that does not depend on the state is a hypothesis. -/
theorem triple_and {φ : Prop} (h : φ → Triple P m R E) : Triple (fun s => φ ∧ P s) m R E :=
  fun s hs => h hs.1 s hs.2

theorem Triple.restrict (h : Triple P m R E) {s : σ} (hs : P s) :
    Triple (fun u => u = s) m R E := by
  intro u hu
  rw [hu]
  exact h s hs

theorem Triple.mono {P' : σ → Prop} {R' : α → σ → Prop} {E' : σ → Prop} (h : Triple P m R E)
    (hP : ∀ s, P' s → P s) (hR : ∀ a s, R a s → R' a s) (hE : ∀ s, E s → E' s) :
    Triple P' m R' E' := by
  intro s hs
  have hs' := h s (hP s hs)
  cases hrun : m.run s with
  | ok a t =>
      rw [hrun] at hs'
      exact hR a t hs'
  | error e t =>
      rw [hrun] at hs'
      exact hE t hs'

section Loops

variable {γ : Type u} {l : List γ}

/-- A loop over a list with an accumulator. The invariant knows the items that are done. -/
theorem triple_foldlM {f : β → γ → EStateM ε σ β} {I : List γ → β → σ → Prop}
    (h : ∀ done a rest, l = done ++ a :: rest →
      ∀ b, Triple (I done b) (f b a) (I (done ++ [a])) E) (b : β) :
    Triple (I [] b) (l.foldlM f b) (I l) E := by
  have hrest : ∀ rest done : List γ, l = done ++ rest →
      ∀ b, Triple (I done b) (rest.foldlM f b) (I l) E := by
    intro rest
    induction rest with
    | nil =>
        intro done hl b
        rw [List.append_nil] at hl
        rw [List.foldlM_nil]
        exact triple_pure fun s hs => hl ▸ hs
    | cons a rest ih =>
        intro done hl b
        rw [List.foldlM_cons]
        exact (h done a rest hl b).bind fun b' => ih (done ++ [a]) (by simp [hl]) b'
  exact hrest l [] rfl b

/-- A loop over a list. The invariant knows the items that are done. -/
theorem triple_forM {f : γ → EStateM ε σ PUnit} {I : List γ → σ → Prop}
    (h : ∀ done a rest, l = done ++ a :: rest →
      Triple (I done) (f a) (fun _ => I (done ++ [a])) E) :
    Triple (I []) (l.forM f) (fun _ => I l) E := by
  have hrest : ∀ rest done : List γ, l = done ++ rest →
      Triple (I done) (rest.forM f) (fun _ => I l) E := by
    intro rest
    induction rest with
    | nil =>
        intro done hl
        rw [List.append_nil] at hl
        exact triple_pure fun s hs => hl ▸ hs
    | cons a rest ih =>
        intro done hl
        exact (h done a rest hl).bind fun _ => ih (done ++ [a]) (by simp [hl])
  exact hrest l [] rfl

/-- Two loops that agree where an invariant holds that the first one keeps. -/
theorem run_foldlM_congr {f g : β → γ → EStateM ε σ β} {I : σ → Prop}
    (hsame : ∀ a ∈ l, ∀ b s, I s → (f b a).run s = (g b a).run s)
    (hkeep : ∀ a ∈ l, ∀ b, Triple I (f b a) (fun _ => I) (fun _ => True)) (b : β) {s : σ}
    (hs : I s) : (l.foldlM f b).run s = (l.foldlM g b).run s := by
  induction l generalizing b s with
  | nil => rfl
  | cons a l ih =>
      rw [List.forall_mem_cons] at hsame hkeep
      rw [List.foldlM_cons, List.foldlM_cons, EStateM.run_bind, EStateM.run_bind,
        ← hsame.1 b s hs]
      cases hrun : (f b a).run s with
      | error e s' => rfl
      | ok b' s' => exact ih hsame.2 hkeep.2 b' ((hkeep.1 b).ok hs hrun)

end Loops

/-- The code returns, and the code after it runs from there. -/
theorem run_bind_ok {f : α → EStateM ε σ β} {s t : σ} {a : α} (h : m.run s = .ok a t) :
    (m >>= f).run s = (f a).run t := by
  rw [EStateM.run_bind, h]

/-- The code raises, and the code after it does not run. -/
theorem run_bind_error {f : α → EStateM ε σ β} {s t : σ} {e : ε} (h : m.run s = .error e t) :
    (m >>= f).run s = .error e t := by
  rw [EStateM.run_bind, h]

end Hoare
