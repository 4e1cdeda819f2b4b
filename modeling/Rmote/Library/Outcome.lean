import Mathlib.Logic.Basic

/-!
# What code ensures from one state

`Ensures m s Q E` says that `m`, run from the state `s`, returns with `Q` or raises with
`E`. In contrast to a triple the postcondition may speak about the state at the start, and
about the exception that was raised.
-/

namespace Outcome

universe u

variable {ε σ α β : Type u} {s : σ} {m : EStateM ε σ α} {Q : α → σ → Prop} {E : ε → σ → Prop}

/-- From the state `s` the code returns with `Q` or raises with `E`. -/
def Ensures (m : EStateM ε σ α) (s : σ) (Q : α → σ → Prop) (E : ε → σ → Prop) : Prop :=
  match m.run s with
  | .ok a t => Q a t
  | .error e t => E e t

theorem Ensures.ok (h : Ensures m s Q E) {a : α} {t : σ} (hrun : m.run s = .ok a t) : Q a t := by
  unfold Ensures at h
  rw [hrun] at h
  exact h

theorem Ensures.error (h : Ensures m s Q E) {e : ε} {t : σ} (hrun : m.run s = .error e t) :
    E e t := by
  unfold Ensures at h
  rw [hrun] at h
  exact h

theorem ensures_pure {a : α} (h : Q a s) : Ensures (pure a) s Q E := h

theorem ensures_throw {e : ε} (h : E e s) : Ensures (throw e) s Q E := h

theorem ensures_get_bind {f : σ → EStateM ε σ α} (h : Ensures (f s) s Q E) :
    Ensures (get >>= f) s Q E := h

theorem Ensures.mono {Q' : α → σ → Prop} {E' : ε → σ → Prop} (h : Ensures m s Q E)
    (hQ : ∀ a t, Q a t → Q' a t) (hE : ∀ e t, E e t → E' e t) : Ensures m s Q' E' := by
  unfold Ensures at h ⊢
  cases hrun : m.run s with
  | ok a t =>
      rw [hrun] at h
      exact hQ a t h
  | error e t =>
      rw [hrun] at h
      exact hE e t h

/-- The rest of the code runs from what the first part ensures. -/
theorem Ensures.bind {f : α → EStateM ε σ β} {R : β → σ → Prop} (h : Ensures m s Q E)
    (hf : ∀ a t, Q a t → Ensures (f a) t R E) : Ensures (m >>= f) s R E := by
  unfold Ensures at h ⊢
  rw [EStateM.run_bind]
  cases hrun : m.run s with
  | ok a t =>
      rw [hrun] at h
      exact hf a t h
  | error e t =>
      rw [hrun] at h
      exact h

/-- A handler runs from what was left. -/
theorem Ensures.tryCatch {handle : ε → EStateM ε σ α} {E' : ε → σ → Prop} (h : Ensures m s Q E)
    (hhandle : ∀ e t, E e t → Ensures (handle e) t Q E') :
    Ensures (MonadExcept.tryCatch m handle) s Q E' := by
  unfold Ensures at h ⊢
  change match EStateM.tryCatch m handle s with | .ok a t => Q a t | .error e t => E' e t
  unfold EStateM.tryCatch EStateM.run at *
  cases hrun : m s with
  | ok a t =>
      rw [hrun] at h
      exact h
  | error e t =>
      rw [hrun] at h
      exact hhandle e t h

theorem ensures_modify_bind {f : σ → σ} {g : PUnit → EStateM ε σ α}
    (h : Ensures (g ⟨⟩) (f s) Q E) : Ensures (modify f >>= g) s Q E := h

section Keeps

variable {I : σ → Prop}

/-- The code keeps an invariant, whether it returns or raises. -/
def Keeps (I : σ → Prop) (m : EStateM ε σ α) : Prop :=
  ∀ s, I s → Ensures m s (fun _ => I) fun _ => I

theorem keeps_pure (a : α) : Keeps I (pure a : EStateM ε σ α) := fun _ h => h

theorem keeps_throw (e : ε) : Keeps I (throw e : EStateM ε σ α) := fun _ h => h

theorem Keeps.bind {f : α → EStateM ε σ β} (h : Keeps I m) (hf : ∀ a, Keeps I (f a)) :
    Keeps I (m >>= f) :=
  fun s hs => (h s hs).bind fun a t ht => hf a t ht

theorem keeps_get_bind {f : σ → EStateM ε σ α} (h : ∀ s, Keeps I (f s)) : Keeps I (get >>= f) :=
  fun s hs => h s s hs

end Keeps

end Outcome
