import Mathlib.Logic.Basic

/-!
# Two runs of one program

`Coupled c m` compares the code `m`, run from two states, with itself. The runs start
`near` each other. They then either return or raise the same and are near again, or they
are `apart`, which excuses the rest of both runs. What is excused has to stay excused while
the states grow. The rules follow the structure of the code.
-/

namespace Coupling

universe u

variable {ε σ α β γ : Type u}

/-- The state that a run left, whether it returned or raised. -/
def left : EStateM.Result ε σ α → σ
  | .ok _ s => s
  | .error _ s => s

/-- How two runs are compared. -/
structure Comparison (σ : Type u) where
  before : σ → σ → Prop
  near : σ → σ → Prop
  apart : σ → σ → Prop
  before_refl : ∀ s, before s s
  before_trans : ∀ {s t u}, before s t → before t u → before s u
  apart_mono : ∀ {s s' t t'}, before s s' → before t t' → apart s t → apart s' t'

variable {c : Comparison σ}

/-- Both runs returned or raised the same, in states that are near. -/
def Agree (c : Comparison σ) : EStateM.Result ε σ α → EStateM.Result ε σ α → Prop
  | .ok a s, .ok b t => a = b ∧ c.near s t
  | .error e s, .error f t => e = f ∧ c.near s t
  | _, _ => False

/-- Two runs of `m` from near states agree or are apart. -/
structure Coupled (c : Comparison σ) (m : EStateM ε σ α) : Prop where
  grows : ∀ s, c.before s (left (m.run s))
  agree : ∀ s t, c.near s t →
    Agree c (m.run s) (m.run t) ∨ c.apart (left (m.run s)) (left (m.run t))

theorem coupled_pure (a : α) : Coupled c (pure a : EStateM ε σ α) where
  grows s := c.before_refl s
  agree _ _ h := .inl ⟨rfl, h⟩

theorem coupled_throw (e : ε) : Coupled c (throw e : EStateM ε σ α) where
  grows s := c.before_refl s
  agree _ _ h := .inl ⟨rfl, h⟩

/-- Code that looks at a part of the state on which near states agree. -/
theorem coupled_get {f : σ → EStateM ε σ α} {g : σ → γ} {k : γ → EStateM ε σ α}
    (hf : ∀ s, f s = k (g s)) (hg : ∀ s t, c.near s t → g s = g t)
    (hk : ∀ x, Coupled c (k x)) : Coupled c (get >>= f) := by
  have hrun : ∀ s, (get >>= f).run s = (k (g s)).run s := by
    intro s
    rw [← hf]
    rfl
  constructor
  · intro s
    rw [hrun]
    exact (hk (g s)).grows s
  · intro s t h
    rw [hrun, hrun, hg s t h]
    exact (hk (g t)).agree s t h

/-- Code that goes on from whatever `m` left, returned or raised. -/
theorem Coupled.next {m : EStateM ε σ α} {n : EStateM ε σ β}
    {f : EStateM.Result ε σ α → EStateM.Result ε σ β} (hm : Coupled c m)
    (hrun : ∀ s, n.run s = f (m.run s)) (hgrows : ∀ r, c.before (left r) (left (f r)))
    (hagree : ∀ r r', Agree c r r' → Agree c (f r) (f r') ∨ c.apart (left (f r)) (left (f r'))) :
    Coupled c n := by
  constructor
  · intro s
    rw [hrun]
    exact c.before_trans (hm.grows s) (hgrows _)
  · intro s t h
    rw [hrun, hrun]
    rcases hm.agree s t h with hsame | hapart
    · exact hagree _ _ hsame
    · exact .inr (c.apart_mono (hgrows _) (hgrows _) hapart)

/-- What code goes on with after a part that returned. -/
def continued (f : α → EStateM ε σ β) : EStateM.Result ε σ α → EStateM.Result ε σ β
  | .ok a s => (f a).run s
  | .error e s => .error e s

theorem run_bind (m : EStateM ε σ α) (f : α → EStateM ε σ β) (s : σ) :
    (m >>= f).run s = continued f (m.run s) := by
  rw [EStateM.run_bind]
  cases m.run s <;> rfl

theorem Coupled.bind {m : EStateM ε σ α} {f : α → EStateM ε σ β} (hm : Coupled c m)
    (hf : ∀ a, Coupled c (f a)) : Coupled c (m >>= f) := by
  apply hm.next (run_bind m f)
  · intro r
    cases r with
    | ok a s => exact (hf a).grows s
    | error e s => exact c.before_refl s
  · intro r r' h
    match r, r', h with
    | .ok a s, .ok b t, ⟨hab, hnear⟩ =>
        rw [hab]
        exact (hf b).agree s t hnear
    | .error _ _, .error _ _, h => exact .inl h

/-- What code that may raise goes on with: a handler sees the state that was left. -/
def rescued (handle : ε → EStateM ε σ α) : EStateM.Result ε σ α → EStateM.Result ε σ α
  | .ok a s => .ok a s
  | .error e s => (handle e).run s

theorem run_tryCatch (m : EStateM ε σ α) (handle : ε → EStateM ε σ α) (s : σ) :
    (MonadExcept.tryCatch m handle).run s = rescued handle (m.run s) := by
  change EStateM.tryCatch m handle s = _
  unfold EStateM.tryCatch EStateM.run
  cases m s <;> rfl

theorem Coupled.tryCatch {m : EStateM ε σ α} {handle : ε → EStateM ε σ α} (hm : Coupled c m)
    (hhandle : ∀ e, Coupled c (handle e)) : Coupled c (MonadExcept.tryCatch m handle) := by
  apply hm.next (run_tryCatch m handle)
  · intro r
    cases r with
    | ok a s => exact c.before_refl s
    | error e s => exact (hhandle e).grows s
  · intro r r' h
    match r, r', h with
    | .ok _ _, .ok _ _, h => exact .inl h
    | .error e s, .error f t, ⟨hef, hnear⟩ =>
        rw [hef]
        exact (hhandle f).agree s t hnear

section Invariant

variable {I : σ → Prop}

/-- The comparison of a run with itself that keeps an invariant. -/
def Comparison.invariant (I : σ → Prop) : Comparison σ where
  before _ _ := True
  near s t := s = t ∧ I s
  apart _ _ := False
  before_refl _ := trivial
  before_trans _ _ := trivial
  apart_mono _ _ h := h

theorem Coupled.holds {m : EStateM ε σ α} (hm : Coupled (.invariant I) m) {s : σ} (hs : I s) :
    I (left (m.run s)) := by
  rcases hm.agree s s ⟨rfl, hs⟩ with hagree | hapart
  · cases hrun : m.run s with
    | ok a t =>
        rw [hrun] at hagree
        exact hagree.2.2
    | error e t =>
        rw [hrun] at hagree
        exact hagree.2.2
  · exact hapart.elim

theorem coupled_invariant {m : EStateM ε σ α} (h : ∀ s, I s → I (left (m.run s))) :
    Coupled (.invariant I) m where
  grows _ := trivial
  agree s t hst := by
    obtain ⟨hst, hs⟩ := hst
    subst hst
    have hleft := h s hs
    left
    cases hrun : m.run s with
    | ok a t =>
        rw [hrun] at hleft
        exact ⟨rfl, rfl, hleft⟩
    | error e t =>
        rw [hrun] at hleft
        exact ⟨rfl, rfl, hleft⟩

/-- The comparison that also keeps an invariant of each run. -/
def Comparison.keeping (c : Comparison σ) (I J : σ → Prop) : Comparison σ where
  before := c.before
  near s t := c.near s t ∧ I s ∧ J t
  apart := c.apart
  before_refl := c.before_refl
  before_trans := c.before_trans
  apart_mono := c.apart_mono

/-- The invariants are a matter of the runs alone. -/
theorem coupled_keeping {J : σ → Prop} {m : EStateM ε σ α}
    (hgrows : ∀ s, c.before s (left (m.run s))) (hI : ∀ s, I s → I (left (m.run s)))
    (hJ : ∀ s, J s → J (left (m.run s)))
    (hagree : ∀ s t, c.near s t → I s → J t →
      Agree c (m.run s) (m.run t) ∨ c.apart (left (m.run s)) (left (m.run t))) :
    Coupled (c.keeping I J) m where
  grows := hgrows
  agree s t h := by
    obtain ⟨hnear, hs, ht⟩ := h
    have hs' := hI s hs
    have ht' := hJ t ht
    rcases hagree s t hnear hs ht with hsame | hapart
    · left
      match m.run s, m.run t, hs', ht', hsame with
      | .ok _ _, .ok _ _, hs', ht', hsame => exact ⟨hsame.1, hsame.2, hs', ht'⟩
      | .error _ _, .error _ _, hs', ht', hsame => exact ⟨hsame.1, hsame.2, hs', ht'⟩
    · exact .inr hapart

end Invariant

end Coupling
