import Mathlib.Logic.Basic

/-!
# Code that waits for answers

Code that awaits stops in three ways: it returns, it raises, or it waits for an answer that does
not come. What waits runs no handler and no cleanup. `Does W P m Q R` says that `m`, run from a
state with `P`, returns with `Q`, raises with `R` or waits with `W`. The rules follow the structure
of the code.
-/

namespace Awaiting

universe u

variable {ε σ α β : Type u}

/-- How code stops that does not return. -/
inductive Stop (ε : Type u) where
  | raised (e : ε)
  | waiting

abbrev Code (ε σ α : Type u) := EStateM (Stop ε) σ α

/-- `try: m finally: cleanup`. -/
def andFinally (m : Code ε σ α) (cleanup : Code ε σ PUnit) : Code ε σ α := fun s =>
  match m s with
  | .ok a t =>
      match cleanup t with
      | .ok _ u => .ok a u
      | .error e u => .error e u
  | .error (.raised e) t =>
      match cleanup t with
      | .ok _ u => .error (.raised e) u
      | .error e' u => .error e' u
  | .error .waiting t => .error .waiting t

/-- `try: m except ...`. The handler says which exceptions it takes. -/
def except (m : Code ε σ α) (handle : ε → Option (Code ε σ α)) : Code ε σ α := fun s =>
  match m s with
  | .ok a t => .ok a t
  | .error (.raised e) t =>
      match handle e with
      | some k => k t
      | none => .error (.raised e) t
  | .error .waiting t => .error .waiting t

/-- From a state with `P` the code returns with `Q`, raises with `R` or waits with `W`. -/
def Does (W : σ → Prop) (P : σ → Prop) (m : Code ε σ α) (Q : α → σ → Prop) (R : σ → Prop) : Prop :=
  ∀ s, P s → match m s with
    | .ok a t => Q a t
    | .error (.raised _) t => R t
    | .error .waiting t => W t

variable {W P R R' : σ → Prop} {m : Code ε σ α} {Q : α → σ → Prop} {Q' : β → σ → Prop} {s t : σ}

theorem Does.ok (h : Does W P m Q R) (hs : P s) {a : α} (hrun : m s = .ok a t) : Q a t := by
  have hs' := h s hs
  rw [hrun] at hs'
  exact hs'

theorem Does.raised (h : Does W P m Q R) (hs : P s) {e : ε} (hrun : m s = .error (.raised e) t) :
    R t := by
  have hs' := h s hs
  rw [hrun] at hs'
  exact hs'

theorem Does.waiting (h : Does W P m Q R) (hs : P s) (hrun : m s = .error .waiting t) : W t := by
  have hs' := h s hs
  rw [hrun] at hs'
  exact hs'

theorem does_pure {a : α} (h : ∀ s, P s → Q a s) : Does W P (pure a : Code ε σ α) Q R := h

theorem does_raise {e : ε} (h : ∀ s, P s → R s) :
    Does W P (throw (.raised e) : Code ε σ α) Q R := h

theorem does_wait (h : ∀ s, P s → W s) : Does W P (throw .waiting : Code ε σ α) Q R := h

theorem does_modify {f : σ → σ} {Q : PUnit → σ → Prop} (h : ∀ s, P s → Q ⟨⟩ (f s)) :
    Does W P (modify f : Code ε σ PUnit) Q R := h

theorem Does.mono {P' : σ → Prop} {S : α → σ → Prop} (h : Does W P m Q R) (hP : ∀ s, P' s → P s)
    (hQ : ∀ a s, Q a s → S a s) (hR : ∀ s, R s → R' s) : Does W P' m S R' := by
  intro s hs
  rcases hrun : m s with ⟨a, t⟩ | ⟨e | _, t⟩
  · exact hQ a t (h.ok (hP s hs) hrun)
  · exact hR t (h.raised (hP s hs) hrun)
  · exact h.waiting (hP s hs) hrun

theorem Does.bind {f : α → Code ε σ β} (h : Does W P m Q R)
    (hf : ∀ a, Does W (Q a) (f a) Q' R) : Does W P (m >>= f) Q' R := by
  intro s hs
  change match EStateM.bind m f s with
    | .ok a t => Q' a t
    | .error (.raised _) t => R t
    | .error .waiting t => W t
  rw [EStateM.bind]
  rcases hrun : m s with ⟨a, t⟩ | ⟨e | _, t⟩
  · exact hf a t (h.ok hs hrun)
  · exact h.raised hs hrun
  · exact h.waiting hs hrun

/-- Code that reads the state goes on with what it read. -/
theorem does_get_bind {f : σ → Code ε σ α} (h : ∀ s, P s → Does W (fun t => t = s) (f s) Q R) :
    Does W P (get >>= f) Q R :=
  fun s hs => h s hs s rfl

/-- A triple from each of the states is a triple from all of them. -/
theorem does_of_forall (h : ∀ s, P s → Does W (fun t => t = s) m Q R) : Does W P m Q R :=
  fun s hs => h s hs s rfl

theorem Does.restrict (h : Does W P m Q R) (hs : P s) : Does W (fun t => t = s) m Q R :=
  h.mono (fun _ ht => ht ▸ hs) (fun _ _ hQ => hQ) fun _ hR => hR

/-- The cleanup runs from what the code left, whether it returned or raised. -/
theorem does_andFinally {S : α → σ → Prop} {cleanup : Code ε σ PUnit} (h : Does W P m Q R)
    (hreturned : ∀ a, Does W (Q a) cleanup (fun _ => S a) R')
    (hraised : Does W R cleanup (fun _ => R') R') : Does W P (andFinally m cleanup) S R' := by
  intro s hs
  unfold andFinally
  rcases hm : m s with ⟨a, t⟩ | ⟨e | _, t⟩
  · dsimp only
    have ht := h.ok hs hm
    rcases hc : cleanup t with ⟨_, u⟩ | ⟨e | _, u⟩
    · exact (hreturned a).ok ht hc
    · exact (hreturned a).raised ht hc
    · exact (hreturned a).waiting ht hc
  · dsimp only
    have ht := h.raised hs hm
    rcases hc : cleanup t with ⟨_, u⟩ | ⟨e' | _, u⟩
    · exact hraised.ok ht hc
    · exact hraised.raised ht hc
    · exact hraised.waiting ht hc
  · exact h.waiting hs hm

/-- A handler runs from what the code left, and an exception that it does not take goes on. -/
theorem does_except {handle : ε → Option (Code ε σ α)} (h : Does W P m Q R)
    (hhandled : ∀ e k, handle e = some k → Does W R k Q R') (hpassed : ∀ s, R s → R' s) :
    Does W P (except m handle) Q R' := by
  intro s hs
  unfold except
  rcases hm : m s with ⟨a, t⟩ | ⟨e | _, t⟩
  · exact h.ok hs hm
  · dsimp only
    have ht := h.raised hs hm
    rcases hhandle : handle e with _ | k
    · exact hpassed t ht
    · exact hhandled e k hhandle t ht
  · exact h.waiting hs hm

/-- A loop over a list. The invariant knows the items that are left. -/
theorem does_forM {γ : Type u} {f : γ → Code ε σ PUnit} {I : List γ → σ → Prop}
    (h : ∀ a rest, Does W (I (a :: rest)) (f a) (fun _ => I rest) R) (l : List γ) :
    Does W (I l) (l.forM f) (fun _ => I []) R := by
  induction l with
  | nil => exact does_pure fun _ hs => hs
  | cons a rest ih => exact (h a rest).bind fun _ => ih

end Awaiting
