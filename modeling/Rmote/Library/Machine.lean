import Mathlib.Data.List.Basic

/-!
# Runs of a labelled machine

A machine is a partial step function `step : σ → ε → Option σ`: the state after
one event, and `none` when the event cannot happen. A run is a list of events.
`meets step ok s es` says that every step of the run `es` from `s` satisfies the
condition `ok` on the state before the step and its event, so an invariant that
holds only under a condition is stated for the runs that meet it.
-/

namespace Machine

variable {σ ε : Type*} (step : σ → ε → Option σ)

/-- The state after the events of a run, `none` as soon as one of them cannot
happen. -/
def run : σ → List ε → Option σ
  | s, [] => some s
  | s, e :: es => (step s e).bind fun t => run t es

/-- Every step of the run satisfies `ok`, read at the state before the step. -/
def meets (ok : σ → ε → Prop) : σ → List ε → Prop
  | _, [] => True
  | s, e :: es => ok s e ∧ ∀ t, step s e = some t → meets ok t es

instance decidableMeets (ok : σ → ε → Prop) [∀ s e, Decidable (ok s e)] :
    ∀ (s : σ) (es : List ε), Decidable (meets step ok s es)
  | _, [] => isTrue trivial
  | s, e :: es =>
      match h : step s e with
      | none => decidable_of_iff (ok s e) (by simp [meets, h])
      | some t =>
          have := decidableMeets ok t es
          decidable_of_iff (ok s e ∧ meets step ok t es) (by simp [meets, h])

@[simp] theorem run_nil (s : σ) : run step s [] = some s := rfl

theorem run_cons (s : σ) (e : ε) (es : List ε) :
    run step s (e :: es) = (step s e).bind fun t => run step t es := rfl

@[simp] theorem meets_nil (ok : σ → ε → Prop) (s : σ) : meets step ok s [] := trivial

variable {step}

theorem run_cons_eq_some {s t : σ} {e : ε} {es : List ε} :
    run step s (e :: es) = some t ↔ ∃ u, step s e = some u ∧ run step u es = some t := by
  rw [run_cons, Option.bind_eq_some_iff]

theorem run_append_eq_some {s t : σ} {es fs : List ε} :
    run step s (es ++ fs) = some t ↔
      ∃ u, run step s es = some u ∧ run step u fs = some t := by
  induction es generalizing s with
  | nil => simp
  | cons e es ih =>
      rw [List.cons_append, run_cons_eq_some]
      constructor
      · rintro ⟨v, hv, hrest⟩
        obtain ⟨u, hu, ht⟩ := ih.mp hrest
        exact ⟨u, run_cons_eq_some.mpr ⟨v, hv, hu⟩, ht⟩
      · rintro ⟨u, hu, ht⟩
        obtain ⟨v, hv, hvu⟩ := run_cons_eq_some.mp hu
        exact ⟨v, hv, ih.mpr ⟨u, hvu, ht⟩⟩

/-- What one step preserves under the condition, a run that meets the condition
preserves. -/
theorem run_invariant {ok : σ → ε → Prop} (I : σ → Prop)
    (hstep : ∀ s e t, I s → ok s e → step s e = some t → I t)
    {s t : σ} {es : List ε} (hrun : run step s es = some t)
    (hok : meets step ok s es) (hs : I s) : I t := by
  induction es generalizing s with
  | nil =>
      rw [run_nil] at hrun
      exact Option.some.inj hrun ▸ hs
  | cons e es ih =>
      obtain ⟨u, hu, ht⟩ := run_cons_eq_some.mp hrun
      exact ih ht (hok.2 u hu) (hstep s e u hs hok.1 hu)

/-- What every step preserves, a run preserves. -/
theorem run_always (I : σ → Prop) (hstep : ∀ s e t, I s → step s e = some t → I t) {s t : σ}
    {es : List ε} (hrun : run step s es = some t) (hs : I s) : I t := by
  induction es generalizing s with
  | nil =>
      rw [run_nil] at hrun
      exact Option.some.inj hrun ▸ hs
  | cons e es ih =>
      obtain ⟨u, hu, ht⟩ := run_cons_eq_some.mp hrun
      exact ih ht (hstep s e u hs hu)

/-- A run has no more of the marked events than its start has rank, where these events lower the
rank and no event raises it. -/
theorem run_countP_le (rank : σ → ℕ) (mark : ε → Bool)
    (hstep : ∀ s e t, step s e = some t → rank t + (if mark e then 1 else 0) ≤ rank s) {s t : σ}
    {es : List ε} (hrun : run step s es = some t) : rank t + es.countP mark ≤ rank s := by
  induction es generalizing s with
  | nil =>
      rw [run_nil] at hrun
      cases Option.some.inj hrun
      simp
  | cons e es ih =>
      obtain ⟨u, hu, ht⟩ := run_cons_eq_some.mp hrun
      have hrest := ih ht
      have hhead := hstep s e u hu
      rw [List.countP_cons]
      omega

theorem meets_and {ok ok' : σ → ε → Prop} {s : σ} {es : List ε} (h : meets step ok s es)
    (h' : meets step ok' s es) : meets step (fun s e => ok s e ∧ ok' s e) s es := by
  induction es generalizing s with
  | nil => trivial
  | cons e es ih => exact ⟨⟨h.1, h'.1⟩, fun t ht => ih (h.2 t ht) (h'.2 t ht)⟩

theorem meets_mono {ok ok' : σ → ε → Prop} (himp : ∀ s e, ok s e → ok' s e) {s : σ}
    {es : List ε} (h : meets step ok s es) : meets step ok' s es := by
  induction es generalizing s with
  | nil => trivial
  | cons e es ih => exact ⟨himp s e h.1, fun t ht => ih (h.2 t ht)⟩

theorem meets_of_forall_mem {ok : σ → ε → Prop} (s : σ) {es : List ε}
    (h : ∀ e ∈ es, ∀ s, ok s e) : meets step ok s es := by
  induction es generalizing s with
  | nil => trivial
  | cons e es ih =>
      refine ⟨h e List.mem_cons_self s, fun t _ => ih t ?_⟩
      exact fun e' he' => h e' (List.mem_cons_of_mem e he')

theorem meets_append {ok : σ → ε → Prop} {s t : σ} {es fs : List ε}
    (hrun : run step s es = some t) :
    meets step ok s (es ++ fs) ↔ meets step ok s es ∧ meets step ok t fs := by
  induction es generalizing s with
  | nil =>
      rw [run_nil] at hrun
      cases Option.some.inj hrun
      simp
  | cons e es ih =>
      obtain ⟨u, hu, ht⟩ := run_cons_eq_some.mp hrun
      constructor
      · rintro ⟨hok, hrest⟩
        obtain ⟨hes, hfs⟩ := (ih ht).mp (hrest u hu)
        exact ⟨⟨hok, fun v hv => Option.some.inj (hu.symm.trans hv) ▸ hes⟩, hfs⟩
      · rintro ⟨⟨hok, hes⟩, hfs⟩
        refine ⟨hok, fun v hv => ?_⟩
        cases Option.some.inj (hu.symm.trans hv)
        exact (ih ht).mpr ⟨hes u hu, hfs⟩

/-- A run that does not meet the condition has a first step that fails it. -/
theorem exists_first_failure {ok : σ → ε → Prop} {s t : σ} {es : List ε}
    (hrun : run step s es = some t) (h : ¬ meets step ok s es) :
    ∃ (before after : List ε) (e : ε) (u v : σ), es = before ++ e :: after ∧
      run step s before = some u ∧ meets step ok s before ∧ ¬ ok u e ∧
      step u e = some v ∧ run step v after = some t := by
  induction es generalizing s with
  | nil => exact absurd (meets_nil step ok s) h
  | cons e es ih =>
      obtain ⟨u, hu, ht⟩ := run_cons_eq_some.mp hrun
      by_cases hok : ok s e
      · have hrest : ¬ meets step ok u es := by
          intro hes
          exact h ⟨hok, fun v hv => Option.some.inj (hu.symm.trans hv) ▸ hes⟩
        obtain ⟨before, after, e', v, w, rfl, hbefore, hmeets, hfail, hstep, hafter⟩ := ih ht hrest
        refine ⟨e :: before, after, e', v, w, rfl, ?_, ?_, hfail, hstep, hafter⟩
        · exact run_cons_eq_some.mpr ⟨u, hu, hbefore⟩
        · exact ⟨hok, fun v hv => Option.some.inj (hu.symm.trans hv) ▸ hmeets⟩
      · exact ⟨[], es, e, s, u, rfl, rfl, trivial, hok, hu, ht⟩

end Machine
