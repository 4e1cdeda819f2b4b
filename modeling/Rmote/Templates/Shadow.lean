import Rmote.Templates.Render

/-!
# What an assignment hides

Two renders of one program whose keyword contexts differ in one name `y` only, where `y` is
always assigned before it is read. The engine checks a context value when its name is first
read, and an assignment leaves the name among the unchecked ones. So the first read of `y`
checks whatever was assigned, and only if the context happened to hold `y`. `Tracks` says
this for one run, `shadowing` compares two of them.
-/

namespace Rmote

namespace Templates

open RenderContext Coupling

section Accesses

variable {V W : Type} (y : String)

/-- The first access to `y` is an assignment. -/
def assignedFirst : List (Access V W) → Bool
  | [] => true
  | .assigned name _ :: rest => name = y || assignedFirst rest
  | .read name _ _ :: rest => name ≠ y && assignedFirst rest
  | .refused _ :: rest => assignedFirst rest

/-- What a read of `y` found, and in which state of the interpreter. -/
def readOf : Access V W → Option (Option V × W)
  | .read name value world => if name = y then some (value, world) else none
  | _ => none

def firstRead (accesses : List (Access V W)) : Option (Option V × W) :=
  accesses.findSome? (readOf y)

/-- The value of `y` after the accesses, from its value before them. -/
def valueAfter : Option V → List (Access V W) → Option V
  | value, [] => value
  | value, .assigned name new :: rest => valueAfter (if name = y then some new else value) rest
  | value, .read _ _ _ :: rest => valueAfter value rest
  | value, .refused _ :: rest => valueAfter value rest

/-- Every read of `y` finds the value that was assigned last. -/
def Finds : Option V → List (Access V W) → Prop
  | _, [] => True
  | value, .assigned name new :: rest => Finds (if name = y then some new else value) rest
  | value, .read name found _ :: rest => (name = y → found = value) ∧ Finds value rest
  | value, .refused _ :: rest => Finds value rest

/-- Every read of `y` gives back the value that was assigned last. -/
def ReadBack (accesses : List (Access V W)) : Prop :=
  Finds y none accesses ∧ .refused y ∉ accesses

variable {y}

theorem assignedFirst_append (l : List (Access V W)) {l' : List (Access V W)}
    (h : assignedFirst y (l ++ l')) : assignedFirst y l := by
  induction l with
  | nil => rfl
  | cons access rest ih =>
      cases access with
      | assigned name value =>
          simp only [List.cons_append, assignedFirst, Bool.or_eq_true] at h ⊢
          exact h.imp_right ih
      | read name value world =>
          simp only [List.cons_append, assignedFirst, Bool.and_eq_true] at h ⊢
          exact h.imp_right ih
      | refused name => exact ih h

theorem valueAfter_append (value : Option V) (l l' : List (Access V W)) :
    valueAfter y value (l ++ l') = valueAfter y (valueAfter y value l) l' := by
  induction l generalizing value with
  | nil => rfl
  | cons access rest ih =>
      cases access with
      | assigned name new => exact ih _
      | read name found world => exact ih _
      | refused name => exact ih _

theorem finds_append (value : Option V) (l l' : List (Access V W)) :
    Finds y value (l ++ l') ↔ Finds y value l ∧ Finds y (valueAfter y value l) l' := by
  induction l generalizing value with
  | nil => exact (iff_of_eq (true_and _)).symm
  | cons access rest ih =>
      cases access with
      | assigned name new => exact ih _
      | read name found world =>
          simp only [List.cons_append, Finds, valueAfter, ih, and_assoc]
      | refused name => exact ih _

/-- Where `y` is assigned first, its value before does not matter to any read of it. -/
theorem finds_of_assignedFirst {value value' : Option V} {l : List (Access V W)}
    (h : assignedFirst y l) (hfinds : Finds y value l) : Finds y value' l := by
  induction l with
  | nil => trivial
  | cons access rest ih =>
      cases access with
      | assigned name new =>
          by_cases hname : name = y
          · simp only [Finds, hname, if_true] at hfinds ⊢
            exact hfinds
          · simp only [assignedFirst, hname, Bool.or_eq_true, decide_false] at h
            simp only [Finds, hname, if_false] at hfinds ⊢
            exact ih (by simpa using h) hfinds
      | read name found world =>
          simp only [assignedFirst, Bool.and_eq_true, decide_eq_true_eq] at h
          exact ⟨fun hname => absurd hname h.1, ih h.2 hfinds.2⟩
      | refused name => exact ih h hfinds

/-- After an assignment before the first read, the value of `y` is the assigned one. -/
theorem valueAfter_of_assignedFirst (value value' : Option V) {l : List (Access V W)}
    {found : Option V} {world : W} (h : assignedFirst y (l ++ [.read y found world])) :
    valueAfter y value l = valueAfter y value' l := by
  induction l with
  | nil => simp [assignedFirst] at h
  | cons access rest ih =>
      cases access with
      | assigned name new =>
          by_cases hname : name = y
          · simp only [valueAfter, hname, if_true]
          · simp only [valueAfter, hname, if_false]
            apply ih
            simpa [assignedFirst, hname] using h
      | read name found' world' =>
          simp only [List.cons_append, assignedFirst, Bool.and_eq_true] at h
          exact ih h.2
      | refused name => exact ih h

theorem firstRead_append (l l' : List (Access V W)) :
    firstRead y (l ++ l') = (firstRead y l).or (firstRead y l') :=
  List.findSome?_append

theorem valueAfter_some (value : V) (l : List (Access V W)) :
    (valueAfter y (some value) l).isSome := by
  induction l generalizing value with
  | nil => rfl
  | cons access rest ih =>
      cases access with
      | assigned name new =>
          by_cases hname : name = y
          · simp only [valueAfter, hname, if_true]
            exact ih new
          · simp only [valueAfter, hname, if_false]
            exact ih value
      | read name found world => exact ih value
      | refused name => exact ih value

theorem readOf_of_ne {access : Access V W} (h : access.name ≠ y) : readOf y access = none := by
  cases access with
  | assigned name value => rfl
  | read name value world => exact if_neg h
  | refused name => rfl

variable {F : Type} {s : RenderContext V F W}

theorem firstRead_reading : firstRead y (s.reading y).accesses =
    (firstRead y s.accesses).or (some (s.values y, s.world)) := by
  change firstRead y (s.accesses ++ [_]) = _
  rw [firstRead_append]
  simp [firstRead, readOf]

theorem valueAfter_reading (value : Option V) (name : String) :
    valueAfter y value (s.reading name).accesses = valueAfter y value s.accesses := by
  change valueAfter y value (s.accesses ++ [_]) = _
  rw [valueAfter_append]
  rfl

theorem refused_mem_reading (name : String) :
    .refused y ∈ (s.reading name).accesses ↔ .refused y ∈ s.accesses := by
  change .refused y ∈ s.accesses ++ [_] ↔ _
  simp

end Accesses

section Tracks

variable {V C F W E : Type} [DecidableEq V] {py : Python V C F W E} {y : String}
  {initial : Option V} {s : RenderContext V F W}

/-- What one run knows about `y`, from the value that its context held. -/
structure Tracks (py : Python V C F W E) (y : String) (initial : Option V)
    (s : RenderContext V F W) : Prop where
  value : s.values y = valueAfter y initial s.accesses
  unchecked : s.unchecked y = (initial.isSome && (firstRead y s.accesses).isNone)
  finds : Finds y initial s.accesses
  refused : .refused y ∈ s.accesses ↔ initial.isSome ∧
    ∃ v w, firstRead y s.accesses = some (some v, w) ∧ normaliseContext py w v ≠ .ok ()

/-- Only the value of `y`, its mark and the accesses matter. -/
theorem Tracks.congr (h : Tracks py y initial s) {s' : RenderContext V F W}
    (hvalue : s'.values y = s.values y) (hunchecked : s'.unchecked y = s.unchecked y)
    (haccesses : s'.accesses = s.accesses) : Tracks py y initial s' := by
  constructor
  · rw [hvalue, haccesses]
    exact h.value
  · rw [hunchecked, haccesses]
    exact h.unchecked
  · rw [haccesses]
    exact h.finds
  · rw [haccesses]
    exact h.refused

/-- An access to another name changes nothing. -/
theorem Tracks.other (h : Tracks py y initial s) {access : Access V W} (hname : access.name ≠ y) :
    Tracks py y initial { s with accesses := s.accesses ++ [access] } := by
  have hfirst : firstRead y (s.accesses ++ [access]) = firstRead y s.accesses := by
    rw [firstRead_append]
    simp [firstRead, readOf_of_ne hname]
  have hvalue : valueAfter y initial (s.accesses ++ [access]) = valueAfter y initial s.accesses := by
    rw [valueAfter_append]
    cases access with
    | assigned name value => simp only [valueAfter, if_neg (show ¬ name = y from hname)]
    | read name value world => rfl
    | refused name => rfl
  constructor
  · rw [hvalue]
    exact h.value
  · rw [hfirst]
    exact h.unchecked
  · rw [finds_append]
    refine ⟨h.finds, ?_⟩
    cases access with
    | assigned name value => trivial
    | read name value world => exact ⟨fun hy => absurd hy hname, trivial⟩
    | refused name => trivial
  · rw [hfirst, ← h.refused, List.mem_append, List.mem_singleton]
    constructor
    · rintro (hmem | heq)
      · exact hmem
      · rw [← heq] at hname
        exact absurd rfl hname
    · exact Or.inl

theorem Tracks.setValue (h : Tracks py y initial s) (name : String) (value : V) :
    Tracks py y initial (left ((setValue name value : EStateM (Signal E) _ _).run s)) := by
  change Tracks py y initial
    { s with
      values := Function.update s.values name (some value)
      accesses := s.accesses ++ [.assigned name value] }
  by_cases hname : name = y
  · subst hname
    constructor
    · change Function.update s.values name (some value) name = _
      rw [Function.update_self, valueAfter_append]
      simp only [valueAfter, if_true]
    · rw [h.unchecked, firstRead_append]
      simp [firstRead, readOf]
    · rw [finds_append]
      exact ⟨h.finds, trivial⟩
    · rw [firstRead_append]
      simpa [firstRead, readOf] using h.refused
  · apply (h.other (show (Access.assigned name value : Access V W).name ≠ y from hname)).congr
    · exact Function.update_of_ne (Ne.symm hname) _ _
    · rfl
    · rfl

theorem Tracks.finds_reading (h : Tracks py y initial s) :
    Finds y initial (s.reading y).accesses := by
  change Finds y initial (s.accesses ++ [_])
  rw [finds_append]
  exact ⟨h.finds, fun _ => h.value, trivial⟩

/-- A read of `y` that needs no check. -/
theorem Tracks.reading_known (h : Tracks py y initial s) (hunchecked : s.unchecked y = false) :
    Tracks py y initial (s.reading y) := by
  have hmark := h.unchecked
  rw [hunchecked] at hmark
  constructor
  · rw [valueAfter_reading]
    exact h.value
  · rw [firstRead_reading]
    change s.unchecked y = _
    simp [hunchecked]
  · exact h.finds_reading
  · rw [refused_mem_reading, h.refused, firstRead_reading]
    cases initial with
    | none => simp
    | some value =>
        cases hfirst : firstRead y s.accesses with
        | none =>
            rw [hfirst] at hmark
            cases hmark
        | some found => rw [Option.some_or]

/-- A read of `y` that needs a check, which the value passes. -/
theorem Tracks.reading_plain (h : Tracks py y initial s) {value : V}
    (hvalue : s.values y = some value) (hunchecked : s.unchecked y = true)
    (hplain : normaliseContext py s.world value = .ok ()) :
    Tracks py y initial ((s.reading y).checked y) := by
  have hmark := h.unchecked
  rw [hunchecked, Eq.comm, Bool.and_eq_true, Option.isNone_iff_eq_none] at hmark
  have hfirst : firstRead y (s.reading y).accesses = some (some value, s.world) := by
    rw [firstRead_reading, hmark.2, hvalue, Option.none_or]
  constructor
  · change s.values y = valueAfter y initial (s.reading y).accesses
    rw [valueAfter_reading]
    exact h.value
  · change Function.update s.unchecked y false y = (_ && (firstRead y (s.reading y).accesses).isNone)
    rw [Function.update_self, hfirst]
    simp
  · exact h.finds_reading
  · change .refused y ∈ (s.reading y).accesses ↔ _ ∧ ∃ v w,
      firstRead y (s.reading y).accesses = some (some v, w) ∧ normaliseContext py w v ≠ .ok ()
    rw [refused_mem_reading, h.refused, hfirst, hmark.2]
    constructor
    · rintro ⟨_, v, w, hnone, _⟩
      cases hnone
    · rintro ⟨_, v, w, hsome, hrefused⟩
      cases hsome
      exact absurd hplain hrefused

/-- A read of `y` that needs a check, which the value does not pass. -/
theorem Tracks.reading_refused (h : Tracks py y initial s) {value : V} {e : E}
    (hvalue : s.values y = some value) (hunchecked : s.unchecked y = true)
    (hrefused : normaliseContext py s.world value = .error e) :
    Tracks py y initial
      { (s.reading y).checked y with accesses := (s.reading y).accesses ++ [.refused y] } := by
  have hmark := h.unchecked
  rw [hunchecked, Eq.comm, Bool.and_eq_true, Option.isNone_iff_eq_none] at hmark
  have hfirst : firstRead y ((s.reading y).accesses ++ [.refused y]) =
      some (some value, s.world) := by
    rw [firstRead_append, firstRead_reading, hmark.2, hvalue]
    rfl
  constructor
  · change s.values y = valueAfter y initial ((s.reading y).accesses ++ [.refused y])
    rw [valueAfter_append, valueAfter_reading]
    exact h.value
  · change Function.update s.unchecked y false y = _
    rw [Function.update_self, hfirst]
    simp
  · change Finds y initial ((s.reading y).accesses ++ [.refused y])
    rw [finds_append]
    exact ⟨h.finds_reading, trivial⟩
  · rw [hfirst]
    constructor
    · intro _
      refine ⟨hmark.1, value, s.world, rfl, ?_⟩
      rw [hrefused]
      exact nofun
    · intro _
      exact List.mem_append_right _ (List.mem_singleton.mpr rfl)

theorem Tracks.lift {α : Type} (h : Tracks py y initial s) (m : EStateM (Signal E) W α) :
    Tracks py y initial (left ((lift m).run s)) := by
  cases hrun : m.run s.world with
  | ok a w =>
      rw [lift_ok hrun]
      exact h.congr rfl rfl rfl
  | error e w =>
      rw [lift_error hrun]
      exact h.congr rfl rfl rfl

theorem Tracks.resolveVariable (h : Tracks py y initial s) (name : String) :
    Tracks py y initial (left ((resolveVariable py name).run s)) := by
  by_cases hname : name = y
  · subst hname
    cases hvalue : s.values name with
    | none =>
        rw [run_resolveVariable_missing hvalue]
        have hunchecked : s.unchecked name = false := by
          rw [h.unchecked]
          cases initial with
          | none => rfl
          | some value =>
              have hsome := valueAfter_some (y := name) value s.accesses
              rw [← h.value, hvalue] at hsome
              cases hsome
        exact (h.reading_known hunchecked).lift _
    | some value =>
        cases hunchecked : s.unchecked name with
        | false =>
            rw [run_resolveVariable_known hvalue hunchecked]
            exact h.reading_known hunchecked
        | true =>
            cases hplain : normaliseContext py s.world value with
            | ok _ =>
                rw [run_resolveVariable_plain hvalue hunchecked hplain]
                exact h.reading_plain hvalue hunchecked hplain
            | error e =>
                rw [run_resolveVariable_refused hvalue hunchecked hplain]
                exact h.reading_refused hvalue hunchecked hplain
  · have hreading : Tracks py y initial (s.reading name) := h.other hname
    cases hvalue : s.values name with
    | none =>
        rw [run_resolveVariable_missing hvalue]
        exact hreading.lift _
    | some value =>
        cases hunchecked : s.unchecked name with
        | false =>
            rw [run_resolveVariable_known hvalue hunchecked]
            exact hreading
        | true =>
            have hchecked : Tracks py y initial ((s.reading name).checked name) := by
              refine hreading.congr rfl ?_ rfl
              exact Function.update_of_ne (Ne.symm hname) _ _
            cases hplain : normaliseContext py s.world value with
            | ok _ =>
                rw [run_resolveVariable_plain hvalue hunchecked hplain]
                exact hchecked
            | error e =>
                rw [run_resolveVariable_refused hvalue hunchecked hplain]
                exact hchecked.other hname

/-- One run tracks `y` to its end. -/
theorem tracks_primitives : Primitives py (.invariant (Tracks (F := F) py y initial)) where
  world s t h := by rw [h.1]
  filters s t h := by rw [h.1]
  output s t h := by rw [h.1]
  lift m := coupled_invariant fun s hs => hs.lift m
  write text := coupled_invariant fun s hs => hs.congr rfl rfl rfl
  install name function := coupled_invariant fun s hs => hs.congr rfl rfl rfl
  setValue name value := coupled_invariant fun s hs => hs.setValue name value
  resolveVariable name := coupled_invariant fun s hs => hs.resolveVariable name

end Tracks

section TwoRuns

variable {V C F W E : Type} {y : String} {s t : RenderContext V F W}

/-- Two contexts that agree on everything but the value and the mark of `y`. -/
structure Beside (y : String) (s t : RenderContext V F W) : Prop where
  output : s.output = t.output
  world : s.world = t.world
  filters : s.filters = t.filters
  accesses : s.accesses = t.accesses
  values : ∀ name, name ≠ y → s.values name = t.values name
  unchecked : ∀ name, name ≠ y → s.unchecked name = t.unchecked name

/-- What excuses two runs: `y` was read before it was assigned, or the first read of `y`,
which is the same in both, was refused in one of them. -/
def Excused (y : String) (s t : RenderContext V F W) : Prop :=
  assignedFirst y s.accesses = false ∨
    ((firstRead y s.accesses).isSome ∧ firstRead y s.accesses = firstRead y t.accesses ∧
      (.refused y ∈ s.accesses ∨ .refused y ∈ t.accesses))

theorem firstRead_of_initial {l l' : List (Access V W)} (h : l <+: l')
    (hsome : (firstRead y l).isSome) : firstRead y l' = firstRead y l := by
  obtain ⟨extra, rfl⟩ := h
  rw [firstRead_append]
  exact Option.or_eq_left_of_isSome hsome

theorem Excused.mono {s' t' : RenderContext V F W} (hs : s.accesses <+: s'.accesses)
    (ht : t.accesses <+: t'.accesses) (h : Excused y s t) : Excused y s' t' := by
  rcases h with hread | ⟨hsome, hsame, hrefused⟩
  · left
    obtain ⟨extra, hextra⟩ := hs
    cases hfirst : assignedFirst y s'.accesses with
    | false => rfl
    | true =>
        rw [← hextra] at hfirst
        rw [assignedFirst_append _ hfirst] at hread
        exact hread
  · right
    rw [firstRead_of_initial hs hsome, firstRead_of_initial ht (hsame ▸ hsome)]
    exact ⟨hsome, hsame, hrefused.imp (hs.subset ·) (ht.subset ·)⟩

/-- How two runs whose contexts differ in `y` are compared. -/
def beside (y : String) : Comparison (RenderContext V F W) where
  before s t := s.accesses <+: t.accesses
  near := Beside y
  apart := Excused y
  before_refl _ := List.prefix_rfl
  before_trans := List.IsPrefix.trans
  apart_mono := Excused.mono

theorem accesses_lift {α : Type} (m : EStateM (Signal E) W α) (s : RenderContext V F W) :
    (left ((lift m).run s)).accesses = s.accesses := by
  cases hrun : m.run s.world with
  | ok a w =>
      rw [lift_ok hrun]
      rfl
  | error e w =>
      rw [lift_error hrun]
      rfl

theorem Beside.lift {α : Type} (h : Beside y s t) (m : EStateM (Signal E) W α) :
    Agree (beside y) ((lift m).run s) ((lift m).run t) := by
  have hworld : m.run s.world = m.run t.world := by rw [h.world]
  cases hrun : m.run t.world with
  | ok a w =>
      rw [lift_ok hrun, lift_ok (hworld.trans hrun)]
      exact ⟨rfl, { h with world := rfl }⟩
  | error e w =>
      rw [lift_error hrun, lift_error (hworld.trans hrun)]
      exact ⟨rfl, { h with world := rfl }⟩

theorem Beside.reading (h : Beside y s t) {name : String}
    (hvalue : s.values name = t.values name) : Beside y (s.reading name) (t.reading name) := by
  refine { h with accesses := ?_ }
  change s.accesses ++ [.read name (s.values name) s.world] = _
  rw [h.accesses, hvalue, h.world]
  rfl

theorem Beside.checked (h : Beside y s t) (name : String) :
    Beside y (s.checked name) (t.checked name) := by
  refine { h with unchecked := ?_ }
  intro other hother
  change Function.update s.unchecked name false other = Function.update t.unchecked name false other
  by_cases hname : other = name
  · rw [hname, Function.update_self, Function.update_self]
  · rw [Function.update_of_ne hname, Function.update_of_ne hname]
    exact h.unchecked other hother

theorem Beside.checked_left (h : Beside y s t) : Beside y (s.checked y) t := by
  refine { h with unchecked := ?_ }
  intro other hother
  change Function.update s.unchecked y false other = t.unchecked other
  rw [Function.update_of_ne hother]
  exact h.unchecked other hother

theorem Beside.symm (h : Beside y s t) : Beside y t s where
  output := h.output.symm
  world := h.world.symm
  filters := h.filters.symm
  accesses := h.accesses.symm
  values name hname := (h.values name hname).symm
  unchecked name hname := (h.unchecked name hname).symm

variable [DecidableEq V] {py : Python V C F W E} {initial initial' : Option V}

/-- A read that finds the same value with the same mark goes the same way. -/
theorem Beside.resolve_same (h : Beside y s t) {name : String}
    (hvalues : s.values name = t.values name) (hunchecked : s.unchecked name = t.unchecked name) :
    Agree (beside y) ((resolveVariable py name).run s) ((resolveVariable py name).run t) := by
  have hreading := h.reading hvalues
  cases hvalue : t.values name with
  | none =>
      rw [run_resolveVariable_missing hvalue, run_resolveVariable_missing (hvalues.trans hvalue)]
      exact hreading.lift _
  | some value =>
      cases hmark : t.unchecked name with
      | false =>
          rw [run_resolveVariable_known hvalue hmark,
            run_resolveVariable_known (hvalues.trans hvalue) (hunchecked.trans hmark)]
          exact ⟨rfl, hreading⟩
      | true =>
          cases hplain : normaliseContext py t.world value with
          | ok _ =>
              rw [run_resolveVariable_plain hvalue hmark hplain,
                run_resolveVariable_plain (hvalues.trans hvalue) (hunchecked.trans hmark)
                  (h.world ▸ hplain)]
              exact ⟨rfl, hreading.checked name⟩
          | error e =>
              rw [run_resolveVariable_refused hvalue hmark hplain,
                run_resolveVariable_refused (hvalues.trans hvalue) (hunchecked.trans hmark)
                  (h.world ▸ hplain)]
              refine ⟨rfl, { hreading.checked name with accesses := ?_ }⟩
              change (s.reading name).accesses ++ _ = (t.reading name).accesses ++ _
              rw [hreading.accesses]

/-- A read is recorded before anything else happens. -/
theorem accesses_reading (py : Python V C F W E) (s : RenderContext V F W) (name : String) :
    (s.reading name).accesses <+: (left ((resolveVariable py name).run s)).accesses := by
  cases hvalue : s.values name with
  | none =>
      rw [run_resolveVariable_missing hvalue]
      exact ⟨[], by rw [List.append_nil, accesses_lift]⟩
  | some value =>
      cases hmark : s.unchecked name with
      | false =>
          rw [run_resolveVariable_known hvalue hmark]
          exact List.prefix_rfl
      | true =>
          cases hplain : normaliseContext py s.world value with
          | ok _ =>
              rw [run_resolveVariable_plain hvalue hmark hplain]
              exact List.prefix_rfl
          | error e =>
              rw [run_resolveVariable_refused hvalue hmark hplain]
              exact List.prefix_append _ _

/-- After an assignment both runs hold the same value of `y`. -/
theorem Beside.values_of_assignedFirst (h : Beside y s t) (hs : Tracks py y initial s)
    (ht : Tracks py y initial' t) (hfirst : assignedFirst y (s.reading y).accesses) :
    s.values y = t.values y := by
  rw [hs.value, ht.value, ← h.accesses]
  exact valueAfter_of_assignedFirst initial initial' hfirst

/-- A refused read of `y` excuses the runs: it was the first one in both. -/
theorem Beside.excused (h : Beside y s t) (hvalues : s.values y = t.values y)
    (hrefused : .refused y ∈ (left ((resolveVariable py y).run s)).accesses ∨
      .refused y ∈ (left ((resolveVariable py y).run t)).accesses) :
    Excused y (left ((resolveVariable py y).run s)) (left ((resolveVariable py y).run t)) := by
  have hsome : (firstRead y (s.reading y).accesses).isSome := by
    rw [firstRead_reading, Option.isSome_or]
    exact Bool.or_true _
  have hsame := (h.reading hvalues).accesses
  right
  rw [firstRead_of_initial (accesses_reading py s y) hsome,
    firstRead_of_initial (accesses_reading py t y) (hsame ▸ hsome), hsame]
  exact ⟨hsame ▸ hsome, rfl, hrefused⟩

/-- Only the first run checks `y`. -/
theorem Beside.resolve_left (h : Beside y s t) {value : V} (hs : s.values y = some value)
    (ht : t.values y = some value) (hsmark : s.unchecked y = true)
    (htmark : t.unchecked y = false) :
    Agree (beside y) ((resolveVariable py y).run s) ((resolveVariable py y).run t) ∨
      Excused y (left ((resolveVariable py y).run s)) (left ((resolveVariable py y).run t)) := by
  cases hplain : normaliseContext py s.world value with
  | ok _ =>
      left
      rw [run_resolveVariable_plain hs hsmark hplain, run_resolveVariable_known ht htmark]
      exact ⟨rfl, (h.reading (hs.trans ht.symm)).checked_left⟩
  | error e =>
      right
      apply h.excused (hs.trans ht.symm)
      left
      rw [run_resolveVariable_refused hs hsmark hplain]
      exact List.mem_append_right _ (List.mem_singleton.mpr rfl)

/-- Only the second run checks `y`. -/
theorem Beside.resolve_right (h : Beside y s t) {value : V} (hs : s.values y = some value)
    (ht : t.values y = some value) (hsmark : s.unchecked y = false)
    (htmark : t.unchecked y = true) :
    Agree (beside y) ((resolveVariable py y).run s) ((resolveVariable py y).run t) ∨
      Excused y (left ((resolveVariable py y).run s)) (left ((resolveVariable py y).run t)) := by
  cases hplain : normaliseContext py t.world value with
  | ok _ =>
      left
      rw [run_resolveVariable_known hs hsmark, run_resolveVariable_plain ht htmark hplain]
      exact ⟨rfl, (h.reading (hs.trans ht.symm)).symm.checked_left.symm⟩
  | error e =>
      right
      apply h.excused (hs.trans ht.symm)
      right
      rw [run_resolveVariable_refused ht htmark hplain]
      exact List.mem_append_right _ (List.mem_singleton.mpr rfl)

theorem Beside.resolve (h : Beside y s t) (hs : Tracks py y initial s)
    (ht : Tracks py y initial' t) (name : String) :
    Agree (beside y) ((resolveVariable py name).run s) ((resolveVariable py name).run t) ∨
      Excused y (left ((resolveVariable py name).run s)) (left ((resolveVariable py name).run t)) := by
  by_cases hname : name = y
  · subst hname
    cases hfirst : assignedFirst name (s.reading name).accesses with
    | false =>
        right
        exact Excused.mono (s := s.reading name) (t := t.reading name) (accesses_reading py s name)
          (accesses_reading py t name) (.inl hfirst)
    | true =>
        have hvalues := h.values_of_assignedFirst hs ht hfirst
        cases hvalue : t.values name with
        | none =>
            left
            rw [run_resolveVariable_missing hvalue,
              run_resolveVariable_missing (hvalues.trans hvalue)]
            exact (h.reading hvalues).lift _
        | some value =>
            cases hsmark : s.unchecked name <;> cases htmark : t.unchecked name
            · exact .inl (h.resolve_same hvalues (hsmark.trans htmark.symm))
            · exact h.resolve_right (hvalues.trans hvalue) hvalue hsmark htmark
            · exact h.resolve_left (hvalues.trans hvalue) hvalue hsmark htmark
            · exact .inl (h.resolve_same hvalues (hsmark.trans htmark.symm))
  · left
    exact h.resolve_same (h.values name hname) (h.unchecked name hname)

/-- Two renders whose contexts differ in `y` are compared to their end. -/
theorem beside_primitives : Primitives py
    ((beside (F := F) y).keeping (Tracks py y initial) (Tracks py y initial')) where
  world s t h := h.1.world
  filters s t h := h.1.filters
  output s t h := h.1.output
  lift m := by
    apply coupled_keeping
    · intro s
      exact ⟨[], by rw [List.append_nil, accesses_lift]⟩
    · exact fun s hs => hs.lift m
    · exact fun s hs => hs.lift m
    · exact fun s t h _ _ => .inl (h.lift m)
  write text := by
    apply coupled_keeping
    · exact fun s => List.prefix_rfl
    · exact fun s hs => hs.congr rfl rfl rfl
    · exact fun s hs => hs.congr rfl rfl rfl
    · intro s t h _ _
      refine .inl ⟨rfl, { h with output := ?_ }⟩
      change s.output ++ [text] = t.output ++ [text]
      rw [h.output]
  install name function := by
    apply coupled_keeping
    · exact fun s => List.prefix_rfl
    · exact fun s hs => hs.congr rfl rfl rfl
    · exact fun s hs => hs.congr rfl rfl rfl
    · intro s t h _ _
      refine .inl ⟨rfl, { h with filters := ?_ }⟩
      change Function.update s.filters _ _ = Function.update t.filters _ _
      rw [h.filters]
  setValue name value := by
    apply coupled_keeping
    · exact fun s => List.prefix_append _ _
    · exact fun s hs => hs.setValue name value
    · exact fun s hs => hs.setValue name value
    · intro s t h _ _
      refine .inl ⟨rfl, { h with accesses := ?_, values := ?_ }⟩
      · change s.accesses ++ [_] = t.accesses ++ [_]
        rw [h.accesses]
      · intro other hother
        change Function.update s.values name (some value) other =
          Function.update t.values name (some value) other
        by_cases hname : other = name
        · rw [hname, Function.update_self, Function.update_self]
        · rw [Function.update_of_ne hname, Function.update_of_ne hname]
          exact h.values other hother
  resolveVariable name := by
    apply coupled_keeping
    · intro s
      exact (List.prefix_append _ _).trans (accesses_reading py s name)
    · exact fun s hs => hs.resolveVariable name
    · exact fun s hs => hs.resolveVariable name
    · exact fun s t h hs ht => h.resolve hs ht name

end TwoRuns

section Shadowing

variable {V C F W E : Type} [DecidableEq V] (py : Python V C F W E)

/-- A render of a program with keyword values only. -/
def TemplateProgram.call (fuel : Nat) (program : TemplateProgram C) (values : String → Option V)
    (world : W) : EStateM.Result (Signal E) (RenderContext V F W) String :=
  (program.render py fuel).run (callContext none values world)

/-- What the caller of a render gets, and the state of the interpreter after it. -/
def outcome : EStateM.Result (Signal E) (RenderContext V F W) String → Except (Signal E) String × W
  | .ok text s => (.ok text, s.world)
  | .error e s => (.error e, s.world)

/-- On every execution path `y` is assigned before it is read. -/
def AssignsFirst (fuel : Nat) (program : TemplateProgram C) (y : String) : Prop :=
  ∀ values world, assignedFirst y (left (program.call py fuel values world)).accesses

variable {py} {fuel : Nat} {program : TemplateProgram C} {y : String}

theorem tracks_start (values : String → Option V) (world : W) :
    Tracks (F := F) py y (values y) (callContext none values world) := by
  constructor
  · rfl
  · exact (Bool.and_true _).symm
  · trivial
  · constructor
    · intro h
      exact absurd h List.not_mem_nil
    · rintro ⟨_, v, w, hfirst, _⟩
      cases hfirst

theorem tracks_call (values : String → Option V) (world : W) :
    Tracks py y (values y) (left (program.call py fuel values world)) :=
  (tracks_primitives.render program).holds (tracks_start values world)

/-- Two renders whose keyword contexts agree outside `y`. -/
theorem call_beside {values values' : String → Option V}
    (hagree : ∀ name, name ≠ y → values name = values' name) (world : W) :
    Agree ((beside y).keeping (Tracks py y (values y)) (Tracks py y (values' y)))
        (program.call py fuel values world) (program.call py fuel values' world) ∨
      Excused y (left (program.call py fuel values world))
        (left (program.call py fuel values' world)) := by
  apply (beside_primitives.render program).agree
  refine ⟨⟨rfl, rfl, rfl, rfl, hagree, ?_⟩, ?_, ?_⟩
  · intro name hname
    change (!false && (values name).isSome) = (!false && (values' name).isSome)
    rw [hagree name hname]
  · exact tracks_start values world
  · exact tracks_start values' world

/-- The first read of `y` is the same in both renders. -/
theorem firstRead_call {values values' : String → Option V}
    (hagree : ∀ name, name ≠ y → values name = values' name) (world : W)
    (hfirst : assignedFirst y (left (program.call py fuel values world)).accesses) :
    firstRead y (left (program.call py fuel values world)).accesses =
      firstRead y (left (program.call py fuel values' world)).accesses := by
  rcases call_beside hagree world with hsame | hread | ⟨_, hsame, _⟩
  · match program.call py fuel values world, program.call py fuel values' world, hsame with
    | .ok _ _, .ok _ _, ⟨_, hnear, _⟩ => exact congrArg (firstRead y) hnear.accesses
    | .error _ _, .error _ _, ⟨_, hnear, _⟩ => exact congrArg (firstRead y) hnear.accesses
  · rw [hfirst] at hread
    cases hread
  · exact hsame

/-- Renders that refuse no read of `y` have the same outcome. -/
theorem outcome_call {values values' : String → Option V}
    (hagree : ∀ name, name ≠ y → values name = values' name) (world : W)
    (hfirst : assignedFirst y (left (program.call py fuel values world)).accesses)
    (hrefused : .refused y ∉ (left (program.call py fuel values world)).accesses)
    (hrefused' : .refused y ∉ (left (program.call py fuel values' world)).accesses) :
    outcome (program.call py fuel values world) = outcome (program.call py fuel values' world) := by
  rcases call_beside hagree world with hsame | hread | ⟨_, _, hmem | hmem⟩
  · match program.call py fuel values world, program.call py fuel values' world, hsame with
    | .ok text s, .ok text' t, ⟨htext, hnear, _⟩ =>
        change (Except.ok text, s.world) = (Except.ok text', t.world)
        rw [htext, hnear.world]
    | .error e s, .error e' t, ⟨he, hnear, _⟩ =>
        change (Except.error e, s.world) = (Except.error e', t.world)
        rw [he, hnear.world]
  · rw [hfirst] at hread
    cases hread
  · exact absurd hmem hrefused
  · exact absurd hmem hrefused'

/-- A render reads `y` back as assigned unless it refuses a read of it. -/
theorem readBack_call (hassigned : AssignsFirst py fuel program y) (values : String → Option V)
    (world : W) : ReadBack y (left (program.call py fuel values world)).accesses ↔
      .refused y ∉ (left (program.call py fuel values world)).accesses := by
  constructor
  · exact And.right
  · intro hrefused
    exact ⟨finds_of_assignedFirst (hassigned values world) (tracks_call values world).finds,
      hrefused⟩

/-- A render refuses a read of `y` when its context holds `y` and the first value that it
reads is not plain data. -/
theorem refused_call_iff {values values' : String → Option V}
    (hagree : ∀ name, name ≠ y → values name = values' name) (world : W)
    (hfirst : assignedFirst y (left (program.call py fuel values world)).accesses) :
    .refused y ∈ (left (program.call py fuel values' world)).accesses ↔ (values' y).isSome ∧
      ∃ v w, firstRead y (left (program.call py fuel values world)).accesses = some (some v, w) ∧
        normaliseContext py w v ≠ .ok () := by
  rw [firstRead_call hagree world hfirst]
  exact (tracks_call values' world).refused

/-- An assignment to `y` hides the keyword value of `y`, in two renders whose contexts agree
elsewhere, exactly when neither context holds `y` or the first value of `y` that is read is
plain data. -/
theorem assignment_shadows_iff (hassigned : AssignsFirst py fuel program y)
    {values values' : String → Option V}
    (hagree : ∀ name, name ≠ y → values name = values' name) (world : W) :
    (outcome (program.call py fuel values world) = outcome (program.call py fuel values' world) ∧
        ReadBack y (left (program.call py fuel values world)).accesses ∧
        ReadBack y (left (program.call py fuel values' world)).accesses) ↔
      (values y = none ∧ values' y = none) ∨
        ∀ v w, firstRead y (left (program.call py fuel values world)).accesses = some (some v, w) →
          normaliseContext py w v = .ok () := by
  have hfirst := hassigned values world
  have hrefused := refused_call_iff (fun _ _ => rfl) world hfirst
  have hrefused' := refused_call_iff hagree world hfirst
  rw [readBack_call hassigned, readBack_call hassigned]
  constructor
  · rintro ⟨_, hnot, hnot'⟩
    rw [hrefused] at hnot
    rw [hrefused'] at hnot'
    by_cases hread : ∃ v w, firstRead y (left (program.call py fuel values world)).accesses =
        some (some v, w) ∧ normaliseContext py w v ≠ .ok ()
    · left
      constructor
      · rw [← Option.not_isSome_iff_eq_none]
        exact fun hsome => hnot ⟨hsome, hread⟩
      · rw [← Option.not_isSome_iff_eq_none]
        exact fun hsome => hnot' ⟨hsome, hread⟩
    · right
      intro v w hfound
      by_contra hplain
      exact hread ⟨v, w, hfound, hplain⟩
  · intro hholds
    have hnot : .refused y ∉ (left (program.call py fuel values world)).accesses := by
      rw [hrefused]
      rintro ⟨hsome, v, w, hread, hnotPlain⟩
      rcases hholds with ⟨hnone, _⟩ | hplain
      · rw [hnone] at hsome
        cases hsome
      · exact hnotPlain (hplain v w hread)
    have hnot' : .refused y ∉ (left (program.call py fuel values' world)).accesses := by
      rw [hrefused']
      rintro ⟨hsome, v, w, hread, hnotPlain⟩
      rcases hholds with ⟨_, hnone⟩ | hplain
      · rw [hnone] at hsome
        cases hsome
      · exact hnotPlain (hplain v w hread)
    exact ⟨outcome_call hagree world hfirst hnot hnot', hnot, hnot'⟩

section Sample

/-- A number and an object that is not plain data. -/
inductive Sample where
  | number
  | object
  deriving DecidableEq

/-- An interpreter whose only filter returns the object. -/
def samplePython : Python Sample Unit Unit Unit String where
  cell _ value := if value = .number then .scalar else .foreign
  recursionLimit := 1000
  constant _ := .number
  collect _ _ := pure .object
  newDict := pure .object
  setItem _ _ _ := pure ()
  rebuild value _ := pure value
  unary _ value := pure value
  arithmetic _ value _ := pure value
  compare _ _ _ := pure .number
  truth _ := pure true
  getItem _ _ := throw "TypeError"
  getAttr _ _ := throw "AttributeError"
  slice _ _ _ := pure .object
  str value := pure (if value = .number then "1" else "object")
  toTuple _ := throw "TypeError"
  iter _ := throw "TypeError"
  next _ := pure none
  iterItems _ := throw "TypeError"
  nextItem _ := pure none
  isIterator _ := pure false
  construct _ := pure ()
  handlesUndefined _ := pure false
  call _ _ _ _ := pure .object
  undefined e := throw e
  undefinedError _ _ := none
  nameError message := "NameError: " ++ message
  typeError message := "TypeError: " ++ message
  valueError message := "ValueError: " ++ message
  keyError message := "KeyError: " ++ message
  recursionError := "RecursionError"
  isTypeError e := e = "TypeError"
  isLookupError e := e = "AttributeError"

/-- The program of `{% set y = 1 | f %}{{ y }}`. -/
def sampleProgram : TemplateProgram Unit where
  nodes :=
    [.assignment 0 ⟨"y", [], false⟩ (.filter "f" (.literal (.int 1)) [] []),
      .output 19 (.variable "y")]
  filters := [("f", ())]

/-- The context after the assignment. -/
def sampleAssigned (values : String → Option Sample) : RenderContext Sample Unit Unit where
  values := Function.update values "y" (some .object)
  unchecked name := !false && (values name).isSome
  filters := Function.update (fun _ => none) "f" (some ())
  output := []
  world := ()
  accesses := [.assigned "y" .object]

/-- The rest of the render reads `y`. -/
theorem sampleProgram_call (values : String → Option Sample) :
    sampleProgram.call samplePython 1 values () = (do
      let value ← resolveVariable samplePython "y"
      write (if value = Sample.number then "1" else "object")
      return String.join (← get).output).run (sampleAssigned values) := by
  change (do
    invokeAll samplePython 1 [.output 19 (.variable "y")]
    return String.join (← get).output).run (sampleAssigned values) = _
  simp only [EStateM.run_bind, invokeAll, Node.invoke, Expression.run, Mode.settle]
  cases (resolveVariable samplePython "y").run (sampleAssigned values) with
  | ok value s => rfl
  | error e s => rfl

theorem sampleAssigned_value (values : String → Option Sample) :
    (sampleAssigned values).values "y" = some .object := by
  change Function.update values "y" (some .object) "y" = _
  rw [Function.update_self]

theorem sampleProgram_refuses {values : String → Option Sample} (h : (values "y").isSome) :
    sampleProgram.call samplePython 1 values () =
      .error (.raised ("TypeError: " ++ notPlain))
        { ((sampleAssigned values).reading "y").checked "y" with
          accesses := ((sampleAssigned values).reading "y").accesses ++ [.refused "y"] } := by
  rw [sampleProgram_call, EStateM.run_bind,
    run_resolveVariable_refused (e := "TypeError: " ++ notPlain) (sampleAssigned_value values) h rfl]

theorem sampleProgram_renders {values : String → Option Sample} (h : (values "y").isSome = false) :
    sampleProgram.call samplePython 1 values () =
      .ok "object" { (sampleAssigned values).reading "y" with output := ["object"] } := by
  rw [sampleProgram_call, EStateM.run_bind,
    run_resolveVariable_known (sampleAssigned_value values) h]
  rfl

theorem sampleProgram_assignsFirst : AssignsFirst samplePython 1 sampleProgram "y" := by
  intro values world
  cases h : (values "y").isSome with
  | false =>
      rw [sampleProgram_renders h]
      rfl
  | true =>
      rw [sampleProgram_refuses h]
      rfl

/-- A context that holds a number under `y` and nothing else. -/
def sampleValues (name : String) : Option Sample :=
  if name = "y" then some .number else none

theorem sampleValues_of_ne (name : String) (hname : name ≠ "y") :
    (fun _ => none : String → Option Sample) name = sampleValues name :=
  (if_neg hname).symm

/-- The value that a trusted filter computed is refused when it is read, because the context
holds a value under the name that it was assigned to. -/
theorem assigned_value_refused :
    AssignsFirst samplePython 1 sampleProgram "y" ∧
      (∀ name, name ≠ "y" → (fun _ => none : String → Option Sample) name = sampleValues name) ∧
      (outcome (sampleProgram.call samplePython 1 (fun _ => none) ())).1.toOption =
        some "object" ∧
      (outcome (sampleProgram.call samplePython 1 sampleValues ())).1.toOption = none := by
  refine ⟨sampleProgram_assignsFirst, sampleValues_of_ne, ?_, ?_⟩
  · rw [sampleProgram_renders rfl]
    rfl
  · rw [sampleProgram_refuses rfl]
    rfl

theorem assigned_value_not_shadowing :
    ¬ (outcome (sampleProgram.call samplePython 1 (fun _ => none) ()) =
        outcome (sampleProgram.call samplePython 1 sampleValues ()) ∧
      ReadBack "y" (left (sampleProgram.call samplePython 1 (fun _ => none) ())).accesses ∧
      ReadBack "y" (left (sampleProgram.call samplePython 1 sampleValues ())).accesses) := by
  rw [assignment_shadows_iff sampleProgram_assignsFirst sampleValues_of_ne ()]
  rintro (⟨_, hnone⟩ | hplain)
  · cases hnone
  · have hobject := hplain .object () (by rw [sampleProgram_renders rfl]; rfl)
    cases hobject

end Sample

end Shadowing

end Templates

end Rmote
