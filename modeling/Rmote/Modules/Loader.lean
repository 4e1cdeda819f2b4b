import Rmote.Wire.Packet

/-!
# The sources that an interpreter registers

`ModuleLoader.install` registers the sources of a transferred bundle. It checks all of them
first, against the sources that are registered and against the modules that were loaded from
elsewhere, and then gives every parent package that nobody has an empty source of its own. The
interpreter loads modules between the calls and never forgets one.
-/

namespace Rmote

namespace Modules

/-- The text in front of the last dot, and nothing when there is none. -/
def beforeLastDot : List Char → List Char
  | [] => []
  | c :: text => if '.' ∈ text then c :: beforeLastDot text else []

theorem beforeLastDot_append {name : List Char} (h : '.' ∈ name) :
    ∃ tail, name = beforeLastDot name ++ '.' :: tail ∧ '.' ∉ tail := by
  induction name with
  | nil => cases h
  | cons c text ih =>
      rw [beforeLastDot]
      split_ifs with htext
      · obtain ⟨tail, heq, htail⟩ := ih htext
        exact ⟨tail, congrArg (c :: ·) heq, htail⟩
      · rcases List.mem_cons.mp h with rfl | h
        · exact ⟨text, rfl, htext⟩
        · exact absurd h htext

theorem beforeLastDot_of_not_mem {name : List Char} (h : '.' ∉ name) :
    beforeLastDot name = [] := by
  cases name with
  | nil => rfl
  | cons c text => rw [beforeLastDot, if_neg fun htext => h (List.mem_cons_of_mem c htext)]

/-- The parents of a dotted name, the nearest one first. The number bounds its length. -/
def ancestorsOf : ℕ → List Char → List (List Char)
  | 0, _ => []
  | bound + 1, name =>
      if beforeLastDot name = [] then []
      else beforeLastDot name :: ancestorsOf bound (beforeLastDot name)

theorem mem_ancestorsOf {bound : ℕ} {name a : List Char} (h : name.length ≤ bound) :
    a ∈ ancestorsOf bound name ↔ a ≠ [] ∧ ∃ tail, name = a ++ '.' :: tail := by
  induction bound generalizing name with
  | zero =>
      rw [List.eq_nil_of_length_eq_zero (Nat.le_zero.mp h)]
      simp [ancestorsOf]
  | succ bound ih =>
      by_cases hdot : '.' ∈ name
      · obtain ⟨tail, heq, htail⟩ := beforeLastDot_append hdot
        have hlength : (beforeLastDot name).length ≤ bound := by
          have hsum := congrArg List.length heq
          rw [List.length_append, List.length_cons] at hsum
          omega
        rw [ancestorsOf]
        generalize hp : beforeLastDot name = p at heq hlength
        subst heq
        split_ifs with hempty
        · subst hempty
          simp only [List.not_mem_nil, false_iff, not_and]
          rintro hne ⟨tail', heq⟩
          obtain ⟨c, a, rfl⟩ := List.exists_cons_of_ne_nil hne
          rw [List.nil_append, List.cons_append] at heq
          obtain ⟨-, heq⟩ := List.cons.inj heq
          exact htail (by rw [heq]; simp)
        · rw [List.mem_cons, ih hlength]
          constructor
          · rintro (rfl | ⟨hne, tail', rfl⟩)
            · exact ⟨hempty, tail, rfl⟩
            · exact ⟨hne, tail' ++ '.' :: tail, by simp⟩
          · rintro ⟨hne, tail', heq⟩
            rcases List.append_eq_append_iff.mp heq with ⟨c, rfl, hc⟩ | ⟨c, rfl, hc⟩
            · -- The name would have a dot behind its last one.
              cases c with
              | nil => exact .inl (List.append_nil p)
              | cons d c =>
                  rw [List.cons_append] at hc
                  exact absurd (by rw [(List.cons.inj hc).2]; simp) htail
            · cases c with
              | nil => exact .inl (List.append_nil a).symm
              | cons d c =>
                  rw [List.cons_append] at hc
                  rw [← (List.cons.inj hc).1]
                  exact .inr ⟨hne, c, rfl⟩
      · rw [ancestorsOf, if_pos (beforeLastDot_of_not_mem hdot)]
        simp only [List.not_mem_nil, false_iff, not_and]
        rintro - ⟨tail, rfl⟩
        exact hdot (by simp)

/-- The parents of a dotted name. -/
def ancestors (name : String) : List String :=
  (ancestorsOf name.toList.length name.toList).map String.ofList

/-- The first name is a package that contains the second one. -/
def Ancestor (a name : String) : Prop := a ≠ "" ∧ ∃ tail, name.toList = a.toList ++ '.' :: tail

theorem mem_ancestors {a name : String} : a ∈ ancestors name ↔ Ancestor a name := by
  rw [ancestors, List.mem_map]
  constructor
  · rintro ⟨text, htext, rfl⟩
    obtain ⟨hne, htail⟩ := (mem_ancestorsOf (le_refl _)).mp htext
    refine ⟨fun hempty => hne ?_, ?_⟩
    · simpa using congrArg String.toList hempty
    · rw [String.toList_ofList]
      exact htail
  · rintro ⟨hne, htail⟩
    refine ⟨a.toList, (mem_ancestorsOf (le_refl _)).mpr ⟨?_, htail⟩, String.ofList_toList⟩
    intro hempty
    exact hne (by simpa using hempty)

theorem Ancestor.trans {a b name : String} (h : Ancestor a b) (h' : Ancestor b name) :
    Ancestor a name := by
  obtain ⟨hne, tail, htail⟩ := h
  obtain ⟨-, tail', htail'⟩ := h'
  refine ⟨hne, tail ++ '.' :: tail', ?_⟩
  rw [htail', htail]
  simp

/-- What reading the file of a loaded module gives. -/
inductive FileText where
  | text (source : String)
  /-- The module has no file, or it cannot be read or decoded. -/
  | unreadable
  /-- Any other exception. -/
  | raises (text : String)
  deriving DecidableEq

/-- An entry of `sys.modules`. -/
inductive LoadedModule where
  /-- The entry is `None` and stops an import. -/
  | blocked
  | module (file : FileText)
  deriving DecidableEq

inductive InstallError where
  | changed (name : String)
  | outside (name : String)
  | raised (text : String)
  deriving DecidableEq

def InstallError.message : InstallError → String
  | .changed name => s!"Transferred module changed: {name}; open a new connection"
  | .outside name => s!"Module already loaded outside this bundle: {name}"
  | .raised text => text

/-- The sources of the loader and the modules of one interpreter. -/
structure Registry where
  sources : Manifest
  modules : AList fun _ : String => LoadedModule

/-- An empty package for a parent that nobody has. -/
def namespaceSource (parent : String) : ModuleSource := ⟨"", s!"<namespace:{parent}>", true⟩

namespace Registry

/-- The interpreter before the first transfer. -/
def new (modules : AList fun _ : String => LoadedModule) : Registry := ⟨∅, modules⟩

/-- Why the source of a name is refused. -/
def conflict (r : Registry) (name : String) (source : ModuleSource) : Option InstallError :=
  match r.sources.lookup name with
  | some previous => if previous ≠ source then some (.changed name) else none
  | none =>
      match r.modules.lookup name with
      | some (.module (.text text)) => if text = source.source then none else some (.outside name)
      | some (.module .unreadable) => some (.outside name)
      | some (.module (.raises text)) => some (.raised text)
      | _ => none

/-- Register an empty package, unless the name is there. -/
def fillParent (r : Registry) (sources registered : Manifest) (parent : String) : Manifest :=
  if parent ∈ sources ∨ parent ∈ r.modules ∨ parent ∈ registered then registered
  else registered.insert parent (namespaceSource parent)

/-- Register the sources of a bundle. -/
def install (r : Registry) (sources : Manifest) : Except InstallError Registry :=
  match sources.entries.findSome? fun entry => r.conflict entry.1 entry.2 with
  | some error => .error error
  | none => .ok { r with
      sources := (sources.keys.flatMap ancestors).foldl (r.fillParent sources)
        (sources ∪ r.sources) }

/-- The interpreter loads a module. -/
def load (r : Registry) (name : String) (entry : LoadedModule) : Registry :=
  { r with modules := r.modules.insert name entry }

end Registry

/-- What happens to an interpreter. -/
inductive RegistryEvent where
  | install (sources : Manifest)
  | load (name : String) (entry : LoadedModule)

namespace Registry

def step (r : Registry) : RegistryEvent → Registry
  | .install sources =>
      match r.install sources with
      | .ok r' => r'
      | .error _ => r
  | .load name entry => r.load name entry

def run (r : Registry) (events : List RegistryEvent) : Registry := events.foldl step r

variable {r r' : Registry} {sources : Manifest} {name : String} {source : ModuleSource}

/-- What the filling of the parents registers. -/
theorem lookup_fillParents (r : Registry) (sources registered : Manifest) (parents : List String)
    (hsub : ∀ name ∈ sources, name ∈ registered) (name : String) :
    (parents.foldl (r.fillParent sources) registered).lookup name =
      (registered.lookup name).or
        (if name ∈ parents ∧ name ∉ r.modules then some (namespaceSource name) else none) := by
  induction parents generalizing registered with
  | nil => simp
  | cons parent parents ih =>
      rw [List.foldl_cons]
      by_cases hfill : parent ∈ sources ∨ parent ∈ r.modules ∨ parent ∈ registered
      · have hstep : r.fillParent sources registered parent = registered := if_pos hfill
        rw [hstep, ih registered hsub]
        by_cases hname : name = parent
        · subst hname
          rcases hfill with hfill | hfill | hfill
          · obtain ⟨s, hs⟩ := Option.isSome_iff_exists.mp (AList.lookup_isSome.mpr (hsub _ hfill))
            rw [hs]
            rfl
          · simp [hfill]
          · obtain ⟨s, hs⟩ := Option.isSome_iff_exists.mp (AList.lookup_isSome.mpr hfill)
            rw [hs]
            rfl
        · simp [hname]
      · have hstep : r.fillParent sources registered parent =
            registered.insert parent (namespaceSource parent) := if_neg hfill
        push Not at hfill
        rw [hstep, ih _ fun n hn => (AList.mem_insert _).mpr (.inr (hsub n hn))]
        by_cases hname : name = parent
        · subst hname
          rw [AList.lookup_insert, AList.lookup_eq_none.mpr hfill.2.2]
          simp [hfill.2.1]
        · rw [AList.lookup_insert_ne hname]
          simp [hname]

/-- A bundle makes an empty package of a name that it does not carry. -/
def Parent (r : Registry) (sources : Manifest) (name : String) : Prop :=
  (∃ n ∈ sources, Ancestor name n) ∧ name ∉ r.modules

/-- What a call that succeeds has done. -/
structure Installed (r : Registry) (sources : Manifest) (r' : Registry) : Prop where
  modules : r'.modules = r.modules
  given : ∀ name source, sources.lookup name = some source → r'.sources.lookup name = some source
  kept : ∀ name source, name ∉ sources → r.sources.lookup name = some source →
    r'.sources.lookup name = some source
  filled : ∀ name, name ∉ sources → name ∉ r.sources → r.Parent sources name →
    r'.sources.lookup name = some (namespaceSource name)
  absent : ∀ name, name ∉ sources → name ∉ r.sources → ¬ r.Parent sources name →
    name ∉ r'.sources

/-- Nothing in the bundle is refused. -/
def Accepts (r : Registry) (sources : Manifest) : Prop :=
  ∀ name source, sources.lookup name = some source → r.conflict name source = none

theorem accepts_iff : r.Accepts sources ↔
    (sources.entries.findSome? fun entry => r.conflict entry.1 entry.2) = none := by
  rw [List.findSome?_eq_none_iff]
  constructor
  · rintro h ⟨name, source⟩ hentry
    exact h name source (AList.mem_lookup_iff.mpr hentry)
  · intro h name source hlookup
    exact h ⟨name, source⟩ (AList.mem_lookup_iff.mp hlookup)

theorem mem_parents : name ∈ sources.keys.flatMap ancestors ↔ ∃ n ∈ sources, Ancestor name n := by
  rw [List.mem_flatMap]
  constructor
  · rintro ⟨n, hn, hname⟩
    exact ⟨n, hn, mem_ancestors.mp hname⟩
  · rintro ⟨n, hn, hname⟩
    exact ⟨n, hn, mem_ancestors.mpr hname⟩

theorem mem_of_lookup {sources : Manifest} (h : sources.lookup name = some source) :
    name ∈ sources :=
  AList.lookup_isSome.mp (by rw [h]; rfl)

theorem install_ok (h : r.Accepts sources) :
    ∃ r', r.install sources = .ok r' ∧ Installed r sources r' := by
  refine ⟨_, by rw [install, accepts_iff.mp h], ?_⟩
  have hfill := lookup_fillParents r sources (sources ∪ r.sources)
    (sources.keys.flatMap ancestors) fun n hn => AList.mem_union.mpr (.inl hn)
  refine ⟨rfl, fun name source hname => ?_, fun name source hname hold => ?_,
    fun name hname hold hparent => ?_, fun name hname hold hparent => ?_⟩
  · dsimp only
    rw [hfill, AList.lookup_union_left (mem_of_lookup hname), hname]
    rfl
  · dsimp only
    rw [hfill, AList.lookup_union_right hname, hold]
    rfl
  · dsimp only
    rw [hfill, AList.lookup_union_right hname, AList.lookup_eq_none.mpr hold,
      if_pos ⟨mem_parents.mpr hparent.1, hparent.2⟩]
    rfl
  · rw [← AList.lookup_eq_none, hfill, AList.lookup_union_right hname,
      AList.lookup_eq_none.mpr hold, if_neg fun hnot => hparent ⟨mem_parents.mp hnot.1, hnot.2⟩]
    rfl

theorem accepts_of_ok (h : r.install sources = .ok r') : r.Accepts sources := by
  rw [accepts_iff]
  unfold install at h
  split at h
  · cases h
  · assumption

theorem installed_of_ok (h : r.install sources = .ok r') : Installed r sources r' := by
  obtain ⟨r'', hok, hinstalled⟩ := install_ok (accepts_of_ok h)
  rw [h] at hok
  cases hok
  exact hinstalled

/-- A name that is registered keeps its source. -/
theorem lookup_of_install (h : r.install sources = .ok r')
    (hname : r.sources.lookup name = some source) : r'.sources.lookup name = some source := by
  have hinstalled := installed_of_ok h
  by_cases hmem : name ∈ sources
  · obtain ⟨given, hgiven⟩ := Option.isSome_iff_exists.mp (AList.lookup_isSome.mpr hmem)
    have haccepts := accepts_of_ok h name given hgiven
    rw [conflict, hname] at haccepts
    have hsame : source = given := by
      by_contra hne
      simp [hne] at haccepts
    rw [hinstalled.given name given hgiven, hsame]
  · exact hinstalled.kept name source hmem hname

/-- Every parent of a registered name is registered or loaded. -/
def Closed (r : Registry) : Prop :=
  ∀ name ∈ r.sources, ∀ a, Ancestor a name → a ∈ r.sources ∨ a ∈ r.modules

theorem closed_install (hclosed : r.Closed) (h : r.install sources = .ok r') : r'.Closed := by
  have hinstalled := installed_of_ok h
  -- A parent of a name of the bundle is carried, was there or is filled in.
  have hparent : ∀ a, (∃ n ∈ sources, Ancestor a n) → a ∈ r'.sources ∨ a ∈ r'.modules := by
    intro a ha
    rw [hinstalled.modules]
    by_cases hloaded : a ∈ r.modules
    · exact .inr hloaded
    · left
      by_cases hcarried : a ∈ sources
      · obtain ⟨given, hgiven⟩ := Option.isSome_iff_exists.mp (AList.lookup_isSome.mpr hcarried)
        exact mem_of_lookup (hinstalled.given a given hgiven)
      · by_cases hold : a ∈ r.sources
        · obtain ⟨old, hold⟩ := Option.isSome_iff_exists.mp (AList.lookup_isSome.mpr hold)
          exact mem_of_lookup (hinstalled.kept a old hcarried hold)
        · exact mem_of_lookup (hinstalled.filled a hcarried hold ⟨ha, hloaded⟩)
  intro name hname a ha
  by_cases hcarried : name ∈ sources
  · exact hparent a ⟨name, hcarried, ha⟩
  · by_cases hold : name ∈ r.sources
    · rcases hclosed name hold a ha with hregistered | hloaded
      · obtain ⟨old, hold⟩ := Option.isSome_iff_exists.mp (AList.lookup_isSome.mpr hregistered)
        exact .inl (mem_of_lookup (lookup_of_install h hold))
      · exact .inr (hinstalled.modules ▸ hloaded)
    · by_cases hfilled : r.Parent sources name
      · obtain ⟨⟨n, hn, hancestor⟩, -⟩ := hfilled
        exact hparent a ⟨n, hn, ha.trans hancestor⟩
      · exact absurd hname (hinstalled.absent name hcarried hold hfilled)

theorem closed_step (hclosed : r.Closed) (event : RegistryEvent) : (r.step event).Closed := by
  cases event with
  | install sources =>
      rw [step]
      cases h : r.install sources with
      | ok r' => exact closed_install hclosed h
      | error error => exact hclosed
  | load name entry =>
      intro n hn a ha
      exact (hclosed n hn a ha).imp_right fun hloaded => (AList.mem_insert _).mpr (.inr hloaded)

theorem closed_run (hclosed : r.Closed) (events : List RegistryEvent) : (r.run events).Closed := by
  induction events generalizing r with
  | nil => exact hclosed
  | cons event events ih => exact ih (closed_step hclosed event)

theorem lookup_step (hname : r.sources.lookup name = some source) (event : RegistryEvent) :
    (r.step event).sources.lookup name = some source := by
  cases event with
  | install sources =>
      rw [step]
      cases h : r.install sources with
      | ok r' => exact lookup_of_install h hname
      | error error => exact hname
  | load name entry => exact hname

theorem lookup_run (hname : r.sources.lookup name = some source) (events : List RegistryEvent) :
    (r.run events).sources.lookup name = some source := by
  induction events generalizing r with
  | nil => exact hname
  | cons event events ih => exact ih (lookup_step hname event)

/-- In every run a registered name keeps its source, a call that raises registers nothing, and
after a call that succeeds the sources are the given ones and closed under parents. -/
theorem sources_immutable (modules : AList fun _ : String => LoadedModule)
    (before after : List RegistryEvent) (sources : Manifest) :
    (∀ name source, ((new modules).run before).sources.lookup name = some source →
      (((new modules).run before).run after).sources.lookup name = some source) ∧
    (∀ error, ((new modules).run before).install sources = .error error →
      (((new modules).run before).step (.install sources)).sources =
        ((new modules).run before).sources) ∧
    ∀ r', ((new modules).run before).install sources = .ok r' →
      (∀ name source, sources.lookup name = some source →
        r'.sources.lookup name = some source) ∧
      ∀ name ∈ r'.sources, ∀ a, Ancestor a name → a ∈ r'.sources ∨ a ∈ r'.modules := by
  have hnew : (new modules).Closed := fun name hname => absurd hname (AList.notMem_empty name)
  refine ⟨fun name source hname => lookup_run hname after, fun error herror => ?_, fun r' hok => ?_⟩
  · rw [step, herror]
  · exact ⟨(installed_of_ok hok).given, closed_install (closed_run hnew before) hok⟩

/-- A module of a package that no bundle brought so far. -/
def circle : Manifest :=
  AList.singleton "shapes.circle" ⟨"class Circle: pass", "shapes/circle.py", false⟩

theorem circle_registered :
    ∃ r', ((new ∅).run []).install circle = .ok r' ∧
      r'.sources.lookup "shapes.circle" =
        some ⟨"class Circle: pass", "shapes/circle.py", false⟩ ∧
      ("shapes" ∈ r'.sources ∨ "shapes" ∈ r'.modules) := by
  have haccepts : ((new ∅).run []).Accepts circle := accepts_iff.mpr (by decide +kernel)
  obtain ⟨r', hok, -⟩ := install_ok haccepts
  obtain ⟨hgiven, hclosed⟩ := (sources_immutable ∅ [] [] circle).2.2 r' hok
  have hcircle := hgiven "shapes.circle" ⟨"class Circle: pass", "shapes/circle.py", false⟩ rfl
  exact ⟨r', hok, hcircle, hclosed _ (mem_of_lookup hcircle) "shapes"
    ⟨by decide, "circle".toList, by decide +kernel⟩⟩

section Orders

variable {m : AList fun _ : String => LoadedModule} {A B : Manifest}

/-- The interpreter imports some of the modules that are registered. -/
def imports (r : Registry) (loads : List (String × LoadedModule)) : Registry :=
  (loads.filter fun item => item.1 ∈ r.sources).foldl (fun r item => r.load item.1 item.2) r

/-- Two bundles arrive one after the other. -/
def installBoth (m : AList fun _ : String => LoadedModule) (A B : Manifest)
    (loads : List (String × LoadedModule)) : Except InstallError Registry :=
  match (new m).install A with
  | .error error => .error error
  | .ok r => (r.imports loads).install B

/-- The two bundles give the names that both carry the same source. -/
def Agree (A B : Manifest) : Prop :=
  ∀ name source source', A.lookup name = some source → B.lookup name = some source' →
    source = source'

/-- What the bundle carries and the interpreter loaded from elsewhere is the same. -/
def Free (m : AList fun _ : String => LoadedModule) (A : Manifest) : Prop :=
  ∀ name source file, A.lookup name = some source → m.lookup name = some (.module file) →
    file = .text source.source

/-- The order of two bundles does not matter. -/
def OrderFree (m : AList fun _ : String => LoadedModule) (A B : Manifest) : Prop :=
  ∀ loads loads', ∃ r r', installBoth m A B loads = .ok r ∧ installBoth m B A loads' = .ok r' ∧
    ∀ name, name ∈ A ∨ name ∈ B → r.sources.lookup name = r'.sources.lookup name

/-- A package that `B` brings and that `A` only implies is an empty one. -/
def Fills (m : AList fun _ : String => LoadedModule) (A B : Manifest) : Prop :=
  ∀ name source, B.lookup name = some source → name ∉ A → (new m).Parent A name →
    source = namespaceSource name

theorem Agree.symm (h : Agree A B) : Agree B A :=
  fun name source source' hB hA => (h name source' source hA hB).symm

theorem accepts_new (h : Free m A) : (new m).Accepts A := by
  intro name source hname
  unfold conflict
  split
  · rename_i previous hprevious
    cases hprevious
  · split
    · rename_i text hmodule
      have htext := h name source _ hname hmodule
      cases htext
      simp
    · rename_i hmodule
      cases h name source _ hname hmodule
    · rename_i text hmodule
      cases h name source _ hname hmodule
    · rfl

theorem sources_loads (r : Registry) (loads : List (String × LoadedModule)) :
    (loads.foldl (fun r item => r.load item.1 item.2) r).sources = r.sources := by
  induction loads generalizing r with
  | nil => rfl
  | cons item loads ih => exact ih (r.load item.1 item.2)

theorem sources_imports (r : Registry) (loads : List (String × LoadedModule)) :
    (r.imports loads).sources = r.sources := sources_loads r _

/-- Names that are not registered are not imported. -/
theorem modules_imports (r : Registry) (loads : List (String × LoadedModule))
    (h : name ∉ r.sources) : (r.imports loads).modules.lookup name = r.modules.lookup name := by
  have hloads : ∀ (items : List (String × LoadedModule)) (r' : Registry),
      (∀ item ∈ items, item.1 ≠ name) →
      (items.foldl (fun r item => r.load item.1 item.2) r').modules.lookup name =
        r'.modules.lookup name := by
    intro items
    induction items with
    | nil => exact fun _ _ => rfl
    | cons item items ih =>
        intro r' hitems
        rw [List.foldl_cons, ih _ fun i hi => hitems i (List.mem_cons_of_mem item hi)]
        exact AList.lookup_insert_ne (hitems item List.mem_cons_self).symm
  refine hloads _ r fun item hitem hname => h ?_
  rw [← hname]
  simpa using (List.mem_filter.mp hitem).2

/-- The second bundle is accepted unless the first one left an empty package in its way. -/
theorem accepts_second (hagree : Agree A B) (hfree : Free m B) (hr : Installed (new m) A r)
    (loads : List (String × LoadedModule)) : (r.imports loads).Accepts B ↔ Fills m A B := by
  constructor
  · intro h name source hname hA hparent
    have hfilled := hr.filled name hA (AList.notMem_empty name) hparent
    have hconflict := h name source hname
    rw [conflict, sources_imports, hfilled] at hconflict
    by_contra hne
    simp [Ne.symm hne] at hconflict
  · intro h name source hname
    by_cases hA : name ∈ A
    · obtain ⟨given, hgiven⟩ := Option.isSome_iff_exists.mp (AList.lookup_isSome.mpr hA)
      rw [conflict, sources_imports, hr.given name given hgiven, hagree name given source hgiven hname]
      simp
    · by_cases hparent : (new m).Parent A name
      · rw [conflict, sources_imports, hr.filled name hA (AList.notMem_empty name) hparent,
          h name source hname hA hparent]
        simp
      · have habsent := hr.absent name hA (AList.notMem_empty name) hparent
        have hnew := accepts_new hfree name source hname
        rw [conflict, sources_imports, AList.lookup_eq_none.mpr habsent]
        rw [conflict, show (new m).sources.lookup name = none from rfl] at hnew
        rw [modules_imports r loads habsent, hr.modules]
        exact hnew

/-- One order of the two bundles. -/
theorem installBoth_ok_iff (hagree : Agree A B) (hA : Free m A) (hB : Free m B)
    (loads : List (String × LoadedModule)) :
    (∃ r, installBoth m A B loads = .ok r) ↔ Fills m A B := by
  obtain ⟨r, hok, hr⟩ := install_ok (accepts_new hA)
  rw [← accepts_second hagree hB hr loads, installBoth, hok]
  constructor
  · rintro ⟨r', hr'⟩
    exact accepts_of_ok hr'
  · intro h
    obtain ⟨r', hr', -⟩ := install_ok h
    exact ⟨r', hr'⟩

/-- The sources of both bundles are registered. -/
theorem lookup_installBoth {loads : List (String × LoadedModule)}
    (h : installBoth m A B loads = .ok r) :
    (∀ name source, A.lookup name = some source → r.sources.lookup name = some source) ∧
      ∀ name source, B.lookup name = some source → r.sources.lookup name = some source := by
  unfold installBoth at h
  split at h
  · cases h
  · rename_i r' hok
    have hsecond := (installed_of_ok h).given
    refine ⟨fun name source hname => ?_, hsecond⟩
    refine lookup_of_install h ?_
    rw [sources_imports]
    exact (installed_of_ok hok).given name source hname

/-- Two bundles that agree may arrive in either order if and only if neither brings a package
that the other one left empty. -/
theorem order_free_iff (m : AList fun _ : String => LoadedModule) (A B : Manifest)
    (hagree : Agree A B) (hA : Free m A) (hB : Free m B) :
    OrderFree m A B ↔ Fills m A B ∧ Fills m B A := by
  constructor
  · intro h
    obtain ⟨r, r', hr, hr', -⟩ := h [] []
    exact ⟨(installBoth_ok_iff hagree hA hB []).mp ⟨r, hr⟩,
      (installBoth_ok_iff hagree.symm hB hA []).mp ⟨r', hr'⟩⟩
  · rintro ⟨hAB, hBA⟩ loads loads'
    obtain ⟨r, hr⟩ := (installBoth_ok_iff hagree hA hB loads).mpr hAB
    obtain ⟨r', hr'⟩ := (installBoth_ok_iff hagree.symm hB hA loads').mpr hBA
    obtain ⟨hrA, hrB⟩ := lookup_installBoth hr
    obtain ⟨hrB', hrA'⟩ := lookup_installBoth hr'
    refine ⟨r, r', hr, hr', fun name hname => ?_⟩
    rcases hname with hname | hname
    · obtain ⟨source, hsource⟩ := Option.isSome_iff_exists.mp (AList.lookup_isSome.mpr hname)
      rw [hrA name source hsource, hrA' name source hsource]
    · obtain ⟨source, hsource⟩ := Option.isSome_iff_exists.mp (AList.lookup_isSome.mpr hname)
      rw [hrB name source hsource, hrB' name source hsource]

theorem mem_singleton {n : String} {s : ModuleSource} :
    name ∈ (AList.singleton n s : Manifest) ↔ name = n := by
  rw [AList.mem_keys, AList.keys_singleton, List.mem_singleton]

/-- A second module of the package, by itself. -/
def square : Manifest :=
  AList.singleton "shapes.square" ⟨"class Square: pass", "shapes/square.py", false⟩

theorem circle_square_order_free : OrderFree ∅ circle square := by
  have hagree : Agree circle square := by
    intro name source source' hcircle hsquare
    have hname : name = "shapes.circle" := mem_singleton.mp (mem_of_lookup hcircle)
    subst hname
    exact absurd (mem_of_lookup hsquare) (mem_singleton.not.mpr (by decide))
  have hfree : ∀ A : Manifest, Free ∅ A := fun A name source file _ hfile => by cases hfile
  refine (order_free_iff ∅ circle square hagree (hfree _) (hfree _)).mpr ⟨?_, ?_⟩
  · rintro name source hname - ⟨⟨n, hn, -, tail, htail⟩, -⟩
    have hn : n = "shapes.circle" := mem_singleton.mp hn
    have hname : name = "shapes.square" := mem_singleton.mp (mem_of_lookup hname)
    subst hn hname
    exact absurd (congrArg (List.take 9) htail) (by simp)
  · rintro name source hname - ⟨⟨n, hn, -, tail, htail⟩, -⟩
    have hn : n = "shapes.square" := mem_singleton.mp hn
    have hname : name = "shapes.circle" := mem_singleton.mp (mem_of_lookup hname)
    subst hn hname
    exact absurd (congrArg (List.take 9) htail) (by simp)

/-- The package of the module, with the module. -/
def shapesPackage : Manifest :=
  circle.insert "shapes" ⟨"from .circle import Circle", "shapes/__init__.py", true⟩

/-- The empty package that the module left is in the way of the real one. -/
theorem package_after_module_refused :
    Agree circle shapesPackage ∧ Free ∅ circle ∧ Free ∅ shapesPackage ∧
      (∀ r, installBoth ∅ circle shapesPackage [] ≠ .ok r) ∧
      ¬ OrderFree ∅ circle shapesPackage := by
  have hagree : Agree circle shapesPackage := by
    intro name source source' hcircle hpackage
    have hname : name = "shapes.circle" := mem_singleton.mp (mem_of_lookup hcircle)
    subst hname
    rw [shapesPackage, AList.lookup_insert_ne (by decide), hcircle] at hpackage
    exact Option.some.inj hpackage
  have hfree : ∀ A : Manifest, Free ∅ A := fun A name source file _ hfile => by cases hfile
  have hrefused : ∀ r, installBoth ∅ circle shapesPackage [] ≠ .ok r := by
    intro r hr
    have hfills := (installBoth_ok_iff hagree (hfree _) (hfree _) []).mp ⟨r, hr⟩
    have hsame := hfills "shapes" ⟨"from .circle import Circle", "shapes/__init__.py", true⟩ rfl
      (mem_singleton.not.mpr (by decide))
      ⟨⟨"shapes.circle", mem_singleton.mpr rfl, by decide, "circle".toList, by decide +kernel⟩,
        AList.notMem_empty _⟩
    exact absurd (congrArg ModuleSource.source hsame) (by decide)
  refine ⟨hagree, hfree _, hfree _, hrefused, fun h => ?_⟩
  obtain ⟨r, r', hr, -⟩ := h [] []
  exact hrefused r hr

end Orders

end Registry

end Modules

end Rmote
