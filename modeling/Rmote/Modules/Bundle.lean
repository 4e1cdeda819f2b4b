import Rmote.Library.Assoc
import Rmote.Library.Search
import Rmote.Wire.Packet

/-!
# The sources that travel with a tool

`ModuleBundle.expand` collects the sources of a package and of everything that they refer
to. It walks from package to package with one set of the names that it has seen, and the
set takes every module of a package at once. The interpreter has loaded its modules before
the walk, so an import gives the same module, or the same failure, at every time of it.

The walk is a search of the graph of the roots. It ends, and its bundle is closed: the root
of everything that a source in it refers to is in it.
-/

namespace Rmote

namespace Modules

/-- What the walk over the syntax tree of a source looks at. -/
inductive SyntaxNode where
  | name (id : String)
  | importNames (names : List String)
  | importFrom (module : Option String) (aliases : List String)

/-- An object that a module knows under a name. -/
inductive Value where
  /-- A class derived from `Tool`. -/
  | tool (module qualname : String)
  | module (name : String)
  /-- A class or a function, or an object of the class. -/
  | owned (module : String) (qualname : Option String)

/-- A file below the directory of a package. `parts` is its relative path without the suffix. -/
structure Child where
  parts : List String
  /-- A symbolic link leads out of the directory. -/
  escapes : Bool
  source : ModuleSource

/-- The file of a module. -/
inductive ModuleFile where
  /-- It has no Python source file. -/
  | missing
  | plain (source : ModuleSource)
  /-- A package with the files below it in sorted order, except its own one. -/
  | package (source : ModuleSource) (regular : Bool) (children : List Child)

/-- A module. The package that it declares may not be a string. -/
structure PyModule where
  name : String
  toolPackage : Option (Option String)
  toolDependencies : Option (List String)
  vars : List (String × Value)
  file : ModuleFile

/-- What a sender knows: the modules that an import finds, those of them that are loaded, the
sources of its own loaders, and the syntax trees of the sources. -/
structure Interpreter where
  modules : List PyModule
  loaded : String → Bool
  loaders : List (List (String × ModuleSource))
  parse : String → List SyntaxNode

/-- What the walk raises. -/
inductive BundleError where
  | package
  | notFound (name : String)
  | noSource (name : String)
  | irregular
  | escapes (parts : List String)
  | depth
  deriving DecidableEq

def BundleError.message : BundleError → String
  | .package => "__tool_package__ must name the defining module or an ancestor package"
  | .notFound name => s!"No module named '{name}'"
  | .noSource name => s!"Module {name} must have a Python source file"
  | .irregular => "Only regular single-directory packages can be transferred"
  | .escapes parts => "Source file escapes package directory: " ++ "/".intercalate parts ++ ".py"
  | .depth => "maximum recursion depth exceeded"

/-- Sources by the names of their modules, in the order in which they were found. -/
abbrev Sources := List (String × ModuleSource)

/-- The module belongs to the package. -/
def within (root name : String) : Bool :=
  name == root || (root ++ ".").toList.isPrefixOf name.toList

/-- The module declares a package to transfer. -/
def PyModule.declares (m : PyModule) : Bool := m.toolPackage.isSome || m.toolDependencies.isSome

/-- Every directory above the file is a regular package. -/
def regularParents (children : List Child) (parts : List String) : Bool :=
  (List.range parts.length).all fun i =>
    i == 0 || children.any fun child => child.parts == parts.take i ++ ["__init__"]

/-- The name of the module in a file. -/
def childName (root : String) (parts : List String) : String :=
  ".".intercalate (root :: if parts.getLast? = some "__init__" then parts.dropLast else parts)

/-- The files below a package, one after the other. -/
def collectChildren (root : String) (children : List Child) :
    List Child → Sources → Except BundleError Sources
  | [], sources => .ok sources
  | child :: rest, sources =>
      if child.escapes then
        .error (.escapes child.parts)
      else if regularParents children child.parts then
        collectChildren root children rest
          (Assoc.put (childName root child.parts) child.source sources)
      else
        collectChildren root children rest sources

namespace Interpreter

/-- `importlib.import_module` -/
def importModule (I : Interpreter) (name : String) : Except BundleError PyModule :=
  match I.modules.find? fun m => m.name == name with
  | some m => .ok m
  | none => .error (.notFound name)

/-- `sys.modules.get` -/
def loadedModule (I : Interpreter) (name : String) : Option PyModule :=
  if I.loaded name then I.modules.find? fun m => m.name == name else none

/-- The package whose bundle carries the module. -/
def root (I : Interpreter) (m : PyModule) : Except BundleError PyModule :=
  match m.toolPackage.getD (some m.name) with
  | none => .error .package
  | some name => if within name m.name then I.importModule name else .error .package

/-- The sources of the package itself. -/
def collect (I : Interpreter) (root : PyModule) : Except BundleError Sources :=
  match I.loaders.find? fun sources => (sources.lookup root.name).isSome with
  | some sources => .ok (sources.filter fun entry => within root.name entry.1)
  | none =>
      match root.file with
      | .missing => .error (.noSource root.name)
      | .plain source => .ok [(root.name, source)]
      | .package source regular children =>
          if regular then
            collectChildren root.name children children [(root.name, source)]
          else
            .error .irregular

/-- The module that goes with an object. -/
def dependency (I : Interpreter) : Value → Option PyModule
  | .tool module _ => I.loadedModule module
  | .module name => (I.modules.find? fun m => m.name == name).filter PyModule.declares
  | .owned module _ => (I.loadedModule module).filter PyModule.declares

end Interpreter

/-- Where an object is bound on the peer. -/
def Value.binding : Value → Option (String × String)
  | .tool home qualname => some (home, qualname)
  | .module _ => none
  | .owned home qualname => qualname.map fun qualname => (home, qualname)

/-- What the walk over one source gathers. -/
structure Gathered where
  sources : Sources
  bindings : List (String × String × String)
  seen : List String

/-- How a module is expanded, with the names that are seen. -/
abbrev Expand := PyModule → List String → Except BundleError (Sources × List String)

namespace Gathered

/-- `sources.update(cls.build(dependency, seen))` -/
def build (expand : Expand) (g : Gathered) (m : PyModule) : Except BundleError Gathered :=
  (expand m g.seen).map fun result =>
    { g with sources := Assoc.update g.sources result.1, seen := result.2 }

/-- Take in what goes with an object, if anything does. -/
def «include» (expand : Expand) (g : Gathered) (dependency : Option PyModule) :
    Except BundleError Gathered :=
  match dependency with
  | some m => g.build expand m
  | none => .ok g

def bind (g : Gathered) (id : String) (binding : Option (String × String)) : Gathered :=
  match binding with
  | some (module, qualname) => { g with bindings := Assoc.put id (module, qualname) g.bindings }
  | none => g

end Gathered

namespace Interpreter

/-- A module that a source imports; the modules of this program are imported on the way. -/
def imported (I : Interpreter) (name : String) : Except BundleError (Option PyModule) :=
  match I.loadedModule name with
  | some m => .ok (some m)
  | none =>
      if "rmote.".toList.isPrefixOf name.toList then (I.importModule name).map some else .ok none

/-- One node of the syntax tree of a source of the module. -/
def visit (I : Interpreter) (expand : Expand) (module : Option PyModule) (g : Gathered) :
    SyntaxNode → Except BundleError Gathered
  | .name id =>
      match module.bind fun m => m.vars.lookup id with
      | none => .ok g
      | some value =>
          match I.dependency value with
          | none => .ok g
          | some m => (g.build expand m).map fun g => g.bind id value.binding
  | .importNames names =>
      names.foldlM (fun g name => do
        match ← I.imported name with
        | none => pure g
        | some m => g.include expand ((some m).filter PyModule.declares)) g
  | .importFrom none _ => .ok g
  | .importFrom (some name) aliases => do
      match ← I.imported name with
      | none => pure g
      | some m =>
          let g ← g.include expand ((some m).filter PyModule.declares)
          aliases.foldlM (fun g id => g.include expand ((m.vars.lookup id).bind I.dependency)) g

/-- What a source refers to, with the bindings of the names that it uses. -/
def references (I : Interpreter) (expand : Expand) (source : String) (module : Option PyModule)
    (seen : List String) : Except BundleError Gathered := do
  let g ← Gathered.include expand ⟨[], [], seen⟩ (module.filter PyModule.declares)
  (I.parse source).foldlM (I.visit expand module) g

/-- One name of `__tool_dependencies__`, with the sources and the names so far. -/
def expandDependency (I : Interpreter) (expand : Expand) (result : Sources × List String)
    (name : String) : Except BundleError (Sources × List String) :=
  (I.importModule name).bind fun m =>
    (expand m result.2).map fun more => (Assoc.update result.1 more.1, more.2)

/-- One source of the package itself. -/
def expandSource (I : Interpreter) (expand : Expand) (result : Sources × List String)
    (entry : String × ModuleSource) : Except BundleError (Sources × List String) :=
  (I.references expand entry.2.source (I.loadedModule entry.1) result.2).map fun g =>
    (Assoc.update result.1 g.sources, g.seen)

/-- Collect the sources of a root and of everything that it refers to, at most so deep. -/
def expand (I : Interpreter) : ℕ → Expand
  | 0, _, _ => .error .depth
  | depth + 1, m, seen =>
      (I.root m).bind fun root =>
        if root.name ∈ seen then
          .ok ([], seen)
        else
          (I.collect root).bind fun own =>
            ((root.toolDependencies.getD []).foldlM (I.expandDependency (I.expand depth))
              (own, root.name :: (own.map Prod.fst ++ seen))).bind fun result =>
                own.foldlM (I.expandSource (I.expand depth)) result

/-- The whole bundle of a module. -/
def build (I : Interpreter) (m : PyModule) : Except BundleError Sources := do
  let root ← I.root m
  let (sources, _) ← I.expand (I.modules.length + 1) root []
  pure sources

/-! ## The walk is a search -/

/-- What the walk follows. -/
inductive Reference where
  | module (m : PyModule)
  /-- A name in `__tool_dependencies__`. -/
  | imports (name : String)
  /-- A module that a source imports. -/
  | imported (name : String)

/-- What a node of a syntax tree refers to. -/
def nodeReferences (I : Interpreter) (module : Option PyModule) : SyntaxNode → List Reference
  | .name id => ((module.bind fun m => m.vars.lookup id).bind I.dependency).toList.map .module
  | .importNames names => names.map .imported
  | .importFrom none _ => []
  | .importFrom (some name) aliases =>
      .imported name ::
        match I.imported name with
        | .ok (some m) => aliases.flatMap fun id =>
            ((m.vars.lookup id).bind I.dependency).toList.map .module
        | _ => []

/-- What a source refers to, with its own module. -/
def sourceReferences (I : Interpreter) (source : String) (module : Option PyModule) :
    List Reference :=
  (module.filter PyModule.declares).toList.map .module ++
    (I.parse source).flatMap (I.nodeReferences module)

/-- What a root and its sources refer to. -/
def rootReferences (I : Interpreter) (root : PyModule) (own : Sources) : List Reference :=
  (root.toolDependencies.getD []).map .imports ++
    own.flatMap fun entry => I.sourceReferences entry.2.source (I.loadedModule entry.1)

/-- The root of a module that goes into the bundle if it declares a package. -/
def declaredRoot (I : Interpreter) (m : PyModule) : Except BundleError (Option String) :=
  if m.declares then (I.root m).map fun root => some root.name else .ok none

/-- The roots and what they refer to. A root is recorded with the modules of its package. -/
def graph (I : Interpreter) : Search.Graph String Reference BundleError where
  resolve
    | .module m => (I.root m).map fun root => some root.name
    | .imports name => (I.importModule name).bind fun m => (I.root m).map fun root => some root.name
    | .imported name => (I.imported name).bind fun m =>
        match m with
        | some m => I.declaredRoot m
        | none => .ok none
  look name := (I.importModule name).bind fun root =>
    (I.collect root).map fun own => (own.map Prod.fst, I.rootReferences root own)

/-- The sources of a root. -/
def own (I : Interpreter) (name : String) : Sources :=
  match (I.importModule name).bind I.collect with
  | .ok sources => sources
  | .error _ => []

/-- The sources are those of the roots. -/
structure Holds (I : Interpreter) (roots : List String) (sources : Sources) : Prop where
  names : ∀ name, name ∈ sources.map Prod.fst ↔ ∃ r ∈ roots, name ∈ (I.own r).map Prod.fst
  entries : ∀ entry ∈ sources, ∃ r ∈ roots, entry ∈ I.own r

/-- The walk does what the search does, unless the search goes too deep. -/
structure Agrees (I : Interpreter) (roots : List String)
    (x : Except BundleError (Sources × List String)) (y : Search.Result String BundleError) :
    Prop where
  ok : ∀ nodes seen, y = .ok (nodes, seen) →
    ∃ sources, x = .ok (sources, seen) ∧ I.Holds (roots ++ nodes) sources
  error : ∀ e, y = .error (some e) → x = .error e

variable {I : Interpreter} {roots more : List String} {sources sources' : Sources}
  {seen : List String} {m : PyModule}

theorem Holds.update (h : I.Holds roots sources) (h' : I.Holds more sources') :
    I.Holds (roots ++ more) (Assoc.update sources sources') := by
  refine ⟨fun name => ?_, fun entry hentry => ?_⟩
  · rw [Assoc.mem_keys_update, h.names, h'.names]
    simp only [List.mem_append, or_and_right, exists_or]
  · rcases Assoc.mem_of_mem_update hentry with hentry | hentry
    · obtain ⟨r, hr, hmem⟩ := h.entries entry hentry
      exact ⟨r, List.mem_append_left _ hr, hmem⟩
    · obtain ⟨r, hr, hmem⟩ := h'.entries entry hentry
      exact ⟨r, List.mem_append_right _ hr, hmem⟩

theorem holds_nil (I : Interpreter) : I.Holds [] [] := ⟨fun _ => by simp, fun _ h => by cases h⟩

/-- Nothing is left to do. -/
theorem agrees_nothing (h : I.Holds roots sources) (visit : Reference → List String →
    Search.Result String BundleError) (seen : List String) :
    I.Agrees roots (.ok (sources, seen)) (Search.all visit [] seen) := by
  refine ⟨fun nodes seen' hok => ?_, fun e herror => by cases herror⟩
  cases hok
  exact ⟨sources, rfl, by rw [List.append_nil]; exact h⟩

/-- More sources are taken over. -/
theorem Agrees.update {x : Except BundleError (Sources × List String)}
    {y : Search.Result String BundleError} (h : I.Agrees [] x y) (hholds : I.Holds roots sources) :
    I.Agrees roots (x.map fun result => (Assoc.update sources result.1, result.2)) y := by
  refine ⟨fun nodes seen hok => ?_, fun e herror => ?_⟩
  · obtain ⟨more, rfl, hmore⟩ := h.ok nodes seen hok
    exact ⟨_, rfl, hholds.update hmore⟩
  · rw [h.error e herror]
    rfl

/-- One part of the walk after another. -/
theorem Agrees.bind {σ τ : Type} {π : σ → Sources × List String} {ρ : τ → Sources × List String}
    {visit : Reference → List String → Search.Result String BundleError} {as bs : List Reference}
    {x : Except BundleError σ} {f : σ → Except BundleError τ}
    (h : I.Agrees roots (x.map π) (Search.all visit as seen))
    (hnext : ∀ g more, x = .ok g → I.Holds (roots ++ more) (π g).1 →
      I.Agrees (roots ++ more) ((f g).map ρ) (Search.all visit bs (π g).2)) :
    I.Agrees roots ((x.bind f).map ρ) (Search.all visit (as ++ bs) seen) := by
  rw [Search.all_append]
  cases hfirst : Search.all visit as seen with
  | error e =>
      refine ⟨fun nodes seen' hok => (by cases hok), fun e' herror => ?_⟩
      have hx := h.error e' (hfirst.trans herror)
      cases x with
      | error e => exact hx
      | ok g => cases hx
  | ok first =>
      obtain ⟨nodes, seen₁⟩ := first
      obtain ⟨sources, hx, hholds⟩ := h.ok nodes seen₁ hfirst
      cases x with
      | error e => cases hx
      | ok g =>
          have hg : π g = (sources, seen₁) := Except.ok.inj hx
          have hagrees := hnext g nodes rfl (by rw [hg]; exact hholds)
          rw [hg] at hagrees
          have hbind : (Except.ok g : Except BundleError σ).bind f = f g := rfl
          rw [hbind]
          cases hsecond : Search.all visit bs seen₁ with
          | error e =>
              refine ⟨fun nodes' seen' hok => (by simp [hsecond] at hok), fun e' herror => ?_⟩
              simp only [hsecond] at herror
              exact hagrees.error e' (hsecond.trans herror)
          | ok second =>
              obtain ⟨rest, seen₂⟩ := second
              refine ⟨fun nodes' seen' hok => ?_, fun e' herror => (by simp [hsecond] at herror)⟩
              simp only [hsecond] at hok
              cases hok
              obtain ⟨sources', hf, hholds'⟩ := hagrees.ok rest seen₂ hsecond
              exact ⟨sources', hf, by rw [← List.append_assoc]; exact hholds'⟩

/-- A loop of the walk, over what each of its items refers to. -/
theorem agrees_foldlM {σ ι : Type} {π : σ → Sources × List String}
    {visit : Reference → List String → Search.Result String BundleError}
    {f : σ → ι → Except BundleError σ} {refers : ι → List Reference} {items : List ι}
    (hstep : ∀ i ∈ items, ∀ roots g, I.Holds roots (π g).1 →
      I.Agrees roots ((f g i).map π) (Search.all visit (refers i) (π g).2))
    {g : σ} (hholds : I.Holds roots (π g).1) :
    I.Agrees roots ((items.foldlM f g).map π)
      (Search.all visit (items.flatMap refers) (π g).2) := by
  induction items generalizing g roots with
  | nil => exact agrees_nothing hholds visit _
  | cons i items ih =>
      rw [List.foldlM_cons, List.flatMap_cons]
      refine Agrees.bind (hstep i List.mem_cons_self roots g hholds) fun g' more _ hholds' => ?_
      exact ih (fun j hj => hstep j (List.mem_cons_of_mem i hj)) hholds'

/-- The walk of one module does what the search does for a reference to it. -/
structure Follows (I : Interpreter) (expand : Expand)
    (visit : Reference → List String → Search.Result String BundleError) : Prop where
  module : ∀ m seen, I.Agrees [] (expand m seen) (visit (.module m) seen)
  imports : ∀ name seen, I.Agrees [] ((I.importModule name).bind fun m => expand m seen)
    (visit (.imports name) seen)
  missing : ∀ name seen e, I.imported name = .error e →
    I.Agrees [] (.error e) (visit (.imported name) seen)
  absent : ∀ name seen, I.imported name = .ok none →
    I.Agrees [] (.ok ([], seen)) (visit (.imported name) seen)
  imported : ∀ name seen m, I.imported name = .ok (some m) →
    I.Agrees [] (if m.declares then expand m seen else .ok ([], seen))
      (visit (.imported name) seen)

/-- What the walk over one source changes. -/
def progress (g : Gathered) : Sources × List String := (g.sources, g.seen)

section Source

variable {expand : Expand} {visit : Reference → List String → Search.Result String BundleError}
  {g : Gathered}

theorem agrees_build (h : I.Follows expand visit) (hholds : I.Holds roots g.sources)
    (m : PyModule) :
    I.Agrees roots ((g.build expand m).map progress) (visit (.module m) g.seen) := by
  have hupdate := (h.module m g.seen).update hholds
  unfold Gathered.build
  cases hresult : expand m g.seen <;> rw [hresult] at hupdate <;> exact hupdate

theorem agrees_include (h : I.Follows expand visit) (hholds : I.Holds roots g.sources)
    (dependency : Option PyModule) :
    I.Agrees roots ((g.include expand dependency).map progress)
      (Search.all visit (dependency.toList.map .module) g.seen) := by
  cases dependency with
  | none => exact agrees_nothing hholds visit g.seen
  | some m =>
      rw [Option.toList_some, List.map_singleton, Search.all_singleton]
      exact agrees_build h hholds m

/-- An import that fails, and one of a module that is not loaded. -/
theorem agrees_imported_error (h : I.Follows expand visit) {name : String} {e : BundleError}
    (himported : I.imported name = .error e) (seen : List String) :
    I.Agrees roots (.error e) (visit (.imported name) seen) := by
  have hagrees := h.missing name seen e himported
  refine ⟨fun nodes seen' hok => ?_, hagrees.error⟩
  obtain ⟨sources, hx, -⟩ := hagrees.ok nodes seen' hok
  cases hx

theorem agrees_imported_none (h : I.Follows expand visit) (hholds : I.Holds roots g.sources)
    {name : String} (himported : I.imported name = .ok none) :
    I.Agrees roots (.ok (progress g)) (visit (.imported name) g.seen) :=
  (h.absent name g.seen himported).update hholds

theorem agrees_imported (h : I.Follows expand visit) (hholds : I.Holds roots g.sources)
    {name : String} (himported : I.imported name = .ok (some m)) :
    I.Agrees roots ((g.include expand ((some m).filter PyModule.declares)).map progress)
      (visit (.imported name) g.seen) := by
  have hupdate := (h.imported name g.seen m himported).update hholds
  cases hdeclares : m.declares with
  | false =>
      rw [hdeclares] at hupdate
      rw [Option.filter_some, if_neg (by simp [hdeclares])]
      exact hupdate
  | true =>
      rw [hdeclares, if_pos rfl] at hupdate
      rw [Option.filter_some, if_pos hdeclares, Gathered.include, Gathered.build]
      cases hresult : expand m g.seen <;> rw [hresult] at hupdate <;> exact hupdate

/-- One node of a syntax tree. -/
theorem agrees_visit (h : I.Follows expand visit) (hholds : I.Holds roots g.sources)
    (module : Option PyModule) (node : SyntaxNode) :
    I.Agrees roots ((I.visit expand module g node).map progress)
      (Search.all visit (I.nodeReferences module node) g.seen) := by
  cases node with
  | name id =>
      cases hvalue : module.bind fun m => m.vars.lookup id with
      | none =>
          simp only [Interpreter.visit, nodeReferences, hvalue]
          exact agrees_nothing hholds visit g.seen
      | some value =>
          cases hdependency : I.dependency value with
          | none =>
              simp only [Interpreter.visit, nodeReferences, hvalue, hdependency, Option.bind_some]
              exact agrees_nothing hholds visit g.seen
          | some m =>
              simp only [Interpreter.visit, nodeReferences, hvalue, hdependency, Option.bind_some,
                Option.toList_some, List.map_singleton, Search.all_singleton]
              have hbuild := agrees_build h hholds m
              cases hg : g.build expand m with
              | error e =>
                  rw [hg] at hbuild
                  exact hbuild
              | ok g' =>
                  rw [hg] at hbuild
                  have hsame : progress (g'.bind id value.binding) = progress g' := by
                    unfold Gathered.bind
                    split <;> rfl
                  simp only [Except.map, hsame]
                  exact hbuild
  | importNames names =>
      rw [nodeReferences, List.map_eq_flatMap]
      refine agrees_foldlM (fun name _ roots g hholds => ?_) hholds
      rw [Search.all_singleton]
      cases himported : I.imported name with
      | error e => exact agrees_imported_error h himported g.seen
      | ok found =>
          cases found with
          | none => exact agrees_imported_none h hholds himported
          | some m => exact agrees_imported h hholds himported
  | importFrom name aliases =>
      cases name with
      | none => exact agrees_nothing hholds visit g.seen
      | some name =>
          rw [Interpreter.visit, nodeReferences]
          cases himported : I.imported name with
          | error e =>
              rw [Search.all_singleton]
              exact agrees_imported_error h himported g.seen
          | ok found =>
              cases found with
              | none =>
                  rw [Search.all_singleton]
                  exact agrees_imported_none h hholds himported
              | some m =>
                  rw [← List.singleton_append]
                  refine Agrees.bind (π := progress) ?_ fun g' more _ hholds' => ?_
                  · rw [Search.all_singleton]
                    exact agrees_imported h hholds himported
                  · exact agrees_foldlM (fun id _ roots g hholds =>
                      agrees_include h hholds ((m.vars.lookup id).bind I.dependency)) hholds'

/-- One source, with its own module. -/
theorem agrees_references (h : I.Follows expand visit) (source : String)
    (module : Option PyModule) (seen : List String) :
    I.Agrees [] ((I.references expand source module seen).map progress)
      (Search.all visit (I.sourceReferences source module) seen) :=
  Agrees.bind (π := progress) (agrees_include (g := ⟨[], [], seen⟩) h I.holds_nil _)
    fun _ _ _ hholds => agrees_foldlM (fun node _ _ _ hholds => agrees_visit h hholds module node)
      hholds

end Source

theorem importModule_name {name : String} (h : I.importModule name = .ok m) : m.name = name := by
  unfold importModule at h
  split at h
  · rename_i hfind
    cases h
    have hname := List.find?_some hfind
    exact beq_iff_eq.mp hname
  · cases h

theorem root_name {r : PyModule} (h : I.root m = .ok r) : I.importModule r.name = .ok r := by
  unfold root at h
  split at h
  · cases h
  · split_ifs at h
    rw [importModule_name h]
    exact h

theorem agrees_id {x : Except BundleError (Sources × List String)}
    {y : Search.Result String BundleError} (h : I.Agrees roots (x.map fun result => result) y) :
    I.Agrees roots x y := by
  cases x <;> exact h

/-- The root counts as the first new node. -/
theorem Agrees.node {name : String} {x : Except BundleError (Sources × List String)}
    {y : Search.Result String BundleError} (h : I.Agrees [name] x y) :
    I.Agrees [] x (y.map fun result => (name :: result.1, result.2)) := by
  refine ⟨fun nodes seen hok => ?_, fun e herror => ?_⟩
  · cases y with
    | error e => cases hok
    | ok result =>
        cases hok
        exact h.ok result.1 result.2 rfl
  · cases y with
    | error e' =>
        cases herror
        exact h.error e rfl
    | ok result => cases herror

/-- The loops over the dependencies and over the sources of a package. -/
theorem agrees_loops {expand : Expand}
    {visit : Reference → List String → Search.Result String BundleError}
    (h : I.Follows expand visit) (root : PyModule) {own : Sources}
    (hholds : I.Holds [root.name] own) (seen : List String) :
    I.Agrees [root.name]
      (((root.toolDependencies.getD []).foldlM (I.expandDependency expand) (own, seen)).bind
        fun result => own.foldlM (I.expandSource expand) result)
      (Search.all visit (I.rootReferences root own) seen) := by
  refine agrees_id (Agrees.bind (π := fun result => result) ?_ fun result more _ hholds => ?_)
  · rw [List.map_eq_flatMap]
    have hdependency : ∀ name ∈ root.toolDependencies.getD [], ∀ roots
        (result : Sources × List String), I.Holds roots result.1 → I.Agrees roots
          ((I.expandDependency expand result name).map fun result => result)
          (Search.all visit [.imports name] result.2) := by
      intro name _ roots result hholds
      have hupdate := (h.imports name result.2).update hholds
      rw [Search.all_singleton, expandDependency]
      cases himport : I.importModule name with
      | error e =>
          rw [himport] at hupdate
          exact hupdate
      | ok m =>
          rw [himport] at hupdate
          simp only [Except.bind] at hupdate ⊢
          cases hexpand : expand m result.2 <;> rw [hexpand] at hupdate <;> exact hupdate
    exact agrees_foldlM hdependency (g := (own, seen)) hholds
  · refine agrees_foldlM (π := fun result => result) (fun entry _ roots result hholds => ?_) hholds
    have hupdate := (agrees_references h entry.2.source (I.loadedModule entry.1) result.2).update
      hholds
    rw [expandSource]
    cases hg : I.references expand entry.2.source (I.loadedModule entry.1) result.2 <;>
      rw [hg] at hupdate <;> exact hupdate

/-- The walk of a module does what the search does. -/
theorem agrees_expand (I : Interpreter) (depth : ℕ)
    (hfollows : I.Follows (I.expand depth) (I.graph.explore depth)) (m : PyModule)
    (seen : List String) :
    I.Agrees [] (I.expand (depth + 1) m seen) (I.graph.explore (depth + 1) (.module m) seen) := by
  rw [expand, Search.Graph.explore]
  cases hroot : I.root m with
  | error e =>
      have hresolve : I.graph.resolve (.module m) = .error e := by
        simp only [graph, hroot]
        rfl
      rw [hresolve]
      exact ⟨fun nodes seen' hok => (by cases hok), fun e' herror => (by cases herror; rfl)⟩
  | ok root =>
      have hresolve : I.graph.resolve (.module m) = .ok (some root.name) := by
        simp only [graph, hroot]
        rfl
      have hlook : I.graph.look root.name = (I.collect root).map fun own =>
          (own.map Prod.fst, I.rootReferences root own) := by
        simp only [graph, root_name hroot]
        rfl
      rw [hresolve]
      simp only [Except.bind, hlook]
      split_ifs with hseen
      · exact agrees_nothing I.holds_nil (I.graph.explore depth) seen
      · cases hcollect : I.collect root with
        | error e =>
            exact ⟨fun nodes seen' hok => (by cases hok), fun e' herror => (by cases herror; rfl)⟩
        | ok own =>
            have hown : I.own root.name = own := by
              unfold Interpreter.own
              rw [root_name hroot]
              simp only [Except.bind, hcollect]
            have hholds : I.Holds [root.name] own :=
              ⟨fun name => by simp [hown], fun entry hentry =>
                ⟨root.name, List.mem_singleton.mpr rfl, by rw [hown]; exact hentry⟩⟩
            have hloops := (agrees_loops hfollows root hholds
              (root.name :: (own.map Prod.fst ++ seen))).node
            simp only [Except.map]
            cases hall : Search.all (I.graph.explore depth) (I.rootReferences root own)
                (root.name :: (own.map Prod.fst ++ seen)) <;> rw [hall] at hloops <;> exact hloops

theorem agrees_none {x : Except BundleError (Sources × List String)} :
    I.Agrees roots x (.error none) :=
  ⟨fun _ _ hok => (by cases hok), fun _ herror => (by cases herror)⟩

/-- A reference that fails, and one that leads to nothing. -/
theorem agrees_resolve_error {b : Reference} {e : BundleError} (h : I.graph.resolve b = .error e)
    (depth : ℕ) (seen : List String) :
    I.Agrees roots (.error e) (I.graph.explore (depth + 1) b seen) := by
  rw [Search.Graph.explore, h]
  exact ⟨fun _ _ hok => (by cases hok), fun _ herror => (by cases herror; rfl)⟩

theorem agrees_resolve_none {b : Reference} (h : I.graph.resolve b = .ok none) (depth : ℕ)
    (seen : List String) : I.Agrees [] (.ok ([], seen)) (I.graph.explore (depth + 1) b seen) := by
  rw [Search.Graph.explore, h]
  exact agrees_nothing I.holds_nil (I.graph.explore depth) seen

/-- The walk is the search, to every depth. -/
theorem follows_expand (I : Interpreter) (depth : ℕ) :
    I.Follows (I.expand depth) (I.graph.explore depth) := by
  induction depth with
  | zero =>
      exact ⟨fun _ _ => agrees_none, fun _ _ => agrees_none, fun _ _ _ _ => agrees_none,
        fun _ _ _ => agrees_none, fun _ _ _ _ => agrees_none⟩
  | succ depth ih =>
      have hmodule := agrees_expand I depth ih
      refine ⟨hmodule, fun name seen => ?_, fun name seen e himported => ?_,
        fun name seen himported => ?_, fun name seen m himported => ?_⟩
      · cases himport : I.importModule name with
        | error e =>
            exact agrees_resolve_error (by simp only [graph, himport]; rfl) depth seen
        | ok m =>
            have hsame : I.graph.resolve (.imports name) = I.graph.resolve (.module m) := by
              simp only [graph, himport]
              rfl
            rw [Search.Graph.explore_congr hsame]
            exact hmodule m seen
      · exact agrees_resolve_error (by simp only [graph, himported]; rfl) depth seen
      · exact agrees_resolve_none (by simp only [graph, himported]; rfl) depth seen
      · cases hdeclares : m.declares with
        | false =>
            have hnone : I.graph.resolve (.imported name) = .ok none := by
              simp only [graph, himported, Except.bind, declaredRoot, hdeclares]
              rfl
            exact agrees_resolve_none hnone depth seen
        | true =>
            have hsame : I.graph.resolve (.imported name) = I.graph.resolve (.module m) := by
              simp only [graph, himported, Except.bind, declaredRoot, hdeclares, if_true]
            rw [Search.Graph.explore_congr hsame]
            exact hmodule m seen

/-! ## The bundle -/

/-- A package carries its own name. -/
theorem mem_collectChildren {root name : String} {children rest : List Child}
    (h : collectChildren root children rest sources = .ok sources')
    (hname : name ∈ sources.map Prod.fst) : name ∈ sources'.map Prod.fst := by
  induction rest generalizing sources with
  | nil =>
      cases h
      exact hname
  | cons child rest ih =>
      rw [collectChildren] at h
      split_ifs at h
      · exact ih h (Assoc.mem_keys_put.mpr (.inr hname))
      · exact ih h hname

theorem mem_collect (h : I.collect m = .ok sources) : m.name ∈ sources.map Prod.fst := by
  unfold collect at h
  split at h
  · rename_i loaded hfind
    cases h
    have hsome := List.find?_some hfind
    obtain ⟨source, hlookup⟩ := Option.isSome_iff_exists.mp hsome
    refine List.mem_map.mpr ⟨(m.name, source), List.mem_filter.mpr
      ⟨Assoc.mem_of_lookup hlookup, ?_⟩, rfl⟩
    simp [within]
  · split at h
    · cases h
    · cases h
      exact List.mem_singleton.mpr rfl
    · split_ifs at h
      exact mem_collectChildren h (List.mem_singleton.mpr rfl)

theorem own_of_look {r : String} {group : List String} {parts : List Reference}
    (h : I.graph.look r = .ok (group, parts)) :
    ∃ root own, I.importModule r = .ok root ∧ I.collect root = .ok own ∧ I.own r = own ∧
      group = own.map Prod.fst ∧ parts = I.rootReferences root own ∧
      r ∈ (I.own r).map Prod.fst := by
  simp only [graph] at h
  cases himport : I.importModule r with
  | error e =>
      rw [himport] at h
      cases h
  | ok root =>
      rw [himport] at h
      simp only [Except.bind] at h
      cases hcollect : I.collect root with
      | error e =>
          rw [hcollect] at h
          cases h
      | ok own =>
          rw [hcollect] at h
          cases h
          have hown : I.own r = own := by
            unfold Interpreter.own
            rw [himport]
            simp only [Except.bind, hcollect]
          refine ⟨root, own, rfl, hcollect, hown, rfl, rfl, ?_⟩
          rw [hown, ← importModule_name himport]
          exact mem_collect hcollect

/-- Every root is a module that an import finds. -/
theorem resolve_mem {b : Reference} {r : String} (h : I.graph.resolve b = .ok (some r)) :
    r ∈ (I.modules.map PyModule.name).toFinset := by
  have hroot : ∀ {m : PyModule}, (I.root m).map (fun root => some root.name) = .ok (some r) →
      r ∈ (I.modules.map PyModule.name).toFinset := by
    intro m hmap
    cases hm : I.root m with
    | error e =>
        rw [hm] at hmap
        cases hmap
    | ok root =>
        rw [hm] at hmap
        cases hmap
        have himport := root_name hm
        unfold importModule at himport
        split at himport
        · rename_i hfind
          cases himport
          exact List.mem_toFinset.mpr (List.mem_map.mpr ⟨_, List.mem_of_find?_eq_some hfind, rfl⟩)
        · cases himport
  cases b with
  | module m => exact hroot h
  | imports name =>
      simp only [graph] at h
      cases himport : I.importModule name with
      | error e =>
          rw [himport] at h
          cases h
      | ok m =>
          rw [himport] at h
          exact hroot h
  | imported name =>
      simp only [graph] at h
      cases himported : I.imported name with
      | error e =>
          rw [himported] at h
          cases h
      | ok found =>
          rw [himported] at h
          cases found with
          | none => cases h
          | some m =>
              simp only [Except.bind, declaredRoot] at h
              split_ifs at h
              · exact hroot h
              · cases h

/-- The walk raises what Python raises, and not that it is too deep. -/
theorem importModule_ne_depth (name : String) : I.importModule name ≠ .error .depth := by
  intro h
  unfold importModule at h
  split at h <;> cases h

theorem root_ne_depth (m : PyModule) : I.root m ≠ .error .depth := by
  intro h
  unfold root at h
  split at h
  · cases h
  · split_ifs at h
    · exact importModule_ne_depth _ h
    · cases h

theorem collectChildren_ne_depth {root : String} {children rest : List Child} :
    collectChildren root children rest sources ≠ .error .depth := by
  induction rest generalizing sources with
  | nil =>
      intro h
      cases h
  | cons child rest ih =>
      intro h
      rw [collectChildren] at h
      split_ifs at h
      · cases h
      · exact ih h
      · exact ih h

theorem collect_ne_depth (m : PyModule) : I.collect m ≠ .error .depth := by
  intro h
  unfold collect at h
  split at h
  · cases h
  · split at h
    · cases h
    · cases h
    · split_ifs at h
      · exact collectChildren_ne_depth h
      · cases h

theorem resolve_ne_depth (b : Reference) : I.graph.resolve b ≠ .error .depth := by
  have hroot : ∀ m : PyModule, (I.root m).map (fun root => some root.name) ≠ .error .depth := by
    intro m h
    cases hm : I.root m with
    | error e =>
        rw [hm] at h
        cases h
        exact root_ne_depth m hm
    | ok root =>
        rw [hm] at h
        cases h
  intro h
  cases b with
  | module m => exact hroot m h
  | imports name =>
      simp only [graph] at h
      cases himport : I.importModule name with
      | error e =>
          rw [himport] at h
          cases h
          exact importModule_ne_depth name himport
      | ok m =>
          rw [himport] at h
          exact hroot m h
  | imported name =>
      simp only [graph] at h
      cases himported : I.imported name with
      | error e =>
          rw [himported] at h
          cases h
          unfold Interpreter.imported at himported
          split at himported
          · cases himported
          · split_ifs at himported
            cases himport : I.importModule name with
            | error e =>
                rw [himport] at himported
                cases himported
                exact importModule_ne_depth name himport
            | ok m =>
                rw [himport] at himported
                cases himported
      | ok found =>
          rw [himported] at h
          cases found with
          | none => cases h
          | some m =>
              simp only [Except.bind, declaredRoot] at h
              split_ifs at h
              · exact hroot m h

theorem look_ne_depth (r : String) : I.graph.look r ≠ .error .depth := by
  intro h
  simp only [graph] at h
  cases himport : I.importModule r with
  | error e =>
      rw [himport] at h
      cases h
      exact importModule_ne_depth r himport
  | ok root =>
      rw [himport] at h
      simp only [Except.bind] at h
      cases hcollect : I.collect root with
      | error e =>
          rw [hcollect] at h
          cases h
          exact collect_ne_depth root hcollect
      | ok own =>
          rw [hcollect] at h
          cases h

theorem not_fails_depth (b : Reference) : ¬ I.graph.Fails b .depth := by
  rintro (h | ⟨r, -, h | ⟨-, -, b', -, -, h⟩⟩)
  · exact resolve_ne_depth b h
  · exact look_ne_depth r h
  · exact resolve_ne_depth b' h

/-- The bundle is the sources of packages that the module leads to, each package once, and it
is closed: the package of everything that they refer to is in it. -/
structure Complete (I : Interpreter) (m : PyModule) (sources : Sources) (roots : List String) :
    Prop where
  once : roots.Nodup
  names : ∀ name, name ∈ sources.map Prod.fst ↔ ∃ r ∈ roots, name ∈ (I.own r).map Prod.fst
  entries : ∀ entry ∈ sources, ∃ r ∈ roots, entry ∈ I.own r
  reached : ∀ r ∈ roots, I.graph.Leads (.module m) r
  started : ∃ r, I.root m = .ok r ∧ r.name ∈ sources.map Prod.fst
  closed : ∀ r ∈ roots, ∃ root own, I.importModule r = .ok root ∧ I.collect root = .ok own ∧
    I.graph.Covers (sources.map Prod.fst) (I.rootReferences root own)

/-- The record of a search from nothing is the names in the bundle. -/
theorem mem_seen_iff {b : Reference} {nodes seen : List String}
    (h : I.graph.Found [b] [] nodes seen) (hholds : I.Holds nodes sources) (name : String) :
    name ∈ seen ↔ name ∈ sources.map Prod.fst := by
  rw [h.record, hholds.names, or_iff_right List.not_mem_nil]
  refine exists_congr fun r => and_congr_right fun hr => ?_
  obtain ⟨group, parts, hlook, -⟩ := h.closed r hr
  obtain ⟨root, own, -, -, hown, hgroup, -, hself⟩ := own_of_look hlook
  constructor
  · rintro (rfl | ⟨group', parts', hlook', hmem⟩)
    · exact hself
    · rw [hlook] at hlook'
      cases hlook'
      rw [hown, ← hgroup]
      exact hmem
  · intro hmem
    rw [hown, ← hgroup] at hmem
    exact .inr ⟨group, parts, hlook, hmem⟩

theorem complete_of_found {nodes seen : List String}
    (h : I.graph.Found [.module m] [] nodes seen) (hholds : I.Holds nodes sources) :
    I.Complete m sources nodes := by
  have hmem := mem_seen_iff h hholds
  have hcovers : ∀ {bs : List Reference}, I.graph.Covers seen bs →
      I.graph.Covers (sources.map Prod.fst) bs := fun hbs => hbs.mono fun name => (hmem name).mp
  refine ⟨h.once, hholds.names, hholds.entries, fun r hr => ?_, ?_, fun r hr => ?_⟩
  · obtain ⟨b, hb, hleads⟩ := h.leads r hr
    rw [List.mem_singleton.mp hb] at hleads
    exact hleads
  · obtain ⟨target, htarget, hstarted⟩ := hcovers h.started (.module m) List.mem_cons_self
    simp only [graph] at htarget
    cases hroot : I.root m with
    | error e =>
        rw [hroot] at htarget
        cases htarget
    | ok root =>
        rw [hroot] at htarget
        cases htarget
        exact ⟨root, rfl, hstarted root.name rfl⟩
  · obtain ⟨group, parts, hlook, hclosed⟩ := h.closed r hr
    obtain ⟨root, own, himport, hcollect, -, -, hparts, -⟩ := own_of_look hlook
    exact ⟨root, own, himport, hcollect, hparts ▸ hcovers hclosed⟩

/-- What the search says about the whole bundle of a root. -/
theorem build_of_root {r : PyModule} (hroot : I.root m = .ok r) :
    (∃ sources nodes seen, I.build m = .ok sources ∧ I.graph.Found [.module r] [] nodes seen ∧
        I.Holds nodes sources) ∨
      ∃ e, I.build m = .error e ∧ I.graph.Fails (.module r) e := by
  have hagrees := (I.follows_expand (I.modules.length + 1)).module r []
  have hdepth : Recorded.unrecorded (I.modules.map PyModule.name).toFinset [] <
      I.modules.length + 1 := by
    have hcard := List.toFinset_card_le (I.modules.map PyModule.name)
    rw [List.length_map] at hcard
    exact Nat.lt_succ_of_le ((Recorded.unrecorded_le _ _).trans hcard)
  have hends := Search.Graph.explore_ne_none (G := I.graph) (fun _ _ => resolve_mem)
    (I.modules.length + 1) (.module r) [] hdepth
  have hbuild : I.build m = (I.expand (I.modules.length + 1) r []).map Prod.fst := by
    unfold build
    rw [hroot]
    cases hexpand : I.expand (I.modules.length + 1) r [] with
    | error e => simp only [bind, Except.bind, hexpand]; rfl
    | ok result => simp only [bind, Except.bind, hexpand]; rfl
  rw [hbuild]
  cases hsearch : I.graph.explore (I.modules.length + 1) (.module r) [] with
  | error stop =>
      cases stop with
      | none => exact absurd hsearch hends
      | some e =>
          rw [hagrees.error e hsearch]
          exact .inr ⟨e, rfl, Search.Graph.fails_explore _ _ _ _ hsearch⟩
  | ok result =>
      obtain ⟨nodes, seen⟩ := result
      obtain ⟨sources, hexpand, hholds⟩ := hagrees.ok nodes seen hsearch
      rw [hexpand]
      exact .inl ⟨sources, nodes, seen, rfl, Search.Graph.found_explore _ _ _ _ _ _ hsearch,
        hholds⟩

/-- The walk ends for every module, however the packages refer to one another. It gives a
closed bundle of the package of the module, or it raises what the package of the module or
one that it leads to raises. -/
theorem build_complete (I : Interpreter) (m : PyModule) :
    (∃ r sources roots, I.root m = .ok r ∧ I.build m = .ok sources ∧
        I.Complete r sources roots) ∨
      ∃ e, e ≠ .depth ∧ I.build m = .error e ∧
        (I.root m = .error e ∨ ∃ r, I.root m = .ok r ∧ I.graph.Fails (.module r) e) := by
  cases hroot : I.root m with
  | error e =>
      refine .inr ⟨e, fun heq => root_ne_depth m (heq ▸ hroot), ?_, .inl rfl⟩
      unfold build
      rw [hroot]
      rfl
  | ok r =>
      rcases build_of_root hroot with ⟨sources, nodes, seen, hbuild, hfound, hholds⟩ |
        ⟨e, hbuild, hfails⟩
      · exact .inl ⟨r, sources, nodes, rfl, hbuild, complete_of_found hfound hholds⟩
      · exact .inr ⟨e, fun heq => not_fails_depth _ (heq ▸ hfails), hbuild,
          .inr ⟨r, rfl, hfails⟩⟩

/-- Where no package that the module leads to lies inside of another one, the bundle has
exactly the modules of the packages that the module leads to. -/
theorem build_exact (I : Interpreter) (m : PyModule) {r : PyModule} {sources : Sources}
    (hroot : I.root m = .ok r) (hbuild : I.build m = .ok sources)
    (hapart : ∀ p p', I.graph.Leads (.module r) p → I.graph.Leads (.module r) p' →
      p' ∈ (I.own p).map Prod.fst → p' = p) (name : String) :
    name ∈ sources.map Prod.fst ↔
      ∃ p, I.graph.Leads (.module r) p ∧ name ∈ (I.own p).map Prod.fst := by
  rcases build_of_root hroot with ⟨sources', nodes, seen, hbuild', hfound, hholds⟩ |
    ⟨e, hbuild', -⟩
  · rw [hbuild] at hbuild'
    cases hbuild'
    have hleads : ∀ {p : String}, (∃ b ∈ [Reference.module r], I.graph.Leads b p) →
        I.graph.Leads (.module r) p := by
      rintro p ⟨b, hb, hp⟩
      rw [List.mem_singleton.mp hb] at hp
      exact hp
    have hiff := hfound.mem_iff fun p p' group parts hp hp' hlook hmem => by
      obtain ⟨root, own, -, -, hown, hgroup, -, -⟩ := own_of_look hlook
      refine hapart p p' (hleads hp) (hleads hp') ?_
      rw [hown, ← hgroup]
      exact hmem
    rw [hholds.names]
    refine exists_congr fun p => and_congr_left fun _ => (hiff p).trans ⟨hleads, fun hp => ?_⟩
    exact ⟨.module r, List.mem_singleton.mpr rfl, hp⟩
  · rw [hbuild] at hbuild'
    cases hbuild'

/-- Modules that are no packages are apart. -/
theorem apart_of_plain (hloaders : I.loaders = [])
    (hplain : ∀ m ∈ I.modules, ∀ source regular children,
      m.file ≠ .package source regular children) {p p' : String}
    (h : p' ∈ (I.own p).map Prod.fst) : p' = p := by
  unfold own at h
  cases himport : I.importModule p with
  | error e =>
      rw [himport] at h
      cases h
  | ok root =>
      have hname := importModule_name himport
      have hroot : root ∈ I.modules := by
        unfold importModule at himport
        split at himport
        · rename_i hfind
          cases himport
          exact List.mem_of_find?_eq_some hfind
        · cases himport
      rw [himport] at h
      simp only [Except.bind, collect, hloaders, List.find?_nil] at h
      cases hfile : root.file with
      | missing =>
          rw [hfile] at h
          cases h
      | plain source =>
          rw [hfile] at h
          exact (List.mem_singleton.mp h).trans hname
      | package source regular children => exact absurd hfile (hplain root hroot _ _ _)

/-- A module that declares another one. -/
def circleModule : PyModule where
  name := "circle"
  toolPackage := none
  toolDependencies := some ["square"]
  vars := []
  file := .plain ⟨"", "circle.py", false⟩

/-- The other one imports the first. -/
def squareModule : PyModule where
  name := "square"
  toolPackage := some (some "square")
  toolDependencies := none
  vars := []
  file := .plain ⟨"import circle", "square.py", false⟩

def shapes : Interpreter where
  modules := [circleModule, squareModule]
  loaded _ := true
  loaders := []
  parse text := if text = "import circle" then [.importNames ["circle"]] else []

theorem shapes_exact :
    ∃ sources, shapes.build circleModule = .ok sources ∧ sources.length = 2 ∧
      ("square" ∈ sources.map Prod.fst ↔ ∃ p, shapes.graph.Leads (.module circleModule) p ∧
        "square" ∈ (shapes.own p).map Prod.fst) := by
  have hplain : ∀ m ∈ shapes.modules, ∀ source regular children,
      m.file ≠ .package source regular children := by
    intro m hm source regular children
    rcases List.mem_pair.mp hm with rfl | rfl <;> exact ModuleFile.noConfusion
  have hbuild : shapes.build circleModule = .ok _ := rfl
  exact ⟨_, hbuild, rfl, build_exact shapes circleModule rfl hbuild
    (fun _ _ _ _ => apart_of_plain rfl hplain) "square"⟩

end Interpreter

end Modules

end Rmote
