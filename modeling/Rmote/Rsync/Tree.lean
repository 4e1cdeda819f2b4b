import Mathlib.Data.List.AList
import Mathlib.Data.List.MinMax
import Rmote.Library.Hoare
import Rmote.Library.Paths
import Rmote.Rsync.Exclude
import Rmote.Wire.Flags

/-!
# The trees and the calls on them

`Tree` is what lies below one root: every path with its node, and every parent a directory. The
calls of `Rsync` that one side runs for the coordinator are `EStateM` programs over a tree, so a
call that raises keeps what it has done until then. A call succeeds whenever the tree allows it:
permission bits stop nobody, and what the operating system refuses besides is left to the
coordinator.
-/

namespace Rmote

namespace Rsync

/-- What a path names. -/
inductive Node where
  | directory (mode : ℕ)
  | file (content : Bytes) (mode : ℕ)
  | symlink (target : String)
  | special (mode : ℕ)
  deriving DecidableEq

/-- What `inspect` tells about a path. -/
structure Entry where
  kind : Kind
  mode : ℕ
  target : Option String := none
  deriving DecidableEq

def Node.kind : Node → Kind
  | .directory _ => .directory
  | .file _ _ => .file
  | .symlink _ => .symlink
  | .special _ => .special

def Node.entry : Node → Entry
  | .directory mode => ⟨.directory, mode, none⟩
  | .file _ mode => ⟨.file, mode, none⟩
  | .symlink target => ⟨.symlink, 0o777, some target⟩
  | .special mode => ⟨.special, mode, none⟩

@[simp] theorem Node.kind_entry (node : Node) : node.entry.kind = node.kind := by
  cases node <;> rfl

theorem Node.eq_directory {node : Node} (h : node.kind = .directory) :
    ∃ mode, node = .directory mode := by
  cases node with
  | directory mode => exact ⟨mode, rfl⟩
  | file content mode => cases h
  | symlink target => cases h
  | special mode => cases h

/-- The paths below one root. -/
structure Tree where
  nodes : AList fun _ : Path => Node
  parents : ∀ n p, n :: p ∈ nodes → ∃ mode, nodes.lookup p = some (.directory mode)

namespace Tree

variable {t t' : Tree} {n : Name} {p q : Path} {node : Node}

/-- The node under a path. -/
def get (t : Tree) (p : Path) : Option Node := t.nodes.lookup p

theorem get_ne_none : t.get p ≠ none ↔ p ∈ t.nodes := by
  rw [get, Ne, AList.lookup_eq_none, not_not]

/-- A name in a directory. -/
def childOf (p : Path) : Path → Option Name
  | [] => none
  | n :: q => if q = p then some n else none

theorem childOf_eq_some : childOf p q = some n ↔ q = n :: p := by
  cases q with
  | nil => exact ⟨nofun, nofun⟩
  | cons m q =>
      rw [childOf]
      split_ifs with hq
      · rw [hq]
        simp
      · simp [hq]

/-- The names in a directory. -/
def names (t : Tree) (p : Path) : List Name := t.nodes.keys.filterMap (childOf p)

theorem mem_names : n ∈ t.names p ↔ t.get (n :: p) ≠ none := by
  rw [names, List.mem_filterMap, get_ne_none, AList.mem_keys]
  constructor
  · rintro ⟨q, hq, hchild⟩
    rw [childOf_eq_some] at hchild
    exact hchild ▸ hq
  · exact fun h => ⟨n :: p, h, childOf_eq_some.mpr rfl⟩

theorem nodup_names (t : Tree) (p : Path) : (t.names p).Nodup := by
  refine t.nodes.keys_nodup.filterMap fun q q' n hq hq' => ?_
  rw [Option.mem_def, childOf_eq_some] at hq hq'
  rw [hq, hq']

theorem names_eq_nil : t.names p = [] ↔ ∀ n, t.get (n :: p) = none := by
  rw [List.eq_nil_iff_forall_not_mem]
  exact forall_congr' fun n => by rw [mem_names, not_not]

/-- The parent of an entry is a directory. -/
theorem parent (h : t.get (n :: p) ≠ none) : ∃ mode, t.get p = some (.directory mode) :=
  t.parents n p (get_ne_none.mp h)

/-- What is above an entry is there. -/
theorem get_of_below (hpq : p <:+ q) (h : t.get q ≠ none) : t.get p ≠ none := by
  induction q with
  | nil =>
      rw [List.suffix_nil.mp hpq]
      exact h
  | cons n q ih =>
      rcases List.suffix_cons_iff.mp hpq with rfl | hpq
      · exact h
      · obtain ⟨mode, hq⟩ := parent h
        exact ih hpq (by rw [hq]; nofun)

/-- Nothing is below an entry that is no directory. -/
theorem get_below_eq_none (hnode : t.get p = some node) (hkind : node.kind ≠ .directory)
    (hpq : p <:+ q) (hne : q ≠ p) : t.get q = none := by
  by_contra h
  obtain ⟨m, hm⟩ := (Paths.below_iff.mp hpq).resolve_left hne
  obtain ⟨mode, hmode⟩ := parent (get_of_below hm h)
  rw [hnode] at hmode
  cases hmode
  exact hkind rfl

/-- The node can stand under the path: in a directory, and above nothing unless it is one. -/
def fits (t : Tree) (p : Path) (node : Node) : Bool :=
  (match p with
    | [] => true
    | _ :: q => ((t.get q).map Node.kind == some .directory)) &&
  (node.kind == .directory || (t.names p).isEmpty)

theorem parents_insert (h : t.fits p node = true) (n : Name) (q : Path)
    (hmem : n :: q ∈ t.nodes.insert p node) :
    ∃ mode, (t.nodes.insert p node).lookup q = some (.directory mode) := by
  obtain ⟨hparent, hchildren⟩ := Bool.and_eq_true_iff.mp h
  have hold : q ≠ p → (∃ mode, t.get q = some (.directory mode)) →
      ∃ mode, (t.nodes.insert p node).lookup q = some (.directory mode) := by
    rintro hne ⟨mode, hmode⟩
    exact ⟨mode, by rw [AList.lookup_insert_ne hne]; exact hmode⟩
  rcases (AList.mem_insert _).mp hmem with heq | hbefore
  · subst heq
    refine hold (List.cons_ne_self n q).symm ?_
    have hkind : (t.get q).map Node.kind = some .directory := by simpa using hparent
    obtain ⟨node', hnode', hkind⟩ := Option.map_eq_some_iff.mp hkind
    obtain ⟨mode, rfl⟩ := Node.eq_directory hkind
    exact ⟨mode, hnode'⟩
  · by_cases hq : q = p
    · subst hq
      rcases Bool.or_eq_true_iff.mp hchildren with hkind | hempty
      · obtain ⟨mode, rfl⟩ := Node.eq_directory (by simpa using hkind)
        exact ⟨mode, AList.lookup_insert _⟩
      · have hnone := names_eq_nil.mp (by simpa using hempty) n
        exact absurd hnone (get_ne_none.mpr hbefore)
    · exact hold hq (t.parents n q hbefore)

/-- Put a node under a path. -/
def put (t : Tree) (p : Path) (node : Node) : Option Tree :=
  if h : t.fits p node = true then some ⟨t.nodes.insert p node, parents_insert h⟩ else none

theorem get_put (h : t.put p node = some t') (q : Path) :
    t'.get q = if q = p then some node else t.get q := by
  unfold put at h
  split_ifs at h
  cases h
  split_ifs with hq
  · rw [hq]
    exact AList.lookup_insert _
  · exact AList.lookup_insert_ne hq

theorem parents_erase (h : t.names p = []) (n : Name) (q : Path) (hmem : n :: q ∈ t.nodes.erase p) :
    ∃ mode, (t.nodes.erase p).lookup q = some (.directory mode) := by
  have hold := (AList.mem_erase.mp hmem).2
  obtain ⟨mode, hmode⟩ := t.parents n q hold
  refine ⟨mode, ?_⟩
  rw [AList.lookup_erase_ne]
  · exact hmode
  · rintro rfl
    exact get_ne_none.mpr hold (names_eq_nil.mp h n)

/-- Take away the node under a path, unless something is below it. -/
def drop (t : Tree) (p : Path) : Option Tree :=
  if h : t.names p = [] then some ⟨t.nodes.erase p, parents_erase h⟩ else none

theorem get_drop (h : t.drop p = some t') (q : Path) :
    t'.get q = if q = p then none else t.get q := by
  unfold drop at h
  split_ifs at h
  cases h
  split_ifs with hq
  · rw [hq]
    exact AList.lookup_erase _ _
  · exact AList.lookup_erase_ne hq

theorem drop_of_names (h : t.names p = []) : ∃ t', t.drop p = some t' := ⟨_, dif_pos h⟩

/-- A bound for the length of the paths. -/
def depth (t : Tree) : ℕ := (t.nodes.keys.map List.length).foldr max 0

theorem length_le_depth (h : t.get p ≠ none) : p.length ≤ t.depth := by
  have hmem : p.length ∈ t.nodes.keys.map List.length :=
    List.mem_map_of_mem (AList.mem_keys.mp (get_ne_none.mp h))
  exact List.le_max_of_le' 0 hmem (le_refl _)

end Tree

/-- What the calls and the coordinator raise. A path stands for the text that ends the message. -/
inductive Failure where
  | value (text : String) (path : Path)
  | option (text : String)
  | pattern (pattern : String)
  | notFound (path : Path)
  /-- Whatever else the operating system or the connection refuses. -/
  | os (text : String)
  | recursion
  deriving DecidableEq, Repr

/-- Code that one side runs on its tree. -/
abbrev Call := EStateM Failure Tree

/-- Inspect an entry; `none` means absent. -/
def inspect (t : Tree) (p : Path) : Option Entry := (t.get p).map Node.entry

/-- The check of a root. -/
def root (required : Bool) : Call Unit := do
  match inspect (← get) [] with
  | none => if required then throw (.notFound []) else pure ()
  | some entry =>
      if entry.kind = .directory then pure () else throw (.value "Not a real directory" [])

/-- The entries of a directory that is there. -/
def entriesOf (t : Tree) (p : Path) : List (Name × Entry) :=
  (t.names p).filterMap fun name => (inspect t (name :: p)).map (name, ·)

/-- Read one directory. -/
def scan (p : Path) : Call (List (Name × Entry)) := do
  let t ← get
  if (inspect t p).map Entry.kind = some .directory then
    return entriesOf t p
  else
    throw (.value "Not a real directory" p)

/-- Put a node under a path whose parent is there. -/
def write (p : Path) (node : Node) : Call Unit := do
  match (← get).put p node with
  | some t => set t
  | none => throw (.notFound p)

/-- Create one missing directory. -/
def mkdir (p : Path) : Call Bool := do
  match inspect (← get) p with
  | some entry => if entry.kind = .directory then return false else throw (.value "Not a directory" p)
  | none =>
      write p (.directory 0o700)
      return true

/-- Create or replace a link. -/
def link (p : Path) (target : String) : Call Bool := do
  match inspect (← get) p with
  | some entry =>
      if entry.kind ≠ .symlink then throw (.value "Not a symbolic link" p)
      else if entry.target = some target then return false
      else
        write p (.symlink target)
        return true
  | none =>
      write p (.symlink target)
      return true

/-- The node with other permission bits. -/
def Node.chmod (mode : ℕ) : Node → Node
  | .directory _ => .directory mode
  | .file content _ => .file content mode
  | node => node

/-- Set the permission bits of a regular file or of a directory. -/
def chmod (p : Path) (mode : ℕ) : Call Bool := do
  match (← get).get p with
  | some node =>
      if node.kind = .file ∨ node.kind = .directory then
        if node.entry.mode = mode then return false
        else
          write p (node.chmod mode)
          return true
      else throw (.value "Not a regular file or directory" p)
  | none => throw (.value "Not a regular file or directory" p)

/-- `FileSync` gives the file under the path this content. An existing file keeps its mode, a new
one is private, and an equal one is left alone. -/
def syncFile (p : Path) (content : Bytes) : Call Bool := do
  match (← get).get p with
  | none =>
      write p (.file content 0o600)
      return true
  | some (.file old mode) =>
      if old = content then return false
      else
        write p (.file content mode)
        return true
  | some _ => throw (.value "Not a regular file" p)

section Specifications

open Hoare

variable {t : Tree} {n : Name} {p : Path} {mode : ℕ}

theorem mem_entriesOf {entry : Entry} :
    (n, entry) ∈ entriesOf t p ↔ ∃ node, t.get (n :: p) = some node ∧ node.entry = entry := by
  rw [entriesOf, List.mem_filterMap]
  constructor
  · rintro ⟨m, -, hm⟩
    obtain ⟨entry', hinspect, heq⟩ := Option.map_eq_some_iff.mp hm
    cases heq
    exact Option.map_eq_some_iff.mp hinspect
  · rintro ⟨node, hnode, rfl⟩
    refine ⟨n, Tree.mem_names.mpr (by rw [hnode]; nofun), ?_⟩
    rw [inspect, hnode]
    rfl

theorem keys_entriesOf (t : Tree) (p : Path) : (entriesOf t p).map Prod.fst = t.names p := by
  have hall : ∀ names : List Name, (∀ n ∈ names, t.get (n :: p) ≠ none) →
      (names.filterMap fun n => (inspect t (n :: p)).map (n, ·)).map Prod.fst = names := by
    intro names hnames
    induction names with
    | nil => rfl
    | cons n names ih =>
        obtain ⟨node, hnode⟩ := Option.ne_none_iff_exists'.mp (hnames n List.mem_cons_self)
        rw [List.filterMap_cons_some (b := (n, node.entry)) (by rw [inspect, hnode]; rfl),
          List.map_cons, ih fun m hm => hnames m (List.mem_cons_of_mem n hm)]
  exact hall _ fun n hn => Tree.mem_names.mp hn

theorem nodup_entriesOf (t : Tree) (p : Path) : ((entriesOf t p).map Prod.fst).Nodup := by
  rw [keys_entriesOf]
  exact t.nodup_names p

theorem inspect_directory : (inspect t p).map Entry.kind = some .directory ↔
    ∃ mode, t.get p = some (.directory mode) := by
  rw [inspect, Option.map_map, Option.map_eq_some_iff]
  constructor
  · rintro ⟨node, hnode, hkind⟩
    have hdirectory : node.kind = .directory := by
      rw [← node.kind_entry]
      exact hkind
    obtain ⟨mode, rfl⟩ := Node.eq_directory hdirectory
    exact ⟨mode, hnode⟩
  · rintro ⟨mode, hnode⟩
    exact ⟨_, hnode, rfl⟩

theorem triple_root (t : Tree) (required : Bool) :
    Triple (fun s => s = t) (root required)
      (fun _ s => s = t ∧ (required = true → t.get [] ≠ none) ∧
        ∀ node, t.get [] = some node → node.kind = .directory) (fun s => s = t) := by
  refine triple_get_bind fun s hs => ?_
  rw [hs]
  split
  · rename_i hinspect
    have hnone : t.get [] = none := by simpa [inspect] using hinspect
    split_ifs with hrequired
    · exact triple_throw fun _ h => h
    · exact triple_pure fun _ h => ⟨h, fun hr => absurd hr hrequired, by simp [hnone]⟩
  · rename_i entry hinspect
    obtain ⟨node, hnode, rfl⟩ := Option.map_eq_some_iff.mp hinspect
    split_ifs with hkind
    · refine triple_pure fun _ h => ⟨h, fun _ => by rw [hnode]; nofun, fun node' hnode' => ?_⟩
      rw [hnode] at hnode'
      cases hnode'
      rw [← node.kind_entry]
      exact hkind
    · exact triple_throw fun _ h => h

theorem run_root {required : Bool} (h : t.get [] = some (.directory mode)) :
    (root required).run t = .ok () t := by
  simp [root, inspect, h, Node.entry]

theorem triple_scan (t : Tree) (p : Path) :
    Triple (fun s => s = t) (scan p)
      (fun entries s => s = t ∧ entries = entriesOf t p ∧ ∃ mode, t.get p = some (.directory mode))
      (fun s => s = t) := by
  refine triple_get_bind fun s hs => ?_
  subst hs
  split_ifs with hkind
  · exact triple_pure fun s hs => ⟨hs, rfl, inspect_directory.mp hkind⟩
  · exact triple_throw fun s hs => hs

theorem run_scan (h : t.get p = some (.directory mode)) :
    (scan p).run t = .ok (entriesOf t p) t := by
  simp [scan, inspect, h, Node.entry]

theorem triple_write (t : Tree) (p : Path) (node : Node) :
    Triple (fun s => s = t) (write p node) (fun _ s => t.put p node = some s)
      (fun s => s = t) := by
  refine triple_get_bind fun s hs => ?_
  subst hs
  split
  · rename_i t' hput
    exact fun _ _ => hput
  · exact triple_throw fun s hs => hs

/-- A write that tells that something changed. -/
theorem triple_write_true (t : Tree) (p : Path) (node : Node) :
    Triple (fun s => s = t) (do write p node; return true)
      (fun changed s => changed = true ∧ t.put p node = some s) (fun s => s = t) :=
  (triple_write t p node).bind fun _ => triple_pure fun _ hput => ⟨rfl, hput⟩

theorem triple_mkdir (t : Tree) (p : Path) :
    Triple (fun s => s = t) (mkdir p)
      (fun changed s => (changed = false ∧ s = t ∧ ∃ mode, t.get p = some (.directory mode)) ∨
        (changed = true ∧ t.get p = none ∧ t.put p (.directory 0o700) = some s))
      (fun s => s = t) := by
  refine triple_get_bind fun s hs => ?_
  subst hs
  split
  · rename_i entry hinspect
    split_ifs with hkind
    · have hdirectory := inspect_directory.mp (by rw [hinspect, Option.map_some, hkind])
      exact triple_pure fun s hs => .inl ⟨rfl, hs, hdirectory⟩
    · exact triple_throw fun s hs => hs
  · rename_i hinspect
    have hnone : s.get p = none := by simpa [inspect] using hinspect
    exact (triple_write_true s p _).mono (fun _ h => h)
      (fun _ _ h => .inr ⟨h.1, hnone, h.2⟩) fun _ h => h

theorem run_mkdir (h : t.get p = some (.directory mode)) : (mkdir p).run t = .ok false t := by
  simp [mkdir, inspect, h, Node.entry]

theorem triple_link (t : Tree) (p : Path) (target : String) :
    Triple (fun s => s = t) (link p target)
      (fun changed s => (changed = false ∧ s = t ∧ t.get p = some (.symlink target)) ∨
        (changed = true ∧ (∀ node, t.get p = some node → node.kind = .symlink) ∧
          t.put p (.symlink target) = some s))
      (fun s => s = t) := by
  refine triple_get_bind fun s hs => ?_
  subst hs
  split
  · rename_i entry hinspect
    obtain ⟨node, hnode, rfl⟩ := Option.map_eq_some_iff.mp hinspect
    split_ifs with hkind htarget
    · exact triple_throw fun s hs => hs
    · cases node with
      | symlink target' =>
          cases htarget
          exact triple_pure fun s hs => .inl ⟨rfl, hs, hnode⟩
      | directory mode => cases htarget
      | file content mode => cases htarget
      | special mode => cases htarget
    · have hlink : ∀ node', s.get p = some node' → node'.kind = .symlink := by
        intro node' hnode'
        rw [hnode] at hnode'
        cases hnode'
        rw [← node.kind_entry]
        exact not_not.mp hkind
      exact (triple_write_true s p _).mono (fun _ h => h)
        (fun _ _ h => .inr ⟨h.1, hlink, h.2⟩) fun _ h => h
  · rename_i hinspect
    have hnone : s.get p = none := by simpa [inspect] using hinspect
    exact (triple_write_true s p _).mono (fun _ h => h)
      (fun _ _ h => .inr ⟨h.1, by simp [hnone], h.2⟩) fun _ h => h

theorem run_link {target : String} (h : t.get p = some (.symlink target)) :
    (link p target).run t = .ok false t := by
  simp [link, inspect, h, Node.entry]

theorem triple_chmod (t : Tree) (p : Path) (mode : ℕ) :
    Triple (fun s => s = t) (chmod p mode)
      (fun changed s => ∃ node, t.get p = some node ∧
        (node.kind = .file ∨ node.kind = .directory) ∧
        ((changed = false ∧ s = t ∧ node.entry.mode = mode) ∨
          (changed = true ∧ t.put p (node.chmod mode) = some s)))
      (fun s => s = t) := by
  refine triple_get_bind fun s hs => ?_
  subst hs
  split
  · rename_i node hnode
    split_ifs with hkind hmode
    · exact triple_pure fun s hs => ⟨node, hnode, hkind, .inl ⟨rfl, hs, hmode⟩⟩
    · exact (triple_write_true s p _).mono (fun _ h => h)
        (fun _ _ h => ⟨node, hnode, hkind, .inr h⟩) fun _ h => h
    · exact triple_throw fun s hs => hs
  · exact triple_throw fun s hs => hs

theorem run_chmod {node : Node} (h : t.get p = some node)
    (hkind : node.kind = .file ∨ node.kind = .directory) (hmode : node.entry.mode = mode) :
    (chmod p mode).run t = .ok false t := by
  simp [chmod, h, hkind, hmode]

theorem triple_syncFile (t : Tree) (p : Path) (content : Bytes) :
    Triple (fun s => s = t) (syncFile p content)
      (fun changed s => (changed = false ∧ s = t ∧ ∃ mode, t.get p = some (.file content mode)) ∨
        (changed = true ∧ t.get p = none ∧ t.put p (.file content 0o600) = some s) ∨
        (changed = true ∧ ∃ old mode, t.get p = some (.file old mode) ∧
          t.put p (.file content mode) = some s))
      (fun s => s = t) := by
  refine triple_get_bind fun s hs => ?_
  subst hs
  split
  · rename_i hnone
    exact (triple_write_true s p _).mono (fun _ h => h)
      (fun _ _ h => .inr (.inl ⟨h.1, hnone, h.2⟩)) fun _ h => h
  · rename_i old mode hnode
    split_ifs with hold
    · subst hold
      exact triple_pure fun s hs => .inl ⟨rfl, hs, mode, hnode⟩
    · exact (triple_write_true s p _).mono (fun _ h => h)
        (fun _ _ h => .inr (.inr ⟨h.1, old, mode, hnode, h.2⟩)) fun _ h => h
  · exact triple_throw fun s hs => hs

theorem run_syncFile {content : Bytes} (h : t.get p = some (.file content mode)) :
    (syncFile p content).run t = .ok false t := by
  simp [syncFile, h]

end Specifications

end Rsync

end Rmote
