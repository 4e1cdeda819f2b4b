import Rmote.Rsync.Remove

/-!
# The coordinator of a directory synchronization

`transfer` walks the source twice. The first pass makes the directories and the links and starts
one task for each file; the second one removes what the source does not have and sets the modes
of the directories. The source is only read, so the coordinator keeps the tree of the destination
and never that of the source.

`Env` is everything that the code does not decide: whether a call fails, and which of the running
tasks come to their end before the next call. No owner and no group is given. `FileSync` makes
the file at the destination equal to the one of the source.
-/

namespace Rmote

namespace Rsync

structure Options where
  uploading : Bool
  delete : Bool
  deleteExcluded : Bool
  preserveMode : Bool
  concurrency : ℕ
  blockSize : ℕ
  exclude : List String

/-- A completed synchronization. -/
structure Result where
  changed : Bool := false
  files : ℕ := 0
  transferred : ℕ := 0
  reused : ℕ := 0
  directories : ℕ := 0
  symlinks : ℕ := 0
  deleted : ℕ := 0
  deriving DecidableEq

/-- The surroundings of a run. Time is the number of calls so far; `order` are the positions of
the tasks that run to their end before the call at that time, and `reused` is how many bytes of
the old file `FileSync` can take for the new one. -/
structure Env where
  fails : ℕ → Option String
  order : ℕ → List ℕ
  reused : Option Bytes → Bytes → ℕ

/-- What stays fixed during a run. -/
structure Job where
  env : Env
  opts : Options
  src : Tree

inductive Progress where
  | running
  | finished
  | failed (failure : Failure)
  deriving DecidableEq

/-- The transfer of one file, with the mode that the scan found at the destination. -/
structure Task where
  path : Path
  mode : ℕ
  present : Option ℕ
  progress : Progress

/-- The state of the coordinator, and the tree of the destination. -/
structure Coordinator where
  dst : Tree
  active : List Task
  result : Result
  clock : ℕ

/-- The coordinator before its first call. -/
def Coordinator.new (dst : Tree) : Coordinator := ⟨dst, [], {}, 0⟩

abbrev Run := EStateM Failure Coordinator

/-- A call may fail for reasons of its own. -/
def attempt (j : Job) : Run Unit := fun s =>
  match j.env.fails s.clock with
  | some text => .error (.os text) { s with clock := s.clock + 1 }
  | none => .ok () { s with clock := s.clock + 1 }

/-- The destination runs a call. -/
def onTarget {α : Type} (call : Call α) : Run α := fun s =>
  match call.run s.dst with
  | .ok a t => .ok a { s with dst := t }
  | .error e t => .error e { s with dst := t }

/-- The source runs a call that only reads. -/
def onSource {α : Type} (j : Job) (call : Call α) : Run α := fun s =>
  match call.run j.src with
  | .ok a _ => .ok a s
  | .error e _ => .error e s

theorem run_attempt (j : Job) (s : Coordinator) :
    (attempt j).run s = match j.env.fails s.clock with
      | some text => .error (.os text) { s with clock := s.clock + 1 }
      | none => .ok () { s with clock := s.clock + 1 } := rfl

theorem run_onTarget {α : Type} (call : Call α) (s : Coordinator) :
    (onTarget call).run s = match call.run s.dst with
      | .ok a t => .ok a { s with dst := t }
      | .error e t => .error e { s with dst := t } := rfl

theorem run_onSource {α : Type} (j : Job) (call : Call α) (s : Coordinator) :
    (onSource j call).run s = match call.run j.src with
      | .ok a _ => .ok a s
      | .error e _ => .error e s := rfl

/-- Count in the result. -/
def record (f : Result → Result) : Run Unit := modify fun s => { s with result := f s.result }

/-- Set the mode of an entry, unless the scan found it there already. -/
def metadata (j : Job) (p : Path) (mode : ℕ) (present : Option ℕ) : Run Unit := do
  if j.opts.preserveMode = true ∧ some mode ≠ present then
    attempt j
    let changed ← onTarget (chmod p mode)
    record fun r => { r with changed := r.changed || changed }
  else
    pure ()

/-- The content of a file of the source. -/
def readFile (p : Path) : Call Bytes := do
  match (← get).get p with
  | some (.file content _) => return content
  | _ => throw (.value "Not a regular file" p)

/-- The content of the file under a path, if it is one. -/
def Tree.content (t : Tree) (p : Path) : Option Bytes :=
  match t.get p with
  | some (.file content _) => some content
  | _ => none

/-- The body of a task. -/
def file (j : Job) (task : Task) : Run Unit := do
  attempt j
  let content ← onSource j (readFile task.path)
  let reused := min (j.env.reused ((← get).dst.content task.path) content) content.length
  let changed ← onTarget (syncFile task.path content)
  record fun r => { r with
    changed := r.changed || changed
    files := r.files + 1
    transferred := r.transferred + (content.length - reused)
    reused := r.reused + reused }
  metadata j task.path task.mode task.present

/-- A task runs to its end and keeps its failure for the coordinator. -/
def runTask (j : Job) (i : ℕ) : Run Unit := fun s =>
  match s.active[i]? with
  | none => .ok () s
  | some task =>
      if task.progress = .running then
        match (file j task).run s with
        | .ok _ t => .ok () { t with active := t.active.set i { task with progress := .finished } }
        | .error e t =>
            .ok () { t with active := t.active.set i { task with progress := .failed e } }
      else
        .ok () s

theorem run_runTask (j : Job) (i : ℕ) (s : Coordinator) :
    (runTask j i).run s = match s.active[i]? with
      | none => .ok () s
      | some task =>
          if task.progress = .running then
            match (file j task).run s with
            | .ok _ t =>
                .ok () { t with active := t.active.set i { task with progress := .finished } }
            | .error e t =>
                .ok () { t with active := t.active.set i { task with progress := .failed e } }
          else
            .ok () s := rfl

/-- Some of the tasks run while the coordinator waits. -/
def runReady (j : Job) : Run Unit := do
  (j.env.order (← get).clock).forM (runTask j)

/-- The coordinator calls the destination. -/
def call {α : Type} (j : Job) (call : Call α) : Run α := do
  runReady j
  attempt j
  onTarget call

/-- The coordinator calls the source. -/
def callSource {α : Type} (j : Job) (call : Call α) : Run α := do
  runReady j
  attempt j
  onSource j call

/-- The failure of the first task that failed. -/
def firstFailure : List Task → Option Failure
  | [] => none
  | task :: tasks =>
      match task.progress with
      | .failed failure => some failure
      | _ => firstFailure tasks

/-- Forget the tasks that came to their end, and raise the first failure of them. -/
def collect : Run Unit := fun s =>
  let running := { s with active := s.active.filter fun task => task.progress = .running }
  match firstFailure s.active with
  | some failure => .error failure running
  | none => .ok () running

theorem run_collect (s : Coordinator) :
    collect.run s = match firstFailure s.active with
      | some failure =>
          .error failure { s with active := s.active.filter fun task => task.progress = .running }
      | none =>
          .ok () { s with active := s.active.filter fun task => task.progress = .running } := rfl

/-- Wait for one of the running tasks, or for all of them. -/
def wait (j : Job) (all : Bool) : Run Unit := do
  let active := (← get).active
  if all then (List.range active.length).forM (runTask j)
  else if active.all fun task => task.progress = .running then runTask j 0
  else pure ()

/-- Wait for running transfers and raise the first failure of them. -/
def reap (j : Job) (all : Bool) : Run Unit := do
  runReady j
  wait j all
  collect

/-- Wait until another task may start. -/
def makeRoom (j : Job) : ℕ → Run Unit
  | 0 => pure ()
  | rounds + 1 => do
      if (← get).active.length < j.opts.concurrency then
        pure ()
      else
        reap j false
        makeRoom j rounds

/-- The name is excluded on either side. -/
def shields (j : Job) (relative : Path) (items : List (Name × Entry)) (name : Name) : Bool :=
  items.any fun item => item.1 = name && excluded (name :: relative) item.2.kind j.opts.exclude

/-- The entries of the source that are transferred. -/
def transferable (j : Job) (relative : Path) (entries existing : List (Name × Entry)) :
    List (Name × Entry) :=
  entries.filter fun item => !shields j relative (entries ++ existing) item.1

/-- The entries of the destination that are compared with them. -/
def comparable (j : Job) (relative : Path) (entries existing : List (Name × Entry)) :
    List (Name × Entry) :=
  if j.opts.deleteExcluded then existing
  else existing.filter fun item => !shields j relative (entries ++ existing) item.1

/-- Create the directory that is walked. -/
def create (j : Job) (relative : Path) : Run Unit := do
  let created ← call j (mkdir relative)
  record fun r => { r with
    directories := r.directories + created.toNat
    changed := r.changed || created }

/-- Refuse what cannot be transferred. -/
def checkEntry (relative : Path) (existing : List (Name × Entry)) (item : Name × Entry) :
    Run Unit :=
  if item.2.kind = .special then
    throw (.value "Unsupported source entry" (item.1 :: relative))
  else if (existing.lookup item.1).any fun entry => entry.kind ≠ item.2.kind then
    throw (.value "Type conflict" (item.1 :: relative))
  else
    pure ()

/-- Start the transfer of a file, or make a link. -/
def begin (j : Job) (relative : Path) (existing : List (Name × Entry)) (item : Name × Entry) :
    Run Unit := do
  match item.2.kind with
  | .file =>
      makeRoom j (← get).active.length
      let present := (existing.lookup item.1).map Entry.mode
      let task : Task := ⟨item.1 :: relative, item.2.mode, present, .running⟩
      modify fun s => { s with active := s.active ++ [task] }
  | .symlink =>
      let changed ← call j (link (item.1 :: relative) (item.2.target.getD ""))
      record fun r => { r with
        symlinks := r.symlinks + changed.toNat
        changed := r.changed || changed }
  | _ => pure ()

/-- Remove an entry that the source does not have. -/
def removeExtra (j : Job) (relative : Path) (name : Name) : Run Unit := do
  let patterns := if j.opts.deleteExcluded then [] else j.opts.exclude
  let bound := (← get).dst.depth + 1
  let count ← call j (remove patterns bound (name :: relative))
  record fun r => { r with
    deleted := r.deleted + count
    changed := r.changed || count != 0 }

/-- The mode of an entry of the source. -/
def modeOf (p : Path) : Call ℕ := do
  match inspect (← get) p with
  | some entry => return entry.mode
  | none => throw (.notFound p)

/-- The names that only the destination has. -/
def extras (entries existing : List (Name × Entry)) : List Name :=
  (existing.map Prod.fst).filter fun name => name ∉ entries.map Prod.fst

/-- Remove what the source does not have, if that is wanted. -/
def removeExtras (j : Job) (relative : Path) (entries existing : List (Name × Entry)) :
    Run Unit :=
  if j.opts.delete || j.opts.deleteExcluded then
    (extras entries existing).forM (removeExtra j relative)
  else
    pure ()

/-- The end of the second pass through a directory. -/
def finish (j : Job) (relative : Path) (entries existing : List (Name × Entry)) : Run Unit := do
  removeExtras j relative entries existing
  let mode ← callSource j (modeOf relative)
  metadata j relative mode none

/-- Code of one of the two passes. -/
def only (pass : Bool) (code : Run Unit) : Run Unit := if pass then code else pure ()

@[simp] theorem only_true (code : Run Unit) : only true code = code := rfl

@[simp] theorem only_false (code : Run Unit) : only false code = pure () := rfl

/-- Go through a directory. The number is a bound for the depth of the source below it. -/
def walk (j : Job) : ℕ → Path → Bool → Run Unit
  | 0, _, _ => throw .recursion
  | fuel + 1, relative, finishing => do
      let entries ← callSource j (scan relative)
      only (!finishing) (create j relative)
      let existing ← call j (scan relative)
      let compared := comparable j relative entries existing
      let entries := transferable j relative entries existing
      entries.forM (checkEntry relative compared)
      only (!finishing) (entries.forM (begin j relative compared))
      entries.forM fun item =>
        only (item.2.kind = .directory) (walk j fuel (item.1 :: relative) finishing)
      only finishing (finish j relative entries compared)

/-- The tasks that a failure leaves behind are cancelled. Some of them still do their work. -/
def abandon (j : Job) (s : Coordinator) : Coordinator :=
  match (runReady j).run s with
  | .ok _ t => { t with active := [] }
  | .error _ t => { t with active := [] }

/-- The first pass, until every task has come to its end. -/
def firstPass (j : Job) : Run Unit := fun s =>
  match (do walk j (j.src.depth + 1) [] false; reap j true : Run Unit).run s with
  | .ok _ t => .ok () (abandon j t)
  | .error e t => .error e (abandon j t)

theorem run_firstPass (j : Job) (s : Coordinator) :
    (firstPass j).run s =
      match (do walk j (j.src.depth + 1) [] false; reap j true : Run Unit).run s with
      | .ok _ t => .ok () (abandon j t)
      | .error e t => .error e (abandon j t) := rfl

/-- The options are checked before any call. -/
def checkOptions (o : Options) : Except Failure Unit :=
  if o.concurrency < 1 then .error (.option "concurrency must be a positive integer")
  else if o.blockSize < 1 ∨ 16 * 1024 * 1024 < o.blockSize then
    .error (.option "block_size must be between 1 and 16777216")
  else
    match o.exclude.find? invalid with
    | some pattern => .error (.pattern pattern)
    | none => .ok ()

/-- Validate the two roots, the local one first. -/
def checkRoots (j : Job) : Run Unit := do
  if j.opts.uploading then
    callSource j (root true)
    call j (root false)
  else
    call j (root false)
    callSource j (root true)

/-- Everything before the second pass. -/
def prepare (j : Job) : Run Unit :=
  match checkOptions j.opts with
  | .error e => throw e
  | .ok _ => do
      checkRoots j
      firstPass j

/-- Shared local coordinator for both directions. -/
def transfer (j : Job) : Run Result := do
  prepare j
  walk j (j.src.depth + 1) [] true
  return (← get).result

end Rsync

end Rmote
