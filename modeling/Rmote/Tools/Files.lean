import Rmote.Library.Assoc
import Rmote.Library.Machine
import Rmote.Library.Ownership
import Rmote.Wire.Flags

/-!
# File sessions

`Files` keeps descriptors for a client between its calls. Every method runs in a thread of the
protocol executor: it looks its session up, waits for the lock of the session and works on the
handles while it has it. `release` takes the session out of the registry first and closes what
it holds when it gets the lock. The kernel gives a closed number out again.
-/

namespace Rmote

namespace Files

def maxHandles : ℕ := 128

/-- A descriptor: its number, and the open file that it stood for when it was opened. -/
abbrev Descriptor := ℕ × ℕ

/-- `Handle`; the iterator of a directory has a descriptor of its own. -/
structure Handle where
  fd : Descriptor
  append : Bool
  entries : Option Descriptor

/-- What `Handle.close` closes, in its order. -/
def Handle.resources (h : Handle) : List Descriptor := h.entries.toList ++ [h.fd]

/-- `FileSession`; the lock is held by a call. -/
structure FileSession where
  handles : List (Bytes × Handle)
  lock : Option ℕ
  closed : Bool

namespace FileSession

def new : FileSession := ⟨[], none, false⟩

def resources (s : FileSession) : List Descriptor := s.handles.flatMap fun e => e.2.resources

/-- `get` -/
def get (s : FileSession) (handle : Bytes) (directory : Bool) : Option Handle :=
  (Assoc.get s.handles handle).bind fun h =>
    if h.entries.isSome ≠ directory then none else some h

end FileSession

/-- The methods, by what they do with handles: `io` is any that works on one, and `path` any
that needs none. -/
inductive Operation where
  | open (flags : ℕ)
  | opendir
  | close (handle : Bytes)
  | io (handle : Bytes) (directory : Bool)
  | path
  | release
  deriving DecidableEq

/-- The bits of `OpenFlags`. -/
def hasFlag (flags bit : ℕ) : Bool := flags &&& bit ≠ 0

/-- The checks of `open` before it looks for its session. -/
def validFlags (flags : ℕ) : Bool :=
  flags < 0x40 && hasFlag flags 0x03 && (!hasFlag flags 0x30 || hasFlag flags 0x08) &&
    (!hasFlag flags 0x14 || hasFlag flags 0x02)

def Operation.valid : Operation → Bool
  | .open flags => validFlags flags
  | _ => true

/-- Where a call stands. -/
inductive Phase where
  /-- It has its session and waits for the lock. -/
  | wants
  | inside
  /-- `os.open` returned. -/
  | opened (fd : Descriptor)
  /-- It works on a descriptor of a handle. -/
  | using (fd : Descriptor)
  | closing (fds : List Descriptor)
  | ended
  deriving DecidableEq

namespace Phase

/-- The call has the lock of its session. -/
def locked : Phase → Bool
  | wants => false
  | ended => false
  | _ => true

/-- The descriptors that only the call knows. -/
def held : Phase → List Descriptor
  | opened fd => [fd]
  | closing fds => fds
  | _ => []

end Phase

structure Call where
  session : ℕ
  op : Operation
  phase : Phase

end Files

/-- The remote process. `sessions` are the objects and `registry` is `_sessions`. `touched` has
each descriptor that was given to the kernel, with the file that its number stood for. -/
structure Files where
  table : ℕ → Option ℕ
  opens : ℕ
  registry : List (String × ℕ)
  sessions : List Files.FileSession
  calls : List Files.Call
  touched : List (Files.Descriptor × Option ℕ)

namespace Files

inductive Event where
  | start (id : String)
  /-- A call looks its session up. -/
  | call (id : String) (op : Operation)
  | acquire (i : ℕ)
  /-- The `os.open` of a call, with the number that the kernel gives or an error. -/
  | openFile (i : ℕ) (fd : Option ℕ)
  /-- The opened file is of the right kind. A directory gets its iterator. -/
  | enter (i : ℕ) (key : Bytes) (entries : ℕ)
  | reject (i : ℕ)
  /-- A call finds the handle that it works on, or not. -/
  | find (i : ℕ)
  /-- One system call on the descriptor. -/
  | touch (i : ℕ)
  | closeFile (i : ℕ)
  /-- The call returns or raises, and leaves the lock. -/
  | leave (i : ℕ)

def init : Files where
  table _ := none
  opens := 0
  registry := []
  sessions := []
  calls := []
  touched := []

/-- A call goes on with its session. -/
def turn (s : Files) (i : ℕ) (c : Call) (session : FileSession) : Files :=
  { s with calls := s.calls.set i c, sessions := s.sessions.set c.session session }

def finish (s : Files) (i : ℕ) (c : Call) (session : FileSession) : Files :=
  s.turn i { c with phase := .ended } { session with lock := none }

/-- A call and its session. -/
def withCall (s : Files) (i : ℕ) (next : Call → FileSession → Option Files) : Option Files :=
  (s.calls[i]?).bind fun c => (s.sessions[c.session]?).bind fun session => next c session

/-- The kernel opens a file under a free number. -/
def opening (s : Files) (fd : ℕ) : Files :=
  { s with table := Function.update s.table fd (some (s.opens + 1)), opens := s.opens + 1 }

/-- The kernel looks at a number. -/
def touching (s : Files) (fd : Descriptor) : Files :=
  { s with touched := s.touched ++ [(fd, s.table fd.1)] }

/-- `os.open` for a call, below the limit of its session. -/
def openFor (s : Files) (i : ℕ) (c : Call) (session : FileSession) : Option ℕ → Option Files
  | none => some (s.finish i c session)
  | some n =>
      if maxHandles ≤ session.handles.length then
        some (s.finish i c session)
      else if s.table n = none then
        some ((s.opening n).turn i { c with phase := .opened (n, s.opens + 1) } session)
      else
        none

def step (s : Files) : Event → Option Files
  | .start id =>
      if id ∈ s.registry.map Prod.fst then
        some s
      else
        some { s with
          registry := s.registry ++ [(id, s.sessions.length)]
          sessions := s.sessions ++ [.new] }
  | .call id op =>
      if op.valid then
        match s.registry.lookup id with
        | none => some s
        | some o =>
            some { s with
              registry := if op = .release then Assoc.del id s.registry else s.registry
              calls := s.calls ++ [⟨o, op, .wants⟩] }
      else
        some s
  | .acquire i =>
      s.withCall i fun c session =>
        if c.phase = .wants ∧ session.lock = none then
          if c.op = .release then
            some (s.turn i { c with phase := .closing session.resources } ⟨[], some i, true⟩)
          else if session.closed then
            some (s.finish i c session)
          else
            some (s.turn i { c with phase := .inside } { session with lock := some i })
        else
          none
  | .openFile i fd =>
      s.withCall i fun c session =>
        match c.phase, c.op with
        | .inside, .open _ | .inside, .opendir => s.openFor i c session fd
        | _, _ => none
  | .enter i key entries =>
      s.withCall i fun c session =>
        -- `uuid4` gives a key that no handle has
        if key ∈ session.handles.map Prod.fst then
          none
        else
          match c.phase, c.op with
          | .opened fd, .open flags =>
              some (s.finish i c { session with
                handles := session.handles ++ [(key, ⟨fd, hasFlag flags 0x04, none⟩)] })
          | .opened fd, .opendir =>
              if s.table entries = none then
                some ((s.opening entries).finish i c { session with
                  handles := session.handles ++
                    [(key, ⟨fd, false, some (entries, s.opens + 1)⟩)] })
              else
                none
          | _, _ => none
  | .reject i =>
      s.withCall i fun c session =>
        match c.phase with
        | .opened fd => some (s.turn i { c with phase := .closing [fd] } session)
        | _ => none
  | .find i =>
      s.withCall i fun c session =>
        match c.phase, c.op with
        | .inside, .close handle =>
            match Assoc.get session.handles handle with
            | none => some (s.finish i c session)
            | some h =>
                some (s.turn i { c with phase := .closing h.resources }
                  { session with handles := Assoc.del handle session.handles })
        | .inside, .io handle directory =>
            match session.get handle directory with
            | none => some (s.finish i c session)
            | some h =>
                some (s.turn i { c with phase := .using (h.entries.getD h.fd) } session)
        | _, _ => none
  | .touch i =>
      s.withCall i fun c _ =>
        match c.phase with
        | .using fd => some (s.touching fd)
        | _ => none
  | .closeFile i =>
      s.withCall i fun c session =>
        match c.phase with
        | .closing (fd :: fds) =>
            some ({ s.touching fd with table := Function.update s.table fd.1 none }.turn i
              { c with phase := .closing fds } session)
        | _ => none
  | .leave i =>
      s.withCall i fun c session =>
        match c.phase, c.op with
        | .inside, .path | .using _, _ | .closing [], _ => some (s.finish i c session)
        | _, _ => none

end Files

end Rmote
