import Mathlib.Data.List.AList
import Rmote.Library.Blocks
import Rmote.Wire.Flags

/-!
# The two sessions of a file synchronization

A sending `Session` is a `Sender` and a receiving one is a `Receiver`. Both run code that
may raise and that keeps what it has done until then, so their methods are `EStateM`
programs over the session. `sha` is SHA-256.

The destination is known through its path, which names nothing, a regular file or
something else. A file has an identity of its own, so a replaced file is noticed by
`check` even when its content is the same. Reads and writes of the file system succeed;
ownership and mode of the files are not modelled.
-/

namespace Rmote

namespace FileSync

/-- A regular file. -/
structure File where
  inode : ℕ
  content : Bytes
  deriving DecidableEq

/-- What a path names. -/
inductive Node where
  | absent
  | regular (file : File)
  | symlink
  | special
  deriving DecidableEq

/-- The bytes under a path, if it names a regular file. -/
def Node.content : Node → Option Bytes
  | .regular file => some file.content
  | _ => none

inductive SyncError where
  | blockSize
  | negativeSize
  | notFound
  | symlink
  | notRegular
  | appeared
  | fileChanged
  | missingDecisions
  | unexpectedDecisions
  | sourceChanged
  | invalidMessage
  | invalidSignature
  | unexpectedContent
  | badContent
  | destinationChanged
  | incomplete
  | digestMismatch
  deriving DecidableEq, Repr

def SyncError.message : SyncError → String
  | .blockSize => "block_size must be between 1 and 16777216"
  | .negativeSize => "size must be non-negative"
  | .notFound => "No such file or directory"
  | .symlink => "Too many levels of symbolic links"
  | .notRegular => "Not a regular file"
  | .appeared => "Destination appeared during transfer"
  | .fileChanged => "File changed during transfer"
  | .missingDecisions => "Missing block decisions"
  | .unexpectedDecisions => "Unexpected block decisions"
  | .sourceChanged => "Source size changed during transfer"
  | .invalidMessage => "Invalid transfer message"
  | .invalidSignature => "Invalid block signature"
  | .unexpectedContent => "Unexpected block content"
  | .badContent => "Block does not match its signature"
  | .destinationChanged => "Destination size changed during transfer"
  | .incomplete => "Incomplete transfer"
  | .digestMismatch => "File digest mismatch"

/-- Summary of a completed file synchronization. -/
structure SyncResult where
  changed : Bool
  size : ℕ
  transferred : ℕ
  reused : ℕ
  deriving DecidableEq, Repr

/-- One message of a sender: new signatures, requested content, final hash. -/
structure Batch where
  signatures : List (ℤ × Bytes)
  blocks : List Bytes
  digest : Option Bytes

/-- One planned block of a receiver, in block order. -/
structure Planned where
  length : ℕ
  signature : Bytes
  matched : Bool

/-- What a sender gets: nothing, one decision for each signature, or anything else. -/
inductive Decisions where
  | none
  | list (decisions : List Bool)
  | other

/-- What a receiver gets. -/
inductive Message where
  | batch (batch : Batch)
  | other

/-- What a receiver answers. -/
inductive Reply where
  | decisions (decisions : List Bool)
  | result (result : SyncResult)

def signatureBatch : ℕ := 64

/-- Content bytes that one message may carry. -/
def window : ℕ := 8 * 1024 * 1024

/-- The largest block. -/
def maxBlockSize : ℕ := 16 * 1024 * 1024

/-- The file is opened, unless it is not a regular one. -/
def openRegular : Node → Except SyncError File
  | .absent => .error .notFound
  | .regular file => .ok file
  | .symlink => .error .symlink
  | .special => .error .notRegular

/-- The block size that a session accepts. -/
def checkBlockSize (blockSize : ℤ) : Except SyncError ℕ :=
  if 0 < blockSize ∧ blockSize ≤ maxBlockSize then .ok blockSize.toNat else .error .blockSize

/-- Raise if the path does not name the file that the session opened. -/
def check (initial : Option File) (current : Node) : Except SyncError Unit :=
  match initial, current with
  | none, .absent => .ok ()
  | none, _ => .error .appeared
  | some file, .regular file' =>
      if file'.inode = file.inode ∧ file'.content.length = file.content.length then
        .ok ()
      else
        .error .fileChanged
  | some _, _ => .error .fileChanged

/-- What a read at an offset gives. -/
def readAt (content : Bytes) (offset length : ℕ) : Bytes := (content.drop offset).take length

/-! ## The sender -/

/-- A sending session. `path` is what its path names while it runs. -/
structure Sender where
  path : Node
  old : File
  blockSize : ℕ
  size : ℕ
  offset : ℕ
  sent : List (ℕ × ℕ)
  requests : List (ℕ × ℕ)
  cache : AList fun _ : ℕ => Bytes
  matching : Bool
  chain : Bytes

namespace Sender

def new (path : Node) (blockSize : ℤ) : Except SyncError Sender := do
  let blockSize ← checkBlockSize blockSize
  let old ← openRegular path
  pure {
    path := path
    old := old
    blockSize := blockSize
    size := old.content.length
    offset := 0
    sent := []
    requests := []
    cache := ∅
    matching := false
    chain := [] }

/-- Read one block of the source, or report that the source changed. -/
def read (offset length : ℕ) : EStateM SyncError Sender Bytes := do
  let s ← get
  let data := readAt s.old.content offset length
  if data.length = length then pure data else throw .sourceChanged

/-- The content of a block, which is read again unless it was kept. -/
def fetch (offset length : ℕ) : Option Bytes → EStateM SyncError Sender Bytes
  | some data => pure data
  | none => read offset length

/-- A matched block is forgotten, and one that differs is asked for. -/
def answer (s : Sender) (block : ℕ × ℕ) (matched : Bool) : Sender :=
  if matched then
    { s with cache := s.cache.erase block.1 }
  else
    { s with requests := s.requests ++ [block] }

/-- The decisions of the receiver, one for each block that was signed. -/
def answers (s : Sender) (blocks : List (ℕ × ℕ)) (decisions : List Bool) : Sender :=
  (blocks.zip decisions).foldl (fun s block => s.answer block.1 block.2) s

/-- The loop of `content` over the requests, with the blocks and bytes gathered. -/
def contentLoop : List (ℕ × ℕ) → List Bytes → ℕ → EStateM SyncError Sender (List Bytes)
  | [], blocks, _ => pure blocks
  | (offset, length) :: requests, blocks, total =>
      if blocks.isEmpty = false ∧ window < total + length then
        pure blocks
      else do
        let s ← get
        set { s with requests := requests, cache := s.cache.erase offset }
        let data ← fetch offset length (s.cache.lookup offset)
        contentLoop requests (blocks ++ [data]) (total + length)

/-- Read the blocks the receiver asked for, up to the window. -/
def content : EStateM SyncError Sender (List Bytes) := do
  let s ← get
  contentLoop s.requests [] 0

/-- How many blocks to sign in one message. -/
def ahead (s : Sender) : ℕ := if s.matching then signatureBatch else max 1 (window / s.blockSize)

variable (sha : Bytes → Bytes)

/-- One block is signed. -/
def sign (s : Sender) (keep : Bool) (length : ℕ) (data : Bytes) : Sender :=
  { s with
    cache := if keep then s.cache.insert s.offset data else s.cache
    chain := s.chain ++ sha data
    sent := s.sent ++ [(s.offset, length)]
    offset := s.offset + length }

/-- The loop of `signatures`, for at most `limit` blocks. -/
def signLoop (keep : Bool) : ℕ → EStateM SyncError Sender (List (ℤ × Bytes))
  | 0 => pure []
  | limit + 1 => do
      let s ← get
      if s.offset < s.size then
        let length := min s.blockSize (s.size - s.offset)
        let data ← read s.offset length
        modify fun s => s.sign sha keep length data
        let rest ← signLoop keep limit
        pure ((length, sha data) :: rest)
      else
        pure []

/-- Sign the next blocks of the source, up to the batch this mode allows. -/
def signatures : EStateM SyncError Sender (List (ℤ × Bytes)) := do
  let s ← get
  signLoop sha (!s.matching) s.ahead

/-- Take the decisions of the receiver. -/
def decide : Decisions → EStateM SyncError Sender PUnit
  | .none => do
      let s ← get
      if s.sent.isEmpty then pure () else throw .missingDecisions
  | .list decisions => do
      let s ← get
      if decisions.length = s.sent.length then
        let s := s.answers s.sent decisions
        set { s with
          matching := if decisions.isEmpty then s.matching else decisions.all id
          sent := [] }
      else
        throw .unexpectedDecisions
  | .other => throw .unexpectedDecisions

/-- Nothing is left to sign, to send or to be decided. -/
def done (s : Sender) : Bool := s.offset == s.size && s.requests.isEmpty && s.sent.isEmpty

/-- Answer the decisions of the receiver with content and signatures. -/
def send (decisions : Decisions) : EStateM SyncError Sender Batch := do
  decide decisions
  let blocks ← content
  let signatures ← signatures sha
  let s ← get
  pure ⟨signatures, blocks, if s.done then some (sha s.chain) else none⟩

def step (decisions : Decisions) : EStateM SyncError Sender Batch := do
  let s ← get
  match check (some s.old) s.path with
  | .error error => throw error
  | .ok _ => send sha decisions

end Sender

/-! ## The receiver -/

/-- A receiving session. `path` is what its path names, `output` is the file that was
written since the first block that differed, and `temp` tells whether its temporary name
is in the directory. -/
structure Receiver where
  path : Node
  old : Option File
  blockSize : ℕ
  size : ℕ
  output : Option File
  temp : Bool
  offset : ℕ
  plan : List Planned
  decided : ℕ
  chain : Bytes
  transferred : ℕ
  reused : ℕ

namespace Receiver

/-- The destination that a receiver opens; it need not exist. -/
def openOld (path : Node) : Except SyncError (Option File) :=
  match openRegular path with
  | .ok file => .ok (some file)
  | .error .notFound => .ok none
  | .error error => .error error

def new (path : Node) (blockSize size : ℤ) : Except SyncError Receiver := do
  let blockSize ← checkBlockSize blockSize
  if size < 0 then
    throw .negativeSize
  let old ← openOld path
  pure {
    path := path
    old := old
    blockSize := blockSize
    size := size.toNat
    output := none
    temp := false
    offset := 0
    plan := []
    decided := 0
    chain := []
    transferred := 0
    reused := 0 }

/-- Read one block of the destination, which can be shorter than asked. -/
def block (r : Receiver) (offset length : ℕ) : Bytes :=
  match r.old with
  | some file => readAt file.content offset length
  | none => []

/-- Bytes are appended to the temporary file. -/
def put (data : Bytes) (r : Receiver) : Receiver :=
  { r with output := r.output.map fun file => { file with content := file.content ++ data } }

/-- The loop of `start` that copies the part that matched. -/
def copyLoop : ℕ → ℕ → ℕ → EStateM SyncError Receiver PUnit
  | 0, _, _ => pure ()
  | fuel + 1, position, remaining =>
      if remaining = 0 then
        pure ()
      else do
        let r ← get
        let chunk := r.block position (min r.blockSize remaining)
        if chunk.isEmpty then
          throw .destinationChanged
        modify (put chunk)
        copyLoop fuel (position + chunk.length) (remaining - chunk.length)

/-- The temporary file is created, with an identity that no other file has. -/
def create (r : Receiver) : Receiver :=
  { r with
    output := some ⟨(r.old.map fun file => file.inode + 1).getD 0, []⟩
    temp := true }

/-- Open the temporary file and copy the part that already matched. -/
def start : EStateM SyncError Receiver PUnit := do
  modify create
  let r ← get
  if r.offset = 0 ∨ r.old.isNone then
    pure ()
  else
    copyLoop r.offset 0 r.offset

/-- The position and the chain of signatures go on by one block. -/
def advance (signature : Bytes) (length : ℕ) (r : Receiver) : Receiver :=
  { r with chain := r.chain ++ signature, offset := r.offset + length }

/-- Append already verified bytes to the temporary file. -/
def append (data signature : Bytes) : EStateM SyncError Receiver PUnit := do
  let r ← get
  if r.output.isNone then
    start
  modify (put data)
  modify (advance signature data.length)

/-- The plan is what follows its first block. -/
def pop (plan : List Planned) (r : Receiver) : Receiver := { r with plan := plan }

/-- Bytes came over the connection. -/
def count (length : ℕ) (r : Receiver) : Receiver := { r with transferred := r.transferred + length }

variable (sha : Bytes → Bytes)

/-- Write one requested block, after checking it against its signature. -/
def write (data : Bytes) : EStateM SyncError Receiver PUnit := do
  let r ← get
  match r.plan with
  | [] => throw .unexpectedContent
  | planned :: plan =>
      if planned.matched then
        throw .unexpectedContent
      else if data.length ≠ planned.length ∨ sha data ≠ planned.signature then
        throw .badContent
      else do
        modify (pop plan)
        append data planned.signature
        modify (count data.length)

/-- Account for a block the destination already holds. -/
def keep (length : ℕ) (signature : Bytes) : EStateM SyncError Receiver PUnit := do
  let r ← get
  if r.output.isSome then
    let data := r.block r.offset length
    if data.length ≠ length then
      throw .destinationChanged
    modify (put data)
  modify (advance signature length)

/-- The loop of `commit` over the planned blocks. -/
def commitLoop : List Planned → EStateM SyncError Receiver PUnit
  | [] => pure ()
  | planned :: plan =>
      if planned.matched then do
        modify (pop plan)
        keep planned.length planned.signature
        commitLoop plan
      else
        pure ()

/-- Take the planned blocks the destination already holds, in order. -/
def commit : EStateM SyncError Receiver PUnit := do
  let r ← get
  commitLoop r.plan

/-- One more block is planned. -/
def schedule (length : ℕ) (signature : Bytes) (matched : Bool) (r : Receiver) : Receiver :=
  { r with
    plan := r.plan ++ [⟨length, signature, matched⟩]
    decided := r.decided + length
    reused := if matched then r.reused + length else r.reused }

/-- Compare one signature with the block of the destination at its place. -/
def decide (length : ℤ) (signature : Bytes) : EStateM SyncError Receiver Bool := do
  let r ← get
  if length ≤ 0 ∨ length ≠ min (r.blockSize : ℤ) (r.size - r.decided) then
    throw .invalidSignature
  else
    let data := r.block r.decided length.toNat
    let matched := data.length == length.toNat && sha data == signature
    modify (schedule length.toNat signature matched)
    pure matched

def decideLoop : List (ℤ × Bytes) → EStateM SyncError Receiver (List Bool)
  | [] => pure []
  | (length, signature) :: signatures => do
      let decision ← decide sha length signature
      let decisions ← decideLoop signatures
      pure (decision :: decisions)

def receiveLoop : List Bytes → EStateM SyncError Receiver PUnit
  | [] => pure ()
  | data :: blocks => do
      write sha data
      commit
      receiveLoop blocks

/-- Raise if the destination is not the one that the session opened. -/
def verify : EStateM SyncError Receiver PUnit := do
  let r ← get
  match check r.old r.path with
  | .error error => throw error
  | .ok _ => pure ()

/-- The result differs from what the destination holds. -/
def changed (r : Receiver) : Bool :=
  match r.old with
  | none => true
  | some file => file.content.length != r.size || 0 < r.transferred

/-- `os.replace` moves the temporary file to the path. -/
def replace (r : Receiver) : Receiver :=
  match r.output with
  | some file => { r with path := .regular file, temp := false }
  | none => r

/-- Verify the hash over the block signatures and install the output. -/
def finish (digest : Bytes) : EStateM SyncError Receiver SyncResult := do
  let r ← get
  if r.offset ≠ r.size then
    throw .incomplete
  if sha r.chain ≠ digest then
    throw .digestMismatch
  verify
  if r.changed then
    if r.output.isNone then
      start
    verify
    modify replace
  pure ⟨r.changed, r.size, r.transferred, r.reused⟩

/-- Write the content that arrived, then decide on the new signatures. -/
def receive : Message → EStateM SyncError Receiver Reply
  | .other => throw .invalidMessage
  | .batch message => do
      receiveLoop sha message.blocks
      let decisions ← decideLoop sha message.signatures
      commit
      match message.digest with
      | some digest => do
          let result ← finish sha digest
          pure (.result result)
      | none => pure (.decisions decisions)

def step (message : Message) : EStateM SyncError Receiver Reply := do
  verify
  receive sha message

/-- Close the descriptors and remove any remaining temporary file. -/
def close (r : Receiver) : Receiver := { r with temp := false }

end Receiver

/-! ## The exchange -/

variable (sha : Bytes → Bytes)

/-- The loop of `transfer`: both sides in turn, until the receiver has its result. -/
def exchange : ℕ → Sender → Receiver → Decisions →
    Option (Except SyncError SyncResult × Sender × Receiver)
  | 0, _, _, _ => none
  | fuel + 1, s, r, decisions =>
      match (Sender.step sha decisions).run s with
      | .error error s => some (.error error, s, r)
      | .ok batch s =>
          match (Receiver.step sha (.batch batch)).run r with
          | .error error r => some (.error error, s, r)
          | .ok (.result result) r => some (.ok result, s, r)
          | .ok (.decisions decisions) r => exchange fuel s r (.list decisions)

end FileSync

end Rmote
