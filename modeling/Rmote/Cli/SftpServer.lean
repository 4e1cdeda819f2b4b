import Rmote.Cli.SftpPacket

/-!
# An SFTP session

`run` reads packets from its input, which comes in chunks, has `Files` do what they ask,
and answers them one by one. Whatever ends the session, an exception or the end of the
input, the last call is `Files.release`. What `Files` answers, how writes go and how the
system shows times and modes are parameters, so that nothing is assumed of them here.
-/

namespace Rmote

namespace Sftp

/-- A text of Python, as its code points, lone surrogates among them. -/
abbrev PyText := List ℕ

def pyText (text : String) : PyText := text.toList.map Char.toNat

/-- The errors of the standard library while a reply is built. -/
inductive LibraryError where
  /-- A text with a lone surrogate that stands for no byte. -/
  | unicode
  /-- A number that its field has no room for. -/
  | struct
  /-- A time that is no finite number. -/
  | infinite
  | nan
  /-- A time that the system shows no date of. -/
  | localtimeRange
  | localtimeSystem
  deriving DecidableEq, Repr

/-- An exception; `other` is one that nothing here catches, and being cancelled is one. -/
inductive Exn where
  | value (message : PyText)
  | overflow (message : PyText)
  | struct (message : PyText)
  | notImplemented (message : PyText)
  | os (errno : Option ℤ) (connection : Bool) (message : PyText)
  | eof
  | other
  deriving DecidableEq, Repr

def LibraryError.exn : LibraryError → Exn
  | unicode => .value (pyText "'utf-8' codec can't encode characters: surrogates not allowed")
  | struct => .struct (pyText "argument out of range")
  | infinite => .overflow (pyText "cannot convert float infinity to integer")
  | nan => .value (pyText "cannot convert float NaN to integer")
  | localtimeRange => .overflow (pyText "timestamp out of range for platform time_t")
  | localtimeSystem =>
      .os (some 75) false (pyText "[Errno 75] Value too large for defined data type")

def PacketError.exn : PacketError → Exn
  | truncated => .value (pyText "Truncated SFTP packet")
  | nulInPath => .value (pyText "NUL in path")
  | unknownFlags => .value (pyText "Unknown attribute flags")
  | extendedAttributes => .notImplemented (pyText "Extended attributes are not supported")
  | unexpectedData => .value (pyText "Unexpected data in SFTP packet")
  | unsupportedExtension => .notImplemented (pyText "Unsupported SFTP extension")
  | unsupportedRequest => .notImplemented (pyText "Unsupported SFTP request")

inductive Status where
  | ok
  | eof
  | noSuchFile
  | permissionDenied
  | failure
  | badMessage
  | opUnsupported
  deriving DecidableEq, Repr

def Status.code : Status → ℕ
  | ok => 0
  | eof => 1
  | noSuchFile => 2
  | permissionDenied => 3
  | failure => 4
  | badMessage => 5
  | opUnsupported => 8

/-- The bytes of a code point in UTF-8; an escaped byte is itself. -/
def encodePoint (n : ℕ) : Except LibraryError Bytes :=
  if n < 0x80 then .ok [UInt8.ofNat n]
  else if n < 0x800 then .ok [UInt8.ofNat (0xc0 + n / 64), UInt8.ofNat (0x80 + n % 64)]
  else if 0xd800 ≤ n ∧ n < 0xe000 then
    if 0xdc80 ≤ n ∧ n ≤ 0xdcff then .ok [UInt8.ofNat (n - 0xdc00)] else .error .unicode
  else if n < 0x10000 then
    .ok [UInt8.ofNat (0xe0 + n / 4096), UInt8.ofNat (0x80 + n / 64 % 64),
      UInt8.ofNat (0x80 + n % 64)]
  else
    .ok [UInt8.ofNat (0xf0 + n / 262144), UInt8.ofNat (0x80 + n / 4096 % 64),
      UInt8.ofNat (0x80 + n / 64 % 64), UInt8.ofNat (0x80 + n % 64)]

/-- `text.encode("utf-8", "surrogateescape")`. -/
def encodeText : PyText → Except LibraryError Bytes
  | [] => return []
  | n :: text => do
      let first ← encodePoint n
      let rest ← encodeText text
      return first ++ rest

/-- A number in so many bytes. -/
def packNumber (width : ℕ) (n : ℤ) : Except LibraryError Bytes :=
  if 0 ≤ n ∧ n.toNat < 256 ^ width then .ok (BigEndian.encode width n.toNat) else .error .struct

/-- `string` of bytes. -/
def packBytes (value : Bytes) : Except LibraryError Bytes := do
  let length ← packNumber 4 value.length
  return length ++ value

/-- `string` of a text. -/
def packText (value : PyText) : Except LibraryError Bytes := do
  let data ← encodeText value
  packBytes data

/-- A time of a file. Only its whole seconds matter. -/
inductive Time where
  | finite (seconds : ℤ)
  | infinite
  | nan
  deriving DecidableEq, Repr

def Time.toInt : Time → Except LibraryError ℤ
  | finite seconds => .ok seconds
  | infinite => .error .infinite
  | nan => .error .nan

/-- `os.stat_result`. -/
structure Stat where
  size : ℤ
  uid : ℤ
  gid : ℤ
  mode : ℤ
  nlink : ℤ
  atime : Time
  mtime : Time
  deriving DecidableEq, Repr

def attributes (value : Stat) : Except LibraryError Bytes := do
  let atime ← value.atime.toInt
  let mtime ← value.mtime.toInt
  let flags ← packNumber 4 0xf
  let size ← packNumber 8 value.size
  let uid ← packNumber 4 value.uid
  let gid ← packNumber 4 value.gid
  let mode ← packNumber 4 value.mode
  let atime ← packNumber 4 (max 0 (min atime 0xffffffff))
  let mtime ← packNumber 4 (max 0 (min mtime 0xffffffff))
  return flags ++ size ++ uid ++ gid ++ mode ++ atime ++ mtime

/-- How the system shows a time and a mode. -/
structure Display where
  date : Time → Except LibraryError PyText
  filemode : ℤ → Except LibraryError PyText

/-- An entry without attributes. -/
def bareEntry (name : PyText) : Except LibraryError Bytes := do
  let first ← packText name
  let second ← packText name
  let flags ← packNumber 4 0
  return first ++ second ++ flags

/-- An entry with attributes, and the line that `ls -l` shows of it. -/
def nameEntry (display : Display) (name : PyText) (attrs : Stat) : Except LibraryError Bytes := do
  let date ← display.date attrs.mtime
  let filemode ← display.filemode attrs.mode
  let blank := pyText " "
  let longname := filemode ++ blank ++ pyText (toString attrs.nlink) ++ blank ++
    pyText (toString attrs.uid) ++ blank ++ pyText (toString attrs.gid) ++ blank ++
    pyText (toString attrs.size) ++ blank ++ date ++ blank ++ name
  let first ← packText name
  let second ← packText longname
  let third ← attributes attrs
  return first ++ second ++ third

def nameEntries (display : Display) : List (PyText × Stat) → Except LibraryError Bytes
  | [] => return []
  | (name, attrs) :: entries => do
      let first ← nameEntry display name attrs
      let rest ← nameEntries display entries
      return first ++ rest

/-- What an operation of `Files` returns. -/
def FilesCall.Result : FilesCall → Type
  | openFile _ _ _ => Bytes
  | read _ _ _ => Bytes
  | stat _ _ => Stat
  | fstat _ => Stat
  | opendir _ => Bytes
  | readdir _ => List (PyText × Stat)
  | realpath _ => PyText
  | readlink _ => PyText
  | _ => Unit

/-- The payload of a status. -/
def statusData (code : Status) (message : PyText) : Except LibraryError Bytes := do
  let number ← packNumber 4 code.code
  let text ← packText message
  let language ← packBytes []
  return number ++ text ++ language

/-- The reply to a request, from what `Files` returned. A read of no bytes is answered with data,
and one that got none with the end of the file. -/
def answer (display : Display) : (call : FilesCall) → call.Result →
    Except LibraryError (Message × Bytes)
  | .openFile _ _ _, handle => do return (.handle, ← packBytes handle)
  | .opendir _, handle => do return (.handle, ← packBytes handle)
  | .read _ _ size, (data : Bytes) => do
      if data ≠ [] ∨ size = 0 then return (.data, ← packBytes data)
      else return (.status, ← statusData .eof [])
  | .stat _ _, value => do return (.attrs, ← attributes value)
  | .fstat _, value => do return (.attrs, ← attributes value)
  | .readdir _, (entries : List (PyText × Stat)) => do
      if entries ≠ [] then
        let count ← packNumber 4 entries.length
        let names ← nameEntries display entries
        return (.name, count ++ names)
      else return (.status, ← statusData .eof [])
  | .realpath _, name => do
      let count ← packNumber 4 1
      return (.name, count ++ (← bareEntry name))
  | .readlink _, name => do
      let count ← packNumber 4 1
      return (.name, count ++ (← bareEntry name))
  | .start, _ => do return (.status, ← statusData .ok [])
  | .release, _ => do return (.status, ← statusData .ok [])
  | .close _, _ => do return (.status, ← statusData .ok [])
  | .write _ _ _, _ => do return (.status, ← statusData .ok [])
  | .setstat _ _, _ => do return (.status, ← statusData .ok [])
  | .fsetstat _ _, _ => do return (.status, ← statusData .ok [])
  | .symlink _ _, _ => do return (.status, ← statusData .ok [])
  | .mkdir _ _, _ => do return (.status, ← statusData .ok [])
  | .remove _ _, _ => do return (.status, ← statusData .ok [])
  | .rename _ _ _, _ => do return (.status, ← statusData .ok [])
  | .fsync _, _ => do return (.status, ← statusData .ok [])

/-- A reply as it is sent. -/
def frame (kind : Message) (request : ℕ) (data : Bytes) : Except LibraryError Bytes := do
  let id ← packNumber 4 request
  let payload := UInt8.ofNat kind.code :: id ++ data
  let length ← packNumber 4 payload.length
  return length ++ payload

/-- The status that an error number stands for. -/
def errnoStatus : ℤ → Status
  | 2 => .noSuchFile
  | 20 => .noSuchFile
  | 13 => .permissionDenied
  | 1 => .permissionDenied
  | 38 => .opUnsupported
  | 95 => .opUnsupported
  | _ => .failure

/-- The status of an exception that `request` catches. -/
def statusOf : Exn → Option (Status × PyText)
  | .value message => some (.badMessage, message)
  | .overflow message => some (.badMessage, message)
  | .struct message => some (.badMessage, message)
  | .notImplemented message => some (.opUnsupported, message)
  | .os errno _ message => some (errnoStatus (errno.getD 0), message)
  | .eof => none
  | .other => none

/-- What a session has outside: `Files`, given the calls so far, its output, given the number of
writes so far, and what the system shows. -/
structure Env where
  files : List FilesCall → (call : FilesCall) → Except Exn call.Result
  wire : ℕ → Option Exn
  display : Display

/-- The input: the chunks that come, and how it ends behind them. -/
structure Input where
  chunks : List Bytes
  ending : Option Exn
  deriving DecidableEq, Repr

/-- What is still to be read. -/
def Input.bytes (input : Input) : Bytes := input.chunks.flatten

/-- At most so many bytes of the next chunk, and nothing at the end of the input. -/
def readChunk (size : ℕ) : List Bytes → Bytes × List Bytes
  | [] => ([], [])
  | [] :: chunks => readChunk size chunks
  | (b :: chunk) :: chunks =>
      ((b :: chunk).take size,
        if size < (b :: chunk).length then (b :: chunk).drop size :: chunks else chunks)

def Input.read (input : Input) (size : ℕ) : Except Exn Bytes × Input :=
  match readChunk size input.chunks with
  | ([], chunks) =>
      match input.ending with
      | some e => (.error e, { input with chunks := chunks })
      | none => (.ok [], { input with chunks := chunks })
  | (data, chunks) => (.ok data, { input with chunks := chunks })

/-- The loop of `exact`, which reads at least one byte in each turn. -/
def exactLoop (size : ℕ) (allowEof : Bool) : ℕ → Bytes → Input → Except Exn Bytes × Input
  | fuel, data, input =>
      if size ≤ data.length then (.ok data, input)
      else
        match fuel with
        | 0 => (.error .other, input)
        | fuel + 1 =>
            match input.read (size - data.length) with
            | (.error e, input) => (.error e, input)
            | (.ok chunk, input) =>
                if chunk = [] then
                  if allowEof = true ∧ data = [] then (.error .eof, input)
                  else (.error (.value (pyText "Truncated SFTP packet")), input)
                else exactLoop size allowEof fuel (data ++ chunk) input

def exact (size : ℕ) (allowEof : Bool) (input : Input) : Except Exn Bytes × Input :=
  exactLoop size allowEof size [] input

structure Server where
  input : Input
  calls : List FilesCall
  writes : ℕ
  sent : List Bytes
  deriving DecidableEq, Repr

namespace Server

variable (env : Env) (s : Server)

def call (c : FilesCall) : Except Exn c.Result × Server :=
  (env.files s.calls c, { s with calls := s.calls ++ [c] })

def write (bytes : Bytes) : Except Exn Unit × Server :=
  match env.wire s.writes with
  | some e => (.error e, { s with writes := s.writes + 1 })
  | none => (.ok (), { s with writes := s.writes + 1, sent := s.sent ++ [bytes] })

def send (kind : Message) (request : ℕ) (data : Bytes) : Except Exn Unit × Server :=
  match frame kind request data with
  | .error e => (.error e.exn, s)
  | .ok bytes => s.write env bytes

def status (request : ℕ) (code : Status) (message : PyText) : Except Exn Unit × Server :=
  match statusData code message with
  | .error e => (.error e.exn, s)
  | .ok data => s.send env .status request data

def dispatch (kind request : ℕ) (packet : Packet) : Except Exn Unit × Server :=
  match parse (Message.ofCode kind) packet with
  | .error e => (.error e.exn, s)
  | .ok (c, _) =>
      match s.call env c with
      | (.error e, s) => (.error e, s)
      | (.ok result, s) =>
          match answer env.display c result with
          | .error e => (.error e.exn, s)
          | .ok (reply, data) => s.send env reply request data

def request (kind request : ℕ) (packet : Packet) : Except Exn Unit × Server :=
  match s.dispatch env kind request packet with
  | (.ok (), s) => (.ok (), s)
  | (.error e, s) =>
      match statusOf e with
      | some (code, message) => s.status env request code message
      | none => (.error e, s)

/-- The kind and the id of a packet. -/
def header : Parser (ℕ × ℕ) := do
  let kind ← take 1
  let request ← uint32
  return (BigEndian.decode kind, request)

/-- The payload of the `VERSION` reply. -/
def extensions : Except LibraryError Bytes := do
  let one ← packText (pyText "1")
  let rename ← packText (pyText "posix-rename@openssh.com")
  let fsync ← packText (pyText "fsync@openssh.com")
  return rename ++ one ++ fsync ++ one

/-- The answer to the first packet, which must be an `INIT`. -/
def greet (kind request : ℕ) (packet : Packet) : Except Exn Unit × Server :=
  if kind ≠ Message.init.code ∨ request < 3 then
    (.error (.value (pyText "Expected SFTP version 3 or later")), s)
  else
    match initPairs packet.data.length packet with
    | .error e => (.error e.exn, s)
    | .ok _ =>
        match extensions with
        | .error e => (.error e.exn, s)
        | .ok data => s.send env .version 3 data

/-- The next packet, with its kind and its id. -/
def next : Except Exn (ℕ × ℕ × Packet) × Server :=
  match exact 4 true s.input with
  | (.error e, input) => (.error e, { s with input := input })
  | (.ok length, input) =>
      let size := BigEndian.decode length
      if ¬(5 ≤ size ∧ size ≤ maxPacket) then
        (.error (.value (pyText "Invalid SFTP packet length")), { s with input := input })
      else
        match exact size false input with
        | (.error e, input) => (.error e, { s with input := input })
        | (.ok data, input) =>
            match header ⟨data, 0⟩ with
            | .error e => (.error e.exn, { s with input := input })
            | .ok ((kind, request), packet) =>
                (.ok (kind, request, packet), { s with input := input })

/-- The loop of `run`, up to the exception that ends it. -/
def loop : ℕ → Bool → Server → Option Exn × Server
  | 0, _, s => (none, s)
  | fuel + 1, initialized, s =>
      match s.next with
      | (.error e, s) => (some e, s)
      | (.ok (kind, request, packet), s) =>
          match if initialized then s.request env kind request packet
            else s.greet env kind request packet with
          | (.error e, s) => (some e, s)
          | (.ok (), s) => loop fuel true s

end Server

/-- How `run` ends. -/
inductive Ending where
  | returned
  | raised (e : Exn)
  /-- The loop of the model was cut short, which no run is. -/
  | exhausted
  deriving DecidableEq, Repr

/-- The exception is a `ConnectionError`. -/
def Exn.isConnection : Exn → Bool
  | os _ connection _ => connection
  | _ => false

/-- The session up to its end. -/
def body (env : Env) (input : Input) : Ending × Server :=
  match (⟨input, [], 0, []⟩ : Server).call env .start with
  | (.error .eof, s) => (.returned, s)
  | (.error e, s) => (.raised e, s)
  | (.ok _, s) =>
      match s.loop env (input.bytes.length + 1) false with
      | (some .eof, s) => (.returned, s)
      | (some e, s) => (.raised e, s)
      | (none, s) => (.exhausted, s)

/-- The whole session: at the end, however it comes, the handles are released. -/
def run (env : Env) (input : Input) : Ending × Server :=
  let (ending, s) := body env input
  match s.call env .release with
  | (.ok _, s) => (ending, s)
  | (.error e, s) => (if e.isConnection then ending else .raised e, s)

end Sftp

end Rmote
