import Mathlib.Logic.Function.Basic
import Rmote.Cli.MuxPacket
import Rmote.Library.Awaiting

/-!
# One client of the mux server

A `MuxClient` reads requests from its control socket, takes the descriptors of the client and runs
one session. Each `await` takes the next answer of what is outside: the socket, the remote side,
the tasks of the session. An answer may be an exception, and a cancellation is one. When no answer
is left the client waits.
-/

namespace Rmote

namespace Mux

open Sftp (PyText LibraryError pyText)
open Awaiting

/-- Wire identifiers from OpenSSH's multiplexing protocol. -/
inductive Message where
  | hello
  | newSession
  | aliveCheck
  | terminate
  | ok
  | failure
  | exitMessage
  | alive
  | sessionOpened
  deriving DecidableEq, Repr

def Message.code : Message → ℕ
  | hello => 0x00000001
  | newSession => 0x10000002
  | aliveCheck => 0x10000004
  | terminate => 0x10000005
  | ok => 0x80000001
  | failure => 0x80000003
  | exitMessage => 0x80000004
  | alive => 0x80000005
  | sessionOpened => 0x80000006

def maxPacket : ℕ := 256 * 1024

def nonBlock : ℕ := 0o4000

/-- The classes that the handlers tell apart. A connection error and a timeout are OS errors. -/
inductive Kind where
  | eof
  | connection
  | os
  | value
  | timeout
  | cancelled
  | other
  deriving DecidableEq, Repr

/-- `except (OSError, ValueError, TimeoutError)`. -/
def Kind.osOrValue : Kind → Bool
  | connection | os | value | timeout => true
  | eof | cancelled | other => false

/-- An exception with `str(error)`. -/
structure Raised where
  kind : Kind
  text : PyText
  deriving DecidableEq, Repr

/-- What the tasks of `bridge` that are done gave. -/
structure BridgeDone where
  output : Option (Except Raised ℤ)
  disconnected : Option (Except Raised Unit)
  resize : Option (Except Raised Unit)
  input : Option (Except Raised Bool)

/-- What an `await` ends with. -/
inductive Awaited where
  | done
  | chunk (data : Bytes)
  /-- `recvmsg`: one byte, whether the descriptors were cut, and those that came, with the open
  files that they are for. -/
  | message (data : Bytes) (truncated : Bool) (received : List (ℕ × ℕ))
  | forwarded (path : PyText)
  | opened (key : ℕ)
  | bridge (tasks : BridgeDone)
  | sftp (session : Option (Except Raised ℤ))
  | raised (e : Raised)

/-- What others see of the client. -/
inductive Effect where
  | asked (id : ℕ)
  | sent (values : List Value)
  /-- A packet that may have left in part. -/
  | cut (values : List Value)
  | took (fd : ℕ)
  | closed (fd : ℕ)
  | forwarded (path : PyText)
  | unforwarded
  /-- `Vty.shell` is called. -/
  | calling (command : PyText) (env : List (PyText × PyText))
  | opened (key : ℕ)
  /-- `Vty.close` is called. -/
  | released (key : ℕ)
  | stopped
  | disconnected
  deriving DecidableEq, Repr

structure NonBlocking where
  fd : ℕ
  saved : Option ℕ
  deriving DecidableEq, Repr

/-- What the client runs on. The flags of an open file that `fcntl` refuses do not change. -/
structure Host where
  pid : ℕ
  agentPath : PyText
  regular : ℕ → Bool
  refuses : ℕ → Bool

/-- The client, with the kernel's table of its descriptors and the flags of the open files. -/
structure Client where
  answers : List Awaited
  fds : List ℕ
  flags : List NonBlocking
  key : Option ℕ
  path : Option PyText
  table : ℕ → Option ℕ
  modes : ℕ → ℕ
  trace : List Effect

namespace Client

abbrev Task (α : Type) := Code Raised Client α

def raise {α : Type} (kind : Kind) (text : String) : Task α :=
  throw (.raised ⟨kind, pyText text⟩)

/-- The client sees nothing more. -/
def wait {α : Type} : Task α := throw .waiting

def awaited : Task Awaited := do
  let c ← get
  match c.answers with
  | [] => wait
  | .raised e :: answers => do
      set { c with answers := answers }
      throw (.raised e)
  | answer :: answers => do
      set { c with answers := answers }
      return answer

def note (effect : Effect) : Task Unit := modify fun c => { c with trace := c.trace ++ [effect] }

/-- An `await` with no value. -/
def pause : Task Unit := do
  match ← awaited with
  | .done => return ()
  | _ => wait

/-! ## The control socket -/

def recv (size : ℕ) : Task Bytes := do
  match ← awaited with
  | .chunk data => if data.length ≤ size then return data else wait
  | _ => wait

/-- The loop of `receive`. A turn adds a byte at least, so `size` of them are enough. -/
def receiveLoop (size : ℕ) : ℕ → Bytes → Task Bytes
  | fuel, chunks =>
      if chunks.length < size then
        match fuel with
        | 0 => wait
        | fuel + 1 => do
            let chunk ← recv (size - chunks.length)
            if chunk = [] then raise .eof "Mux client disconnected"
            else receiveLoop size fuel (chunks ++ chunk)
      else return chunks

def receive (size : ℕ) : Task Bytes := receiveLoop size size []

def receivePacket : Task Packet := do
  let length := BigEndian.decode (← receive 4)
  if 4 ≤ length ∧ length ≤ maxPacket then return ⟨← receive length, 0⟩
  else raise .value "Invalid mux packet length"

def errorText : PacketError → String
  | .truncated => "Truncated mux packet"
  | .nulInString => "NUL in mux string"
  | .unexpectedData => "Unexpected data in mux packet"
  | .invalidEscape => "Invalid escape character"
  | .invalidEnvironment => "Invalid environment variable"
  | .stuck => ""

/-- Read fields of a packet. -/
def parse {α : Type} (m : Reader α) (p : Packet) : Task (α × Packet) :=
  match m.run p with
  | .ok a q => return (a, q)
  | .error e _ => raise .value (errorText e)

/-- A packet that cannot be written is a `struct.error`, or a text that cannot be encoded. -/
def libraryKind : LibraryError → Kind
  | .unicode => .value
  | _ => .other

def send (values : List Value) : Task Unit :=
  match packet values with
  | .error e => raise (libraryKind e) ""
  | .ok _ =>
      except (do
        pause
        note (.sent values)) fun e => some do
          note (.cut values)
          throw (.raised e)

/-! ## Descriptors -/

/-- A descriptor that came is open from now on. -/
def adopt (received : ℕ × ℕ) : Task Unit :=
  modify fun c => { c with
    table := Function.update c.table received.1 (some received.2)
    trace := c.trace ++ [.took received.1] }

def close (fd : ℕ) : Task Unit :=
  modify fun c => { c with
    table := Function.update c.table fd none
    trace := c.trace ++ [.closed fd] }

/-- `receive_fd`. The kernel gives numbers that are not in use. -/
def receiveFd : Task Unit := do
  match ← awaited with
  | .message data truncated received => do
      let c ← get
      if (received.map Prod.fst).Nodup ∧ ∀ e ∈ received, c.table e.1 = none then
        received.forM adopt
        match data, truncated, received with
        | [0], false, [(fd, _)] => modify fun c => { c with fds := c.fds ++ [fd] }
        | _, _, _ => do
            received.forM fun e => close e.1
            raise .value "Expected one stdio descriptor"
      else wait
  | _ => wait

/-- The flags that `NonBlocking.enter` saves, unless the descriptor is a regular file. -/
def saved (host : Host) (c : Client) (fd : ℕ) : Option ℕ :=
  (c.table fd).bind fun file =>
    if host.regular file ∨ host.refuses file then none else some (c.modes file)

/-- `F_SETFL`. -/
def setFlags (table : ℕ → Option ℕ) (modes : ℕ → ℕ) (fd flags : ℕ) : ℕ → ℕ :=
  match table fd with
  | some file => Function.update modes file flags
  | none => modes

def entered (host : Host) (c : Client) (fd : ℕ) : ℕ → ℕ :=
  match c.saved host fd with
  | some flags => setFlags c.table c.modes fd (flags ||| nonBlock)
  | none => c.modes

def enter (host : Host) (fd : ℕ) : Task Unit :=
  modify fun c => { c with
    modes := c.entered host fd
    flags := c.flags ++ [⟨fd, c.saved host fd⟩] }

def restored (table : ℕ → Option ℕ) (item : NonBlocking) (modes : ℕ → ℕ) : ℕ → ℕ :=
  match item.saved with
  | some flags => setFlags table modes item.fd flags
  | none => modes

def restore (item : NonBlocking) : Task Unit :=
  modify fun c => { c with modes := restored c.table item c.modes }

def enterAll (host : Host) : Task Unit := do
  (← get).fds.forM (enter host)

/-! ## Sessions -/

/-- `contextlib.suppress(Exception)`. -/
def suppress (m : Task Unit) : Task Unit :=
  except m fun e => if e.kind = .cancelled then none else some (return ())

/-- One turn after the other of `bridge`. A turn uses up an answer. -/
def bridgeLoop : ℕ → Task ℤ
  | 0 => wait
  | fuel + 1 => do
      match ← awaited with
      | .bridge tasks =>
          match tasks.output, tasks.disconnected, tasks.resize, tasks.input with
          | some (.ok status), _, _, _ => return status
          | some (.error e), _, _, _ => throw (.raised e)
          | none, some (.ok _), _, _ => return 255
          | none, some (.error e), _, _ => throw (.raised e)
          | none, none, some (.error e), _ => throw (.raised e)
          | none, none, _, some (.ok true) => return 255
          | none, none, _, some (.error e) => throw (.raised e)
          | none, none, _, _ => bridgeLoop fuel
      | _ => wait

/-- The tasks are cancelled at the end, and `gather` waits for them. -/
def bridge : Task ℤ := do
  let c ← get
  andFinally (bridgeLoop (c.answers.length + 1)) pause

def number (n : ℕ) : Value := .number n

def code (m : Message) : Value := number m.code

def release (key : ℕ) : Task Unit := do
  note (.released key)
  pause

/-- The response of `Vty.shell`. -/
def awaitKey : Task ℕ := do
  match ← awaited with
  | .opened key => do
      note (.opened key)
      return key
  | _ => wait

/-- A cancelled open may have made its child: its key is collected and released. -/
def collect : Task Unit :=
  andFinally (suppress do release (← awaitKey)) pause

/-- The open of `shell_session`. Without a key the session is over. -/
def openShell (id : ℕ) : Task (Option ℕ) :=
  except (do return some (← awaitKey)) fun e => some <|
    if e.kind = .cancelled then do
      collect
      throw (.raised e)
    else do
      send [code .failure, number id, .text e.text]
      return none

def shellSession (request : SessionRequest) (id : ℕ) (env : List (PyText × PyText)) : Task Unit := do
  note (.calling request.command env)
  match ← openShell id with
  | none => return ()
  | some key => do
      modify fun c => { c with key := some key }
      andFinally (do
        send [code .sessionOpened, number id, number key]
        let status ← bridge
        send [code .exitMessage, number key, .number (if 0 ≤ status then status else 128 - status)])
        (do
          suppress (release key)
          modify fun c => { c with key := none })

def sftp (host : Host) (id : ℕ) : Task Unit := do
  enterAll host
  send [code .sessionOpened, number id, number 0]
  andFinally (do
    match ← awaited with
    | .sftp none => return ()
    | .sftp (some (.ok status)) => send [code .exitMessage, number 0, .number status]
    | .sftp (some (.error e)) =>
        if e.kind.osOrValue then do
          -- the message for the client's stderr
          pause
          send [code .exitMessage, number 0, .number 1]
        else throw (.raised e)
    | _ => wait) pause

def authSock : PyText := pyText "SSH_AUTH_SOCK"

def agentPid : PyText := pyText "SSH_AGENT_PID"

/-- `dict(request.env, SSH_AUTH_SOCK="", SSH_AGENT_PID="")`. -/
def sessionEnv (request : SessionRequest) : List (PyText × PyText) :=
  Assoc.put agentPid [] (Assoc.put authSock [] request.env)

/-- The agent part of `session`, with the environment that it leads to. -/
def forwardAgent (host : Host) (env : List (PyText × PyText)) : Task (List (PyText × PyText)) :=
  except (do
    if host.agentPath = [] then raise .os "SSH_AUTH_SOCK is not set for the mux server"
    else
      match ← awaited with
      | .forwarded path => do
          modify fun c => { c with path := some path, trace := c.trace ++ [.forwarded path] }
          return Assoc.put authSock path env
      | _ => wait) fun e =>
    if e.kind.osOrValue then some do
      -- the warning for the client's stderr
      pause
      return env
    else none

/-- The end of the `AsyncExitStack`. -/
def leaveAgent : Task Unit := do
  let c ← get
  if c.path.isSome then do
    set { c with path := none, trace := c.trace ++ [Effect.unforwarded] }
    pause

def session (host : Host) (request : SessionRequest) (id : ℕ) : Task Unit :=
  if request.subsystem then
    if request.command ≠ pyText "sftp" then
      send [code .failure, number id, .text (pyText "Unknown subsystem")]
    else if request.tty then
      send [code .failure, number id, .text (pyText "SFTP does not support a terminal")]
    else sftp host id
  else do
    enterAll host
    andFinally (do
      let env ← (if request.agent then forwardAgent host (sessionEnv request)
        else pure (sessionEnv request))
      if request.x11 then pause
      shellSession request id env) leaveAgent

/-! ## The connection -/

/-- The pairs behind the version of a hello. -/
def extensions : ℕ → Reader Unit
  | 0 => do
      let p ← get
      if p.offset < p.data.length then throw .stuck
      else return ()
  | fuel + 1 => do
      let p ← get
      if p.offset < p.data.length then do
        let _ ← string
        let _ ← string
        extensions fuel
      else return ()

def helloVersion : Reader Bool := do
  if (← uint32) ≠ Message.hello.code then return false
  else return (← uint32) = 4

def greet : Task Unit := do
  send [code .hello, number 4]
  let (same, p) ← parse helloVersion (← receivePacket)
  if same then do
    let _ ← parse (extensions p.data.length) p
  else raise .value "Expected OpenSSH mux protocol version 4"

def header : Reader (ℕ × ℕ) := do
  let kind ← uint32
  let id ← uint32
  return (kind, id)

/-- One request after the other. A turn uses up an answer. -/
def serve (host : Host) : ℕ → Task Unit
  | 0 => wait
  | fuel + 1 => do
      let ((kind, id), p) ← parse header (← receivePacket)
      note (.asked id)
      if kind = Message.aliveCheck.code then do
        let _ ← parse finish p
        send [code .alive, number id, number host.pid]
        serve host fuel
      else if kind = Message.terminate.code then do
        let _ ← parse finish p
        send [code .ok, number id]
        note .stopped
      else if kind ≠ Message.newSession.code then
        send [code .failure, number id,
          .text (pyText "rmote sshmux supports shell and exec sessions only")]
      else do
        let (request, _) ← parse SessionRequest.read p
        receiveFd
        receiveFd
        receiveFd
        session host request id

/-- The flags are restored in reverse order, because the descriptors may share an open file. -/
def cleanup : Task Unit := do
  let c ← get
  c.flags.reverse.forM restore
  c.fds.forM close
  note .disconnected

def run (host : Host) : Task Unit := do
  let c ← get
  andFinally (suppress do
    greet
    serve host (c.answers.length + 1)) cleanup

end Client

end Mux

end Rmote
