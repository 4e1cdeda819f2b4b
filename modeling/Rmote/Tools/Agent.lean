import Rmote.Library.Assoc

/-!
# One agent session

An `AgentSession` has a private listener, the connections that came in through it or
were opened to an agent, and a queue that hands the incoming ones to `accept`. Its
operations run on one event loop, so a step goes from one `await` to the next, and any
step can come between two others. An operation that awaits is kept with the place where
it goes on; what it awaits can end well or not, and being cancelled is one way not to.
-/

namespace Rmote

/-- The most connections of a session. -/
def maxConnections : ℕ := 32

/-- The size of the queue of a session. -/
def maxPending : ℕ := 32

structure AgentSession where
  directory : String
  path : String
  /-- The server was started. -/
  server : Bool
  /-- The transports of the connections. -/
  connections : List (String × ℕ)
  pending : List (Option String)
  connecting : List String
  accepting : Bool
  closed : Bool
  deriving DecidableEq, Repr

def AgentSession.new : AgentSession := ⟨"", "", false, [], [], [], false, false⟩

/-- Where a `listen` goes on. -/
inductive ListenTask where
  /-- It awaits `start_unix_server`. -/
  | starting
  /-- It awaits the end of a server that was started too late. -/
  | refusing
  deriving DecidableEq, Repr

/-- Where a `connect` goes on. -/
inductive ConnectTask where
  /-- It awaits `open_unix_connection`. -/
  | opening (id : String)
  /-- It awaits the end of a connection that was opened too late. -/
  | discarding (id : String)
  deriving DecidableEq, Repr

def ConnectTask.id : ConnectTask → String
  | opening id => id
  | discarding id => id

/-- Where an `accept` goes on. -/
inductive AcceptTask where
  /-- It awaits the queue; `woken` once something was put there. -/
  | getting (woken : Bool)
  /-- It yielded, and awaits the next request of its consumer. -/
  | yielded
  deriving DecidableEq, Repr

def AcceptTask.wake : AcceptTask → AcceptTask
  | getting _ => getting true
  | yielded => yielded

/-- Where the `close` of a session goes on, with the transports that it closes. -/
inductive ReleaseTask where
  /-- It awaits its connections. -/
  | gathering (transports : List ℕ)
  /-- It awaits `wait_closed` of its server. -/
  | waiting (transports : List ℕ)
  deriving DecidableEq, Repr

def ReleaseTask.transports : ReleaseTask → List ℕ
  | gathering transports => transports
  | waiting transports => transports

/-- The socket that listens. -/
inductive Listener where
  | absent
  | listening
  | closed
  deriving DecidableEq, Repr

/-- The endpoint of one session: the session, what it made outside, and the operations
that await something. `live` are the transports that nobody closed yet. -/
structure Agent where
  session : AgentSession
  started : Bool
  /-- The session is in the registry. -/
  registered : Bool
  listener : Listener
  files : List String
  live : List ℕ
  next : ℕ
  listens : List ListenTask
  connects : List ConnectTask
  accepts : List AcceptTask
  closes : List ℕ
  releases : List ReleaseTask
  deriving DecidableEq, Repr

inductive AgentError where
  | value (message : String)
  | connection (message : String)
  | os (message : String)
  | runtime (message : String)
  deriving DecidableEq, Repr

/-- What a step hands to its caller; an operation that ends with the close of its session hands
it out when the close ended. -/
inductive AgentReply where
  | returned
  | raised (error : AgentError)
  /-- What was awaited, or a call of the system, raised. -/
  | failed
  | yielded (id : String)
  /-- Nothing yet: the operation awaits something. -/
  | waits
  deriving DecidableEq, Repr

/-- How far `listen` comes in front of its first `await`. -/
inductive ListenStart where
  | noDirectory
  | noSocket
  | noBind
  | noChmod
  | waits
  deriving DecidableEq, Repr

/-- How an `await` ends. -/
inductive AwaitOutcome where
  | done
  | failed
  deriving DecidableEq, Repr

inductive AgentEvent where
  | start
  | listen (suffix : String) (outcome : ListenStart)
  /-- A peer connects to the listener, and gets a new id. -/
  | connected (id : String)
  | connect (path id : String)
  | accept
  | close (id : String)
  | release
  | resumeListen (task : ListenTask) (outcome : AwaitOutcome)
  | resumeConnect (task : ConnectTask) (outcome : AwaitOutcome)
  | resumeAccept (task : AcceptTask) (outcome : AwaitOutcome)
  | resumeClose (transport : ℕ) (outcome : AwaitOutcome)
  | resumeRelease (task : ReleaseTask) (outcome : AwaitOutcome)
  deriving DecidableEq, Repr

namespace Agent

/-- Before the session is made. -/
def init : Agent where
  session := .new
  started := false
  registered := false
  listener := .absent
  files := []
  live := []
  next := 0
  listens := []
  connects := []
  accepts := []
  closes := []
  releases := []

variable (a : Agent)

/-- The ids of the connections. -/
def ids : List String := a.session.connections.map Prod.fst

/-- The transports of the connections. -/
def transports : List ℕ := a.session.connections.map Prod.snd

/-- There is no room for one more connection. -/
def full : Bool := maxConnections ≤ a.session.connections.length + a.session.connecting.length

/-- An operation that needs the session finds it. -/
def known : Bool := a.registered && !a.session.closed

def unknown : AgentReply := .raised (.connection "Unknown agent session")

/-- An item at the end of the queue wakes the `accept` that awaits one. -/
def putNowait (item : Option String) : Agent :=
  { a with
    session := { a.session with pending := a.session.pending ++ [item] }
    accepts := a.accepts.map AcceptTask.wake }

/-- `AgentSession.close` up to its first `await`. -/
def sessionClose : Agent :=
  if a.session.closed then a
  else
    let closed : Agent :=
      { a with
        session := { a.session with closed := true, pending := [], connections := [] }
        listener := if a.session.server then .closed else a.listener
        releases := a.releases ++ [.gathering a.transports] }
    closed.putNowait none

/-- The transports are closed. -/
def shut (transports : List ℕ) : Agent := { a with live := a.live.filter (· ∉ transports) }

/-- The end of `AgentSession.close`: the transports are aborted, and the path and the directory
are removed. -/
def cleanup (transports : List ℕ) : Agent :=
  let files := if a.session.path ≠ "" then a.files.filter (· ≠ a.session.path) else a.files
  { a.shut transports with
    files := if a.session.directory ≠ "" then files.filter (· ≠ a.session.directory) else files }

def release : Agent := if a.registered then { a with registered := false }.sessionClose else a

/-- A session of the same id that is made after this one was released is another session. -/
def start : Agent × AgentReply :=
  if a.registered then (a, .raised (.value "Agent session already exists"))
  else if a.started then (a, .returned)
  else ({ a with started := true, registered := true }, .returned)

/-- The end of a `listen` that raises. -/
def undoListen : Agent := { a with listener := .closed }.release

def listen (suffix : String) (outcome : ListenStart) : Agent × AgentReply :=
  if a.known = false then (a, unknown)
  else if a.session.path ≠ "" then
    (a, .raised (.value "Agent session already has a listener"))
  else
    let directory := "/tmp/rmote-agent-" ++ suffix
    let path := directory ++ "/agent.sock"
    let made : Agent :=
      { a with
        session := { a.session with directory := directory, path := path }
        files := a.files ++ [directory] }
    let bound : Agent := { made with files := made.files ++ [path] }
    match outcome with
    | .noDirectory => (a, .failed)
    | .noSocket => (made, .failed)
    | .noBind => (made.undoListen, .failed)
    | .noChmod => (bound.undoListen, .failed)
    | .waits => ({ bound with listener := .listening, listens := a.listens ++ [.starting] }, .waits)

/-- A `listen` whose server was started, or not. -/
def resumeListen (task : ListenTask) (outcome : AwaitOutcome) : Agent × AgentReply :=
  let rest : Agent := { a with listens := a.listens.erase task }
  match task, outcome with
  | .starting, .done =>
      let served : Agent := { rest with session := { a.session with server := true } }
      if a.session.closed then
        ({ served with listener := .closed, listens := rest.listens ++ [.refusing] }, .waits)
      else (served, .returned)
  | .starting, .failed => (rest.undoListen, .failed)
  | .refusing, .done =>
      (rest.undoListen, .raised (.connection "Agent session closed during startup"))
  | .refusing, .failed => (rest.undoListen, .failed)

/-- A connection that came in is registered, or closed at once. -/
def connected (id : String) : Agent :=
  let opened : Agent := { a with next := a.next + 1 }
  if a.session.closed ∨ a.full = true ∨ maxPending ≤ a.session.pending.length then opened
  else
    let registered : Agent :=
      { opened with
        session := { a.session with connections := Assoc.put id a.next a.session.connections }
        live := a.live ++ [a.next] }
    registered.putNowait (some id)

def connect (path id : String) : Agent × AgentReply :=
  if a.known = false then (a, unknown)
  else if path = "" then
    (a, .raised (.os "SSH_AUTH_SOCK is not set on the agent endpoint"))
  else if id ∈ a.ids ∨ id ∈ a.session.connecting then
    (a, .raised (.value "Agent connection already exists"))
  else if a.full = true then
    (a, .raised (.os "Agent session connection limit reached"))
  else
    ({ a with
      session := { a.session with connecting := a.session.connecting ++ [id] }
      connects := a.connects ++ [.opening id] }, .waits)

/-- The end of a `connect`, however it ends. -/
def endConnect (id : String) : Agent :=
  { a with session := { a.session with connecting := a.session.connecting.erase id } }

/-- A `connect` whose connection was opened, or not. -/
def resumeConnect (task : ConnectTask) (outcome : AwaitOutcome) : Agent × AgentReply :=
  let rest : Agent := { a with connects := a.connects.erase task }
  match task, outcome with
  | .opening id, .done =>
      let opened : Agent := { rest with next := a.next + 1 }
      if a.session.closed then
        ({ opened with connects := rest.connects ++ [.discarding id] }, .waits)
      else
        let registered : Agent :=
          { opened with
            session := { a.session with connections := Assoc.put id a.next a.session.connections }
            live := a.live ++ [a.next] }
        (registered.endConnect id, .returned)
  | .opening id, .failed => (rest.endConnect id, .failed)
  | .discarding id, .done =>
      (rest.endConnect id, .raised (.connection "Agent session closed during connect"))
  | .discarding id, .failed => (rest.endConnect id, .failed)

/-- An `accept` awaits the queue; it is resumed at once where there is something in it. -/
def get : Agent := { a with accepts := a.accepts ++ [.getting !a.session.pending.isEmpty] }

/-- The end of an `accept`, however it ends. -/
def endAccept : Agent := { a with session := { a.session with accepting := false } }.release

def accept : Agent × AgentReply :=
  if a.known = false then (a, unknown)
  else if a.session.server = false then
    (a, .raised (.value "Agent session has no listener"))
  else if a.session.accepting then
    (a, .raised (.runtime "Agent session already has an accept stream"))
  else ({ a with session := { a.session with accepting := true } }.get, .waits)

/-- The loop of `accept` is at its condition. -/
def acceptLoop : Agent × AgentReply :=
  if a.session.closed then (a.endAccept, .returned) else (a.get, .waits)

/-- An `accept` that goes on with what is in the queue, or with the request of its consumer. -/
def resumeAccept (task : AcceptTask) (outcome : AwaitOutcome) : Agent × AgentReply :=
  let rest : Agent := { a with accepts := a.accepts.erase task }
  match task, outcome with
  | .getting _, .done =>
      match a.session.pending with
      | [] => (rest.get, .waits)
      | item :: pending =>
          let taken : Agent := { rest with session := { a.session with pending := pending } }
          match item with
          | none => (taken.endAccept, .returned)
          | some id =>
              if id ∈ a.ids then
                ({ taken with accepts := taken.accepts ++ [.yielded] }, .yielded id)
              else taken.acceptLoop
  | .getting _, .failed => (rest.endAccept, .failed)
  | .yielded, .done => rest.acceptLoop
  | .yielded, .failed => (rest.endAccept, .failed)

/-- `Agent.close` of one connection. -/
def close (id : String) : Agent × AgentReply :=
  if a.registered = false then (a, .returned)
  else
    match Assoc.get a.session.connections id with
    | none => (a, .returned)
    | some transport =>
        let popped : Agent :=
          { a with
            session := { a.session with connections := Assoc.del id a.session.connections }
            closes := a.closes ++ [transport] }
        (popped.shut [transport], .waits)

/-- The close of a session whose connections were closed, or whose server was. -/
def resumeRelease (task : ReleaseTask) (outcome : AwaitOutcome) : Agent × AgentReply :=
  let rest : Agent := { a with releases := a.releases.erase task }
  match task, outcome with
  | .gathering transports, .done =>
      if a.session.server then
        let closed := rest.shut transports
        ({ closed with releases := closed.releases ++ [.waiting transports] }, .waits)
      else (rest.cleanup transports, .returned)
  | .gathering transports, .failed => (rest.cleanup transports, .failed)
  | .waiting transports, .done => (rest.cleanup transports, .returned)
  | .waiting transports, .failed => (rest.cleanup transports, .failed)

/-- One step. An operation is resumed only where it awaits, and an `accept` only when it was
woken. -/
def step : AgentEvent → Option (Agent × AgentReply)
  | .start => some a.start
  | .listen suffix outcome => some (a.listen suffix outcome)
  | .connected id =>
      if a.listener ≠ .absent ∧ id ∉ a.ids ∧ id ∉ a.session.connecting then
        some (a.connected id, .returned)
      else none
  | .connect path id => some (a.connect path id)
  | .accept => some a.accept
  | .close id => some (a.close id)
  | .release => some (a.release, if a.registered then .waits else .returned)
  | .resumeListen task outcome =>
      if task ∈ a.listens then some (a.resumeListen task outcome) else none
  | .resumeConnect task outcome =>
      if task ∈ a.connects then some (a.resumeConnect task outcome) else none
  | .resumeAccept task outcome =>
      if task ∈ a.accepts ∧ (outcome = .done → task ≠ .getting false) then
        some (a.resumeAccept task outcome)
      else none
  | .resumeClose transport outcome =>
      if transport ∈ a.closes then
        some ({ a with closes := a.closes.erase transport },
          if outcome = .done then .returned else .failed)
      else none
  | .resumeRelease task outcome =>
      if task ∈ a.releases then some (a.resumeRelease task outcome) else none

end Agent

end Rmote
