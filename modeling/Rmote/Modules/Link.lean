import Mathlib.Data.Finset.Insert
import Mathlib.Data.Finset.Lattice.Basic
import Mathlib.Logic.Function.Basic

/-!
# Module sources on a connection

A packet names classes and functions of modules that its receiver may not have. The sources
of those modules travel in the envelope of the packet, except for the modules in
`known_modules`, which the peer is taken to have. A tool travels in the same way in a
`SYNC` request, and the sources in its definition count only when the request succeeds.

A process has the modules that it imported, with the files of their packages, and the ones
that are registered in its `ModuleLoader`; both only grow. A packet is on the wire when its
last frame is written, and packets arrive in that order.
-/

namespace Rmote

namespace Modules

/-- A packet: a value or a batch of items, the request to load a tool, or the answer to that
request. `omitted` are the modules that were left out because they were known. -/
inductive Packet where
  | value (sources omitted : List String)
  | sync (id : ℕ) (key : String) (sources omitted : List String)
  | reply (id : ℕ) (ok : Bool)
  deriving DecidableEq

/-- The modules whose sources the packet carries. -/
def Packet.sources : Packet → List String
  | .value sources _ => sources
  | .sync _ _ sources _ => sources
  | .reply _ _ => []

/-- The modules whose sources are installed before the packet is decoded. -/
def Packet.envelope : Packet → List String
  | .value sources _ => sources
  | _ => []

def Packet.omitted : Packet → List String
  | .value _ omitted => omitted
  | .sync _ _ _ omitted => omitted
  | .reply _ _ => []

/-- A request to load a tool that is being served. -/
structure Load where
  id : ℕ
  key : String
  sources : List String
  deriving DecidableEq

/-- One endpoint and its process. `pending` are packets that are encoded and not written,
`owed` the sources of sends and requests that are done and not counted yet, `syncs` the
sources of the requests that wait for an answer, and `loads` the requests of the peer. -/
structure Peer where
  held : Finset String
  known : Finset String
  acceptCode : Bool
  closed : Bool
  tools : Finset String
  next : ℕ
  pending : List Packet
  owed : List (List String)
  syncs : ℕ → Option (List String)
  loads : List Load

/-- What an endpoint does. -/
inductive Event where
  | encode (needs : List String)
  | push (index : ℕ) (needs : List String)
  | sync (key : String) (needs : List String)
  | cancel (id : ℕ)
  | write (index : ℕ)
  | learn (index : ℕ)
  | arrive (ok : Bool)
  | load (index : ℕ) (ok : Bool)
  | imports (name : String)
  | setAcceptCode (value : Bool)

namespace Peer

def new (held : Finset String) (acceptCode : Bool) : Peer where
  held := held
  known := ∅
  acceptCode := acceptCode
  closed := false
  tools := ∅
  next := 1
  pending := []
  owed := []
  syncs := fun _ => none
  loads := []

/-- The modules whose sources go with a value. -/
def missing (p : Peer) (needs : List String) : List String :=
  needs.filter fun name => decide (name ∉ p.known)

/-- The modules that the peer is taken to have. -/
def assumed (p : Peer) (needs : List String) : List String :=
  needs.filter fun name => decide (name ∈ p.known)

/-- Sources are registered, and the peer that sent them has them. -/
def install (p : Peer) (sources : List String) : Peer :=
  { p with held := p.held ∪ sources.toFinset, known := p.known ∪ sources.toFinset }

/-- One more packet waits to be written. -/
def enqueue (p : Peer) (packet : Packet) : Peer := { p with pending := p.pending ++ [packet] }

/-- One more item joins a batch that waits to be written. -/
def push (p : Peer) (index : ℕ) (needs : List String) : Packet → Option Peer
  | .value sources omitted =>
      some { p with
        pending := p.pending.set index
          (.value (sources ++ p.missing needs) (omitted ++ p.assumed needs)) }
  | _ => none

/-- A tool is sent to the peer, with the sources that it is not taken to have. -/
def sync (p : Peer) (key : String) (needs : List String) : Peer :=
  { p with
    next := p.next + 1
    syncs := Function.update p.syncs p.next (some (p.missing needs))
    pending := p.pending ++ [.sync p.next key (p.missing needs) (p.assumed needs)] }

/-- A packet arrives. `ok` is false when its sources cannot be installed or its value cannot be
decoded, which ends the receive loop. -/
def arrive (p : Peer) (ok : Bool) : Packet → Peer
  | .value sources _ =>
      if sources ≠ [] ∧ p.acceptCode = false then
        p
      else if ok then
        p.install sources
      else
        { p with closed := true }
  | .sync id key sources _ =>
      if p.acceptCode then
        { p with loads := p.loads ++ [⟨id, key, sources⟩] }
      else
        p.enqueue (.reply id false)
  | .reply id ok =>
      match p.syncs id with
      | some sources =>
          { p with
            syncs := Function.update p.syncs id none
            owed := if ok then p.owed ++ [sources] else p.owed }
      | none => p

/-- A tool is loaded, unless one has its key; `ok` is false when the load fails. -/
def serve (p : Peer) (index : ℕ) (ok : Bool) (load : Load) : Peer :=
  if load.key ∈ p.tools then
    enqueue { p with loads := p.loads.eraseIdx index } (.reply load.id true)
  else if ok then
    enqueue (install { p with loads := p.loads.eraseIdx index, tools := insert load.key p.tools }
      load.sources) (.reply load.id true)
  else
    enqueue { p with loads := p.loads.eraseIdx index } (.reply load.id false)

end Peer

/-- A connection, seen from one of its endpoints. -/
structure Link where
  near : Peer
  far : Peer
  inbound : List Packet
  outbound : List Packet

namespace Link

/-- The same connection, seen from the other endpoint. -/
def swap (l : Link) : Link := ⟨l.far, l.near, l.outbound, l.inbound⟩

/-- A connection between two processes. -/
def new (near far : Finset String) (nearAccepts farAccepts : Bool) : Link :=
  ⟨Peer.new near nearAccepts, Peer.new far farAccepts, [], []⟩

/-- A step of the near endpoint. -/
def stepNear (l : Link) : Event → Option Link
  | .encode needs =>
      if ∀ name ∈ needs, name ∈ l.near.held then
        some { l with near := l.near.enqueue (.value (l.near.missing needs) (l.near.assumed needs)) }
      else
        none
  | .push index needs =>
      if ∀ name ∈ needs, name ∈ l.near.held then
        (l.near.pending[index]?.bind (l.near.push index needs)).map fun near => { l with near := near }
      else
        none
  | .sync key needs =>
      if ∀ name ∈ needs, name ∈ l.near.held then
        some { l with near := l.near.sync key needs }
      else
        none
  | .cancel id =>
      some { l with near := { l.near with syncs := Function.update l.near.syncs id none } }
  | .write index =>
      l.near.pending[index]?.map fun packet =>
        { l with
          near := { l.near with
            pending := l.near.pending.eraseIdx index
            owed := l.near.owed ++ [packet.envelope] }
          outbound := l.outbound ++ [packet] }
  | .learn index =>
      l.near.owed[index]?.map fun sources =>
        { l with near := { l.near with
            known := l.near.known ∪ sources.toFinset
            owed := l.near.owed.eraseIdx index } }
  | .arrive ok =>
      match l.inbound with
      | [] => none
      | packet :: inbound =>
          if l.near.closed then none
          else some { l with near := l.near.arrive ok packet, inbound := inbound }
  | .load index ok =>
      l.near.loads[index]?.map fun load => { l with near := l.near.serve index ok load }
  | .imports name => some { l with near := { l.near with held := insert name l.near.held } }
  | .setAcceptCode value => some { l with near := { l.near with acceptCode := value } }

/-- A step of either endpoint; `true` is the near one. -/
def step (l : Link) : Bool × Event → Option Link
  | (true, event) => l.stepNear event
  | (false, event) => (l.swap.stepNear event).map swap

end Link

end Modules

end Rmote
