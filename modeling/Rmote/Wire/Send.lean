import Rmote.Library.Machine
import Rmote.Wire.Header

/-!
# The sending side of a connection

Every logical packet is written by a task of its own through `send_payload`,
which cuts the payload into frames and takes the write lock for each of them.
`Channel` is one direction of a connection with all the tasks that send on it.
Between two awaits a task is not interrupted, so one event of the machine is
one such stretch: a task gets the lock and writes a frame, its drain returns or
fails, or it is cancelled at one of its two awaits.

`own` packets carry numbers of `get_id` (requests, stream permissions and the
stop of a stream), `peer` packets answer requests of the peer and carry its
numbers (responses and stream batches), and `log` packets carry numbers of
`get_log_id`. The packets of one origin and number come from one task, one after
another.
-/

namespace Rmote

/-- Who numbered a packet. -/
inductive Origin where
  | own
  | peer
  | log
  deriving DecidableEq, Repr

/-- One logical packet on its way through `send_payload`. `allowed` is the
compression policy of the task. `send` refuses the two marks that the transport
sets itself. -/
structure Outgoing where
  origin : Origin
  packetId : ℕ
  payload : Bytes
  flags : Flags
  allowed : Bool
  plain : flags.has Flags.compressed = false
  whole : flags.has Flags.fragment = false
  deriving DecidableEq

/-- Where a sending task stands. -/
inductive Phase where
  /-- It waits for the write lock. -/
  | waiting
  /-- It holds the lock and waits for the drain of the frame it wrote. -/
  | draining
  | done
  | cancelled
  | failed
  deriving DecidableEq, Repr

/-- A task inside `send_payload`, with the offset of its next chunk. -/
structure Task where
  packet : Outgoing
  offset : ℕ
  phase : Phase
  deriving DecidableEq

namespace Task

/-- The task has not left `send_payload`. -/
def live (t : Task) : Bool := t.phase == .waiting || t.phase == .draining

/-- Some frames of the packet are written and the final one is not. -/
def midway (t : Task) : Bool := 0 < t.offset && t.offset < t.packet.payload.length

/-- The bytes of an incomplete packet that are written. -/
def stored (t : Task) : ℕ := if t.midway then t.offset else 0

/-- `payload[offset : offset + FRAGMENT_SIZE]`. -/
def chunk (t : Task) : Bytes := (t.packet.payload.drop t.offset).take fragmentSize

/-- The offset after the next chunk. -/
def next (t : Task) : ℕ := t.offset + t.chunk.length

/-- The next chunk completes the packet. -/
def final (t : Task) : Bool := t.packet.payload.length ≤ t.next

/-- The flags of the next frame: every frame except the last one is marked. -/
def frameFlags (t : Task) : Flags :=
  if t.final then t.packet.flags else t.packet.flags ||| Flags.fragment

end Task

/-- Parameters of the density check. -/
def densitySample : ℕ := 256

def densityLimit : ℕ := 128

variable (Z : Zlib)

/-- One direction of a connection, seen from its sender. `wire` holds the frames
that were written, and `finished` the packets in the order of their final
frames. -/
structure Channel where
  deflate : Option (FrameCompressor Z)
  lock : Option ℕ
  tasks : List Task
  wire : List Frame
  closing : Bool
  finished : List Outgoing

/-- What can happen on the channel. Tasks are named by the order in which they
began. -/
inductive Event where
  | submit (packet : Outgoing)
  | write (i : ℕ)
  | drained (i : ℕ)
  | cancel (i : ℕ)
  | drainFails (i : ℕ)
  | close
  deriving DecidableEq

variable {Z}

namespace Channel

/-- The channel after both ready boundaries, with the frame codec installed. -/
def init (Z : Zlib) : Channel Z where
  deflate := some ⟨Z.deflate, densitySample, densityLimit⟩
  lock := none
  tasks := []
  wire := []
  closing := false
  finished := []

/-- The body and the flags of a frame, once the codec of the direction saw it. -/
def encodeBody (deflate : Option (FrameCompressor Z)) (chunk : Bytes) (flags : Flags)
    (allowed : Bool) : Bytes × Flags × Option (FrameCompressor Z) :=
  match deflate with
  | none => (chunk, flags, none)
  | some c =>
      let (body, packed, c) := c.encode chunk allowed
      (body, if packed then flags ||| Flags.compressed else flags, some c)

/-- The next frame of a task, and the compressor after it. -/
def nextFrame (s : Channel Z) (t : Task) : Frame × Option (FrameCompressor Z) :=
  let (body, flags, deflate) := encodeBody s.deflate t.chunk t.frameFlags t.packet.allowed
  (⟨flags, t.packet.packetId, body⟩, deflate)

/-- The channel once the next frame of a task is written. -/
def written (s : Channel Z) (i : ℕ) (t : Task) : Channel Z :=
  { s with
    deflate := (s.nextFrame t).2
    lock := some i
    tasks := s.tasks.set i { t with offset := t.next, phase := .draining }
    wire := s.wire ++ [(s.nextFrame t).1]
    finished := if t.final then s.finished ++ [t.packet] else s.finished }

/-- A task got the lock. It fails on a closing writer and on a header that
`struct` refuses; otherwise the frame is written and the task waits for the
drain. -/
def sendFrame (s : Channel Z) (i : ℕ) (t : Task) : Channel Z :=
  if s.closing then
    { s with tasks := s.tasks.set i { t with phase := .failed } }
  else if (s.nextFrame t).1.Packable then
    s.written i t
  else
    -- The body went through the dictionary before the header was refused.
    { s with
      deflate := (s.nextFrame t).2
      tasks := s.tasks.set i { t with phase := .failed }
      closing := true }

/-- The drain of the last frame returned: the lock is free, and the task is done
or goes back to wait for it. -/
def afterDrain (s : Channel Z) (i : ℕ) (t : Task) : Channel Z :=
  { s with
    lock := none
    tasks := s.tasks.set i
      { t with phase := if t.packet.payload.length ≤ t.offset then .done else .waiting } }

/-- The error path of `send_frame`: the writer is closed and the lock is free. -/
def abort (s : Channel Z) (i : ℕ) (t : Task) (phase : Phase) : Channel Z :=
  { s with
    lock := none
    tasks := s.tasks.set i { t with phase := phase }
    closing := true }

/-- One stretch of the event loop. -/
def step (s : Channel Z) : Event → Option (Channel Z)
  | .submit packet =>
      if s.tasks.any fun t => t.live && t.packet.origin == packet.origin &&
          t.packet.packetId == packet.packetId then
        none
      else
        some { s with tasks := s.tasks ++ [⟨packet, 0, .waiting⟩] }
  | .write i =>
      match s.tasks[i]? with
      | none => none
      | some t =>
          if s.lock = none ∧ t.phase = .waiting then some (s.sendFrame i t) else none
  | .drained i =>
      match s.tasks[i]? with
      | none => none
      | some t =>
          if s.lock = some i ∧ t.phase = .draining then some (s.afterDrain i t) else none
  | .cancel i =>
      match s.tasks[i]? with
      | none => none
      | some t =>
          match t.phase with
          -- The lock is awaited outside the guarded block, so nothing is closed.
          | .waiting => some { s with tasks := s.tasks.set i { t with phase := .cancelled } }
          | .draining => some (s.abort i t .cancelled)
          | _ => none
  | .drainFails i =>
      match s.tasks[i]? with
      | none => none
      | some t => if t.phase = .draining then some (s.abort i t .failed) else none
  | .close => some { s with closing := true }

/-- Everything that one step can do. A task that is cancelled while it drains
and a task whose drain fails take the same path. -/
theorem step_cases {s s' : Channel Z} {e : Event} (h : s.step e = some s') :
    (∃ packet, e = .submit packet ∧
      s' = { s with tasks := s.tasks ++ [⟨packet, 0, .waiting⟩] }) ∨
    (∃ i t, e = .write i ∧ s.tasks[i]? = some t ∧ t.phase = .waiting ∧ s' = s.sendFrame i t) ∨
    (∃ i t, e = .drained i ∧ s.tasks[i]? = some t ∧ t.phase = .draining ∧
      s' = s.afterDrain i t) ∨
    (∃ i t, e = .cancel i ∧ s.tasks[i]? = some t ∧ t.phase = .waiting ∧
      s' = { s with tasks := s.tasks.set i { t with phase := .cancelled } }) ∨
    (∃ i t phase, (e = .cancel i ∨ e = .drainFails i) ∧ s.tasks[i]? = some t ∧
      t.phase = .draining ∧ (phase = .cancelled ∨ phase = .failed) ∧ s' = s.abort i t phase) ∨
    (e = .close ∧ s' = { s with closing := true }) := by
  cases e with
  | submit packet =>
      simp only [step] at h
      split_ifs at h
      exact .inl ⟨packet, rfl, (Option.some.inj h).symm⟩
  | write i =>
      simp only [step] at h
      split at h
      · cases h
      · rename_i t ht
        split_ifs at h with hguard
        exact .inr (.inl ⟨i, t, rfl, ht, hguard.2, (Option.some.inj h).symm⟩)
  | drained i =>
      simp only [step] at h
      split at h
      · cases h
      · rename_i t ht
        split_ifs at h with hguard
        exact .inr (.inr (.inl ⟨i, t, rfl, ht, hguard.2, (Option.some.inj h).symm⟩))
  | cancel i =>
      simp only [step] at h
      split at h
      · cases h
      · rename_i t ht
        split at h
        · rename_i hphase
          exact .inr (.inr (.inr (.inl ⟨i, t, rfl, ht, hphase, (Option.some.inj h).symm⟩)))
        · rename_i hphase
          exact .inr (.inr (.inr (.inr (.inl
            ⟨i, t, .cancelled, .inl rfl, ht, hphase, .inl rfl, (Option.some.inj h).symm⟩))))
        · cases h
  | drainFails i =>
      simp only [step] at h
      split at h
      · cases h
      · rename_i t ht
        split_ifs at h with hphase
        exact .inr (.inr (.inr (.inr (.inl
          ⟨i, t, .failed, .inr rfl, ht, hphase, .inr rfl, (Option.some.inj h).symm⟩))))
  | close =>
      exact .inr (.inr (.inr (.inr (.inr ⟨rfl, (Option.some.inj h).symm⟩))))

/-- What every task keeps: it holds of a new task, and each of the four ways in
which a step changes a task keeps it. -/
theorem forall_tasks_step {P : Task → Prop} {s s' : Channel Z} {e : Event}
    (h : s.step e = some s') (hP : ∀ t ∈ s.tasks, P t)
    (hnew : ∀ packet, P ⟨packet, 0, .waiting⟩)
    (hwrite : ∀ t ∈ s.tasks, P t → t.phase = .waiting →
      P { t with offset := t.next, phase := .draining })
    (hdrain : ∀ t ∈ s.tasks, P t → t.phase = .draining →
      P { t with phase := if t.packet.payload.length ≤ t.offset then .done else .waiting })
    (hend : ∀ t ∈ s.tasks, P t → ∀ phase, phase = .cancelled ∨ phase = .failed →
      P { t with phase := phase }) :
    ∀ t ∈ s'.tasks, P t := by
  have hset : ∀ {i : ℕ} {b : Task}, P b → ∀ t ∈ s.tasks.set i b, P t := by
    intro i b hb t ht
    rcases List.mem_or_eq_of_mem_set ht with ht | rfl
    · exact hP t ht
    · exact hb
  rcases step_cases h with ⟨packet, -, rfl⟩ | ⟨i, t, -, hi, hphase, rfl⟩ |
    ⟨i, t, -, hi, hphase, rfl⟩ | ⟨i, t, -, hi, -, rfl⟩ | ⟨i, t, phase, -, hi, -, hp, rfl⟩ |
    ⟨-, rfl⟩
  · intro t ht
    rcases List.mem_append.mp ht with ht | ht
    · exact hP t ht
    · rw [List.mem_singleton.mp ht]
      exact hnew packet
  · have hmem := List.mem_of_getElem? hi
    unfold sendFrame
    split_ifs
    · exact hset (hend t hmem (hP t hmem) .failed (.inr rfl))
    · exact hset (hwrite t hmem (hP t hmem) hphase)
    · exact hset (hend t hmem (hP t hmem) .failed (.inr rfl))
  · have hmem := List.mem_of_getElem? hi
    exact hset (hdrain t hmem (hP t hmem) hphase)
  · have hmem := List.mem_of_getElem? hi
    exact hset (hend t hmem (hP t hmem) .cancelled (.inl rfl))
  · have hmem := List.mem_of_getElem? hi
    exact hset (hend t hmem (hP t hmem) phase hp)
  · exact hP

end Channel

end Rmote
