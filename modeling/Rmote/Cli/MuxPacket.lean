import Rmote.Cli.TextCodec
import Rmote.Library.Assoc
import Rmote.Library.Outcome

/-!
# Packets of a mux session

`packet` writes numbers and texts behind one length, and a `Packet` is read field by field. What
was written is read back, and no read leaves the payload: the bytes that it was read from say
what a read returns, and the offset moves behind them. A read that raises stays in the payload as
well, so this holds for every sequence of reads, whatever the bytes are.
-/

namespace Rmote

namespace Mux

open Sftp (PyText LibraryError decodeText packNumber packBytes packText)
open Outcome

/-- An argument of `packet`. -/
inductive Value where
  | number (n : ℤ)
  | text (t : PyText)
  deriving DecidableEq, Repr

def Value.pack : Value → Except LibraryError Bytes
  | number n => packNumber 4 n
  | text t => packText t

/-- The parts of a packet, one after the other. -/
def packAll : List Value → Except LibraryError Bytes
  | [] => return []
  | value :: values => do
      let first ← value.pack
      let rest ← packAll values
      return first ++ rest

/-- `packet`. -/
def packet (values : List Value) : Except LibraryError Bytes := do
  let data ← packAll values
  packBytes data

/-- Why a packet is refused. -/
inductive PacketError where
  /-- `Truncated mux packet`. -/
  | truncated
  /-- `NUL in mux string`. -/
  | nulInString
  /-- `Unexpected data in mux packet`. -/
  | unexpectedData
  /-- `Invalid escape character`. -/
  | invalidEscape
  /-- `Invalid environment variable`. -/
  | invalidEnvironment
  /-- A loop ran out of fuel. -/
  | stuck
  deriving DecidableEq, Repr

structure Packet where
  data : Bytes
  offset : ℕ
  deriving DecidableEq, Repr

/-- What is left of a packet. -/
def Packet.rest (p : Packet) : Bytes := p.data.drop p.offset

/-- The packet behind so many bytes more. -/
def Packet.skip (p : Packet) (size : ℕ) : Packet := { p with offset := p.offset + size }

abbrev Reader := EStateM PacketError Packet

def take (size : ℕ) : Reader Bytes := do
  let p ← get
  if p.data.length < p.offset + size then
    throw .truncated
  else
    set (p.skip size)
    return p.rest.take size

def uint32 : Reader ℕ := do
  return BigEndian.decode (← take 4)

def string : Reader PyText := do
  let data ← take (← uint32)
  if data.contains 0 then
    throw .nulInString
  else
    return decodeText data

/-- `Packet.end`. -/
def finish : Reader Unit := do
  let p ← get
  if p.offset ≠ p.data.length then
    throw .unexpectedData

/-- The session options sent by an unmodified ssh client. -/
structure SessionRequest where
  tty : Bool
  x11 : Bool
  agent : Bool
  subsystem : Bool
  escape : ℕ
  term : PyText
  command : PyText
  env : List (PyText × PyText)
  deriving DecidableEq, Repr

/-- `text.partition(separator)`, without a value when the separator is missing. -/
def partition (separator : ℕ) (text : PyText) : PyText × Option PyText :=
  match text.dropWhile (· ≠ separator) with
  | [] => (text, none)
  | _ :: value => (text.takeWhile (· ≠ separator), some value)

/-- The loop of `SessionRequest.read` over the environment. -/
def environment : ℕ → List (PyText × PyText) → Reader (List (PyText × PyText))
  | fuel, env => do
      let p ← get
      if p.offset < p.data.length then
        match fuel with
        | 0 => throw .stuck
        | fuel + 1 => do
            let entry ← string
            match partition 0x3d entry with
            | (name, some value) =>
                if name = [] then
                  throw .invalidEnvironment
                else
                  environment fuel (Assoc.put name value env)
            | (_, none) => throw .invalidEnvironment
      else
        return env

def SessionRequest.read : Reader SessionRequest := do
  let _ ← string
  let tty ← uint32
  let x11 ← uint32
  let agent ← uint32
  let subsystem ← uint32
  let escape ← uint32
  let term ← string
  let command ← string
  if escape ≠ 0xffffffff ∧ escape > 255 then
    throw .invalidEscape
  else
    let p ← get
    let env ← environment (p.data.length - p.offset) []
    return ⟨tty ≠ 0, x11 ≠ 0, agent ≠ 0, subsystem ≠ 0, escape, term, command, env⟩

/-! ## What a read returns -/

section Reads

variable {α β : Type} {m : Reader α} {S : α → Bytes → Prop} {p : Packet}

@[simp] theorem Packet.data_skip (p : Packet) (size : ℕ) : (p.skip size).data = p.data := rfl

@[simp] theorem Packet.offset_skip (p : Packet) (size : ℕ) :
    (p.skip size).offset = p.offset + size := rfl

theorem Packet.rest_skip (p : Packet) (size : ℕ) : (p.skip size).rest = p.rest.drop size := by
  rw [rest, rest, List.drop_drop, data_skip, offset_skip]

theorem Packet.skip_skip (p : Packet) (m n : ℕ) : (p.skip m).skip n = p.skip (m + n) := by
  rw [skip, skip, skip, Nat.add_assoc]

/-- The bytes in front of the offset behind them. -/
structure Packet.Moves (p q : Packet) (bytes : Bytes) : Prop where
  data : q.data = p.data
  rest : p.rest = bytes ++ q.rest
  offset : q.offset = p.offset + bytes.length
  inside : q.offset ≤ p.data.length

/-- A read that raised moved the offset inside of the payload, and no loop got stuck. -/
structure Packet.Stops (p : Packet) (e : PacketError) (q : Packet) : Prop where
  data : q.data = p.data
  offset : p.offset ≤ q.offset
  inside : q.offset ≤ p.data.length
  error : e ≠ .stuck

/-- The code reads bytes that say what it returns, or it raises. -/
def Reads (m : Reader α) (S : α → Bytes → Prop) : Prop :=
  ∀ p : Packet, p.offset ≤ p.data.length →
    Ensures m p (fun a q => ∃ bytes, S a bytes ∧ p.Moves q bytes) p.Stops

theorem reads_pure {a : α} (h : S a []) : Reads (pure a) S := by
  intro p hp
  exact ensures_pure ⟨[], h, rfl, rfl, rfl, hp⟩

theorem reads_throw {e : PacketError} (h : e ≠ .stuck) : Reads (throw e : Reader α) S := by
  intro p hp
  exact ensures_throw ⟨rfl, Nat.le_refl _, hp, h⟩

theorem Packet.Moves.trans {q r : Packet} {bytes more : Bytes} (h : p.Moves q bytes)
    (h' : q.Moves r more) : p.Moves r (bytes ++ more) where
  data := h'.data.trans h.data
  rest := by rw [h.rest, h'.rest, List.append_assoc]
  offset := by rw [h'.offset, h.offset, List.length_append, Nat.add_assoc]
  inside := h.data ▸ h'.inside

theorem Packet.Moves.stops {q r : Packet} {bytes : Bytes} {e : PacketError} (h : p.Moves q bytes)
    (h' : q.Stops e r) : p.Stops e r where
  data := h'.data.trans h.data
  offset := by
    have := h.offset
    have := h'.offset
    omega
  inside := h.data ▸ h'.inside
  error := h'.error

theorem Packet.Moves.le {q : Packet} {bytes : Bytes} (h : p.Moves q bytes) :
    q.offset ≤ q.data.length := by
  rw [h.data]
  exact h.inside

theorem Reads.bind {f : α → Reader β} {S' : β → Bytes → Prop} (h : Reads m S)
    (hf : ∀ a bytes, S a bytes → Reads (f a) fun b more => S' b (bytes ++ more)) :
    Reads (m >>= f) S' := by
  intro p hp
  apply (h p hp).bind
  rintro a q ⟨bytes, ha, hmoves⟩
  apply (hf a bytes ha q hmoves.le).mono
  · rintro b r ⟨more, hb, hmoves'⟩
    exact ⟨bytes ++ more, hb, hmoves.trans hmoves'⟩
  · exact fun e r => hmoves.stops

theorem reads_take (size : ℕ) : Reads (take size) fun data bytes => data = bytes ∧
    bytes.length = size := by
  intro p hp
  unfold take
  apply ensures_get_bind
  split_ifs with hsize
  · exact ensures_throw ⟨rfl, Nat.le_refl _, hp, by decide⟩
  · have hlength : (p.rest.take size).length = size := by
      rw [Packet.rest, List.length_take, List.length_drop]
      omega
    refine ⟨p.rest.take size, ⟨rfl, hlength⟩, rfl, ?_, ?_, ?_⟩
    · rw [Packet.rest_skip, List.take_append_drop]
    · rw [hlength, Packet.offset_skip]
    · rw [Packet.offset_skip]
      omega

/-- The four bytes of a number. -/
def SpellsNumber (n : ℕ) (bytes : Bytes) : Prop := bytes.length = 4 ∧ n = BigEndian.decode bytes

/-- The length and the bytes of a text, none of which is NUL. -/
def SpellsText (t : PyText) (bytes : Bytes) : Prop :=
  ∃ data : Bytes, 0 ∉ data ∧ bytes = BigEndian.encode 4 data.length ++ data ∧ t = decodeText data

theorem reads_uint32 : Reads uint32 SpellsNumber := by
  apply (reads_take 4).bind
  rintro data bytes ⟨rfl, hlength⟩
  apply reads_pure
  rw [List.append_nil]
  exact ⟨hlength, rfl⟩

theorem reads_string : Reads string SpellsText := by
  apply reads_uint32.bind
  rintro n header ⟨hheader, rfl⟩
  apply (reads_take _).bind
  rintro data bytes ⟨rfl, hlength⟩
  split_ifs with hnul
  · exact reads_throw (by decide)
  · apply reads_pure
    refine ⟨data, fun hmem => hnul (List.contains_iff_mem.mpr hmem), ?_, rfl⟩
    rw [List.append_nil, hlength, ← hheader, BigEndian.encode_decode]

theorem reads_finish : Reads finish fun _ bytes => bytes = [] := by
  intro p hp
  unfold finish
  apply ensures_get_bind
  split_ifs with hoffset
  · exact ensures_throw ⟨rfl, Nat.le_refl _, hp, by decide⟩
  · exact ensures_pure ⟨[], rfl, rfl, rfl, rfl, hp⟩

end Reads

/-! ## Sequences of reads -/

/-- A call of a method of `Packet`. -/
inductive Read where
  | uint32
  | string
  | take (size : ℕ)
  | finish
  deriving DecidableEq, Repr

/-- What a method of `Packet` returns. -/
inductive Answer where
  | value (v : Value)
  | data (taken : Bytes)
  | nothing
  deriving DecidableEq, Repr

def Read.run : Read → Reader Answer
  | uint32 => do return .value (.number (← Mux.uint32))
  | string => do return .value (.text (← Mux.string))
  | take size => do return .data (← Mux.take size)
  | finish => do
      Mux.finish
      return .nothing

/-- The bytes that were read say what the answer is. -/
def Answer.Spelled : Answer → Bytes → Prop
  | value (.number n), bytes => ∃ k, SpellsNumber k bytes ∧ n = k
  | value (.text t), bytes => SpellsText t bytes
  | data taken, bytes => bytes = taken
  | nothing, bytes => bytes = []

theorem reads_run (read : Read) : Reads read.run Answer.Spelled := by
  cases read with
  | uint32 =>
      apply reads_uint32.bind
      intro n bytes h
      apply reads_pure
      rw [List.append_nil]
      exact ⟨n, h, rfl⟩
  | string =>
      apply reads_string.bind
      intro t bytes h
      apply reads_pure
      rw [List.append_nil]
      exact h
  | take size =>
      apply (reads_take size).bind
      rintro data bytes ⟨rfl, -⟩
      apply reads_pure
      exact List.append_nil _
  | finish =>
      apply reads_finish.bind
      rintro _ bytes rfl
      apply reads_pure
      exact List.append_nil _

/-- One read of a sequence, with the packet before it. -/
structure Step where
  before : Packet
  result : EStateM.Result PacketError Packet Answer

def Step.after (step : Step) : Packet :=
  match step.result with
  | .ok _ q => q
  | .error _ q => q

/-- The reads of a sequence, which goes on when one of them raised. -/
def steps : List Read → Packet → List Step
  | [], _ => []
  | read :: reads, p =>
      let step : Step := ⟨p, read.run.run p⟩
      step :: steps reads step.after

/-- The read returns what bytes of the payload say and moves the offset behind them, or it raises
and leaves the offset inside of the payload. -/
def Step.Inside (data : Bytes) (step : Step) : Prop :=
  match step.result with
  | .ok answer q => ∃ bytes, answer.Spelled bytes ∧
      data.drop step.before.offset = bytes ++ data.drop q.offset ∧
      q.offset = step.before.offset + bytes.length ∧ q.offset ≤ data.length
  | .error _ q => step.before.offset ≤ q.offset ∧ q.offset ≤ data.length

/-- One read leaves the payload alone and stays inside of it. -/
theorem step_inside {data : Bytes} {p : Packet} (read : Read) (hdata : p.data = data)
    (hp : p.offset ≤ data.length) :
    (Step.mk p (read.run.run p)).Inside data ∧ (Step.mk p (read.run.run p)).after.data = data ∧
      (Step.mk p (read.run.run p)).after.offset ≤ data.length := by
  subst hdata
  have h := reads_run read p hp
  unfold Ensures at h
  unfold Step.Inside Step.after
  cases hrun : read.run.run p with
  | ok answer q =>
      rw [hrun] at h
      obtain ⟨bytes, hspelled, hmoves⟩ := h
      have hrest := hmoves.rest
      rw [Packet.rest, Packet.rest, hmoves.data] at hrest
      exact ⟨⟨bytes, hspelled, hrest, hmoves.offset, hmoves.inside⟩, hmoves.data, hmoves.inside⟩
  | error e q =>
      rw [hrun] at h
      exact ⟨⟨h.offset, h.inside⟩, h.data, h.inside⟩

theorem steps_inside {data : Bytes} (reads : List Read) {p : Packet} (hdata : p.data = data)
    (hp : p.offset ≤ data.length) : ∀ step ∈ steps reads p, step.Inside data := by
  induction reads generalizing p with
  | nil => exact fun step hstep => absurd hstep List.not_mem_nil
  | cons read reads ih =>
      obtain ⟨hinside, hdata', hoffset⟩ := step_inside read hdata hp
      intro step hstep
      rcases List.mem_cons.mp hstep with rfl | hstep
      · exact hinside
      · exact ih hdata' hoffset step hstep

end Mux

end Rmote
