import Rmote.Library.BigEndian
import Rmote.Wire.Flags

/-!
# Packets of an SFTP session

A packet is read field by field, from its own bytes and never past their end, and the
last check is that nothing is left over. What the server has to read of each kind of
message is its layout, and a packet that is no concatenation of the fields of a layout
is refused before anything is done with it.
-/

namespace Rmote

namespace Sftp

def maxIo : ℕ := 256 * 1024

def maxPacket : ℕ := maxIo + 1024

inductive Message where
  | init
  | version
  | openFile
  | close
  | read
  | write
  | lstat
  | fstat
  | setstat
  | fsetstat
  | opendir
  | readdir
  | remove
  | mkdir
  | rmdir
  | realpath
  | stat
  | rename
  | readlink
  | symlink
  | status
  | handle
  | data
  | name
  | attrs
  | extended
  deriving DecidableEq, Repr

def Message.code : Message → ℕ
  | init => 1
  | version => 2
  | openFile => 3
  | close => 4
  | read => 5
  | write => 6
  | lstat => 7
  | fstat => 8
  | setstat => 9
  | fsetstat => 10
  | opendir => 11
  | readdir => 12
  | remove => 13
  | mkdir => 14
  | rmdir => 15
  | realpath => 16
  | stat => 17
  | rename => 18
  | readlink => 19
  | symlink => 20
  | status => 101
  | handle => 102
  | data => 103
  | name => 104
  | attrs => 105
  | extended => 200

/-- The kinds that the server answers with more than a refusal. -/
def Message.requests : List Message :=
  [openFile, close, read, write, lstat, fstat, setstat, fsetstat, opendir, readdir, remove, mkdir,
    rmdir, realpath, stat, rename, readlink, symlink, extended]

/-- The request of a code. -/
def Message.ofCode (code : ℕ) : Option Message := requests.find? fun m => m.code = code

/-- The attributes of a packet. -/
structure Attrs where
  size : Option ℕ
  owner : Option (ℕ × ℕ)
  permissions : Option ℕ
  times : Option (ℕ × ℕ)
  deriving DecidableEq, Repr

/-- Why a packet is refused. -/
inductive PacketError where
  | truncated
  | nulInPath
  | unknownFlags
  | extendedAttributes
  | unexpectedData
  | unsupportedExtension
  | unsupportedRequest
  deriving DecidableEq, Repr

structure Packet where
  data : Bytes
  offset : ℕ
  deriving DecidableEq, Repr

/-- What is left of a packet. -/
def Packet.rest (p : Packet) : Bytes := p.data.drop p.offset

/-- A step through a packet. -/
abbrev Parser : Type → Type := StateT Packet (Except PacketError)

def take (size : ℕ) : Parser Bytes := fun p =>
  if p.data.length - p.offset < size then .error .truncated
  else .ok ((p.data.drop p.offset).take size, { p with offset := p.offset + size })

def uint32 : Parser ℕ := do
  return BigEndian.decode (← take 4)

def uint64 : Parser ℕ := do
  return BigEndian.decode (← take 8)

def string : Parser Bytes := do
  take (← uint32)

/-- A path is kept as its bytes, which decoding with `surrogateescape` loses nothing of. -/
def path : Parser Bytes := do
  let data ← string
  if 0 ∈ data then throw .nulInPath else return data

/-- So many pairs of strings, which nobody looks at. -/
def skipPairs : ℕ → Parser Unit
  | 0 => return
  | count + 1 => do
      let _ ← string
      let _ ← string
      skipPairs count

/-- `AttrFlags.ALL`. -/
def allFlags : ℕ := 0x8000000f

/-- A field that is there when its flag is set. -/
def flagged {α : Type} (flags bit : ℕ) (field : Parser α) : Parser (Option α) := do
  if flags.testBit bit then
    return some (← field)
  else
    return none

def uint32Pair : Parser (ℕ × ℕ) := do
  let first ← uint32
  let second ← uint32
  return (first, second)

def attrs : Parser Attrs := do
  let flags ← uint32
  if flags &&& (0xffffffff ^^^ allFlags) ≠ 0 then
    throw .unknownFlags
  else
    let size ← flagged flags 0 uint64
    let owner ← flagged flags 1 uint32Pair
    let permissions ← flagged flags 2 uint32
    let times ← flagged flags 3 uint32Pair
    if flags.testBit 31 then
      let count ← uint32
      skipPairs count
      throw .extendedAttributes
    else
      return ⟨size, owner, permissions, times⟩

/-- `Packet.end`. -/
def finish : Parser Unit := fun p =>
  if p.offset ≠ p.data.length then .error .unexpectedData else .ok ((), p)

/-- The pairs of strings behind the version of an `INIT`. -/
def initPairs : ℕ → Parser Unit
  | 0 => return
  | fuel + 1 => do
      let p ← StateT.get
      if p.offset < p.data.length then
        let _ ← string
        let _ ← string
        initPairs fuel

/-- An operation of `Files`, with its arguments. -/
inductive FilesCall where
  | start
  | release
  | openFile (path : Bytes) (flags mode : ℕ)
  | close (handle : Bytes)
  | read (handle : Bytes) (offset size : ℕ)
  | write (handle : Bytes) (offset : ℕ) (data : Bytes)
  | stat (path : Bytes) (follow : Bool)
  | fstat (handle : Bytes)
  | setstat (path : Bytes) (attrs : Attrs)
  | fsetstat (handle : Bytes) (attrs : Attrs)
  | opendir (path : Bytes)
  | readdir (handle : Bytes)
  | realpath (path : Bytes)
  | readlink (path : Bytes)
  | symlink (target path : Bytes)
  | mkdir (path : Bytes) (mode : ℕ)
  | remove (path : Bytes) (directory : Bool)
  | rename (source target : Bytes) (replace : Bool)
  | fsync (handle : Bytes)
  deriving DecidableEq, Repr

/-- The bytes of an ASCII text. -/
def ascii (text : String) : Bytes := text.toList.map fun c => UInt8.ofNat c.toNat

def posixRename : Bytes := ascii "posix-rename@openssh.com"

def fsyncExtension : Bytes := ascii "fsync@openssh.com"

/-- What a request asks of `Files`, once its packet was read to the end. -/
def parse : Option Message → Parser FilesCall
  | some .openFile => do
      let file ← path
      let flags ← uint32
      let attrs ← attrs
      finish
      return .openFile file flags (attrs.permissions.getD 0o666)
  | some .close => do
      let handle ← string
      finish
      return .close handle
  | some .read => do
      let handle ← string
      let offset ← uint64
      let size ← uint32
      finish
      return .read handle offset (min size maxIo)
  | some .write => do
      let handle ← string
      let offset ← uint64
      let data ← string
      finish
      return .write handle offset data
  | some .stat => do
      let target ← path
      finish
      return .stat target true
  | some .lstat => do
      let target ← path
      finish
      return .stat target false
  | some .fstat => do
      let target ← string
      finish
      return .fstat target
  | some .setstat => do
      let target ← path
      let values ← attrs
      finish
      return .setstat target values
  | some .fsetstat => do
      let target ← string
      let values ← attrs
      finish
      return .fsetstat target values
  | some .opendir => do
      let directory ← path
      finish
      return .opendir directory
  | some .readdir => do
      let handle ← string
      finish
      return .readdir handle
  | some .remove => do
      let file ← path
      finish
      return .remove file false
  | some .rmdir => do
      let directory ← path
      finish
      return .remove directory true
  | some .mkdir => do
      let directory ← path
      let values ← attrs
      finish
      return .mkdir directory (values.permissions.getD 0o777)
  | some .realpath => do
      let file ← path
      finish
      return .realpath file
  | some .readlink => do
      let file ← path
      finish
      return .readlink file
  | some .rename => do
      let source ← path
      let target ← path
      finish
      return .rename source target false
  | some .symlink => do
      let source ← path
      let target ← path
      finish
      return .symlink source target
  | some .extended => do
      let name ← string
      if name = posixRename then
        let source ← path
        let target ← path
        finish
        return .rename source target true
      else if name = fsyncExtension then
        let handle ← string
        finish
        return .fsync handle
      else throw .unsupportedExtension
  | _ => throw .unsupportedRequest

/-- What stands in a packet. -/
inductive Field where
  | uint32
  | uint64
  | string
  /-- A string without NUL. -/
  | path
  /-- Flags and the numbers that they announce. -/
  | attrs
  /-- One certain string. -/
  | literal (value : Bytes)
  deriving DecidableEq, Repr

/-- A string as it is written. -/
def packString (value : Bytes) : Bytes := BigEndian.encode 4 value.length ++ value

/-- The number of bytes that flags announce. -/
def attrsSize (flags : ℕ) : ℕ :=
  (if flags.testBit 0 then 8 else 0) + (if flags.testBit 1 then 8 else 0) +
    (if flags.testBit 2 then 4 else 0) + (if flags.testBit 3 then 8 else 0)

/-- The bytes are such a field. Attributes have no unknown flag, and none of extended ones. -/
def Field.Holds : Field → Bytes → Prop
  | uint32, bytes => bytes.length = 4
  | uint64, bytes => bytes.length = 8
  | string, bytes => ∃ value : Bytes, value.length < 2 ^ 32 ∧ bytes = packString value
  | path, bytes => ∃ value : Bytes, value.length < 2 ^ 32 ∧ bytes = packString value ∧ 0 ∉ value
  | attrs, bytes => ∃ (flags : ℕ) (values : Bytes), flags < 16 ∧ values.length = attrsSize flags ∧
      bytes = BigEndian.encode 4 flags ++ values
  | literal value, bytes => bytes = packString value

/-- The bytes are these fields one after the other, with nothing before, between or behind. -/
def LayoutHolds : List Field → Bytes → Prop
  | [], bytes => bytes = []
  | field :: fields, bytes => ∃ first rest, bytes = first ++ rest ∧ field.Holds first ∧
      LayoutHolds fields rest

/-- The fields of a request behind its id. -/
def Message.layouts : Message → List (List Field)
  | openFile => [[.path, .uint32, .attrs]]
  | close => [[.string]]
  | read => [[.string, .uint64, .uint32]]
  | write => [[.string, .uint64, .string]]
  | lstat => [[.path]]
  | stat => [[.path]]
  | fstat => [[.string]]
  | setstat => [[.path, .attrs]]
  | fsetstat => [[.string, .attrs]]
  | opendir => [[.path]]
  | readdir => [[.string]]
  | remove => [[.path]]
  | rmdir => [[.path]]
  | mkdir => [[.path, .attrs]]
  | realpath => [[.path]]
  | readlink => [[.path]]
  | rename => [[.path, .path]]
  | symlink => [[.path, .path]]
  | extended => [[.literal posixRename, .path, .path], [.literal fsyncExtension, .string]]
  | _ => []

/-- A parser that accepts only these fields at the front of what is left of its packet. -/
def Reads {α : Type} (fields : List Field) (parser : Parser α) : Prop :=
  ∀ p a p', parser p = .ok (a, p') →
    ∃ bytes, LayoutHolds fields bytes ∧ p.rest = bytes ++ p'.rest ∧ p'.data = p.data

/-- A parser that accepts only packets of which these fields are all that is left. -/
def ReadsAll {α : Type} (fields : List Field) (parser : Parser α) : Prop :=
  ∀ p a p', parser p = .ok (a, p') → LayoutHolds fields p.rest

section Reads

variable {α β : Type} {fields more : List Field} {p p' : Packet} {bytes rest : Bytes} {size : ℕ}

theorem layoutHolds_append (h : LayoutHolds fields bytes) (h' : LayoutHolds more rest) :
    LayoutHolds (fields ++ more) (bytes ++ rest) := by
  induction fields generalizing bytes with
  | nil =>
      obtain rfl : bytes = [] := h
      exact h'
  | cons field fields ih =>
      obtain ⟨first, others, rfl, hfield, hothers⟩ := h
      exact ⟨first, others ++ rest, List.append_assoc _ _ _, hfield, ih hothers⟩

theorem layoutHolds_singleton {field : Field} : LayoutHolds [field] bytes ↔ field.Holds bytes := by
  constructor
  · rintro ⟨first, rest, rfl, hfield, rfl⟩
    rwa [List.append_nil]
  · intro h
    exact ⟨bytes, [], (List.append_nil _).symm, h, rfl⟩

/-- What a step after another one accepts. -/
theorem bind_eq_ok {parser : Parser α} {next : α → Parser β} {b : β}
    (h : (parser >>= next) p = .ok (b, p')) :
    ∃ a q, parser p = .ok (a, q) ∧ next a q = .ok (b, p') := by
  change ((parser p).bind fun r => next r.1 r.2) = .ok (b, p') at h
  cases hfirst : parser p with
  | error e =>
      rw [hfirst] at h
      cases h
  | ok r =>
      rw [hfirst] at h
      exact ⟨r.1, r.2, rfl, h⟩

theorem pure_eq_ok {a b : α} (h : (pure a : Parser α) p = .ok (b, p')) : b = a ∧ p' = p := by
  obtain ⟨rfl, rfl⟩ := Prod.mk.inj (Except.ok.inj h)
  exact ⟨rfl, rfl⟩

/-- `take` is the only step that reads, and it reads inside of its packet. -/
theorem take_eq_ok (h : take size p = .ok (bytes, p')) :
    bytes = p.rest.take size ∧ size ≤ p.rest.length ∧ p'.rest = p.rest.drop size ∧
      p'.data = p.data ∧ p'.offset = p.offset + size := by
  unfold take at h
  split_ifs at h with hsize
  obtain ⟨rfl, rfl⟩ := Prod.mk.inj (Except.ok.inj h)
  refine ⟨rfl, ?_, ?_, rfl, rfl⟩
  · rw [Packet.rest, List.length_drop]
    omega
  · rw [Packet.rest, Packet.rest, List.drop_drop]

/-- A parser that reads so many bytes. -/
def Consumes (count : ℕ) (parser : Parser α) : Prop :=
  ∀ p a p', parser p = .ok (a, p') →
    ∃ bytes : Bytes, bytes.length = count ∧ p.rest = bytes ++ p'.rest ∧ p'.data = p.data

theorem consumes_take (size : ℕ) : Consumes size (take size) := by
  intro p a p' h
  obtain ⟨rfl, hsize, hrest, hdata, -⟩ := take_eq_ok h
  refine ⟨p.rest.take size, List.length_take_of_le hsize, ?_, hdata⟩
  rw [hrest, List.take_append_drop]

theorem Consumes.bind {m n : ℕ} {parser : Parser α} {next : α → Parser β} (h : Consumes m parser)
    (h' : ∀ a, Consumes n (next a)) : Consumes (m + n) (parser >>= next) := by
  intro p b p' hb
  obtain ⟨a, q, ha, hb⟩ := bind_eq_ok hb
  obtain ⟨first, hfirst, hrest, hdata⟩ := h p a q ha
  obtain ⟨second, hsecond, hrest', hdata'⟩ := h' a q b p' hb
  refine ⟨first ++ second, ?_, ?_, hdata'.trans hdata⟩
  · rw [List.length_append, hfirst, hsecond]
  · rw [hrest, hrest', List.append_assoc]

theorem consumes_pure (a : α) : Consumes 0 (pure a : Parser α) := by
  intro p b p' h
  obtain ⟨-, rfl⟩ := pure_eq_ok h
  exact ⟨[], rfl, rfl, rfl⟩

theorem consumes_uint32 : Consumes 4 uint32 := (consumes_take 4).bind fun _ => consumes_pure _

theorem consumes_uint64 : Consumes 8 uint64 := (consumes_take 8).bind fun _ => consumes_pure _

theorem consumes_uint32Pair : Consumes 8 uint32Pair :=
  consumes_uint32.bind fun _ => consumes_uint32.bind fun _ => consumes_pure _

theorem consumes_flagged {count : ℕ} {field : Parser α} (h : Consumes count field)
    (flags bit : ℕ) :
    Consumes (if flags.testBit bit then count else 0) (flagged flags bit field) := by
  unfold flagged
  split_ifs with hbit
  · exact h.bind fun _ => consumes_pure _
  · exact consumes_pure _

/-- A field in front of the others. -/
theorem Reads.before {parser : Parser α} {next : α → Parser β} (h : Reads fields parser)
    (h' : ∀ a, ReadsAll more (next a)) : ReadsAll (fields ++ more) (parser >>= next) := by
  intro p b p' hb
  obtain ⟨a, q, ha, hb⟩ := bind_eq_ok hb
  obtain ⟨first, hfirst, hrest, -⟩ := h p a q ha
  rw [hrest]
  exact layoutHolds_append hfirst (h' a q b p' hb)

/-- `finish` lets a packet through of which nothing is left. -/
theorem readsAll_finish (a : α) : ReadsAll [] (finish >>= fun _ => pure a) := by
  intro p b p' hb
  obtain ⟨_, q, hfinish, -⟩ := bind_eq_ok hb
  unfold finish at hfinish
  split_ifs at hfinish with hend
  rw [not_not] at hend
  rw [Packet.rest, hend, List.drop_length]
  rfl

theorem reads_of_consumes {count : ℕ} {field : Field} {parser : Parser α}
    (h : Consumes count parser)
    (hfield : ∀ bytes : Bytes, bytes.length = count → field.Holds bytes) :
    Reads [field] parser := by
  intro p a p' ha
  obtain ⟨bytes, hlength, hrest, hdata⟩ := h p a p' ha
  exact ⟨bytes, layoutHolds_singleton.mpr (hfield bytes hlength), hrest, hdata⟩

theorem reads_uint32 : Reads [.uint32] uint32 := reads_of_consumes consumes_uint32 fun _ h => h

theorem reads_uint64 : Reads [.uint64] uint64 := reads_of_consumes consumes_uint64 fun _ h => h

/-- A number and the bytes that it was read from. -/
theorem uint32_eq_ok {n : ℕ} (h : uint32 p = .ok (n, p')) :
    n < 2 ^ 32 ∧ p.rest = BigEndian.encode 4 n ++ p'.rest ∧ p'.data = p.data := by
  obtain ⟨header, q, htake, hpure⟩ := bind_eq_ok h
  obtain ⟨rfl, rfl⟩ := pure_eq_ok hpure
  obtain ⟨hheader, hsize, hrest, hdata, -⟩ := take_eq_ok htake
  have hlength : header.length = 4 := by rw [hheader, List.length_take_of_le hsize]
  refine ⟨?_, ?_, hdata⟩
  · have hlt := BigEndian.decode_lt header
    rw [hlength] at hlt
    exact hlt
  · rw [← hlength, BigEndian.encode_decode, hrest, hheader, List.take_append_drop]

theorem string_eq_ok (h : string p = .ok (bytes, p')) :
    bytes.length < 2 ^ 32 ∧ p.rest = packString bytes ++ p'.rest ∧ p'.data = p.data := by
  obtain ⟨n, q, hcount, htake⟩ := bind_eq_ok h
  obtain ⟨hn, hrest, hdata⟩ := uint32_eq_ok hcount
  obtain ⟨rfl, hsize, hrest', hdata', -⟩ := take_eq_ok htake
  have hlength : (q.rest.take n).length = n := List.length_take_of_le hsize
  refine ⟨by rw [hlength]; exact hn, ?_, hdata'.trans hdata⟩
  rw [packString, hlength, hrest, hrest', List.append_assoc, List.take_append_drop]

theorem reads_string : Reads [.string] string := by
  intro p value p' h
  obtain ⟨hlength, hrest, hdata⟩ := string_eq_ok h
  exact ⟨packString value, layoutHolds_singleton.mpr ⟨value, hlength, rfl⟩, hrest, hdata⟩

theorem reads_path : Reads [.path] path := by
  intro p value p' h
  obtain ⟨data, q, hstring, hrest⟩ := bind_eq_ok h
  obtain ⟨hlength, hbytes, hdata⟩ := string_eq_ok hstring
  by_cases hnul : 0 ∈ data
  · rw [if_pos hnul] at hrest
    cases hrest
  · rw [if_neg hnul] at hrest
    obtain ⟨rfl, rfl⟩ := pure_eq_ok hrest
    exact ⟨_, layoutHolds_singleton.mpr ⟨_, hlength, rfl, hnul⟩, hbytes, hdata⟩

/-- Flags that are known, and none of extended attributes. -/
theorem lt_of_flags {flags : ℕ} (hlt : flags < 2 ^ 32)
    (hknown : flags &&& (0xffffffff ^^^ allFlags) = 0) (hextended : flags.testBit 31 = false) :
    flags < 16 := by
  refine Nat.lt_pow_two_of_testBit (n := 4) flags fun i hi => ?_
  by_cases hlow : i < 31
  · have hmask : ∀ j, 4 ≤ j → j < 31 → (0xffffffff ^^^ allFlags).testBit j = true := by decide
    have hbit := congrArg (Nat.testBit · i) hknown
    simpa [Nat.testBit_and, hmask i hi hlow] using hbit
  · by_cases heq : i = 31
    · rw [heq, hextended]
    · exact Nat.testBit_lt_two_pow (hlt.trans_le (Nat.pow_le_pow_right (by decide) (by omega)))

theorem reads_attrs : Reads [.attrs] attrs := by
  intro p value p' h
  obtain ⟨flags, q, hflags, h⟩ := bind_eq_ok h
  obtain ⟨hlt, hheader, hdata⟩ := uint32_eq_ok hflags
  by_cases hunknown : flags &&& (0xffffffff ^^^ allFlags) ≠ 0
  · rw [if_pos hunknown] at h
    cases h
  · rw [if_neg hunknown] at h
    rw [not_not] at hunknown
    obtain ⟨size, q₁, hsize, h⟩ := bind_eq_ok h
    obtain ⟨owner, q₂, howner, h⟩ := bind_eq_ok h
    obtain ⟨permissions, q₃, hpermissions, h⟩ := bind_eq_ok h
    obtain ⟨times, q₄, htimes, h⟩ := bind_eq_ok h
    by_cases hextended : flags.testBit 31 = true
    · rw [if_pos hextended] at h
      obtain ⟨count, q₅, -, h⟩ := bind_eq_ok h
      obtain ⟨_, q₆, -, h⟩ := bind_eq_ok h
      cases h
    · rw [if_neg hextended] at h
      obtain ⟨rfl, rfl⟩ := pure_eq_ok h
      obtain ⟨b₁, h₁, hrest₁, hdata₁⟩ := consumes_flagged consumes_uint64 flags 0 _ _ _ hsize
      obtain ⟨b₂, h₂, hrest₂, hdata₂⟩ := consumes_flagged consumes_uint32Pair flags 1 _ _ _ howner
      obtain ⟨b₃, h₃, hrest₃, hdata₃⟩ := consumes_flagged consumes_uint32 flags 2 _ _ _ hpermissions
      obtain ⟨b₄, h₄, hrest₄, hdata₄⟩ := consumes_flagged consumes_uint32Pair flags 3 _ _ _ htimes
      rw [Bool.not_eq_true] at hextended
      refine ⟨BigEndian.encode 4 flags ++ (b₁ ++ b₂ ++ b₃ ++ b₄), layoutHolds_singleton.mpr
        ⟨flags, _, lt_of_flags hlt hunknown hextended, ?_, rfl⟩, ?_, ?_⟩
      · rw [List.length_append, List.length_append, List.length_append, h₁, h₂, h₃, h₄, attrsSize]
      · rw [hheader, hrest₁, hrest₂, hrest₃, hrest₄]
        simp only [List.append_assoc]
      · rw [hdata₄, hdata₃, hdata₂, hdata₁, hdata]

end Reads

section Layouts

variable {α : Type} {p p' : Packet}

theorem readsAll_string (f : Bytes → α) :
    ReadsAll [.string] (string >>= fun value => finish >>= fun _ => pure (f value)) :=
  reads_string.before fun _ => readsAll_finish _

theorem readsAll_path (f : Bytes → α) :
    ReadsAll [.path] (path >>= fun value => finish >>= fun _ => pure (f value)) :=
  reads_path.before fun _ => readsAll_finish _

theorem readsAll_paths (f : Bytes → Bytes → α) :
    ReadsAll [.path, .path] (path >>= fun source => path >>= fun target =>
      finish >>= fun _ => pure (f source target)) :=
  reads_path.before fun _ => reads_path.before fun _ => readsAll_finish _

end Layouts

/-- A request that is parsed has one of the layouts of its message. -/
theorem layout_of_parse {message : Option Message} {p p' : Packet} {call : FilesCall}
    (h : parse message p = .ok (call, p')) :
    ∃ m fields, message = some m ∧ fields ∈ m.layouts ∧ LayoutHolds fields p.rest := by
  cases message with
  | none => cases h
  | some m =>
      have hone (fields : List Field) (hfields : fields ∈ m.layouts)
          (hreads : ReadsAll fields (parse (some m))) :
          ∃ m' fields, some m = some m' ∧ fields ∈ m'.layouts ∧ LayoutHolds fields p.rest :=
        ⟨m, fields, rfl, hfields, hreads p call p' h⟩
      cases m with
      | openFile =>
          exact hone [.path, .uint32, .attrs] (by simp [Message.layouts])
            (reads_path.before fun _ => reads_uint32.before fun _ => reads_attrs.before fun _ =>
              readsAll_finish _)
      | close => exact hone [.string] (by simp [Message.layouts]) (readsAll_string _)
      | read =>
          exact hone [.string, .uint64, .uint32] (by simp [Message.layouts])
            (reads_string.before fun _ => reads_uint64.before fun _ => reads_uint32.before fun _ =>
              readsAll_finish _)
      | write =>
          exact hone [.string, .uint64, .string] (by simp [Message.layouts])
            (reads_string.before fun _ => reads_uint64.before fun _ => readsAll_string _)
      | lstat => exact hone [.path] (by simp [Message.layouts]) (readsAll_path _)
      | fstat => exact hone [.string] (by simp [Message.layouts]) (readsAll_string _)
      | setstat =>
          exact hone [.path, .attrs] (by simp [Message.layouts]) (reads_path.before fun _ =>
            reads_attrs.before fun _ => readsAll_finish _)
      | fsetstat =>
          exact hone [.string, .attrs] (by simp [Message.layouts]) (reads_string.before fun _ =>
            reads_attrs.before fun _ => readsAll_finish _)
      | opendir => exact hone [.path] (by simp [Message.layouts]) (readsAll_path _)
      | readdir => exact hone [.string] (by simp [Message.layouts]) (readsAll_string _)
      | remove => exact hone [.path] (by simp [Message.layouts]) (readsAll_path _)
      | mkdir =>
          exact hone [.path, .attrs] (by simp [Message.layouts]) (reads_path.before fun _ =>
            reads_attrs.before fun _ => readsAll_finish _)
      | rmdir => exact hone [.path] (by simp [Message.layouts]) (readsAll_path _)
      | realpath => exact hone [.path] (by simp [Message.layouts]) (readsAll_path _)
      | stat => exact hone [.path] (by simp [Message.layouts]) (readsAll_path _)
      | rename => exact hone [.path, .path] (by simp [Message.layouts]) (readsAll_paths _)
      | readlink => exact hone [.path] (by simp [Message.layouts]) (readsAll_path _)
      | symlink => exact hone [.path, .path] (by simp [Message.layouts]) (readsAll_paths _)
      | extended =>
          obtain ⟨name, q, hname, h⟩ := bind_eq_ok h
          obtain ⟨-, hrest, -⟩ := string_eq_ok hname
          rw [hrest]
          by_cases hrename : name = posixRename
          · rw [if_pos hrename] at h
            exact ⟨.extended, [.literal posixRename, .path, .path], rfl, by simp [Message.layouts],
              _, _, rfl, by rw [hrename]; rfl, readsAll_paths _ q call p' h⟩
          · rw [if_neg hrename] at h
            by_cases hfsync : name = fsyncExtension
            · rw [if_pos hfsync] at h
              exact ⟨.extended, [.literal fsyncExtension, .string], rfl, by simp [Message.layouts],
                _, _, rfl, by rw [hfsync]; rfl, readsAll_string _ q call p' h⟩
            · rw [if_neg hfsync] at h
              cases h
      | _ => cases h

/-- A parser that returns only such values. -/
def Returns {α : Type} (P : α → Prop) (parser : Parser α) : Prop :=
  ∀ p a p', parser p = .ok (a, p') → P a

section Returns

variable {α β : Type} {P : β → Prop}

theorem Returns.bind {parser : Parser α} {next : α → Parser β} (h : ∀ a, Returns P (next a)) :
    Returns P (parser >>= next) := by
  intro p b p' hb
  obtain ⟨a, q, -, hb⟩ := bind_eq_ok hb
  exact h a q b p' hb

theorem returns_pure {b : β} (h : P b) : Returns P (pure b : Parser β) := by
  intro p a p' ha
  obtain ⟨rfl, -⟩ := pure_eq_ok ha
  exact h

theorem returns_throw (e : PacketError) : Returns P (throw e : Parser β) := by
  intro p a p' h
  cases h

end Returns

/-- A request neither starts nor releases the session. -/
theorem returns_parse (message : Option Message) :
    Returns (fun call => call ≠ .start ∧ call ≠ .release) (parse message) := by
  cases message with
  | none => exact returns_throw _
  | some m =>
      cases m with
      | extended =>
          refine .bind fun name => ?_
          split_ifs
          · exact .bind fun _ => .bind fun _ => .bind fun _ => returns_pure (by simp)
          · exact .bind fun _ => .bind fun _ => returns_pure (by simp)
          · exact returns_throw _
      | _ =>
          first
          | exact returns_throw _
          | exact .bind fun _ => .bind fun _ => returns_pure (by simp)
          | exact .bind fun _ => .bind fun _ => .bind fun _ => returns_pure (by simp)
          | exact .bind fun _ => .bind fun _ => .bind fun _ => .bind fun _ => returns_pure (by simp)

end Sftp

end Rmote
