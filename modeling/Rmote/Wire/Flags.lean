import Mathlib.Data.List.Basic

/-!
# Packet flags

The flags of a packet travel as one unsigned 32-bit word, and a bit that no name
below claims is kept as it arrived. `has flags mask` is the truth value of
`flags & mask`, and `clear flags mask` is `flags & ~mask`.
-/

namespace Rmote

/-- A Python `bytes` value. -/
abbrev Bytes := List UInt8

/-- The flag word of a frame or of a packet. -/
abbrev Flags := BitVec 32

namespace Flags

def compressed : Flags := 1#32

def request : Flags := 1#32 <<< 1

def response : Flags := 1#32 <<< 2

def sync : Flags := 1#32 <<< 3

def rpc : Flags := 1#32 <<< 4

def exception : Flags := 1#32 <<< 5

def log : Flags := 1#32 <<< 6

def fragment : Flags := 1#32 <<< 7

/-- One item of a streaming response. More items can follow, and the ordinary
response that comes after them ends the stream. -/
def stream : Flags := 1#32 <<< 8

/-- An outer source manifest precedes the object pickle. -/
def modules : Flags := 1#32 <<< 9

/-- The payload holds several items of one stream, each with its length. -/
def batch : Flags := 1#32 <<< 10

/-- The truth value of `flags & mask`. -/
def has (flags mask : Flags) : Bool := flags &&& mask != 0#32

/-- The flags without the bits of `mask`. -/
def clear (flags mask : Flags) : Flags := flags &&& ~~~mask

theorem has_eq_false_iff (flags mask : Flags) :
    has flags mask = false ↔ flags &&& mask = 0#32 := by
  simp [has]

@[simp] theorem has_or (f g mask : Flags) :
    has (f ||| g) mask = (has f mask || has g mask) := by
  rw [Bool.eq_iff_iff]
  simp only [has, BitVec.and_or_distrib_right, bne_iff_ne, ne_eq, Bool.or_eq_true,
    BitVec.or_eq_zero_iff]
  tauto

/-- Bits that a mask keeps. -/
theorem has_and_of_kept (flags : Flags) {kept mask : Flags} (h : kept &&& mask = mask) :
    has (flags &&& kept) mask = has flags mask := by
  rw [has, has, BitVec.and_assoc, h]

@[simp] theorem has_clear_self (flags mask : Flags) : has (clear flags mask) mask = false := by
  rw [has_eq_false_iff]
  ext i
  simp [clear]

/-- Clearing some bits leaves the other bits of the word as they were. -/
theorem has_clear_of_disjoint (flags : Flags) {mask other : Flags}
    (h : other &&& mask = 0#32) : has (clear flags other) mask = has flags mask := by
  have hsame : clear flags other &&& mask = flags &&& mask := by
    ext i hi
    have hbit : (other[i] && mask[i]) = false := by
      simpa using congrArg (fun w : BitVec 32 => w[i]) h
    cases ho : other[i] <;> simp_all [clear]
  simp [has, hsame]

theorem clear_eq_self {flags mask : Flags} (h : has flags mask = false) :
    clear flags mask = flags := by
  rw [has_eq_false_iff] at h
  ext i hi
  have hbit : (flags[i] && mask[i]) = false := by
    simpa using congrArg (fun w : BitVec 32 => w[i]) h
  cases hm : mask[i] <;> simp_all [clear]

/-- Setting a flag that was not there and clearing it again changes nothing. -/
theorem clear_or_self {flags mask : Flags} (h : has flags mask = false) :
    clear (flags ||| mask) mask = flags := by
  have hdrop : clear (flags ||| mask) mask = clear flags mask := by
    ext i hi
    cases hm : mask[i] <;> simp [clear, hm]
  rw [hdrop, clear_eq_self h]

end Flags

end Rmote
