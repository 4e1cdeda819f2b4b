import Rmote.Library.Dict
import Rmote.Wire.Flags

/-!
# The reassembly buffer

`FragmentBuffer` keeps the fragments of every packet that arrived in part, one
entry for each packet id, and refuses to grow above its two limits. A refused
fragment raises, but the entry that was opened for it stays. `joined b n` is
what the buffer holds for the packet id `n`, and the lemmas below describe the
operations through it.
-/

namespace Rmote

/-- The two refusals of `FragmentBuffer.store`. -/
inductive StoreError where
  | tooManyPackets (count : ℕ)
  | overflow (bytes : ℕ)
  deriving DecidableEq, Repr

/-- The text of the `ValueError`. -/
def StoreError.message : StoreError → String
  | tooManyPackets count => s!"Too many incomplete packets: {count}"
  | overflow bytes => s!"Reassembly buffer overflow: {bytes} bytes"

/-- Reassembly buffer for packets that arrive in more than one frame. -/
structure FragmentBuffer where
  maxBytes : ℕ
  maxPackets : ℕ
  buffers : AList fun _ : ℕ => List Bytes
  sizes : AList fun _ : ℕ => ℕ
  totalBytes : ℕ

namespace FragmentBuffer

/-- A buffer without fragments. -/
def new (maxBytes maxPackets : ℕ) : FragmentBuffer where
  maxBytes := maxBytes
  maxPackets := maxPackets
  buffers := ∅
  sizes := ∅
  totalBytes := 0

/-- The second half of `store`, once the entry of the packet exists. -/
def append (b : FragmentBuffer) (packetId : ℕ) (buffer : List Bytes) (chunk : Bytes) :
    Except StoreError Unit × FragmentBuffer :=
  if b.maxBytes < b.totalBytes + chunk.length then
    (.error (.overflow (b.totalBytes + chunk.length)), b)
  else
    (.ok (),
      { b with
        buffers := b.buffers.insert packetId (buffer ++ [chunk])
        sizes := b.sizes.insert packetId ((b.sizes.lookup packetId).getD 0 + chunk.length)
        totalBytes := b.totalBytes + chunk.length })

/-- Append one non-final fragment. The buffer is returned next to the outcome,
because a refused fragment can leave a new empty entry behind. -/
def store (b : FragmentBuffer) (packetId : ℕ) (chunk : Bytes) :
    Except StoreError Unit × FragmentBuffer :=
  match b.buffers.lookup packetId with
  | none =>
      if b.maxPackets ≤ Dict.size b.buffers then
        (.error (.tooManyPackets (Dict.size b.buffers + 1)), b)
      else
        append
          { b with
            buffers := b.buffers.insert packetId []
            sizes := b.sizes.insert packetId 0 }
          packetId [] chunk
  | some buffer => append b packetId buffer chunk

/-- Join the stored fragments with the final chunk, and release the entry. -/
def take (b : FragmentBuffer) (packetId : ℕ) (tail : Bytes) : Bytes × FragmentBuffer :=
  match b.buffers.lookup packetId with
  | none => (tail, b)
  | some buffer =>
      ((buffer ++ [tail]).flatten,
        { b with
          buffers := b.buffers.erase packetId
          sizes := b.sizes.erase packetId
          totalBytes := b.totalBytes - (b.sizes.lookup packetId).getD 0 })

/-- Drop every buffered fragment. -/
def clear (b : FragmentBuffer) : FragmentBuffer :=
  { b with buffers := ∅, sizes := ∅, totalBytes := 0 }

/-- The bytes stored for one packet id, in arrival order. -/
def joined (b : FragmentBuffer) (packetId : ℕ) : Bytes :=
  ((b.buffers.lookup packetId).getD []).flatten

/-- The counters of the buffer describe its fragments. -/
structure Coherent (b : FragmentBuffer) : Prop where
  sizes_lookup : ∀ n, b.sizes.lookup n = (b.buffers.lookup n).map fun l => l.flatten.length
  totalBytes_eq : b.totalBytes = Dict.total b.sizes

theorem joined_of_notMem {b : FragmentBuffer} {n : ℕ} (h : n ∉ b.buffers) :
    b.joined n = [] := by
  rw [joined, AList.lookup_eq_none.mpr h]
  rfl

theorem Coherent.size_eq {b : FragmentBuffer} (h : b.Coherent) (n : ℕ) :
    (b.sizes.lookup n).getD 0 = (b.joined n).length := by
  rw [h.sizes_lookup n, joined]
  cases b.buffers.lookup n <;> rfl

theorem coherent_new (maxBytes maxPackets : ℕ) : (new maxBytes maxPackets).Coherent where
  sizes_lookup n := by simp [new]
  totalBytes_eq := by simp [new]

theorem coherent_append {b : FragmentBuffer} (hb : b.Coherent) {n : ℕ} {buffer : List Bytes}
    (hlookup : b.buffers.lookup n = some buffer) (chunk : Bytes) :
    (b.append n buffer chunk).2.Coherent := by
  unfold append
  split
  · exact hb
  · have hsize : b.sizes.lookup n = some buffer.flatten.length := by
      rw [hb.sizes_lookup n, hlookup]
      rfl
    constructor
    · intro m
      by_cases hm : m = n
      · subst hm
        simp [hsize]
      · rw [AList.lookup_insert_ne hm, AList.lookup_insert_ne hm, hb.sizes_lookup m]
    · have htotal := Dict.total_insert b.sizes n ((b.sizes.lookup n).getD 0 + chunk.length)
      have hsum := hb.totalBytes_eq
      simp only
      omega

/-- Opening an empty entry keeps the counters right. -/
theorem coherent_open {b : FragmentBuffer} (hb : b.Coherent) {n : ℕ}
    (hlookup : b.buffers.lookup n = none) :
    Coherent { b with buffers := b.buffers.insert n [], sizes := b.sizes.insert n 0 } := by
  have hsize : b.sizes.lookup n = none := by
    rw [hb.sizes_lookup n, hlookup]
    rfl
  constructor
  · intro m
    by_cases hm : m = n
    · subst hm
      simp
    · rw [AList.lookup_insert_ne hm, AList.lookup_insert_ne hm, hb.sizes_lookup m]
  · have htotal := Dict.total_insert b.sizes n 0
    have hsum := hb.totalBytes_eq
    rw [hsize] at htotal
    simp only [Option.getD_none] at htotal
    simp only
    omega

/-- `store` keeps the counters right, whether it accepts the fragment or not. -/
theorem coherent_store {b : FragmentBuffer} (hb : b.Coherent) (n : ℕ) (chunk : Bytes) :
    (b.store n chunk).2.Coherent := by
  unfold store
  split
  · rename_i hlookup
    split
    · exact hb
    · exact coherent_append (coherent_open hb hlookup) (by simp) chunk
  · rename_i buffer hlookup
    exact coherent_append hb hlookup chunk

theorem coherent_take {b : FragmentBuffer} (hb : b.Coherent) (n : ℕ) (tail : Bytes) :
    (b.take n tail).2.Coherent := by
  unfold take
  split
  · exact hb
  · constructor
    · intro m
      by_cases hm : m = n
      · subst hm
        simp
      · simp only
        rw [AList.lookup_erase_ne hm, AList.lookup_erase_ne hm, hb.sizes_lookup m]
    · have htotal := Dict.total_erase b.sizes n
      have hsum := hb.totalBytes_eq
      simp only
      omega

/-- The final chunk completes exactly what was stored for its packet id. -/
theorem take_fst (b : FragmentBuffer) (n : ℕ) (tail : Bytes) :
    (b.take n tail).1 = b.joined n ++ tail := by
  unfold take joined
  cases b.buffers.lookup n <;> simp

theorem mem_take {b : FragmentBuffer} {n m : ℕ} {tail : Bytes} :
    m ∈ (b.take n tail).2.buffers ↔ m ≠ n ∧ m ∈ b.buffers := by
  unfold take
  split
  · rename_i hlookup
    have hn : n ∉ b.buffers := AList.lookup_eq_none.mp hlookup
    constructor
    · intro hm
      exact ⟨fun heq => hn (heq ▸ hm), hm⟩
    · exact fun h => h.2
  · exact AList.mem_erase

theorem joined_take_self (b : FragmentBuffer) (n : ℕ) (tail : Bytes) :
    (b.take n tail).2.joined n = [] :=
  joined_of_notMem fun h => (mem_take.mp h).1 rfl

theorem joined_take_ne (b : FragmentBuffer) {n m : ℕ} (tail : Bytes) (h : m ≠ n) :
    (b.take n tail).2.joined m = b.joined m := by
  unfold take
  split
  · rfl
  · simp only [joined]
    rw [AList.lookup_erase_ne h]

/-- A fragment is accepted exactly when it has an entry or finds room for one,
and its bytes fit. -/
theorem store_ok_iff (b : FragmentBuffer) (n : ℕ) (chunk : Bytes) :
    (b.store n chunk).1 = .ok () ↔
      (n ∈ b.buffers ∨ Dict.size b.buffers < b.maxPackets) ∧
        b.totalBytes + chunk.length ≤ b.maxBytes := by
  unfold store
  split
  · rename_i hlookup
    have hn : n ∉ b.buffers := AList.lookup_eq_none.mp hlookup
    simp only [append]
    split_ifs with hfull hover
    · simp [hn, Nat.not_lt.mpr hfull]
    · simp [Nat.not_le.mpr hover]
    · simp [Nat.not_lt.mp hover, Nat.not_le.mp hfull]
  · rename_i buffer hlookup
    have hn : n ∈ b.buffers := AList.lookup_isSome.mp (by rw [hlookup]; rfl)
    simp only [append]
    split_ifs <;> simp_all

/-- An accepted fragment extends its own packet id. -/
theorem joined_store_self {b : FragmentBuffer} {n : ℕ} {chunk : Bytes}
    (h : (b.store n chunk).1 = .ok ()) :
    (b.store n chunk).2.joined n = b.joined n ++ chunk := by
  unfold store append at h ⊢
  cases hlookup : b.buffers.lookup n with
  | none =>
      simp only [hlookup] at h ⊢
      split_ifs at h ⊢ with h1 h2
      all_goals simp_all [joined]
  | some buffer =>
      simp only [hlookup] at h ⊢
      split_ifs at h ⊢ with h1
      all_goals simp_all [joined]

theorem mem_store {b : FragmentBuffer} {n m : ℕ} {chunk : Bytes}
    (h : (b.store n chunk).1 = .ok ()) :
    m ∈ (b.store n chunk).2.buffers ↔ m = n ∨ m ∈ b.buffers := by
  unfold store append at h ⊢
  cases hlookup : b.buffers.lookup n with
  | none =>
      simp only [hlookup] at h ⊢
      split_ifs at h ⊢ with h1 h2
      all_goals simp_all
  | some buffer =>
      simp only [hlookup] at h ⊢
      split_ifs at h ⊢ with h1
      all_goals simp_all

theorem joined_store_ne (b : FragmentBuffer) {n m : ℕ} (chunk : Bytes) (h : m ≠ n) :
    (b.store n chunk).2.joined m = b.joined m := by
  unfold store append
  cases hlookup : b.buffers.lookup n with
  | none =>
      simp only
      split_ifs <;> simp [joined, AList.lookup_insert_ne h]
  | some buffer =>
      simp only
      split_ifs <;> simp [joined, AList.lookup_insert_ne h]

theorem totalBytes_take {b : FragmentBuffer} (hb : b.Coherent) (n : ℕ) (tail : Bytes) :
    (b.take n tail).2.totalBytes = b.totalBytes - (b.joined n).length := by
  have hsize := hb.size_eq n
  unfold take
  cases hlookup : b.buffers.lookup n with
  | none =>
      have hn : n ∉ b.buffers := AList.lookup_eq_none.mp hlookup
      simp [joined_of_notMem hn]
  | some buffer => simp [hsize]

@[simp] theorem maxBytes_store (b : FragmentBuffer) (n : ℕ) (chunk : Bytes) :
    (b.store n chunk).2.maxBytes = b.maxBytes := by
  unfold store append
  split <;> split_ifs <;> rfl

@[simp] theorem maxPackets_store (b : FragmentBuffer) (n : ℕ) (chunk : Bytes) :
    (b.store n chunk).2.maxPackets = b.maxPackets := by
  unfold store append
  split <;> split_ifs <;> rfl

@[simp] theorem maxBytes_take (b : FragmentBuffer) (n : ℕ) (tail : Bytes) :
    (b.take n tail).2.maxBytes = b.maxBytes := by
  unfold take
  split <;> rfl

@[simp] theorem maxPackets_take (b : FragmentBuffer) (n : ℕ) (tail : Bytes) :
    (b.take n tail).2.maxPackets = b.maxPackets := by
  unfold take
  split <;> rfl

end FragmentBuffer

end Rmote
