import Rmote.Wire.FragmentBuffer

/-!
# Runs of the reassembly buffer

The calls on a reassembly buffer can come in any order, and a `store` can be
refused. `run` performs a list of calls and records what each of them answered,
and `pending history n` reads out of that record which fragments of the packet id
`n` wait for the rest. The chunk lists, the sizes and the running total of the
buffer all describe these fragments (`Sound`), and both limits hold in every state
(`Bounded`).
-/

namespace Rmote

namespace FragmentBuffer

/-- One call on a reassembly buffer. -/
inductive Call where
  | store (packetId : ℕ) (chunk : Bytes)
  | take (packetId : ℕ) (tail : Bytes)
  | clear
  deriving DecidableEq

/-- What a call answers. -/
inductive Answer where
  | stored
  | refused (error : StoreError)
  | taken (packet : Bytes)
  | cleared
  deriving DecidableEq

/-- The answer to one call, and the buffer after it. -/
def perform (b : FragmentBuffer) : Call → Answer × FragmentBuffer
  | .store packetId chunk =>
      match b.store packetId chunk with
      | (.ok (), b') => (.stored, b')
      | (.error error, b') => (.refused error, b')
  | .take packetId tail => (.taken (b.take packetId tail).1, (b.take packetId tail).2)
  | .clear => (.cleared, b.clear)

/-- The buffer after the calls of a run from `b`, next to the answers. -/
def run (b : FragmentBuffer) : List Call → List (Call × Answer) × FragmentBuffer
  | [] => ([], b)
  | call :: calls =>
      let after := (b.perform call).2.run calls
      ((call, (b.perform call).1) :: after.1, after.2)

/-- The fragments of `n` that wait after one more call. Only an accepted fragment
is added, and a packet that is taken or cleared starts again. -/
def await (n : ℕ) (chunks : List Bytes) : Call × Answer → List Bytes
  | (.store packetId chunk, .stored) => if packetId = n then chunks ++ [chunk] else chunks
  | (.take packetId _, _) => if packetId = n then [] else chunks
  | (.clear, _) => []
  | _ => chunks

/-- The fragments of `n` that were accepted since it was taken or cleared last. -/
def pending (history : List (Call × Answer)) (n : ℕ) : List Bytes :=
  history.foldl (await n) []

/-- The counters are right and both limits hold. -/
structure Bounded (b : FragmentBuffer) : Prop where
  coherent : b.Coherent
  totalBytes_le : b.totalBytes ≤ b.maxBytes
  size_le : Dict.size b.buffers ≤ b.maxPackets

theorem bounded_new (maxBytes maxPackets : ℕ) : (new maxBytes maxPackets).Bounded where
  coherent := coherent_new maxBytes maxPackets
  totalBytes_le := Nat.zero_le _
  size_le := Nat.zero_le _

theorem bounded_clear (b : FragmentBuffer) : b.clear.Bounded where
  coherent := ⟨fun n => by simp [clear], by simp [clear]⟩
  totalBytes_le := Nat.zero_le _
  size_le := Nat.zero_le _

theorem bounded_append {b : FragmentBuffer} (hb : b.Bounded) {n : ℕ} {buffer : List Bytes}
    (hlookup : b.buffers.lookup n = some buffer) (chunk : Bytes) :
    (b.append n buffer chunk).2.Bounded := by
  have hmem : n ∈ b.buffers := AList.lookup_isSome.mp (by rw [hlookup]; rfl)
  refine ⟨coherent_append hb.coherent hlookup chunk, ?_, ?_⟩
  · unfold append
    split_ifs with hover
    · exact hb.totalBytes_le
    · exact not_lt.mp hover
  · unfold append
    split_ifs with hover
    · exact hb.size_le
    · simpa [Dict.size_insert_of_mem _ hmem] using hb.size_le

/-- A fragment that is accepted or refused leaves the buffer within its limits. -/
theorem bounded_store {b : FragmentBuffer} (hb : b.Bounded) (n : ℕ) (chunk : Bytes) :
    (b.store n chunk).2.Bounded := by
  unfold store
  split
  · rename_i hlookup
    have hn : n ∉ b.buffers := AList.lookup_eq_none.mp hlookup
    split
    · exact hb
    · rename_i hroom
      refine bounded_append ⟨coherent_open hb.coherent hlookup, hb.totalBytes_le, ?_⟩
        (by simp) chunk
      rw [Dict.size_insert_of_notMem _ hn]
      exact Nat.lt_of_not_le hroom
  · rename_i buffer hlookup
    exact bounded_append hb hlookup chunk

theorem bounded_take {b : FragmentBuffer} (hb : b.Bounded) (n : ℕ) (tail : Bytes) :
    (b.take n tail).2.Bounded := by
  refine ⟨coherent_take hb.coherent n tail, ?_, ?_⟩
  · rw [totalBytes_take hb.coherent, maxBytes_take]
    exact (Nat.sub_le _ _).trans hb.totalBytes_le
  · rw [maxPackets_take]
    unfold take
    split
    · exact hb.size_le
    · rename_i buffer hlookup
      have hmem : n ∈ b.buffers := AList.lookup_isSome.mp (by rw [hlookup]; rfl)
      have herase := Dict.size_erase_of_mem hmem
      have hle := hb.size_le
      simp only
      omega

/-- The total counts the bytes of every fragment that is held. -/
theorem Coherent.totalBytes_eq_weight {b : FragmentBuffer} (hb : b.Coherent) :
    b.totalBytes = Dict.weight (fun chunks => (chunks.map List.length).sum) b.buffers := by
  rw [hb.totalBytes_eq]
  refine Dict.total_eq_weight_of_lookup _ fun n => ?_
  rw [hb.sizes_lookup n]
  congr 1
  funext chunks
  exact List.length_flatten

/-- The chunk lists and the sizes are kept for the same packets. -/
theorem Coherent.mem_iff {b : FragmentBuffer} (hb : b.Coherent) (n : ℕ) :
    n ∈ b.buffers ↔ n ∈ b.sizes := by
  rw [← AList.lookup_isSome, ← AList.lookup_isSome, hb.sizes_lookup n, Option.isSome_map]

/-- What `take` gives back is part of the total. -/
theorem Coherent.size_le_totalBytes {b : FragmentBuffer} (hb : b.Coherent) (n : ℕ) :
    (b.sizes.lookup n).getD 0 ≤ b.totalBytes := by
  have htotal := Dict.total_erase b.sizes n
  have hsum := hb.totalBytes_eq
  omega

/-- A refused fragment leaves what is held, also where it leaves an empty entry. -/
theorem store_of_error {b : FragmentBuffer} {n : ℕ} {chunk : Bytes} {error : StoreError}
    (h : (b.store n chunk).1 = .error error) :
    (∀ m, (b.store n chunk).2.joined m = b.joined m) ∧
      (b.store n chunk).2.totalBytes = b.totalBytes := by
  unfold store append at h ⊢
  cases hlookup : b.buffers.lookup n with
  | none =>
      simp only [hlookup] at h ⊢
      split_ifs at h ⊢ with hfull hover
      · exact ⟨fun m => rfl, rfl⟩
      · refine ⟨fun m => ?_, rfl⟩
        by_cases hm : m = n
        · subst hm
          simp [joined, hlookup]
        · simp [joined, AList.lookup_insert_ne hm]
  | some buffer =>
      simp only [hlookup] at h ⊢
      split_ifs at h ⊢ with hover
      exact ⟨fun m => rfl, rfl⟩

/-- A fragment is refused exactly when it would pass one of the limits. -/
theorem store_error_iff (b : FragmentBuffer) (n : ℕ) (chunk : Bytes) :
    (∃ error, (b.store n chunk).1 = .error error) ↔
      b.maxBytes < b.totalBytes + chunk.length ∨
        n ∉ b.buffers ∧ b.maxPackets < Dict.size b.buffers + 1 := by
  have hok := store_ok_iff b n chunk
  cases hstore : (b.store n chunk).1 with
  | ok u =>
      obtain ⟨hmem, hbytes⟩ := hok.mp hstore
      constructor
      · rintro ⟨error, herror⟩
        cases herror
      · rintro (hover | ⟨hn, hfull⟩)
        · omega
        · exact absurd (hmem.resolve_left hn) (by omega)
  | error error =>
      refine ⟨fun _ => ?_, fun _ => ⟨error, rfl⟩⟩
      by_contra hfits
      rw [not_or, not_and, not_lt, not_lt] at hfits
      have hmem : n ∈ b.buffers ∨ Dict.size b.buffers < b.maxPackets := by
        by_cases hn : n ∈ b.buffers
        · exact .inl hn
        · exact .inr (hfits.2 hn)
      cases hstore.symm.trans (hok.mpr ⟨hmem, hfits.1⟩)

@[simp] theorem joined_clear (b : FragmentBuffer) (n : ℕ) : b.clear.joined n = [] := rfl

/-- Everything that one call answers and changes. -/
theorem perform_cases (b : FragmentBuffer) (call : Call) :
    (∃ n chunk, call = .store n chunk ∧ (b.store n chunk).1 = .ok () ∧
      b.perform call = (.stored, (b.store n chunk).2)) ∨
    (∃ n chunk error, call = .store n chunk ∧ (b.store n chunk).1 = .error error ∧
      b.perform call = (.refused error, (b.store n chunk).2)) ∨
    (∃ n tail, call = .take n tail ∧
      b.perform call = (.taken (b.take n tail).1, (b.take n tail).2)) ∨
    (call = .clear ∧ b.perform call = (.cleared, b.clear)) := by
  cases call with
  | store n chunk =>
      rcases hstore : b.store n chunk with ⟨outcome, b'⟩
      cases outcome with
      | ok u => exact .inl ⟨n, chunk, rfl, by rw [hstore], by simp [perform, hstore]⟩
      | error error =>
          exact .inr (.inl ⟨n, chunk, error, rfl, by rw [hstore], by simp [perform, hstore]⟩)
  | take n tail => exact .inr (.inr (.inl ⟨n, tail, rfl, rfl⟩))
  | clear => exact .inr (.inr (.inr ⟨rfl, rfl⟩))

/-- The buffer holds the fragments that wait, within its limits. -/
structure Sound (b : FragmentBuffer) (waiting : ℕ → List Bytes) : Prop where
  bounded : b.Bounded
  joined_eq : ∀ n, b.joined n = (waiting n).flatten

theorem sound_new (maxBytes maxPackets : ℕ) : (new maxBytes maxPackets).Sound fun _ => [] where
  bounded := bounded_new maxBytes maxPackets
  joined_eq _ := rfl

/-- One call keeps the buffer sound for the fragments that wait after it. -/
theorem sound_perform {b : FragmentBuffer} {waiting : ℕ → List Bytes} (hb : b.Sound waiting)
    (call : Call) :
    (b.perform call).2.Sound fun n => await n (waiting n) (call, (b.perform call).1) := by
  rcases perform_cases b call with ⟨n, chunk, rfl, hstore, hperform⟩ |
    ⟨n, chunk, error, rfl, hstore, hperform⟩ | ⟨n, tail, rfl, hperform⟩ | ⟨rfl, hperform⟩
  all_goals rw [hperform]
  · refine ⟨bounded_store hb.bounded n chunk, fun m => ?_⟩
    by_cases hm : m = n
    · subst hm
      rw [joined_store_self hstore, hb.joined_eq]
      simp [await]
    · rw [joined_store_ne b chunk hm, hb.joined_eq]
      simp [await, Ne.symm hm]
  · refine ⟨bounded_store hb.bounded n chunk, fun m => ?_⟩
    rw [(store_of_error hstore).1 m, hb.joined_eq]
    rfl
  · refine ⟨bounded_take hb.bounded n tail, fun m => ?_⟩
    by_cases hm : m = n
    · subst hm
      rw [joined_take_self]
      simp [await]
    · rw [joined_take_ne b tail hm, hb.joined_eq]
      simp [await, Ne.symm hm]
  · exact ⟨bounded_clear b, fun m => by simp [await]⟩

/-- A run keeps the buffer sound for the fragments that its record says wait. -/
theorem sound_run {b : FragmentBuffer} {waiting : ℕ → List Bytes} (hb : b.Sound waiting)
    (calls : List Call) :
    (b.run calls).2.Sound fun n => (b.run calls).1.foldl (await n) (waiting n) := by
  induction calls generalizing b waiting with
  | nil => exact hb
  | cons call calls ih => exact ih (sound_perform hb call)

@[simp] theorem limits_clear (b : FragmentBuffer) :
    b.clear.maxBytes = b.maxBytes ∧ b.clear.maxPackets = b.maxPackets := ⟨rfl, rfl⟩

theorem limits_perform (b : FragmentBuffer) (call : Call) :
    (b.perform call).2.maxBytes = b.maxBytes ∧ (b.perform call).2.maxPackets = b.maxPackets := by
  rcases perform_cases b call with ⟨n, chunk, rfl, -, hperform⟩ |
    ⟨n, chunk, error, rfl, -, hperform⟩ | ⟨n, tail, rfl, hperform⟩ | ⟨rfl, hperform⟩
  all_goals rw [hperform]; simp

/-- No call changes the limits. -/
theorem limits_run (b : FragmentBuffer) (calls : List Call) :
    (b.run calls).2.maxBytes = b.maxBytes ∧ (b.run calls).2.maxPackets = b.maxPackets := by
  induction calls generalizing b with
  | nil => exact ⟨rfl, rfl⟩
  | cons call calls ih =>
      have hperform := limits_perform b call
      have hrest := ih (b.perform call).2
      exact ⟨hrest.1.trans hperform.1, hrest.2.trans hperform.2⟩

/-- Taking a packet leaves the entries of the others. -/
theorem lookup_take_ne (b : FragmentBuffer) {n m : ℕ} (tail : Bytes) (h : m ≠ n) :
    (b.take n tail).2.buffers.lookup m = b.buffers.lookup m ∧
      (b.take n tail).2.sizes.lookup m = b.sizes.lookup m := by
  unfold take
  split
  · exact ⟨rfl, rfl⟩
  · exact ⟨AList.lookup_erase_ne h, AList.lookup_erase_ne h⟩

/-- Taking a packet gives back exactly its recorded size. -/
theorem totalBytes_take_add {b : FragmentBuffer} (hb : b.Coherent) (n : ℕ) (tail : Bytes) :
    (b.take n tail).2.totalBytes + (b.sizes.lookup n).getD 0 = b.totalBytes := by
  have hle := hb.size_le_totalBytes n
  rw [totalBytes_take hb, ← hb.size_eq]
  omega

/-- After any calls on a new buffer, refused ones included, the buffer is a bounded
map of concatenations: a packet that is taken is what was accepted for it since it
was last taken or cleared, followed by the tail, and no other packet notices; the
sizes, the chunk lists and the total agree, and `take` subtracts no more than the
total; both limits hold; a fragment is refused exactly when it would pass one of them,
and then nothing that is held changes. -/
theorem run_bounded_map (maxBytes maxPackets : ℕ) (calls : List Call) :
    let history := ((new maxBytes maxPackets).run calls).1
    let b := ((new maxBytes maxPackets).run calls).2
    (∀ n tail, (b.take n tail).1 = (pending history n).flatten ++ tail ∧
      (b.take n tail).2.joined n = [] ∧
      (b.take n tail).2.totalBytes + (b.sizes.lookup n).getD 0 = b.totalBytes ∧
      ∀ m, m ≠ n → (b.take n tail).2.joined m = b.joined m ∧
        (b.take n tail).2.buffers.lookup m = b.buffers.lookup m ∧
        (b.take n tail).2.sizes.lookup m = b.sizes.lookup m) ∧
    b.totalBytes = Dict.total b.sizes ∧
    b.totalBytes = Dict.weight (fun chunks => (chunks.map List.length).sum) b.buffers ∧
    (∀ n, n ∈ b.buffers ↔ n ∈ b.sizes) ∧
    b.totalBytes ≤ maxBytes ∧ Dict.size b.buffers ≤ maxPackets ∧
    ∀ n chunk,
      ((∃ error, (b.store n chunk).1 = .error error) ↔
        maxBytes < b.totalBytes + chunk.length ∨
          n ∉ b.buffers ∧ maxPackets < Dict.size b.buffers + 1) ∧
      ((∃ error, (b.store n chunk).1 = .error error) →
        (∀ m, (b.store n chunk).2.joined m = b.joined m) ∧
          (b.store n chunk).2.totalBytes = b.totalBytes) := by
  intro history b
  have hsound : b.Sound (pending history) := sound_run (sound_new maxBytes maxPackets) calls
  have hcoherent := hsound.bounded.coherent
  obtain ⟨hbytes, hpackets⟩ : b.maxBytes = maxBytes ∧ b.maxPackets = maxPackets :=
    limits_run (new maxBytes maxPackets) calls
  refine ⟨fun n tail => ⟨?_, joined_take_self b n tail, totalBytes_take_add hcoherent n tail,
    fun m hm => ⟨joined_take_ne b tail hm, lookup_take_ne b tail hm⟩⟩, hcoherent.totalBytes_eq,
    hcoherent.totalBytes_eq_weight, hcoherent.mem_iff, ?_, ?_, fun n chunk => ⟨?_, ?_⟩⟩
  · rw [take_fst, hsound.joined_eq]
  · exact hbytes ▸ hsound.bounded.totalBytes_le
  · exact hpackets ▸ hsound.bounded.size_le
  · rw [← hbytes, ← hpackets]
    exact store_error_iff b n chunk
  · rintro ⟨error, herror⟩
    exact store_of_error herror

end FragmentBuffer

end Rmote
