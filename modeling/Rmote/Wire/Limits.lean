import Rmote.Wire.Transfer
import Mathlib.Data.List.Induction

/-!
# The limits of the peer's fragment buffer

The sender interleaves the fragments of any number of tasks, and the limit on
incomplete packets is known to the receiver only. As long as the incomplete
packets fit the byte limit, the buffer of the peer refuses a fragment exactly
when more than `MAX_PARTIAL_PACKETS` numbers are open on the wire, where a number
is open while its last written frame is a fragment.
-/

namespace Rmote

variable {Z : Zlib}

/-- The open numbers after one more frame. -/
def openAfter (ids : List ℕ) (f : Frame) : List ℕ :=
  if f.flags.has Flags.fragment then ids.insert f.packetId else ids.erase f.packetId

/-- The numbers whose last written frame is a fragment. -/
def openIds (wire : List Frame) : List ℕ := wire.foldl openAfter []

theorem openIds_append (wire : List Frame) (f : Frame) :
    openIds (wire ++ [f]) = openAfter (openIds wire) f := by
  simp [openIds]

theorem nodup_openAfter {ids : List ℕ} (h : ids.Nodup) (f : Frame) : (openAfter ids f).Nodup := by
  unfold openAfter
  split_ifs
  · exact h.insert
  · exact h.erase _

theorem nodup_openIds (wire : List Frame) : (openIds wire).Nodup := by
  induction wire using List.reverseRecOn with
  | nil => exact List.nodup_nil
  | append_singleton wire f ih =>
      rw [openIds_append]
      exact nodup_openAfter ih f

theorem length_openIds_le (wire : List Frame) : (openIds wire).length ≤ wire.length := by
  induction wire using List.reverseRecOn with
  | nil => exact le_rfl
  | append_singleton wire f ih =>
      rw [openIds_append, openAfter, List.length_append, List.length_singleton]
      split_ifs
      · rw [List.length_insert]
        split_ifs <;> omega
      · have hlen := List.length_erase_le (a := f.packetId) (l := openIds wire)
        omega

namespace Channel

/-- The step keeps what is written of the incomplete packets within the byte
limit. -/
def BytesWithin (s : Channel Z) (e : Event) : Prop :=
  ∀ s', s.step e = some s' → s'.midwayBytes ≤ maxReassemblyBytes

/-- At every moment the open numbers are no more than the peer keeps. -/
def FewOpen (wire : List Frame) : Prop :=
  ∀ before, before <+: wire → (openIds before).length ≤ maxPartialPackets

/-- The peer holds an entry for each open number, and never had too many. -/
structure Counted (gunzip : Bytes → Except String Bytes) (s : Channel Z) : Prop where
  entries : ∃ as r, Tracks gunzip s as r ∧ ∀ n, n ∈ r.fragments.buffers ↔ n ∈ openIds s.wire
  few : FewOpen s.wire

/-- The peer failed in its buffer, at a moment with too many open numbers. -/
def Refused (gunzip : Bytes → Except String Bytes) (s : Channel Z) : Prop :=
  (∃ as error, (Inbound.start Z gunzip).absorbAll s.wire = (as, .error (.store error))) ∧
    ¬ FewOpen s.wire

variable {gunzip : Bytes → Except String Bytes} {s s' : Channel Z} {e : Event}

theorem fewOpen_append {wire : List Frame} (h : FewOpen wire) (f : Frame)
    (hf : (openIds (wire ++ [f])).length ≤ maxPartialPackets) : FewOpen (wire ++ [f]) := by
  intro before hbefore
  rcases List.prefix_concat_iff.mp hbefore with rfl | hbefore
  · exact hf
  · exact h before hbefore

theorem size_eq_length_openIds {r : Inbound Z} {wire : List Frame}
    (h : ∀ n, n ∈ r.fragments.buffers ↔ n ∈ openIds wire) :
    Dict.size r.fragments.buffers = (openIds wire).length := by
  have hperm : r.fragments.buffers.keys.Perm (openIds wire) :=
    (List.perm_ext_iff_of_nodup r.fragments.buffers.keys_nodup (nodup_openIds wire)).mpr h
  exact hperm.length_eq

/-- A final frame closes its number. -/
theorem Counted.written_final {i : ℕ} {t : Task} (h : Counted gunzip s)
    (hi : s.tasks[i]? = some t) (hopen : s.closing = false) (hfinal : t.final = true) :
    Counted gunzip (s.written i t) := by
  obtain ⟨as, r, htracks, hmem⟩ := h.entries
  obtain ⟨r', htracks', hfragments⟩ := htracks.written_final hi hopen hfinal
  have hids : openIds (s.written i t).wire = (openIds s.wire).erase t.packet.packetId := by
    simp [written, openIds_append, openAfter, has_fragment_nextFrame, hfinal]
  constructor
  · refine ⟨_, r', htracks', fun n => ?_⟩
    rw [hfragments, FragmentBuffer.mem_take, hids, (nodup_openIds s.wire).mem_erase_iff, hmem]
  · apply fewOpen_append h.few
    have hlen := List.length_erase_le (a := t.packet.packetId) (l := openIds s.wire)
    have hbefore := h.few s.wire (List.prefix_refl s.wire)
    have hids' : openIds (s.wire ++ [(s.nextFrame t).1]) =
        (openIds s.wire).erase t.packet.packetId := hids
    rw [hids']
    omega

/-- A fragment opens its number, or the buffer has no room for one more. -/
theorem Counted.written_fragment {i : ℕ} {t : Task} (h : Counted gunzip s)
    (hi : s.tasks[i]? = some t) (hopen : s.closing = false) (hfinal : t.final = false)
    (hbytes : (s.written i t).midwayBytes ≤ maxReassemblyBytes) :
    Counted gunzip (s.written i t) ∨ Refused gunzip (s.written i t) := by
  obtain ⟨as, r, htracks, hmem⟩ := h.entries
  have hids : openIds (s.wire ++ [(s.nextFrame t).1]) =
      (openIds s.wire).insert t.packet.packetId := by
    simp [openIds_append, openAfter, has_fragment_nextFrame, hfinal]
  have hsize := size_eq_length_openIds hmem
  have hroom : r.fragments.totalBytes + t.chunk.length ≤ r.fragments.maxBytes := by
    have htotal := htracks.totalBytes_le
    have hgrown := midwayBytes_written hi hfinal
    rw [htracks.maxBytes]
    omega
  cases hstore : (r.fragments.store t.packet.packetId t.chunk).1 with
  | ok =>
      obtain ⟨r', htracks', hfragments⟩ := htracks.written_fragment hi hopen hfinal hstore
      have hplace := ((FragmentBuffer.store_ok_iff ..).mp hstore).1
      refine .inl ⟨⟨as, r', htracks', fun n => ?_⟩, fewOpen_append h.few _ ?_⟩
      · rw [hfragments, FragmentBuffer.mem_store hstore, hmem]
        simp [written, hids]
      · have hbefore := h.few s.wire (List.prefix_refl s.wire)
        rw [hids]
        rcases hplace with hold | hfree
        · rw [List.length_insert_of_mem ((hmem _).mp hold)]
          exact hbefore
        · rw [hsize, htracks.maxPackets] at hfree
          rw [List.length_insert]
          split_ifs <;> omega
  | error error =>
      refine .inr ⟨⟨as, error, htracks.written_refused hopen hfinal hstore⟩, ?_⟩
      intro hfew
      have hlast := hfew _ (List.prefix_refl _)
      have hfull : ¬ (t.packet.packetId ∈ r.fragments.buffers ∨
          Dict.size r.fragments.buffers < r.fragments.maxPackets) := by
        intro hplace
        have hok := (FragmentBuffer.store_ok_iff ..).mpr ⟨hplace, hroom⟩
        rw [hstore] at hok
        cases hok
      rw [not_or, hmem, hsize, htracks.maxPackets] at hfull
      have hlast' : ((openIds s.wire).insert t.packet.packetId).length ≤ maxPartialPackets := by
        rw [← hids]
        exact hlast
      rw [List.length_insert_of_not_mem hfull.1] at hlast'
      omega

theorem counted_or_refused_step (h : Counted gunzip s ∨ Refused gunzip s)
    (hstep : s.step e = some s') (hbytes : s.BytesWithin e) :
    Counted gunzip s' ∨ Refused gunzip s' := by
  rcases h with h | ⟨⟨as, error, hrefused⟩, hmany⟩
  · obtain ⟨as, r, htracks, hmem⟩ := h.entries
    rcases step_writes hstep htracks with ⟨htracks', hwire, -⟩ | ⟨i, t, rfl, hi, -, hopen, -, rfl⟩
    · refine .inl ⟨⟨as, r, htracks', ?_⟩, ?_⟩
      · rw [hwire]
        exact hmem
      · rw [hwire]
        exact h.few
    · cases hfinal : t.final with
      | true => exact .inl (h.written_final hi hopen hfinal)
      | false => exact h.written_fragment hi hopen hfinal (hbytes _ hstep)
  · obtain ⟨fs, hwire⟩ := step_wire hstep
    refine .inr ⟨⟨as, error, ?_⟩, ?_⟩
    · rw [hwire]
      exact Inbound.absorbAll_append_error hrefused fs
    · rw [hwire]
      exact fun hfew => hmany fun before hbefore =>
        hfew before (hbefore.trans (List.prefix_append s.wire fs))

/-- As long as the incomplete packets fit the byte limit, the peer fails in its
buffer exactly when too many numbers were open at once. -/
theorem refused_iff_not_fewOpen (gunzip : Bytes → Except String Bytes) {es : List Event}
    (hrun : Machine.run step (init Z) es = some s)
    (hbytes : Machine.meets step BytesWithin (init Z) es) :
    (∃ as error, (Inbound.start Z gunzip).absorbAll s.wire = (as, .error (.store error))) ↔
      ¬ FewOpen s.wire := by
  have hlast : Counted gunzip s ∨ Refused gunzip s := by
    refine Machine.run_invariant (fun s : Channel Z => Counted gunzip s ∨ Refused gunzip s)
      (fun _ _ _ hs hok hstep => counted_or_refused_step hs hstep hok) hrun hbytes (.inl ?_)
    refine ⟨⟨_, _, tracks_init, fun n => ?_⟩, ?_⟩
    · simp [Inbound.start, FragmentBuffer.new, init, openIds]
    · intro before hbefore
      rw [List.prefix_nil.mp hbefore]
      exact Nat.zero_le _
  rcases hlast with h | ⟨hrefused, hmany⟩
  · constructor
    · rintro ⟨as, error, hrefused⟩
      obtain ⟨as', r, htracks, -⟩ := h.entries
      rw [htracks.absorbed] at hrefused
      cases (Prod.mk.inj hrefused).2
    · exact fun hmany => absurd h.few hmany
  · exact ⟨fun _ => hmany, fun _ => hrefused⟩

/-- Take any run whose incomplete packets fit `MAX_REASSEMBLY_BYTES`. The calls of
`receive` at the peer never raise from `FragmentBuffer.store` if and only if never
more than `MAX_PARTIAL_PACKETS` numbers are open on the wire at once. -/
theorem never_refused_iff_fewOpen {es : List Event}
    (hrun : Machine.run step (init Z) es = some s)
    (hbytes : Machine.meets step BytesWithin (init Z) es) (gunzip : Bytes → Except String Bytes)
    (threshold : Option ℕ) :
    (∀ as error, s.received gunzip threshold ≠ (as, .error (.store error))) ↔
      FewOpen s.wire := by
  rw [received_eq_absorbAll hrun]
  have hrefused := refused_iff_not_fewOpen gunzip hrun hbytes
  constructor
  · intro hnever
    by_contra hmany
    obtain ⟨as, error, habsorbed⟩ := hrefused.mpr hmany
    exact hnever as error habsorbed
  · intro hfew as error habsorbed
    exact hrefused.mp ⟨as, error, habsorbed⟩ hfew

/-- The call number `k` begins and writes the first of its two frames. -/
def opening (k : ℕ) : List Event :=
  [.submit (Outgoing.zeros .own (k + 1) (fragmentSize + 1))] ++ [.write k, .drained k]

/-- `n` calls of two frames each, none of which comes to its second frame. -/
def burst : ℕ → List Event
  | 0 => []
  | n + 1 => burst n ++ opening n

theorem run_burst (Z : Zlib) {n : ℕ} (hn : n < 2 ^ 64) :
    ∃ s : Channel Z, Machine.run step (init Z) (burst n) = some s ∧ s.lock = none ∧
      s.closing = false ∧ s.tasks.length = n ∧ (∀ t ∈ s.tasks, t.packet.packetId ≤ n) ∧
      s.wire.length = n ∧ (openIds s.wire).length = n ∧ ∀ k ∈ openIds s.wire, k ≤ n := by
  induction n with
  | zero => exact ⟨init Z, rfl, rfl, rfl, rfl, by simp [init], rfl, rfl, by simp [init, openIds]⟩
  | succ n ih =>
      obtain ⟨s, hrun, hlock, hopen, hlen, hids, hwire, hcount, hopenIds⟩ := ih (by omega)
      let t : Task := ⟨Outgoing.zeros .own (n + 1) (fragmentSize + 1), 0, .waiting⟩
      have hbegin : Machine.run step s [.submit t.packet] =
          some { s with tasks := s.tasks ++ [t] } := by
        refine Machine.run_cons_eq_some.mpr ⟨_, step_submit ?_, rfl⟩
        intro u hu _
        have hle := hids u hu
        simp only [t, Outgoing.zeros]
        omega
      have hi : (s.tasks ++ [t])[n]? = some t := by
        rw [← hlen]
        exact List.getElem?_concat_length
      obtain ⟨s', hs', hlock', hopen', hwire', htasks'⟩ :=
        run_frame (s := { s with tasks := s.tasks ++ [t] }) hi hlock rfl hopen hn
      have hfinal : t.final = false := by
        simp only [Task.final, Task.next, Task.length_chunk, t, Outgoing.length_zeros]
        decide
      have hnew : n + 1 ∉ openIds s.wire := by
        intro hmem
        have hle := hopenIds _ hmem
        omega
      have hafter : openIds s'.wire = (openIds s.wire).insert (n + 1) := by
        have hmark := has_fragment_nextFrame { s with tasks := s.tasks ++ [t] } t
        rw [hwire', openIds_append, openAfter, if_pos (by rw [hmark, hfinal]; rfl)]
        rfl
      refine ⟨s', ?_, hlock', hopen', ?_, ?_, ?_, ?_, ?_⟩
      · refine Machine.run_append_eq_some.mpr ⟨s, hrun, ?_⟩
        exact Machine.run_append_eq_some.mpr ⟨_, hbegin, hs'⟩
      · rw [htasks', List.length_set, List.length_append, hlen]
        rfl
      · intro u hu
        rw [htasks'] at hu
        rcases List.mem_or_eq_of_mem_set hu with hu | rfl
        · rcases List.mem_append.mp hu with hu | hu
          · exact Nat.le_succ_of_le (hids u hu)
          · rw [List.mem_singleton.mp hu]
            exact le_rfl
        · exact le_rfl
      · rw [hwire', List.length_append, hwire]
        rfl
      · rw [hafter, List.length_insert_of_not_mem hnew, hcount]
      · intro k hk
        rw [hafter, List.mem_insert_iff] at hk
        rcases hk with rfl | hk
        · exact le_rfl
        · exact Nat.le_succ_of_le (hopenIds k hk)

theorem sum_length_burst (n : ℕ) :
    (((burst n).flatMap Event.begun).map fun p => p.payload.length).sum =
      n * (fragmentSize + 1) := by
  induction n with
  | zero => simp [burst]
  | succ n ih =>
      simp only [burst, List.flatMap_append, List.map_append, List.sum_append, ih]
      simp only [opening, Event.begun, List.flatMap_cons, List.flatMap_nil, List.cons_append,
        List.nil_append, List.map_cons, List.map_nil, Outgoing.length_zeros, List.sum_cons,
        List.sum_nil]
      rw [Nat.succ_mul]
      rfl

/-- The calls of a burst stay far below the byte limit. -/
theorem meets_bytesWithin_burst (Z : Zlib) {n : ℕ} (hn : n ≤ 1024) :
    Machine.meets step BytesWithin (init Z) (burst n) := by
  have hsum : n * (fragmentSize + 1) ≤ maxReassemblyBytes := by
    have hmul := Nat.mul_le_mul_right (fragmentSize + 1) hn
    have hroom : 1024 * (fragmentSize + 1) ≤ maxReassemblyBytes := by decide
    exact hmul.trans hroom
  refine Machine.meets_mono ?_ (meets_packets (s := init Z)
    (P := fun ps => (ps.map fun p => p.payload.length).sum ≤ maxReassemblyBytes)
    sum_length_le_append ?_)
  · exact fun _ _ hbytes s' hstep => s'.midwayBytes_le.trans (hbytes s' hstep)
  · simp only [init, List.map_nil, List.nil_append, sum_length_burst]
    exact hsum

-- From here on a burst is known by its lemmas; unfolding it takes hundreds of events.
attribute [irreducible] burst

/-- After a burst of `n` calls, `n` numbers are open on an open connection. -/
theorem exists_burst (Z : Zlib) {n : ℕ} (hn : n ≤ 1024) :
    ∃ s : Channel Z, Machine.run step (init Z) (burst n) = some s ∧
      Machine.meets step BytesWithin (init Z) (burst n) ∧ s.closing = false ∧
      s.wire.length = n ∧ (openIds s.wire).length = n := by
  obtain ⟨s, hrun, -, hopen, -, -, hwire, hcount, -⟩ := run_burst Z (n := n) (by omega)
  exact ⟨s, hrun, meets_bytesWithin_burst Z hn, hopen, hwire, hcount⟩

/-- As many calls as the peer keeps can be written in part. -/
theorem burst_fits :
    ∃ s : Channel Zlib.plain, Machine.run step (init Zlib.plain) (burst 256) = some s ∧
      ∀ as error, s.received (fun _ => .error "not gzip") none ≠ (as, .error (.store error)) := by
  obtain ⟨s, hrun, hbytes, -, hwire, -⟩ := exists_burst Zlib.plain (n := 256) (by decide)
  refine ⟨s, hrun, (never_refused_iff_fewOpen hrun hbytes _ none).mpr ?_⟩
  intro before hbefore
  have hlen := hbefore.length_le
  rw [hwire] at hlen
  exact (length_openIds_le before).trans hlen

/-- One call more makes the peer fail in its buffer, although all the calls
together are far below the byte limit. -/
theorem burst_refused :
    ∃ s : Channel Zlib.plain, Machine.run step (init Zlib.plain) (burst 257) = some s ∧
      Machine.meets step BytesWithin (init Zlib.plain) (burst 257) ∧ s.closing = false ∧
      ∃ as error, s.received (fun _ => .error "not gzip") none = (as, .error (.store error)) := by
  obtain ⟨s, hrun, hbytes, hopen, -, hcount⟩ := exists_burst Zlib.plain (n := 257) (by decide)
  refine ⟨s, hrun, hbytes, hopen, ?_⟩
  rw [received_eq_absorbAll hrun]
  refine (refused_iff_not_fewOpen _ hrun hbytes).mpr fun hfew => ?_
  have hlast := hfew s.wire (List.prefix_refl s.wire)
  rw [hcount] at hlast
  exact absurd hlast (by decide)

end Channel

end Rmote
