import Rmote.Wire.Transfer

/-!
# Cancelled sends

A send can be cancelled at each of its awaits. Inside the drain of a frame the
error path closes the writer. The lock is awaited outside of that path: a send
that is cancelled there before its first frame wrote nothing, but one that is
cancelled there between two frames leaves what it wrote in the buffer of the
peer, on a connection that stays open. Apart from that one place no send leaves
a residue.
-/

namespace Rmote

variable {Z : Zlib}

namespace Channel

/-- No send is cancelled between two of its frames while it waits for the lock of
an open connection. -/
def Clean (s : Channel Z) : Event → Prop
  | .cancel i => ∀ t, s.tasks[i]? = some t → t.phase = .waiting → s.closing = false →
      t.offset = 0
  | _ => True

/-- On an open connection no send failed, and the cancelled ones wrote nothing. -/
def Settled (s : Channel Z) : Prop :=
  s.closing = false → ∀ t ∈ s.tasks, t.phase ≠ .failed ∧ (t.phase = .cancelled → t.offset = 0)

/-- The sends that are still running with a packet written in part. -/
def livePackets (s : Channel Z) : ℕ := s.tasks.countP fun t => t.live && t.midway

/-- What these sends have written of their packets. -/
def liveBytes (s : Channel Z) : ℕ :=
  (s.tasks.map fun t => if t.live = true then t.stored else 0).sum

/-- The step keeps the running sends within the limits of the peer's buffer. -/
def LiveWithin (s : Channel Z) (e : Event) : Prop :=
  ∀ s', s.step e = some s' →
    s'.livePackets ≤ maxPartialPackets ∧ s'.liveBytes ≤ maxReassemblyBytes

variable {gunzip : Bytes → Except String Bytes} {s s' : Channel Z} {e : Event}

theorem settled_step (h : s.step e = some s') (hclean : s.Clean e) (hs : s.Settled) :
    s'.Settled := by
  have hset : ∀ {i : ℕ} {b : Task}, s.closing = false →
      (b.phase ≠ .failed ∧ (b.phase = .cancelled → b.offset = 0)) →
      ∀ t ∈ s.tasks.set i b, t.phase ≠ .failed ∧ (t.phase = .cancelled → t.offset = 0) := by
    intro i b hopen hb t ht
    rcases List.mem_or_eq_of_mem_set ht with ht | rfl
    · exact hs hopen t ht
    · exact hb
  intro hopen
  rcases step_cases h with ⟨packet, -, rfl⟩ | ⟨i, t, -, -, -, rfl⟩ | ⟨i, t, -, -, -, rfl⟩ |
    ⟨i, t, rfl, hi, hphase, rfl⟩ | ⟨i, t, phase, -, -, -, -, rfl⟩ | ⟨-, rfl⟩
  · intro t ht
    rcases List.mem_append.mp ht with ht | ht
    · exact hs hopen t ht
    · rw [List.mem_singleton.mp ht]
      exact ⟨nofun, nofun⟩
  · unfold sendFrame at hopen ⊢
    split_ifs at hopen ⊢ with hclosing hpack
    · exact absurd hclosing (by simpa using hopen)
    · exact hset hopen ⟨nofun, nofun⟩
  · refine hset hopen ?_
    constructor
    · split_ifs <;> nofun
    · split_ifs <;> nofun
  · refine hset hopen ⟨nofun, fun _ => ?_⟩
    exact hclean t hi hphase hopen
  · cases hopen
  · cases hopen

theorem settled_run {es : List Event} (hrun : Machine.run step (init Z) es = some s)
    (hclean : Machine.meets step Clean (init Z) es) : s.Settled :=
  Machine.run_invariant Settled (fun _ _ _ hs hok hstep => settled_step hstep hok hs) hrun hclean
    (fun _ _ ht => nomatch ht)

/-- On an open connection only a running send has a packet written in part. -/
theorem live_of_midway (hshaped : ∀ t ∈ s.tasks, t.Shaped) (hs : s.Settled)
    (hopen : s.closing = false) {t : Task} (ht : t ∈ s.tasks) (hmid : t.midway = true) :
    t.live = true := by
  obtain ⟨hfailed, hcancelled⟩ := hs hopen t ht
  cases hphase : t.phase with
  | waiting => simp [Task.live, hphase]
  | draining => simp [Task.live, hphase]
  | done => exact absurd hmid (by simp [(hshaped t ht).done hphase])
  | cancelled => simp [Task.midway, hcancelled hphase] at hmid
  | failed => exact absurd hphase hfailed

theorem midwayPackets_eq_livePackets (hshaped : ∀ t ∈ s.tasks, t.Shaped) (hs : s.Settled)
    (hopen : s.closing = false) : s.midwayPackets = s.livePackets := by
  refine List.countP_congr fun t ht => ?_
  constructor
  · intro hmid
    simp [hmid, live_of_midway hshaped hs hopen ht hmid]
  · intro hmid
    exact (Bool.and_eq_true_iff.mp hmid).2

theorem midwayBytes_eq_liveBytes (hshaped : ∀ t ∈ s.tasks, t.Shaped) (hs : s.Settled)
    (hopen : s.closing = false) : s.midwayBytes = s.liveBytes := by
  refine congrArg List.sum (List.map_congr_left fun t ht => ?_)
  by_cases hmid : t.midway = true
  · rw [if_pos (live_of_midway hshaped hs hopen ht hmid)]
  · simp [Task.stored, hmid]

/-- In a clean run, what the peer still holds on an open connection belongs to
the running sends. -/
theorem Tracks.live_of_mem {as : List Assembled} {r : Inbound Z} (h : Tracks gunzip s as r)
    (hshaped : ∀ t ∈ s.tasks, t.Shaped) (hs : s.Settled) (hopen : s.closing = false) {n : ℕ}
    (hn : n ∈ r.fragments.buffers) :
    ∃ t ∈ s.tasks, (t.live && t.midway) = true ∧ t.packet.packetId = n := by
  obtain ⟨t, ht, hmid, hid⟩ := h.covered n hn
  exact ⟨t, ht, by simp [hmid, live_of_midway hshaped hs hopen ht hmid], hid⟩

/-- In a clean run within the limits the peer never fails. -/
theorem tracks_of_liveWithin {es : List Event} (hrun : Machine.run step (init Z) es = some s)
    (hclean : Machine.meets step Clean (init Z) es)
    (hlive : Machine.meets step LiveWithin (init Z) es) (gunzip : Bytes → Except String Bytes) :
    ∃ as r, Tracks gunzip s as r := by
  have hlast := Machine.run_invariant
    (fun s : Channel Z => (∃ as r, Tracks gunzip s as r) ∧ (∀ t ∈ s.tasks, t.Shaped) ∧ s.Settled)
    ?_ hrun (Machine.meets_and hclean hlive)
    ⟨⟨_, _, tracks_init⟩, by simp [init], fun _ t ht => nomatch ht⟩
  · exact hlast.1
  · rintro s e s' ⟨⟨as, r, htracks⟩, hshaped, hsettled⟩ ⟨hok, hwithin⟩ hstep
    have hshaped' := shaped_step hstep hshaped
    have hsettled' := settled_step hstep hok hsettled
    refine ⟨?_, hshaped', hsettled'⟩
    rcases step_writes hstep htracks with ⟨htracks', -⟩ | ⟨i, t, rfl, hi, -, hopen, -, rfl⟩
    · exact ⟨as, r, htracks'⟩
    · cases hfinal : t.final with
      | true =>
          obtain ⟨r', htracks', -⟩ := htracks.written_final hi hopen hfinal
          exact ⟨_, r', htracks'⟩
      | false =>
          obtain ⟨hpackets, hbytes⟩ := hwithin _ hstep
          rw [← midwayPackets_eq_livePackets hshaped' hsettled' hopen] at hpackets
          rw [← midwayBytes_eq_liveBytes hshaped' hsettled' hopen] at hbytes
          have hstore := htracks.store_ok hi hfinal hpackets hbytes
          obtain ⟨r', htracks', -⟩ := htracks.written_fragment hi hopen hfinal hstore
          exact ⟨as, r', htracks'⟩

/-- Take a run in which no send is cancelled between two of its frames while it
waits for the lock. Wherever the other cancellations strike, the connection is
closing, or the cancelled sends wrote nothing and every entry that the peer holds
once it decoded all the frames belongs to a send that still runs. So the entries
are never more than the running sends, and no later packet fails for them. -/
theorem no_residue_of_clean {es : List Event} (hrun : Machine.run step (init Z) es = some s)
    (hclean : Machine.meets step Clean (init Z) es) (gunzip : Bytes → Except String Bytes)
    (threshold : Option ℕ) :
    (∀ as r, s.received gunzip threshold = (as, .ok r) → s.closing = true ∨
      ((∀ t ∈ s.tasks, t.phase = .cancelled → t.offset = 0) ∧
        (∀ n ∈ r.fragments.buffers,
          ∃ t ∈ s.tasks, (t.live && t.midway) = true ∧ t.packet.packetId = n) ∧
        r.fragments.buffers.keys.length ≤ s.livePackets)) ∧
      (Machine.meets step LiveWithin (init Z) es →
        ∃ as r, s.received gunzip threshold = (as, .ok r)) := by
  rw [received_eq_absorbAll hrun]
  constructor
  · intro as r hreceived
    cases hopen : s.closing with
    | true => exact .inl rfl
    | false =>
        have hshaped := shaped_run hrun
        have hsettled := settled_run hrun hclean
        rcases tracks_or_refused hrun gunzip with ⟨as', r', htracks⟩ | ⟨as', error, hrefused⟩
        · have hsame := htracks.absorbed.symm.trans hreceived
          obtain rfl : r' = r := Except.ok.inj (Prod.mk.inj hsame).2
          have hentries : ∀ n ∈ r'.fragments.buffers,
              ∃ t ∈ s.tasks, (t.live && t.midway) = true ∧ t.packet.packetId = n :=
            fun n hn => htracks.live_of_mem hshaped hsettled hopen hn
          refine .inr ⟨fun t ht => (hsettled hopen t ht).2, hentries, ?_⟩
          exact Counting.length_le_countP (fun t : Task => t.packet.packetId)
            r'.fragments.buffers.keys_nodup hentries
        · rw [hreceived] at hrefused
          cases (Prod.mk.inj hrefused).2
  · intro hlive
    obtain ⟨as, r, htracks⟩ := tracks_of_liveWithin hrun hclean hlive gunzip
    exact ⟨as, r, htracks.absorbed⟩

theorem liveWithin_of_staysWithin (h : s.StaysWithin e) : s.LiveWithin e := by
  intro s' hstep
  obtain ⟨hpackets, hbytes⟩ := h s' hstep
  constructor
  · refine le_trans (List.countP_mono_left fun t _ hmid => ?_) hpackets
    exact (Bool.and_eq_true_iff.mp hmid).2
  · refine le_trans (List.sum_le_sum fun t _ => ?_) hbytes
    split_ifs
    · exact le_rfl
    · exact Nat.zero_le _

/-- One send is between two frames when another one is cancelled before its first
frame. -/
def cancelBefore : List Event :=
  [.submit (Outgoing.zeros .own 1 (fragmentSize + 1)), .submit (Outgoing.zeros .own 2 1)] ++
    ([.write 0, .drained 0] ++ [.cancel 1])

theorem cancelBefore_clean :
    ∃ s : Channel Zlib.plain, Machine.run step (init Zlib.plain) cancelBefore = some s ∧
      s.closing = false ∧ (∃ t ∈ s.tasks, t.phase = .cancelled) ∧
      ∃ as r, s.received (fun _ => .error "not gzip") none = (as, .ok r) ∧
        r.fragments.buffers.keys.length ≤ s.livePackets := by
  let s₂ : Channel Zlib.plain := { init Zlib.plain with
    tasks := [⟨Outgoing.zeros .own 1 (fragmentSize + 1), 0, .waiting⟩,
      ⟨Outgoing.zeros .own 2 1, 0, .waiting⟩] }
  have hbegin : Machine.run step (init Zlib.plain)
      [.submit (Outgoing.zeros .own 1 (fragmentSize + 1)), .submit (Outgoing.zeros .own 2 1)] =
        some s₂ := by
    refine Machine.run_cons_eq_some.mpr ⟨_, step_submit (by simp [init]), ?_⟩
    exact Machine.run_cons_eq_some.mpr ⟨_, step_submit (by simp [init, Outgoing.zeros]), rfl⟩
  obtain ⟨u, hu, -, hopen, -, htasks⟩ := run_frame (s := s₂) (i := 0) rfl rfl rfl rfl (by decide)
  have hone : u.tasks[1]? = some ⟨Outgoing.zeros .own 2 1, 0, .waiting⟩ := by
    rw [htasks, List.getElem?_set_ne (by decide)]
    rfl
  let s : Channel Zlib.plain := { u with
    tasks := u.tasks.set 1 ⟨Outgoing.zeros .own 2 1, 0, .cancelled⟩ }
  have hcancel : Machine.run step u [.cancel 1] = some s := by
    refine Machine.run_cons_eq_some.mpr ⟨_, ?_, rfl⟩
    simp [step, hone, s]
  have hrun : Machine.run step (init Zlib.plain) cancelBefore = some s :=
    Machine.run_append_eq_some.mpr
      ⟨s₂, hbegin, Machine.run_append_eq_some.mpr ⟨u, hu, hcancel⟩⟩
  have hclean : Machine.meets step Clean (init Zlib.plain) cancelBefore := by
    refine (Machine.meets_append hbegin).mpr ⟨?_, (Machine.meets_append hu).mpr ⟨?_, ?_⟩⟩
    · exact Machine.meets_of_forall_mem _ (by simp [Clean])
    · exact Machine.meets_of_forall_mem _ (by simp [Clean])
    · refine ⟨fun t ht _ _ => ?_, fun _ _ => trivial⟩
      rw [Option.some.inj (ht.symm.trans hone)]
  have hwithin : Machine.meets step StaysWithin (init Zlib.plain) cancelBefore := by
    apply meets_staysWithin
    · simp [init, cancelBefore, Event.begun, maxPartialPackets]
    · simp only [init, cancelBefore, Event.begun, List.map_nil, List.nil_append,
        List.cons_append, List.flatMap_cons, List.flatMap_nil, List.map_cons,
        Outgoing.length_zeros, List.sum_cons, List.sum_nil]
      decide
  obtain ⟨hentries, hreceived⟩ :=
    no_residue_of_clean hrun hclean (fun _ => .error "not gzip") none
  obtain ⟨as, r, has⟩ :=
    hreceived (Machine.meets_mono (fun _ _ => liveWithin_of_staysWithin) hwithin)
  refine ⟨s, hrun, hopen, ⟨_, Counting.mem_set_self _ hone, rfl⟩, as, r, has, ?_⟩
  rcases hentries as r has with hclosing | ⟨-, -, hcount⟩
  · exact absurd hclosing (by simp [s, hopen])
  · exact hcount

/-- A send of two frames that is cancelled between them. -/
def cancelBetween (packet : Outgoing) : List Event :=
  [.submit packet] ++ ([.write 0, .drained 0] ++ [.cancel 0])

theorem run_cancelBetween (Z : Zlib) (gunzip : Bytes → Except String Bytes) {packet : Outgoing}
    (hlen : packet.payload.length = fragmentSize + 1) (hid : packet.packetId < 2 ^ 64) :
    ∃ (s : Channel Z) (r : Inbound Z),
      Machine.run step (init Z) (cancelBetween packet) = some s ∧ s.closing = false ∧
      s.tasks = [⟨packet, fragmentSize, .cancelled⟩] ∧
      (Inbound.start Z gunzip).absorbAll s.wire = ([], .ok r) ∧
      packet.packetId ∈ r.fragments.buffers := by
  let s₁ : Channel Z := { init Z with tasks := [⟨packet, 0, .waiting⟩] }
  have hbegin : Machine.run step (init Z) [.submit packet] = some s₁ :=
    Machine.run_cons_eq_some.mpr ⟨_, step_submit (by simp [init]), rfl⟩
  have hnext : Task.next ⟨packet, 0, .waiting⟩ = fragmentSize := by
    rw [Task.next, Task.length_chunk, hlen]
    simp
  have hfinal : Task.final ⟨packet, 0, .waiting⟩ = false := by
    simp [Task.final, hnext, hlen]
  obtain ⟨u, hu, -, hopen, hwire, htasks⟩ :=
    run_frame (s := s₁) (i := 0) (t := ⟨packet, 0, .waiting⟩) rfl rfl rfl rfl hid
  have hut : u.tasks = [⟨packet, fragmentSize, .waiting⟩] := by
    simp [htasks, s₁, hnext, hlen]
  let s : Channel Z := { u with tasks := [⟨packet, fragmentSize, .cancelled⟩] }
  have hcancel : Machine.run step u [.cancel 0] = some s := by
    refine Machine.run_cons_eq_some.mpr ⟨_, ?_, rfl⟩
    simp [step, hut, s]
  have hstore : ((Inbound.start Z gunzip).fragments.store packet.packetId
      (Task.chunk ⟨packet, 0, .waiting⟩)).1 = .ok () := by
    have hchunk := Task.length_chunk_le ⟨packet, 0, .waiting⟩
    have hroom : fragmentSize ≤ maxReassemblyBytes := by decide
    rw [FragmentBuffer.store_ok_iff]
    refine ⟨.inr (show 0 < maxPartialPackets by decide), ?_⟩
    simp only [Inbound.start, FragmentBuffer.new]
    omega
  obtain ⟨r, htracks, hfragments⟩ := (tracks_init.submit packet : Tracks gunzip s₁ [] _)
    |>.written_fragment (i := 0) (t := ⟨packet, 0, .waiting⟩) rfl rfl hfinal hstore
  refine ⟨s, r, ?_, hopen, rfl, ?_, ?_⟩
  · exact Machine.run_append_eq_some.mpr
      ⟨s₁, hbegin, Machine.run_append_eq_some.mpr ⟨u, hu, hcancel⟩⟩
  · rw [← htracks.absorbed]
    exact congrArg _ hwire
  · rw [hfragments]
    exact (FragmentBuffer.mem_store hstore).mpr (.inl rfl)

/-- The entry of a call that is cancelled between its two frames stays with the
peer, and the connection is open. -/
theorem cancelBetween_residue :
    ∃ (s : Channel Zlib.plain) (r : Inbound Zlib.plain),
      Machine.run step (init Zlib.plain)
        (cancelBetween (Outgoing.zeros .own 1 (fragmentSize + 1))) = some s ∧
      s.closing = false ∧
      s.tasks = [⟨Outgoing.zeros .own 1 (fragmentSize + 1), fragmentSize, .cancelled⟩] ∧
      s.received (fun _ => .error "not gzip") none = ([], .ok r) ∧ 1 ∈ r.fragments.buffers := by
  obtain ⟨s, r, hrun, hopen, htasks, habsorbed, hmem⟩ := run_cancelBetween Zlib.plain
    (fun _ => .error "not gzip") (Outgoing.length_zeros .own 1 (fragmentSize + 1)) (by decide)
  refine ⟨s, r, hrun, hopen, htasks, ?_, hmem⟩
  rw [received_eq_absorbAll hrun]
  exact habsorbed

end Channel

end Rmote
