import Rmote.Wire.Transfer

/-!
# When concurrent packets stay apart

The peer files fragments under the packet id alone, and a request and a response
can carry the same number, because both endpoints count their requests from one.
On a channel without failures the peer returns exactly the packets that were
sent, in the order of their final frames, if and only if no frame is written
while another packet with the same number is written in part.
-/

namespace Rmote

variable {Z : Zlib}

/-- The packet as the peer should return it. -/
def Outgoing.assembled (p : Outgoing) : Assembled := ⟨p.payload, p.flags, p.packetId⟩

/-- No send fails, and none is cancelled. -/
def Event.calm : Event → Bool
  | .submit _ => true
  | .write _ => true
  | .drained _ => true
  | _ => false

/-- The final frame of the packet is written. -/
def Task.sent (t : Task) : Bool :=
  t.phase == .done || (t.phase == .draining && t.packet.payload.length ≤ t.offset)

namespace Channel

/-- When a task writes a frame, no other packet with its number is written in
part. -/
def Separate (s : Channel Z) : Event → Prop
  | .write i => ∀ t, s.tasks[i]? = some t → ∀ (j : ℕ) (u : Task), s.tasks[j]? = some u →
      u.midway = true → u.packet.packetId = t.packet.packetId → j = i
  | _ => True

variable {gunzip : Bytes → Except String Bytes} {s s' : Channel Z} {e : Event}

/-- The peer returned exactly the finished packets, and holds for each number
what the one packet midway under it has written. -/
structure Isolated (gunzip : Bytes → Except String Bytes) (s : Channel Z) (r : Inbound Z) :
    Prop where
  tracks : Tracks gunzip s (s.finished.map Outgoing.assembled) r
  shaped : ∀ t ∈ s.tasks, t.Shaped
  held : ∀ (j : ℕ) (u : Task), s.tasks[j]? = some u → u.midway = true →
    r.fragments.joined u.packet.packetId = u.packet.payload.take u.offset
  unique : ∀ (j k : ℕ) (u v : Task), s.tasks[j]? = some u → s.tasks[k]? = some v →
    u.midway = true → v.midway = true → u.packet.packetId = v.packet.packetId → j = k

theorem isolated_init : Isolated gunzip (init Z) (Inbound.start Z gunzip) where
  tracks := tracks_init
  shaped := by simp [init]
  held := by simp [init]
  unique := by simp [init]

/-- A task that writes apart from the others finds what it wrote before. -/
theorem Isolated.joined_eq {r : Inbound Z} (h : Isolated gunzip s r) {i : ℕ} {t : Task}
    (hi : s.tasks[i]? = some t) (hphase : t.phase = .waiting) (hsep : s.Separate (.write i)) :
    r.fragments.joined t.packet.packetId = t.packet.payload.take t.offset := by
  rcases (h.shaped t (List.mem_of_getElem? hi)).waiting hphase with hzero | hmid
  · rw [hzero, List.take_zero]
    apply FragmentBuffer.joined_of_notMem
    intro hmem
    obtain ⟨u, hu, humid, huid⟩ := h.tracks.covered _ hmem
    obtain ⟨j, hj⟩ := List.mem_iff_getElem?.mp hu
    obtain rfl := hsep t hi j u hj humid huid
    obtain rfl := Option.some.inj (hj.symm.trans hi)
    simp [Task.midway, hzero] at humid
  · exact h.held i t hi hmid

/-- The tasks after a write: the one that wrote, and the others as they were. -/
theorem getElem?_written {i j : ℕ} {t u : Task} (hj : (s.written i t).tasks[j]? = some u) :
    (j = i ∧ u = { t with offset := t.next, phase := .draining }) ∨
      (j ≠ i ∧ s.tasks[j]? = some u) := by
  simp only [written, List.getElem?_set] at hj
  split_ifs at hj with hij hlt
  · exact .inl ⟨hij.symm, (Option.some.inj hj).symm⟩
  · exact .inr ⟨fun heq => hij heq.symm, hj⟩

/-- After a write apart from the others, no two packets midway share a number. -/
theorem Isolated.unique_written {r : Inbound Z} (h : Isolated gunzip s r) {i : ℕ} {t : Task}
    (hi : s.tasks[i]? = some t) (hsep : s.Separate (.write i)) :
    ∀ (j k : ℕ) (u v : Task), (s.written i t).tasks[j]? = some u →
      (s.written i t).tasks[k]? = some v → u.midway = true → v.midway = true →
      u.packet.packetId = v.packet.packetId → j = k := by
  intro j k u v hj hk humid hvmid hid
  rcases getElem?_written hj with ⟨rfl, rfl⟩ | ⟨-, hj'⟩
  · rcases getElem?_written hk with ⟨rfl, rfl⟩ | ⟨-, hk'⟩
    · rfl
    · exact (hsep t hi k v hk' hvmid hid.symm).symm
  · rcases getElem?_written hk with ⟨rfl, rfl⟩ | ⟨-, hk'⟩
    · exact hsep t hi j u hj' humid hid
    · exact h.unique j k u v hj' hk' humid hvmid hid

/-- One calm step that keeps the packets apart and within the limits. -/
theorem Isolated.step {r : Inbound Z} (h : Isolated gunzip s r) (hstep : s.step e = some s')
    (hsep : s.Separate e) (hwithin : s.StaysWithin e) : ∃ r', Isolated gunzip s' r' := by
  have hshaped := shaped_step hstep h.shaped
  rcases step_writes hstep h.tracks with ⟨htracks, -, hfinished, hsame⟩ |
    ⟨i, t, rfl, hi, hphase, hopen, -, rfl⟩
  · refine ⟨r, by rw [hfinished]; exact htracks, hshaped, ?_, ?_⟩
    · intro j u' hj hmid
      obtain ⟨u, hu, hpacket, hoffset, humid⟩ := hsame.midway hj hmid
      rw [hpacket, hoffset]
      exact h.held j u hu humid
    · intro j k u' v' hj hk hmid hmid' hid
      obtain ⟨u, hu, hpacket, -, humid⟩ := hsame.midway hj hmid
      obtain ⟨v, hv, hpacket', -, hvmid⟩ := hsame.midway hk hmid'
      rw [hpacket, hpacket'] at hid
      exact h.unique j k u v hu hv humid hvmid hid
  · have hjoined := h.joined_eq hi hphase hsep
    have hunique := h.unique_written hi hsep
    cases hfinal : t.final with
    | true =>
        obtain ⟨r', htracks, hfragments⟩ := h.tracks.written_final hi hopen hfinal
        refine ⟨r', ?_, hshaped, ?_, hunique⟩
        · rw [hjoined, Task.take_offset_append_final hfinal] at htracks
          simpa [written, hfinal, Outgoing.assembled] using htracks
        · intro j u hj hmid
          rcases getElem?_written hj with ⟨rfl, rfl⟩ | ⟨hji, hj⟩
          · rw [Task.midway_final hfinal] at hmid
            cases hmid
          · have hne : u.packet.packetId ≠ t.packet.packetId :=
              fun hid => hji (hsep t hi j u hj hmid hid)
            rw [hfragments, FragmentBuffer.joined_take_ne _ _ hne]
            exact h.held j u hj hmid
    | false =>
        have hlimits := hwithin _ hstep
        have hstore := h.tracks.store_ok hi hfinal hlimits.1 hlimits.2
        obtain ⟨r', htracks, hfragments⟩ := h.tracks.written_fragment hi hopen hfinal hstore
        refine ⟨r', ?_, hshaped, ?_, hunique⟩
        · simpa [written, hfinal] using htracks
        · intro j u hj hmid
          rcases getElem?_written hj with ⟨rfl, rfl⟩ | ⟨hji, hj⟩
          · rw [hfragments, FragmentBuffer.joined_store_self hstore, hjoined]
            exact t.take_offset_append_chunk
          · have hne : u.packet.packetId ≠ t.packet.packetId :=
              fun hid => hji (hsep t hi j u hj hmid hid)
            rw [hfragments, FragmentBuffer.joined_store_ne _ _ hne]
            exact h.held j u hj hmid

/-- A failed task stays failed. -/
theorem failed_step (h : s.step e = some s') {u : Task} (hu : u ∈ s.tasks)
    (hphase : u.phase = .failed) : u ∈ s'.tasks := by
  have hset : ∀ {i : ℕ} {t b : Task}, s.tasks[i]? = some t → t.phase ≠ .failed →
      u ∈ s.tasks.set i b := by
    intro i t b hi ht
    rcases Counting.eq_or_mem_set b hi hu with rfl | hmem
    · exact absurd hphase ht
    · exact hmem
  rcases step_cases h with ⟨packet, -, rfl⟩ | ⟨i, t, -, hi, ht, rfl⟩ | ⟨i, t, -, hi, ht, rfl⟩ |
    ⟨i, t, -, hi, ht, rfl⟩ | ⟨i, t, phase, -, hi, ht, -, rfl⟩ | ⟨-, rfl⟩
  · exact List.mem_append_left _ hu
  · unfold sendFrame
    split_ifs <;> exact hset hi (by simp [ht])
  · exact hset hi (by simp [ht])
  · exact hset hi (by simp [ht])
  · exact hset hi (by simp [ht])
  · exact hu

/-- The peer failed, or returned something else than the finished packets. -/
def Diverged (gunzip : Bytes → Except String Bytes) (s : Channel Z) : Prop :=
  (∃ as error, (Inbound.start Z gunzip).absorbAll s.wire = (as, .error error)) ∨
    ∃ as r, Tracks gunzip s as r ∧ as.length = s.finished.length ∧
      as ≠ s.finished.map Outgoing.assembled

/-- More is stored under the number `n` than any packet with this number wrote. -/
def Mixed (gunzip : Bytes → Except String Bytes) (s : Channel Z) (n : ℕ) : Prop :=
  ∃ r, Tracks gunzip s (s.finished.map Outgoing.assembled) r ∧ (∀ t ∈ s.tasks, t.Shaped) ∧
    0 < (r.fragments.joined n).length ∧
    ∀ (j : ℕ) (u : Task), s.tasks[j]? = some u → u.packet.packetId = n → u.midway = true →
      u.offset < (r.fragments.joined n).length

theorem Diverged.step (h : Diverged gunzip s) (hstep : s.step e = some s') :
    Diverged gunzip s' := by
  rcases h with ⟨as, error, habsorb⟩ | ⟨as, r, htracks, hlen, hne⟩
  · obtain ⟨fs, hwire⟩ := step_wire hstep
    exact .inl ⟨as, error, by rw [hwire]; exact Inbound.absorbAll_append_error habsorb fs⟩
  · rcases step_writes hstep htracks with ⟨htracks', -, hfinished, -⟩ |
      ⟨i, t, rfl, hi, hphase, hopen, -, rfl⟩
    · exact .inr ⟨as, r, htracks', by rw [hfinished]; exact hlen, by rw [hfinished]; exact hne⟩
    · cases hfinal : t.final with
      | true =>
          obtain ⟨r', htracks', -⟩ := htracks.written_final hi hopen hfinal
          refine .inr ⟨_, r', htracks', by simp [written, hfinal, hlen], ?_⟩
          intro heq
          simp only [written, hfinal, if_true, List.map_append, List.map_cons,
            List.map_nil] at heq
          exact hne (List.append_inj_left heq (by simpa using hlen))
      | false =>
          cases hstore : (r.fragments.store t.packet.packetId t.chunk).1 with
          | error error =>
              exact .inl ⟨as, _, htracks.written_refused hopen hfinal hstore⟩
          | ok =>
              obtain ⟨r', htracks', -⟩ := htracks.written_fragment hi hopen hfinal hstore
              exact .inr ⟨as, r', htracks', by simpa [written, hfinal] using hlen,
                by simpa [written, hfinal] using hne⟩

/-- A final frame that does not complete its own packet makes the peer return
something else. -/
theorem diverged_final {r : Inbound Z} {i : ℕ} {t : Task}
    (htracks : Tracks gunzip s (s.finished.map Outgoing.assembled) r)
    (hi : s.tasks[i]? = some t) (hopen : s.closing = false) (hfinal : t.final = true)
    (hne : r.fragments.joined t.packet.packetId ++ t.chunk ≠ t.packet.payload) :
    Diverged gunzip (s.written i t) := by
  obtain ⟨r', htracks', -⟩ := htracks.written_final hi hopen hfinal
  refine .inr ⟨_, r', htracks', by simp [written, hfinal], ?_⟩
  intro heq
  simp only [written, hfinal, if_true, List.map_append, List.map_cons, List.map_nil] at heq
  have hlast := List.append_inj_right heq rfl
  simp only [Outgoing.assembled, List.cons.injEq, Assembled.mk.injEq, and_true] at hlast
  exact hne hlast

/-- More bytes than the packet has are not its payload. -/
theorem joined_append_chunk_ne {r : Inbound Z} {t : Task} (hfinal : t.final = true)
    (hmore : t.offset < (r.fragments.joined t.packet.packetId).length) :
    r.fragments.joined t.packet.packetId ++ t.chunk ≠ t.packet.payload := by
  intro heq
  have hlen := congrArg List.length heq
  have hlast : t.packet.payload.length ≤ t.next := by simpa [Task.final] using hfinal
  rw [List.length_append] at hlen
  rw [Task.next] at hlast
  omega

/-- A final frame is returned as its packet, or the peer diverges. -/
theorem tracks_or_diverged_final {r : Inbound Z} {i : ℕ} {t : Task}
    (htracks : Tracks gunzip s (s.finished.map Outgoing.assembled) r)
    (hi : s.tasks[i]? = some t) (hopen : s.closing = false) (hfinal : t.final = true) :
    (∃ r', Tracks gunzip (s.written i t) ((s.written i t).finished.map Outgoing.assembled) r' ∧
      r'.fragments = (r.fragments.take t.packet.packetId t.chunk).2) ∨
      Diverged gunzip (s.written i t) := by
  by_cases hsame : r.fragments.joined t.packet.packetId ++ t.chunk = t.packet.payload
  · obtain ⟨r', htracks', hfragments⟩ := htracks.written_final hi hopen hfinal
    refine .inl ⟨r', ?_, hfragments⟩
    rw [hsame] at htracks'
    simpa [written, hfinal, Outgoing.assembled] using htracks'
  · exact .inr (diverged_final htracks hi hopen hfinal hsame)

theorem Mixed.step {n : ℕ} (h : Mixed gunzip s n) (hstep : s.step e = some s') :
    Mixed gunzip s' n ∨ Diverged gunzip s' := by
  obtain ⟨r, htracks, hshaped, hpos, hmore⟩ := h
  have hshaped' := shaped_step hstep hshaped
  rcases step_writes hstep htracks with ⟨htracks', -, hfinished, hsame⟩ |
    ⟨i, t, rfl, hi, hphase, hopen, -, rfl⟩
  · refine .inl ⟨r, by rw [hfinished]; exact htracks', hshaped', hpos, ?_⟩
    intro j u' hj hid hmid
    obtain ⟨u, hu, hpacket, hoffset, humid⟩ := hsame.midway hj hmid
    rw [hoffset]
    exact hmore j u hu (hpacket ▸ hid) humid
  · have hoffset : t.packet.packetId = n → t.offset < (r.fragments.joined n).length := by
      intro hid
      rcases (hshaped t (List.mem_of_getElem? hi)).waiting hphase with hzero | hmid
      · rw [hzero]
        exact hpos
      · exact hmore i t hi hid hmid
    cases hfinal : t.final with
    | true =>
        by_cases hid : t.packet.packetId = n
        · have hless := hoffset hid
          rw [← hid] at hless
          exact .inr (diverged_final htracks hi hopen hfinal (joined_append_chunk_ne hfinal hless))
        · rcases tracks_or_diverged_final htracks hi hopen hfinal with
            ⟨r', htracks', hfragments⟩ | hdiverged
          · refine .inl ⟨r', htracks', hshaped', ?_, ?_⟩
            · rw [hfragments, FragmentBuffer.joined_take_ne _ _ (Ne.symm hid)]
              exact hpos
            · intro j u hj huid hmid
              rw [hfragments, FragmentBuffer.joined_take_ne _ _ (Ne.symm hid)]
              rcases getElem?_written hj with ⟨rfl, rfl⟩ | ⟨-, hj'⟩
              · exact absurd huid hid
              · exact hmore j u hj' huid hmid
          · exact .inr hdiverged
    | false =>
        cases hstore : (r.fragments.store t.packet.packetId t.chunk).1 with
        | error error => exact .inr (.inl ⟨_, _, htracks.written_refused hopen hfinal hstore⟩)
        | ok =>
            obtain ⟨r', htracks', hfragments⟩ := htracks.written_fragment hi hopen hfinal hstore
            have hgrown : (r.fragments.joined n).length +
                (if t.packet.packetId = n then t.chunk.length else 0) =
                  (r'.fragments.joined n).length := by
              rw [hfragments]
              by_cases hid : t.packet.packetId = n
              · subst hid
                rw [FragmentBuffer.joined_store_self hstore, List.length_append, if_pos rfl]
              · rw [FragmentBuffer.joined_store_ne _ _ (Ne.symm hid), if_neg hid, add_zero]
            refine .inl ⟨r', by simpa [written, hfinal] using htracks', hshaped', by omega, ?_⟩
            intro j u hj huid hmid
            rcases getElem?_written hj with ⟨rfl, rfl⟩ | ⟨-, hj'⟩
            · have hless := hoffset huid
              rw [if_pos huid] at hgrown
              simp only [Task.next]
              omega
            · have hless := hmore j u hj' huid hmid
              omega

/-- The first frame that is written under the number of another packet midway
mixes the two, unless the write itself fails. -/
theorem Isolated.mixed {r : Inbound Z} (h : Isolated gunzip s r) (hstep : s.step e = some s')
    (hsep : ¬ s.Separate e) :
    (∃ t ∈ s'.tasks, t.phase = .failed) ∨ (∃ n, Mixed gunzip s' n) ∨ Diverged gunzip s' := by
  have hshaped := shaped_step hstep h.shaped
  cases e with
  | write i =>
      simp only [Separate, not_forall] at hsep
      obtain ⟨t, hi, j, u, hj, humid, hid, hji⟩ := hsep
      have hjoined := h.held j u hj humid
      have humid' : 0 < u.offset ∧ u.offset < u.packet.payload.length := by
        simpa [Task.midway] using humid
      have hlen : (r.fragments.joined t.packet.packetId).length = u.offset := by
        rw [← hid, hjoined, List.length_take]
        omega
      rcases step_cases hstep with ⟨_, he, -⟩ | ⟨i', t', he, hi', hphase, rfl⟩ | ⟨_, _, he, -⟩ |
        ⟨_, _, he, -⟩ | ⟨_, _, _, he | he, -⟩ | ⟨he, -⟩
      all_goals try cases he
      obtain rfl := Option.some.inj (hi.symm.trans hi')
      -- The task is new: it cannot be midway next to the other one.
      have hzero : t.offset = 0 := by
        rcases (h.shaped t (List.mem_of_getElem? hi)).waiting hphase with hzero | hmid
        · exact hzero
        · exact absurd (h.unique j i u t hj hi humid hmid hid) hji
      unfold sendFrame at hshaped ⊢
      split_ifs at hshaped ⊢ with hclosing hpack
      · exact .inl ⟨_, Counting.mem_set_self _ hi, rfl⟩
      · have hopen : s.closing = false := by simpa using hclosing
        cases hfinal : t.final with
        | true =>
            have hless : t.offset < (r.fragments.joined t.packet.packetId).length := by omega
            exact .inr (.inr (diverged_final h.tracks hi hopen hfinal
              (joined_append_chunk_ne hfinal hless)))
        | false =>
            have hchunk : 0 < t.chunk.length := by
              rw [Task.length_chunk_of_not_final hfinal]
              decide
            cases hstore : (r.fragments.store t.packet.packetId t.chunk).1 with
            | error error =>
                exact .inr (.inr (.inl ⟨_, _, h.tracks.written_refused hopen hfinal hstore⟩))
            | ok =>
                obtain ⟨r', htracks', hfragments⟩ :=
                  h.tracks.written_fragment hi hopen hfinal hstore
                have hgrown : (r'.fragments.joined t.packet.packetId).length =
                    u.offset + t.chunk.length := by
                  rw [hfragments, FragmentBuffer.joined_store_self hstore, List.length_append,
                    hlen]
                refine .inr (.inl ⟨t.packet.packetId, r',
                  by simpa [written, hfinal] using htracks', hshaped, by omega, ?_⟩)
                intro k v hk hvid hvmid
                rcases getElem?_written hk with ⟨rfl, rfl⟩ | ⟨-, hk'⟩
                · simp only [Task.next]
                  omega
                · have hkj : k = j := h.unique k j v u hk' hj hvmid humid (hvid.trans hid.symm)
                  subst hkj
                  obtain rfl := Option.some.inj (hk'.symm.trans hj)
                  omega
      · exact .inl ⟨_, Counting.mem_set_self _ hi, rfl⟩
  | _ => exact absurd trivial hsep

/-- Once the packets are mixed, they never come apart again. -/
theorem not_received_of_mixed {es : List Event} (hrun : Machine.run step s es = some s')
    (h : (∃ t ∈ s.tasks, t.phase = .failed) ∨ (∃ n, Mixed gunzip s n) ∨ Diverged gunzip s)
    (hdone : ∀ t ∈ s'.tasks, t.phase = .done) :
    ¬ ∃ r, (Inbound.start Z gunzip).absorbAll s'.wire =
      (s'.finished.map Outgoing.assembled, .ok r) := by
  have hlast := Machine.run_always
    (fun s : Channel Z => (∃ t ∈ s.tasks, t.phase = .failed) ∨ (∃ n, Mixed gunzip s n) ∨
      Diverged gunzip s) ?_ hrun h
  · rintro ⟨r, habsorb⟩
    rcases hlast with ⟨t, ht, hfailed⟩ | ⟨n, r₁, htracks, hshaped, hpos, -⟩ |
      ⟨as, error, habsorb'⟩ | ⟨as, r₁, htracks, -, hne⟩
    · rw [hdone t ht] at hfailed
      cases hfailed
    · -- An entry under `n` belongs to a packet midway, and nothing is midway here.
      have hmem : n ∈ r₁.fragments.buffers := by
        by_contra hn
        simp [FragmentBuffer.joined_of_notMem hn] at hpos
      obtain ⟨t, ht, hmid, -⟩ := htracks.covered n hmem
      rw [(hshaped t ht).done (hdone t ht)] at hmid
      cases hmid
    · rw [habsorb] at habsorb'
      cases (Prod.mk.inj habsorb').2
    · have hreturned := htracks.absorbed
      rw [habsorb] at hreturned
      exact hne (Prod.mk.inj hreturned).1.symm
  · intro s e t hs hstep
    rcases hs with ⟨u, hu, hfailed⟩ | ⟨n, hmixed⟩ | hdiverged
    · exact .inl ⟨u, failed_step hstep hu hfailed, hfailed⟩
    · rcases hmixed.step hstep with hmixed | hdiverged
      · exact .inr (.inl ⟨n, hmixed⟩)
      · exact .inr (.inr hdiverged)
    · exact .inr (.inr (hdiverged.step hstep))

/-- The number of tasks that wrote all of the packet `p`. -/
def sentCount (tasks : List Task) (p : Outgoing) : ℕ :=
  (tasks.map fun t => if t.sent = true ∧ t.packet = p then 1 else 0).sum

theorem sentCount_set {tasks : List Task} {i : ℕ} {t : Task} (t' : Task)
    (hi : tasks[i]? = some t) (hpacket : t'.packet = t.packet) (p : Outgoing) :
    sentCount (tasks.set i t') p + (if t.sent = true ∧ t.packet = p then 1 else 0) =
      sentCount tasks p + (if t'.sent = true ∧ t.packet = p then 1 else 0) := by
  have hset := Counting.sum_map_set
    (fun t : Task => if t.sent = true ∧ t.packet = p then 1 else 0) t' hi
  simp only [hpacket] at hset
  exact hset

theorem sentCount_eq_count {tasks : List Task} (h : ∀ t ∈ tasks, t.phase = .done)
    (p : Outgoing) : sentCount tasks p = (tasks.map Task.packet).count p := by
  induction tasks with
  | nil => rfl
  | cons t tasks ih =>
      have hsent : t.sent = true := by simp [Task.sent, h t List.mem_cons_self]
      have hrest := ih fun u hu => h u (List.mem_cons_of_mem t hu)
      rw [List.map_cons, List.count_cons, ← hrest]
      simp [sentCount, hsent, add_comm]

/-- Without failures a packet is finished exactly as often as tasks sent it. -/
theorem count_finished_step (h : s.step e = some s') (hcalm : e.calm = true)
    (hs : ∀ p, s.finished.count p = sentCount s.tasks p) :
    ∀ p, s'.finished.count p = sentCount s'.tasks p := by
  intro p
  have hp := hs p
  rcases step_cases h with ⟨packet, -, rfl⟩ | ⟨i, t, -, hi, hphase, rfl⟩ |
    ⟨i, t, -, hi, hphase, rfl⟩ | ⟨i, t, rfl, -⟩ | ⟨i, t, phase, rfl | rfl, -⟩ | ⟨rfl, -⟩
  · have hfresh : Task.sent ⟨packet, 0, .waiting⟩ = false := rfl
    simpa [sentCount, hfresh] using hp
  · have hwaiting : t.sent = false := by simp [Task.sent, hphase]
    unfold sendFrame
    split_ifs
    · have hset := sentCount_set { t with phase := .failed } hi rfl p
      have hfailed : Task.sent { t with phase := .failed } = false := rfl
      simp only [hwaiting, hfailed, Bool.false_eq_true, false_and, if_false] at hset
      simpa using hp.trans hset.symm
    · have hset := sentCount_set { t with offset := t.next, phase := .draining } hi rfl p
      have hsent : Task.sent { t with offset := t.next, phase := .draining } = t.final := rfl
      simp only [hwaiting, hsent, Bool.false_eq_true, false_and, if_false] at hset
      simp only [written]
      cases hfinal : t.final with
      | true =>
          simp only [hfinal, true_and, if_true, List.count_append,
            List.count_singleton, beq_iff_eq] at hset ⊢
          omega
      | false =>
          simp only [hfinal, Bool.false_eq_true, false_and, if_false] at hset ⊢
          omega
    · have hset := sentCount_set { t with phase := .failed } hi rfl p
      have hfailed : Task.sent { t with phase := .failed } = false := rfl
      simp only [hwaiting, hfailed, Bool.false_eq_true, false_and, if_false] at hset
      simpa using hp.trans hset.symm
  · have hset := sentCount_set
      { t with phase := if t.packet.payload.length ≤ t.offset then .done else .waiting } hi rfl p
    have hsame : Task.sent
        { t with phase := if t.packet.payload.length ≤ t.offset then .done else .waiting } =
          t.sent := by
      by_cases hlast : t.packet.payload.length ≤ t.offset <;> simp [Task.sent, hphase, hlast]
    rw [hsame] at hset
    simp only [afterDrain]
    omega
  · cases hcalm
  · cases hcalm
  · cases hcalm
  · cases hcalm

/-- When every task is done, the finished packets are the packets that were
sent. -/
theorem finished_perm {es : List Event} (hrun : Machine.run step (init Z) es = some s)
    (hcalm : ∀ e ∈ es, e.calm = true) (hdone : ∀ t ∈ s.tasks, t.phase = .done) :
    s.finished.Perm (s.tasks.map Task.packet) := by
  have hcount := Machine.run_invariant
    (fun s : Channel Z => ∀ p, s.finished.count p = sentCount s.tasks p)
    (fun _ _ _ hs hok hstep => count_finished_step hstep hok hs) hrun
    (Machine.meets_of_forall_mem _ fun e he _ => hcalm e he) (by simp [init, sentCount])
  rw [List.perm_iff_count]
  intro p
  rw [hcount p, sentCount_eq_count hdone]

/-- Every calm run that keeps the packets apart leaves the peer in step. -/
theorem isolated_run (gunzip : Bytes → Except String Bytes) {es : List Event}
    (hrun : Machine.run step (init Z) es = some s)
    (hwithin : Machine.meets step StaysWithin (init Z) es)
    (hsep : Machine.meets step Separate (init Z) es) : ∃ r, Isolated gunzip s r := by
  refine Machine.run_invariant (fun s : Channel Z => ∃ r, Isolated gunzip s r) ?_ hrun
    (Machine.meets_and hwithin hsep) ⟨_, isolated_init⟩
  rintro s e t ⟨r, hr⟩ ⟨hlimits, hapart⟩ hstep
  exact hr.step hstep hapart hlimits

/-- In a run of whole packets, the first frame that is not written apart spoils
what the peer returns. -/
theorem not_received_of_not_separate {es : List Event}
    (hrun : Machine.run step (init Z) es = some s)
    (hwithin : Machine.meets step StaysWithin (init Z) es)
    (hdone : ∀ t ∈ s.tasks, t.phase = .done)
    (hsep : ¬ Machine.meets step Separate (init Z) es) :
    ¬ ∃ r, (Inbound.start Z gunzip).absorbAll s.wire =
      (s.finished.map Outgoing.assembled, .ok r) := by
  obtain ⟨before, after, e, u, v, rfl, hbefore, hmeets, hfail, hstep, hafter⟩ :=
    Machine.exists_first_failure hrun hsep
  have hlimits := ((Machine.meets_append hbefore).mp hwithin).1
  obtain ⟨r, hr⟩ := isolated_run gunzip hbefore hlimits hmeets
  exact not_received_of_mixed hafter (hr.mixed hstep hfail) hdone

/-- Packets with different numbers are always apart. -/
theorem meets_separate {es : List Event}
    (hids : ((s.tasks.map Task.packet ++ es.flatMap Event.begun).map
      fun p => p.packetId).Nodup) : Machine.meets step Separate s es := by
  induction es generalizing s with
  | nil => trivial
  | cons e es ih =>
      rw [List.flatMap_cons, ← List.append_assoc] at hids
      constructor
      · cases e with
        | write i =>
            intro t hi j u hj _ hid
            have hnodup : (s.tasks.map fun t => t.packet.packetId).Nodup := by
              simp only [List.map_append, List.map_map] at hids
              exact (List.nodup_append.mp (List.nodup_append.mp hids).1).1
            have hlt := (List.getElem?_eq_some_iff.mp hj).1
            rw [← List.length_map fun t : Task => t.packet.packetId] at hlt
            refine (List.getElem?_inj hlt hnodup).mp ?_
            rw [List.getElem?_map, List.getElem?_map, hi, hj]
            exact congrArg some hid
        | _ => trivial
      · intro s' hstep
        rw [← packets_step hstep] at hids
        exact ih hids

/-- Take a run in which no send fails and every packet is written to its end,
within the limits of the fragment buffer. Each packet finishes once, and the peer
returns exactly the finished packets, in the order of their final frames and with
their payloads, flags and numbers, if and only if no frame was written while
another packet with the same number was written in part. -/
theorem received_eq_finished_iff_separate {es : List Event}
    (hrun : Machine.run step (init Z) es = some s) (hcalm : ∀ e ∈ es, e.calm = true)
    (hwithin : Machine.meets step StaysWithin (init Z) es)
    (hdone : ∀ t ∈ s.tasks, t.phase = .done) (gunzip : Bytes → Except String Bytes)
    (threshold : Option ℕ) :
    s.finished.Perm (s.tasks.map Task.packet) ∧
      ((∃ r, s.received gunzip threshold = (s.finished.map Outgoing.assembled, .ok r)) ↔
        Machine.meets step Separate (init Z) es) := by
  refine ⟨finished_perm hrun hcalm hdone, ?_⟩
  rw [received_eq_absorbAll hrun]
  constructor
  · intro hreceived
    by_contra hsep
    exact not_received_of_not_separate hrun hwithin hdone hsep hreceived
  · intro hsep
    obtain ⟨r, hr⟩ := isolated_run gunzip hrun hwithin hsep
    exact ⟨r, hr.tracks.absorbed⟩

/-- Two packets of two frames each, with the second frame of the first one
written after the first frame of the other. -/
def crossing (a b : Outgoing) : List Event :=
  [.submit a, .submit b, .write 0, .drained 0] ++
    ([.write 1, .drained 1] ++ ([.write 0, .drained 0] ++ [.write 1, .drained 1]))

theorem run_crossing (Z : Zlib) {a b : Outgoing} (hne : a.origin ≠ b.origin)
    (ha : a.payload.length = fragmentSize + 1) (hb : b.payload.length = fragmentSize + 1)
    (hida : a.packetId < 2 ^ 64) (hidb : b.packetId < 2 ^ 64) :
    ∃ u s : Channel Z, Machine.run step (init Z) [.submit a, .submit b, .write 0, .drained 0] =
        some u ∧ u.tasks = [⟨a, fragmentSize, .waiting⟩, ⟨b, 0, .waiting⟩] ∧
      Machine.run step (init Z) (crossing a b) = some s ∧ ∀ t ∈ s.tasks, t.phase = .done := by
  have hsize : 0 < fragmentSize := by decide
  have hfirst : ∀ {p : Outgoing} {phase : Phase}, p.payload.length = fragmentSize + 1 →
      Task.next ⟨p, 0, phase⟩ = fragmentSize := by
    intro p phase hp
    rw [Task.next, Task.length_chunk, hp]
    simp
  have hsecond : ∀ {p : Outgoing} {phase : Phase}, p.payload.length = fragmentSize + 1 →
      Task.next ⟨p, fragmentSize, phase⟩ = fragmentSize + 1 := by
    intro p phase hp
    rw [Task.next, Task.length_chunk, hp]
    simp only
    omega
  let s₂ : Channel Z := { init Z with tasks := [⟨a, 0, .waiting⟩, ⟨b, 0, .waiting⟩] }
  have hbegin : Machine.run step (init Z) [.submit a, .submit b] = some s₂ := by
    refine Machine.run_cons_eq_some.mpr ⟨_, step_submit (by simp [init]), ?_⟩
    refine Machine.run_cons_eq_some.mpr ⟨_, step_submit ?_, rfl⟩
    intro u hu horigin
    have hu' : u = ⟨a, 0, .waiting⟩ := by simpa [init] using hu
    rw [hu'] at horigin
    exact absurd horigin hne
  obtain ⟨u, hu, hlock, hopen, -, htasks⟩ := run_frame (s := s₂) (i := 0) (t := ⟨a, 0, .waiting⟩)
    rfl rfl rfl rfl hida
  have hut : u.tasks = [⟨a, fragmentSize, .waiting⟩, ⟨b, 0, .waiting⟩] := by
    simp [htasks, s₂, hfirst ha, ha]
  obtain ⟨v, hv, hlock, hopen, -, htasks⟩ := run_frame (s := u) (i := 1) (t := ⟨b, 0, .waiting⟩)
    (by rw [hut]; rfl) hlock rfl hopen hidb
  have hvt : v.tasks = [⟨a, fragmentSize, .waiting⟩, ⟨b, fragmentSize, .waiting⟩] := by
    simp [htasks, hut, hfirst hb, hb]
  obtain ⟨w, hw, hlock, hopen, -, htasks⟩ := run_frame (s := v) (i := 0)
    (t := ⟨a, fragmentSize, .waiting⟩) (by rw [hvt]; rfl) hlock rfl hopen hida
  have hwt : w.tasks = [⟨a, fragmentSize + 1, .done⟩, ⟨b, fragmentSize, .waiting⟩] := by
    simp [htasks, hvt, hsecond ha, ha]
  obtain ⟨s, hs, -, -, -, htasks⟩ := run_frame (s := w) (i := 1)
    (t := ⟨b, fragmentSize, .waiting⟩) (by rw [hwt]; rfl) hlock rfl hopen hidb
  have hst : s.tasks = [⟨a, fragmentSize + 1, .done⟩, ⟨b, fragmentSize + 1, .done⟩] := by
    simp [htasks, hwt, hsecond hb, hb]
  have hstart := Machine.run_append_eq_some.mpr ⟨s₂, hbegin, hu⟩
  refine ⟨u, s, hstart, hut, ?_, by simp [hst]⟩
  refine Machine.run_append_eq_some.mpr ⟨u, hstart, ?_⟩
  refine Machine.run_append_eq_some.mpr ⟨v, hv, ?_⟩
  exact Machine.run_append_eq_some.mpr ⟨w, hw, hs⟩

theorem meets_staysWithin_crossing (Z : Zlib) {a b : Outgoing}
    (ha : a.payload.length = fragmentSize + 1) (hb : b.payload.length = fragmentSize + 1) :
    Machine.meets step StaysWithin (init Z) (crossing a b) := by
  apply meets_staysWithin
  · simp [init, crossing, Event.begun, maxPartialPackets]
  · simp only [init, crossing, Event.begun, List.map_nil, List.nil_append, List.cons_append,
      List.flatMap_cons, List.flatMap_nil, List.map_cons, ha, hb, List.sum_cons, List.sum_nil]
    decide

/-- Two packets with different numbers whose frames alternate reach the peer as
they were sent. -/
theorem crossing_isolated :
    ∃ s : Channel Zlib.plain,
      Machine.run step (init Zlib.plain)
        (crossing (Outgoing.zeros .own 1 (fragmentSize + 1))
          (Outgoing.zeros .peer 2 (fragmentSize + 1))) = some s ∧
      s.finished.Perm (s.tasks.map Task.packet) ∧
      ∃ r, s.received (fun _ => .error "not gzip") none =
        (s.finished.map Outgoing.assembled, .ok r) := by
  obtain ⟨-, s, -, -, hrun, hdone⟩ := run_crossing Zlib.plain
    (a := Outgoing.zeros .own 1 (fragmentSize + 1))
    (b := Outgoing.zeros .peer 2 (fragmentSize + 1))
    (by decide) (Outgoing.length_zeros ..) (Outgoing.length_zeros ..) (by decide) (by decide)
  have hwithin := meets_staysWithin_crossing Zlib.plain
    (Outgoing.length_zeros .own 1 (fragmentSize + 1))
    (Outgoing.length_zeros .peer 2 (fragmentSize + 1))
  have hresult := received_eq_finished_iff_separate hrun
    (by simp [crossing, Event.calm]) hwithin hdone (fun _ => .error "not gzip") none
  refine ⟨s, hrun, hresult.1, hresult.2.mpr (meets_separate ?_)⟩
  simp [init, crossing, Event.begun, Outgoing.zeros]

/-- The first request of this endpoint and the response to the first request of
the peer carry the same number. When both take two frames that alternate, the
peer does not return what was sent. -/
theorem crossing_mixes :
    ∃ s : Channel Zlib.plain,
      Machine.run step (init Zlib.plain)
        (crossing (Outgoing.zeros .own 1 (fragmentSize + 1))
          (Outgoing.zeros .peer 1 (fragmentSize + 1))) = some s ∧
      (∀ e ∈ crossing (Outgoing.zeros .own 1 (fragmentSize + 1))
        (Outgoing.zeros .peer 1 (fragmentSize + 1)), e.calm = true) ∧
      Machine.meets step StaysWithin (init Zlib.plain)
        (crossing (Outgoing.zeros .own 1 (fragmentSize + 1))
          (Outgoing.zeros .peer 1 (fragmentSize + 1))) ∧
      (∀ t ∈ s.tasks, t.phase = .done) ∧
      ¬ ∃ r, s.received (fun _ => .error "not gzip") none =
        (s.finished.map Outgoing.assembled, .ok r) := by
  obtain ⟨u, s, hu, htasks, hrun, hdone⟩ := run_crossing Zlib.plain
    (a := Outgoing.zeros .own 1 (fragmentSize + 1))
    (b := Outgoing.zeros .peer 1 (fragmentSize + 1))
    (by decide) (Outgoing.length_zeros ..) (Outgoing.length_zeros ..) (by decide) (by decide)
  have hwithin := meets_staysWithin_crossing Zlib.plain
    (Outgoing.length_zeros .own 1 (fragmentSize + 1))
    (Outgoing.length_zeros .peer 1 (fragmentSize + 1))
  refine ⟨s, hrun, by simp [crossing, Event.calm], hwithin, hdone, ?_⟩
  rw [received_eq_absorbAll hrun]
  refine not_received_of_not_separate hrun hwithin hdone ?_
  intro hsep
  have hwrite := ((Machine.meets_append hu).mp hsep).2.1
  have hmid : Task.midway ⟨Outgoing.zeros .own 1 (fragmentSize + 1), fragmentSize, .waiting⟩ =
      true := by
    simp only [Task.midway, Outgoing.length_zeros]
    decide
  have hsame := hwrite ⟨Outgoing.zeros .peer 1 (fragmentSize + 1), 0, .waiting⟩
    (by rw [htasks]; rfl) 0 _ (by rw [htasks]; rfl) hmid rfl
  cases hsame

end Channel

end Rmote
