import Rmote.Library.Machine
import Rmote.Modules.Link

/-!
# Modules that are left out of a packet

A module may be left out when the peer has it, or when its source is on the wire before the
packet. `Sound a b ab ba` says so for what endpoint `a` knows of `b`, with the packets `ab`
from `a` to `b` and `ba` back. Two steps break it: an envelope that is refused is counted as
sent all the same, and the request to load a tool whose key is taken succeeds without its
sources.
-/

namespace Rmote

namespace Modules

/-- The peer has the module, or its source is on the way. -/
def Covered (b : Peer) (ab : List Packet) (name : String) : Prop :=
  name ∈ b.held ∨ ∃ packet ∈ ab, name ∈ packet.envelope

/-- What endpoint `a` takes `b` to have, `b` has, or it is on the way. A request that was
answered has brought its sources. -/
structure Sound (a b : Peer) (ab ba : List Packet) : Prop where
  known : b.closed = false → ∀ name ∈ a.known, Covered b ab name
  owed : b.closed = false → ∀ sources ∈ a.owed, ∀ name ∈ sources, Covered b ab name
  pending : b.closed = false → ∀ packet ∈ a.pending, ∀ name ∈ packet.omitted, Covered b ab name
  wire : b.closed = false → ∀ before packet after, ab = before ++ packet :: after →
    ∀ name ∈ packet.omitted, Covered b (before ++ [packet]) name
  sources : ∀ packet ∈ a.pending ++ ab, ∀ name ∈ packet.sources, name ∈ a.held
  loads : ∀ load ∈ b.loads, ∀ name ∈ load.sources, name ∈ a.held
  requests : ∀ id key sources omitted, .sync id key sources omitted ∈ a.pending ++ ab →
    id < a.next ∧ ∀ waiting, a.syncs id = some waiting → waiting = sources
  serving : ∀ load ∈ b.loads, load.id < a.next ∧
    ∀ waiting, a.syncs load.id = some waiting → waiting = load.sources
  replies : ∀ id ok, .reply id ok ∈ b.pending ++ ba → id < a.next ∧
    (ok = true → ∀ waiting, a.syncs id = some waiting → ∀ name ∈ waiting, name ∈ b.held)

variable {a b b' : Peer} {ab ba : List Packet} {name : String}

theorem Covered.mono (h : Covered b ab name) (hheld : b.held ⊆ b'.held) {ab' : List Packet}
    (hwire : ab ⊆ ab') : Covered b' ab' name := by
  rcases h with hname | ⟨packet, hmem, hname⟩
  · exact .inl (hheld hname)
  · exact .inr ⟨packet, hwire hmem, hname⟩

theorem mem_assumed {p : Peer} {needs : List String} (h : name ∈ p.assumed needs) :
    name ∈ p.known := by
  simpa using (List.mem_filter.mp h).2

theorem mem_missing {p : Peer} {needs : List String} (h : name ∈ p.missing needs) :
    name ∈ needs :=
  List.mem_of_mem_filter h

/-- The endpoint that is known of may get modules, finish requests and lose packets. -/
theorem Sound.grow (h : Sound a b ab ba) {ba' : List Packet} (hheld : b.held ⊆ b'.held)
    (hclosed : b'.closed = false → b.closed = false) (hloads : b'.loads ⊆ b.loads)
    (hreplies : ∀ id ok, .reply id ok ∈ b'.pending ++ ba' → .reply id ok ∈ b.pending ++ ba) :
    Sound a b' ab ba' := by
  refine ⟨?_, ?_, ?_, ?_, h.sources, ?_, h.requests, ?_, ?_⟩
  · exact fun hopen name hname => (h.known (hclosed hopen) name hname).mono hheld (List.Subset.refl _)
  · exact fun hopen sources hmem name hname =>
      (h.owed (hclosed hopen) sources hmem name hname).mono hheld (List.Subset.refl _)
  · exact fun hopen packet hmem name hname =>
      (h.pending (hclosed hopen) packet hmem name hname).mono hheld (List.Subset.refl _)
  · exact fun hopen before packet after hsplit name hname =>
      (h.wire (hclosed hopen) before packet after hsplit name hname).mono hheld (List.Subset.refl _)
  · exact fun load hmem => h.loads load (hloads hmem)
  · exact fun load hmem => h.serving load (hloads hmem)
  · intro id ok hmem
    obtain ⟨hlt, hbrought⟩ := h.replies id ok (hreplies id ok hmem)
    exact ⟨hlt, fun hok waiting hwaiting name hname => hheld (hbrought hok waiting hwaiting name hname)⟩

/-- The endpoint that knows may learn what its peer has, and encode packets with that. -/
theorem Sound.know (h : Sound a b ab ba) {a' : Peer} {ba' : List Packet} (hheld : a.held ⊆ a'.held)
    (hknown : ∀ name ∈ a'.known, name ∈ a.known ∨ name ∈ b.held ∨ ∃ sources ∈ a.owed, name ∈ sources)
    (howed : ∀ sources ∈ a'.owed, sources ∈ a.owed ∨ ∀ name ∈ sources, name ∈ b.held)
    (homitted : ∀ packet ∈ a'.pending, ∀ name ∈ packet.omitted, name ∈ a.known ∨
      ∃ old ∈ a.pending, name ∈ old.omitted)
    (hsources : ∀ packet ∈ a'.pending, ∀ name ∈ packet.sources, name ∈ a'.held)
    (hrequests : ∀ id key sources omitted, .sync id key sources omitted ∈ a'.pending →
      .sync id key sources omitted ∈ a.pending)
    (hnext : a.next ≤ a'.next)
    (hsyncs : ∀ id waiting, a'.syncs id = some waiting → a.syncs id = some waiting)
    (hba : ba' ⊆ ba) : Sound a' b ab ba' := by
  have hcovered : b.closed = false → ∀ name, (name ∈ a.known ∨ name ∈ b.held ∨
      ∃ sources ∈ a.owed, name ∈ sources) → Covered b ab name := by
    rintro hopen name (hname | hname | ⟨sources, hmem, hname⟩)
    · exact h.known hopen name hname
    · exact .inl hname
    · exact h.owed hopen sources hmem name hname
  refine ⟨fun hopen name hname => hcovered hopen name (hknown name hname),
    fun hopen sources hmem name hname => ?_, fun hopen packet hmem name hname => ?_, h.wire,
    fun packet hmem name hname => ?_, fun load hmem name hname => hheld (h.loads load hmem name hname),
    fun id key sources omitted hmem => ?_, fun load hmem => ?_, fun id ok hmem => ?_⟩
  · rcases howed sources hmem with hold | hbrought
    · exact h.owed hopen sources hold name hname
    · exact .inl (hbrought name hname)
  · rcases homitted packet hmem name hname with hname | ⟨old, hold, hname⟩
    · exact h.known hopen name hname
    · exact h.pending hopen old hold name hname
  · rcases List.mem_append.mp hmem with hmem | hmem
    · exact hsources packet hmem name hname
    · exact hheld (h.sources packet (List.mem_append_right _ hmem) name hname)
  · have hmem' : .sync id key sources omitted ∈ a.pending ++ ab := by
      rcases List.mem_append.mp hmem with hmem | hmem
      · exact List.mem_append_left _ (hrequests id key sources omitted hmem)
      · exact List.mem_append_right _ hmem
    obtain ⟨hlt, hwaits⟩ := h.requests id key sources omitted hmem'
    exact ⟨hlt.trans_le hnext, fun waiting hwaiting => hwaits waiting (hsyncs id waiting hwaiting)⟩
  · obtain ⟨hlt, hwaits⟩ := h.serving load hmem
    exact ⟨hlt.trans_le hnext, fun waiting hwaiting => hwaits waiting (hsyncs _ waiting hwaiting)⟩
  · have hmem' : .reply id ok ∈ b.pending ++ ba := by
      rcases List.mem_append.mp hmem with hmem | hmem
      · exact List.mem_append_left _ hmem
      · exact List.mem_append_right _ (hba hmem)
    obtain ⟨hlt, hbrought⟩ := h.replies id ok hmem'
    exact ⟨hlt.trans_le hnext,
      fun hok waiting hwaiting => hbrought hok waiting (hsyncs id waiting hwaiting)⟩

/-- What an endpoint accepts and serves does not change what it knows. -/
theorem Sound.know_of_eq (h : Sound a b ab ba) {a' : Peer} {ba' : List Packet}
    (heq : (a'.held, a'.known, a'.owed, a'.pending, a'.next, a'.syncs) =
      (a.held, a.known, a.owed, a.pending, a.next, a.syncs)) (hba : ba' ⊆ ba) :
    Sound a' b ab ba' := by
  simp only [Prod.mk.injEq] at heq
  obtain ⟨hheld, hknown, howed, hpending, hnext, hsyncs⟩ := heq
  refine h.know (by rw [hheld]) (by rw [hknown]; exact fun _ => .inl) (by rw [howed]; exact fun _ => .inl)
    ?_ ?_ (by rw [hpending]; exact fun _ _ _ _ hp => hp) hnext.ge (by rw [hsyncs]; exact fun _ _ hw => hw)
    hba
  · rw [hpending]
    exact fun packet hp name hname => .inr ⟨packet, hp, hname⟩
  · rw [hpending, hheld]
    exact fun packet hp => h.sources packet (List.mem_append_left _ hp)

/-! ## Packets leave -/

theorem Sound.write (h : Sound a b ab ba) {index : ℕ} {packet : Packet}
    (hpacket : a.pending[index]? = some packet) :
    Sound { a with
        pending := a.pending.eraseIdx index
        owed := a.owed ++ [packet.envelope] } b (ab ++ [packet]) ba := by
  have hmem : packet ∈ a.pending := List.mem_of_getElem? hpacket
  have herase : a.pending.eraseIdx index ⊆ a.pending := List.eraseIdx_subset
  have hsubset : a.pending.eraseIdx index ++ (ab ++ [packet]) ⊆ a.pending ++ ab := by
    intro p hp
    simp only [List.mem_append, List.mem_singleton] at hp ⊢
    rcases hp with hp | hp | rfl
    · exact .inl (herase hp)
    · exact .inr hp
    · exact .inl hmem
  have hon : ab ⊆ ab ++ [packet] := List.subset_append_left _ _
  refine ⟨?_, ?_, ?_, ?_, ?_, h.loads, ?_, h.serving, h.replies⟩
  · exact fun hopen name hname => (h.known hopen name hname).mono (Finset.Subset.refl _) hon
  · intro hopen sources hsources name hname
    rcases List.mem_append.mp hsources with hsources | hsources
    · exact (h.owed hopen sources hsources name hname).mono (Finset.Subset.refl _) hon
    · rw [List.mem_singleton.mp hsources] at hname
      exact .inr ⟨packet, List.mem_append_right _ (List.mem_singleton_self _), hname⟩
  · exact fun hopen p hp name hname =>
      (h.pending hopen p (herase hp) name hname).mono (Finset.Subset.refl _) hon
  · intro hopen before p after hsplit name hname
    -- the packet is the last one on the wire, or it was there before
    rcases List.eq_nil_or_concat after with rfl | ⟨rest, last, rfl⟩
    · obtain ⟨rfl, hlast⟩ := List.append_inj' hsplit rfl
      obtain rfl : packet = p := by simpa using hlast
      exact (h.pending hopen packet hmem name hname).mono (Finset.Subset.refl _) hon
    · have hsplit' : ab ++ [packet] = (before ++ p :: rest) ++ [last] := by simpa using hsplit
      obtain ⟨rfl, -⟩ := List.append_inj' hsplit' rfl
      exact h.wire hopen before p rest rfl name hname
  · exact fun p hp => h.sources p (hsubset hp)
  · exact fun id key sources omitted hp => h.requests id key sources omitted (hsubset hp)

theorem Sound.sync (h : Sound a b ab ba) {needs : List String} (key : String)
    (hneeds : ∀ name ∈ needs, name ∈ a.held) : Sound (a.sync key needs) b ab ba := by
  have hold : ∀ id, id < a.next → ∀ waiting, (a.sync key needs).syncs id = some waiting →
      a.syncs id = some waiting := by
    intro id hlt waiting hwaiting
    have hupdate : Function.update a.syncs a.next (some (a.missing needs)) id = some waiting :=
      hwaiting
    rwa [Function.update_of_ne hlt.ne] at hupdate
  refine ⟨h.known, h.owed, fun hopen packet hmem name hname => ?_, h.wire,
    fun packet hmem name hname => ?_, h.loads, fun id key' sources omitted hmem => ?_,
    fun load hmem => ?_, fun id ok hmem => ?_⟩
  · rcases List.mem_append.mp hmem with hmem | hmem
    · exact h.pending hopen packet hmem name hname
    · rw [List.mem_singleton.mp hmem] at hname
      exact h.known hopen name (mem_assumed hname)
  · simp only [Peer.sync, List.append_assoc, List.mem_append, List.mem_singleton] at hmem
    rcases hmem with hmem | rfl | hmem
    · exact h.sources packet (List.mem_append_left _ hmem) name hname
    · exact hneeds name (mem_missing hname)
    · exact h.sources packet (List.mem_append_right _ hmem) name hname
  · simp only [Peer.sync, List.append_assoc, List.mem_append, List.mem_singleton] at hmem
    have hcases : .sync id key' sources omitted ∈ a.pending ++ ab ∨
        Packet.sync id key' sources omitted =
          .sync a.next key (a.missing needs) (a.assumed needs) := by
      rw [List.mem_append]
      tauto
    rcases hcases with hmem | heq
    · obtain ⟨hlt, hwaits⟩ := h.requests id key' sources omitted hmem
      exact ⟨hlt.trans (Nat.lt_succ_self _),
        fun waiting hwaiting => hwaits waiting (hold id hlt waiting hwaiting)⟩
    · cases heq
      refine ⟨Nat.lt_succ_self _, fun waiting hwaiting => ?_⟩
      have hupdate : Function.update a.syncs a.next (some (a.missing needs)) a.next = some waiting :=
        hwaiting
      rw [Function.update_self] at hupdate
      exact (Option.some.inj hupdate).symm
  · obtain ⟨hlt, hwaits⟩ := h.serving load hmem
    exact ⟨hlt.trans (Nat.lt_succ_self _),
      fun waiting hwaiting => hwaits waiting (hold _ hlt waiting hwaiting)⟩
  · obtain ⟨hlt, hbrought⟩ := h.replies id ok hmem
    exact ⟨hlt.trans (Nat.lt_succ_self _),
      fun hok waiting hwaiting => hbrought hok waiting (hold id hlt waiting hwaiting)⟩

/-! ## Packets arrive -/

/-- The first packet on the wire arrives, and its sources are installed. -/
theorem Sound.consume {packet : Packet} (h : Sound a b (packet :: ab) ba) (hheld : b.held ⊆ b'.held)
    (hinstalled : b'.closed = false → ∀ name ∈ packet.envelope, name ∈ b'.held)
    (hclosed : b'.closed = false → b.closed = false)
    (hloads : ∀ load ∈ b'.loads, load ∈ b.loads ∨
      ∃ omitted, packet = .sync load.id load.key load.sources omitted)
    (hreplies : ∀ id ok, .reply id ok ∈ b'.pending → .reply id ok ∈ b.pending ∨
      (ok = false ∧ ∃ key sources omitted, packet = .sync id key sources omitted)) :
    Sound a b' ab ba := by
  have hcovered : b'.closed = false → ∀ {name : String} {wire : List Packet},
      Covered b (packet :: wire) name → Covered b' wire name := by
    rintro hopen name wire (hname | ⟨p, hmem, hname⟩)
    · exact .inl (hheld hname)
    · rcases List.mem_cons.mp hmem with rfl | hmem
      · exact .inl (hinstalled hopen name hname)
      · exact .inr ⟨p, hmem, hname⟩
  have hmem : packet ∈ a.pending ++ packet :: ab :=
    List.mem_append_right _ List.mem_cons_self
  have hsub : a.pending ++ ab ⊆ a.pending ++ packet :: ab := by
    intro p hp
    simp only [List.mem_append, List.mem_cons] at hp ⊢
    tauto
  refine ⟨?_, ?_, ?_, ?_, ?_, ?_, ?_, ?_, ?_⟩
  · exact fun hopen name hname => hcovered hopen (h.known (hclosed hopen) name hname)
  · exact fun hopen sources hsources name hname =>
      hcovered hopen (h.owed (hclosed hopen) sources hsources name hname)
  · exact fun hopen p hp name hname => hcovered hopen (h.pending (hclosed hopen) p hp name hname)
  · intro hopen before p after hsplit name hname
    have hbefore := h.wire (hclosed hopen) (packet :: before) p after (by rw [hsplit]; rfl) name hname
    exact hcovered hopen hbefore
  · exact fun p hp => h.sources p (hsub hp)
  · intro load hload name hname
    rcases hloads load hload with hload | ⟨omitted, rfl⟩
    · exact h.loads load hload name hname
    · exact h.sources _ hmem name hname
  · exact fun id key sources omitted hp => h.requests id key sources omitted (hsub hp)
  · intro load hload
    rcases hloads load hload with hload | ⟨omitted, rfl⟩
    · exact h.serving load hload
    · exact h.requests load.id load.key load.sources omitted hmem
  · intro id ok hreply
    rcases List.mem_append.mp hreply with hreply | hreply
    · rcases hreplies id ok hreply with hreply | ⟨rfl, key, sources, omitted, rfl⟩
      · obtain ⟨hlt, hbrought⟩ := h.replies id ok (List.mem_append_left _ hreply)
        exact ⟨hlt, fun hok waiting hwaiting name hname =>
          hheld (hbrought hok waiting hwaiting name hname)⟩
      · exact ⟨(h.requests id key sources omitted hmem).1, by simp⟩
    · obtain ⟨hlt, hbrought⟩ := h.replies id ok (List.mem_append_right _ hreply)
      exact ⟨hlt, fun hok waiting hwaiting name hname =>
        hheld (hbrought hok waiting hwaiting name hname)⟩

/-- What the receiver of a packet knows of its peer afterwards. -/
theorem Sound.arrive {packet : Packet} (h : Sound a b ab (packet :: ba))
    (hback : Sound b a (packet :: ba) ab) (ok : Bool) : Sound (a.arrive ok packet) b ab ba := by
  have hba : ba ⊆ packet :: ba := List.subset_cons_self _ _
  have hsources := hback.sources packet (List.mem_append_right _ List.mem_cons_self)
  have hkeep : ∀ p ∈ a.pending, ∀ name ∈ p.sources, name ∈ a.held :=
    fun p hp => h.sources p (List.mem_append_left _ hp)
  cases packet with
  | value sources omitted =>
      simp only [Peer.arrive]
      split_ifs
      · exact h.know_of_eq rfl hba
      · refine h.know Finset.subset_union_left (fun name hname => ?_) (fun _ => .inl)
          (fun p hp name hname => .inr ⟨p, hp, hname⟩)
          (fun p hp name hname => Finset.mem_union_left _ (hkeep p hp name hname))
          (fun _ _ _ _ hp => hp) le_rfl (fun _ _ hw => hw) hba
        rcases Finset.mem_union.mp hname with hname | hname
        · exact .inl hname
        · exact .inr (.inl (hsources name (List.mem_toFinset.mp hname)))
      · exact h.know_of_eq rfl hba
  | sync id key sources omitted =>
      simp only [Peer.arrive]
      split_ifs
      · exact h.know_of_eq rfl hba
      · refine h.know (Finset.Subset.refl _) (fun _ => .inl) (fun _ => .inl) ?_ ?_ ?_ le_rfl
          (fun _ _ hw => hw) hba
        · intro p hp name hname
          rcases List.mem_append.mp hp with hp | hp
          · exact .inr ⟨p, hp, hname⟩
          · rw [List.mem_singleton.mp hp] at hname
            cases hname
        · intro p hp name hname
          rcases List.mem_append.mp hp with hp | hp
          · exact hkeep p hp name hname
          · rw [List.mem_singleton.mp hp] at hname
            cases hname
        · intro id key sources omitted hp
          simpa [Peer.enqueue] using hp
  | reply id answer =>
      simp only [Peer.arrive]
      cases hwaiting : a.syncs id with
      | none =>
          exact h.know_of_eq rfl hba
      | some waiting =>
          refine h.know (Finset.Subset.refl _) (fun _ => .inl) (fun sources hmem => ?_)
            (fun p hp name hname => .inr ⟨p, hp, hname⟩) hkeep (fun _ _ _ _ hp => hp) le_rfl
            (fun id' waiting' hw => ?_) hba
          · cases answer with
            | false => exact .inl hmem
            | true =>
                rcases List.mem_append.mp hmem with hmem | hmem
                · exact .inl hmem
                · rw [List.mem_singleton.mp hmem]
                  exact .inr ((h.replies id true (List.mem_append_right _ List.mem_cons_self)).2 rfl
                    waiting hwaiting)
          · by_cases heq : id' = id
            · subst heq
              simp at hw
            · simpa [Function.update_of_ne heq] using hw

/-- A packet arrives at the endpoint that is known of, which has its sources or installs them. -/
theorem Sound.arrived {packet : Packet} (h : Sound a b (packet :: ab) ba) (ok : Bool)
    (haccepted : b.acceptCode = true ∨ ∀ name ∈ packet.envelope, name ∈ b.held) :
    Sound a (b.arrive ok packet) ab ba := by
  cases packet with
  | value sources omitted =>
      simp only [Peer.arrive]
      split_ifs with hrefused
      · refine h.consume (Finset.Subset.refl _) (fun _ => haccepted.resolve_left ?_) id
          (fun _ => .inl) (fun _ _ => .inl)
        simp [hrefused.2]
      · refine h.consume Finset.subset_union_left (fun _ name hname => ?_) id (fun _ => .inl)
          (fun _ _ => .inl)
        exact Finset.mem_union_right _ (List.mem_toFinset.mpr hname)
      · exact h.consume (Finset.Subset.refl _) nofun nofun (fun _ => .inl) (fun _ _ => .inl)
  | sync id key sources omitted =>
      simp only [Peer.arrive]
      split_ifs
      · refine h.consume (Finset.Subset.refl _) (fun _ => nofun) (fun hopen => hopen) (fun load hload => ?_)
          (fun _ _ => .inl)
        rcases List.mem_append.mp hload with hload | hload
        · exact .inl hload
        · rw [List.mem_singleton.mp hload]
          exact .inr ⟨omitted, rfl⟩
      · refine h.consume (Finset.Subset.refl _) (fun _ => nofun) (fun hopen => hopen) (fun _ => .inl)
          (fun id' ok' hreply => ?_)
        rcases List.mem_append.mp hreply with hreply | hreply
        · exact .inl hreply
        · cases List.mem_singleton.mp hreply
          exact .inr ⟨rfl, key, sources, omitted, rfl⟩
  | reply id answer =>
      simp only [Peer.arrive]
      cases b.syncs id with
      | none =>
          exact h.consume (Finset.Subset.refl _) (fun _ => nofun) (fun hopen => hopen) (fun _ => .inl)
            (fun _ _ => .inl)
      | some waiting =>
          exact h.consume (Finset.Subset.refl _) (fun _ => nofun) (fun hopen => hopen) (fun _ => .inl)
            (fun _ _ => .inl)

/-! ## Tools are loaded -/

theorem Sound.enqueue_reply (h : Sound a b ab ba) (id : ℕ) (ok : Bool) :
    Sound (a.enqueue (.reply id ok)) b ab ba := by
  refine h.know (Finset.Subset.refl _) (fun _ => .inl) (fun _ => .inl) ?_ ?_ ?_ le_rfl
    (fun _ _ hw => hw) (List.Subset.refl _)
  · intro packet hp name hname
    rcases List.mem_append.mp hp with hp | hp
    · exact .inr ⟨packet, hp, hname⟩
    · rw [List.mem_singleton.mp hp] at hname
      cases hname
  · intro packet hp name hname
    rcases List.mem_append.mp hp with hp | hp
    · exact h.sources packet (List.mem_append_left _ hp) name hname
    · rw [List.mem_singleton.mp hp] at hname
      cases hname
  · intro id key sources omitted hp
    simpa [Peer.enqueue] using hp

theorem Sound.install (h : Sound a b ab ba) {sources : List String}
    (hsources : ∀ name ∈ sources, name ∈ b.held) : Sound (a.install sources) b ab ba := by
  refine h.know Finset.subset_union_left (fun name hname => ?_) (fun _ => .inl)
    (fun p hp name hname => .inr ⟨p, hp, hname⟩) (fun p hp name hname => ?_)
    (fun _ _ _ _ hp => hp) le_rfl (fun _ _ hw => hw) (List.Subset.refl _)
  · rcases Finset.mem_union.mp hname with hname | hname
    · exact .inl hname
    · exact .inr (.inl (hsources name (List.mem_toFinset.mp hname)))
  · exact Finset.mem_union_left _ (h.sources p (List.mem_append_left _ hp) name hname)

/-- What an endpoint that loads a tool knows of its peer. -/
theorem Sound.serve (h : Sound a b ab ba) (index : ℕ) (ok : Bool) {load : Load}
    (hsources : ∀ name ∈ load.sources, name ∈ b.held) : Sound (a.serve index ok load) b ab ba := by
  have hloads : ∀ (loads : List Load) (tools : Finset String),
      Sound { a with loads := loads, tools := tools } b ab ba :=
    fun loads tools => h.know_of_eq rfl (List.Subset.refl _)
  unfold Peer.serve
  split_ifs
  · exact (hloads _ _).enqueue_reply _ _
  · exact ((hloads _ _).install hsources).enqueue_reply _ _
  · exact (hloads _ _).enqueue_reply _ _

theorem Sound.answered (h : Sound a b ab ba) {id : ℕ} {ok : Bool} (hid : id < a.next)
    (hbrought : ok = true → ∀ waiting, a.syncs id = some waiting →
      ∀ name ∈ waiting, name ∈ b.held) :
    Sound a (b.enqueue (.reply id ok)) ab ba := by
  refine ⟨h.known, h.owed, h.pending, h.wire, h.sources, h.loads, h.requests, h.serving, ?_⟩
  intro id' ok' hreply
  simp only [Peer.enqueue, List.append_assoc, List.mem_append, List.mem_singleton] at hreply
  rcases hreply with hreply | heq | hreply
  · exact h.replies id' ok' (List.mem_append_left _ hreply)
  · cases heq
    exact ⟨hid, hbrought⟩
  · exact h.replies id' ok' (List.mem_append_right _ hreply)

/-- A request that is answered with success has brought its sources. -/
theorem Sound.served (h : Sound a b ab ba) {index : ℕ} (ok : Bool) {load : Load}
    (hload : b.loads[index]? = some load)
    (htaken : load.key ∈ b.tools → ∀ name ∈ load.sources, name ∈ b.held) :
    Sound a (b.serve index ok load) ab ba := by
  obtain ⟨hid, hwaits⟩ := h.serving load (List.mem_of_getElem? hload)
  have herase : b.loads.eraseIdx index ⊆ b.loads := List.eraseIdx_subset
  have hkept : Sound a { b with loads := b.loads.eraseIdx index } ab ba :=
    h.grow (Finset.Subset.refl _) (fun hopen => hopen) herase fun _ _ hp => hp
  have hloaded : Sound a (Peer.install { b with
      loads := b.loads.eraseIdx index
      tools := insert load.key b.tools } load.sources) ab ba :=
    h.grow Finset.subset_union_left (fun hopen => hopen) herase fun _ _ hp => hp
  unfold Peer.serve
  split_ifs with hkey
  · refine hkept.answered hid fun _ waiting hwaiting => ?_
    rw [hwaits waiting hwaiting]
    exact htaken hkey
  · refine hloaded.answered hid fun _ waiting hwaiting name hname => ?_
    rw [hwaits waiting hwaiting] at hname
    exact Finset.mem_union_right _ (List.mem_toFinset.mpr hname)
  · exact hkept.answered hid nofun

/-! ## Both endpoints -/

namespace Link

/-- Each endpoint knows only what the other one has or is about to get. -/
structure Consistent (l : Link) : Prop where
  near : Sound l.near l.far l.outbound l.inbound
  far : Sound l.far l.near l.inbound l.outbound

variable {l t : Link}

theorem Consistent.swap (h : l.Consistent) : l.swap.Consistent := ⟨h.far, h.near⟩

/-- The near endpoint has everything that the next packet leaves out. -/
def AvailableNear (l : Link) : Prop :=
  ∀ packet rest, l.inbound = packet :: rest → l.near.closed = false → l.near.acceptCode = true →
    ∀ name ∈ packet.omitted, name ∈ l.near.held ∨ name ∈ packet.envelope

/-- Whatever arrives next at an endpoint that accepts code can be decoded. -/
def Available (l : Link) : Prop := l.AvailableNear ∧ l.swap.AvailableNear

/-- No envelope is refused that brings something new, and no request whose tool is loaded
already brings something new. -/
def AcceptedNear (l : Link) : Event → Prop
  | .arrive _ => ∀ packet rest, l.inbound = packet :: rest →
      l.near.acceptCode = true ∨ ∀ name ∈ packet.envelope, name ∈ l.near.held
  | .load index _ => ∀ load, l.near.loads[index]? = some load → load.key ∈ l.near.tools →
      ∀ name ∈ load.sources, name ∈ l.near.held
  | _ => True

def Accepted (l : Link) : Bool × Event → Prop
  | (true, event) => l.AcceptedNear event
  | (false, event) => l.swap.AcceptedNear event

theorem Consistent.availableNear (h : l.Consistent) : l.AvailableNear := by
  intro packet rest hinbound hopen _ name hname
  rcases h.far.wire hopen [] packet rest hinbound name hname with hheld | ⟨p, hmem, hname⟩
  · exact .inl hheld
  · rw [List.nil_append, List.mem_singleton] at hmem
    exact .inr (hmem ▸ hname)

theorem Consistent.available (h : l.Consistent) : l.Available :=
  ⟨h.availableNear, h.swap.availableNear⟩

theorem Consistent.stepNear (h : l.Consistent) {event : Event} (haccepted : l.AcceptedNear event)
    (hstep : l.stepNear event = some t) : t.Consistent := by
  have hkeep : ∀ packet ∈ l.near.pending, ∀ name ∈ packet.sources, name ∈ l.near.held :=
    fun packet hp => h.near.sources packet (List.mem_append_left _ hp)
  cases event with
  | encode needs =>
      simp only [Link.stepNear, Option.ite_none_right_eq_some] at hstep
      obtain ⟨hneeds, ⟨⟩⟩ := hstep
      refine ⟨h.near.know (Finset.Subset.refl _) (fun _ => .inl) (fun _ => .inl) ?_ ?_ ?_ le_rfl
        (fun _ _ hw => hw) (List.Subset.refl _), h.far.grow (Finset.Subset.refl _) (fun hopen => hopen)
        (List.Subset.refl _) ?_⟩
      · intro packet hp name hname
        rcases List.mem_append.mp hp with hp | hp
        · exact .inr ⟨packet, hp, hname⟩
        · rw [List.mem_singleton.mp hp] at hname
          exact .inl (mem_assumed hname)
      · intro packet hp name hname
        rcases List.mem_append.mp hp with hp | hp
        · exact hkeep packet hp name hname
        · rw [List.mem_singleton.mp hp] at hname
          exact hneeds name (mem_missing hname)
      · intro id key sources omitted hp
        simpa [Peer.enqueue] using hp
      · intro id ok hp
        simpa [Peer.enqueue] using hp
  | push index needs =>
      simp only [Link.stepNear, Option.ite_none_right_eq_some, Option.map_eq_some_iff,
        Option.bind_eq_some_iff] at hstep
      obtain ⟨hneeds, near, ⟨packet, hpacket, hpush⟩, rfl⟩ := hstep
      have hmem : packet ∈ l.near.pending := List.mem_of_getElem? hpacket
      cases packet with
      | sync id key sources omitted => cases hpush
      | reply id ok => cases hpush
      | value sources omitted =>
          cases hpush
          refine ⟨h.near.know (Finset.Subset.refl _) (fun _ => .inl) (fun _ => .inl) ?_ ?_ ?_ le_rfl
            (fun _ _ hw => hw) (List.Subset.refl _), h.far.grow (Finset.Subset.refl _)
            (fun hopen => hopen) (List.Subset.refl _) ?_⟩
          · intro packet hp name hname
            rcases List.mem_or_eq_of_mem_set hp with hp | rfl
            · exact .inr ⟨packet, hp, hname⟩
            · rcases List.mem_append.mp hname with hname | hname
              · exact .inr ⟨_, hmem, hname⟩
              · exact .inl (mem_assumed hname)
          · intro packet hp name hname
            rcases List.mem_or_eq_of_mem_set hp with hp | rfl
            · exact hkeep packet hp name hname
            · rcases List.mem_append.mp hname with hname | hname
              · exact hkeep _ hmem name hname
              · exact hneeds name (mem_missing hname)
          · intro id key sources omitted hp
            exact (List.mem_or_eq_of_mem_set hp).resolve_right (by simp)
          · intro id ok hp
            rcases List.mem_append.mp hp with hp | hp
            · exact List.mem_append_left _
                ((List.mem_or_eq_of_mem_set hp).resolve_right (by simp))
            · exact List.mem_append_right _ hp
  | sync key needs =>
      simp only [Link.stepNear, Option.ite_none_right_eq_some] at hstep
      obtain ⟨hneeds, ⟨⟩⟩ := hstep
      refine ⟨h.near.sync key hneeds, h.far.grow (Finset.Subset.refl _) (fun hopen => hopen)
        (List.Subset.refl _) fun id ok hp => ?_⟩
      simpa [Peer.sync] using hp
  | cancel id =>
      cases hstep
      refine ⟨h.near.know (Finset.Subset.refl _) (fun _ => .inl) (fun _ => .inl)
        (fun p hp name hname => .inr ⟨p, hp, hname⟩) hkeep (fun _ _ _ _ hp => hp) le_rfl ?_
        (List.Subset.refl _), h.far.grow (Finset.Subset.refl _) (fun hopen => hopen)
        (List.Subset.refl _) fun _ _ hp => hp⟩
      intro id' waiting hw
      by_cases heq : id' = id
      · subst heq
        simp at hw
      · simpa [Function.update_of_ne heq] using hw
  | write index =>
      obtain ⟨packet, hpacket, rfl⟩ := Option.map_eq_some_iff.mp hstep
      refine ⟨h.near.write hpacket, h.far.grow (Finset.Subset.refl _) (fun hopen => hopen)
        (List.Subset.refl _) fun id ok hp => ?_⟩
      have hmem : packet ∈ l.near.pending := List.mem_of_getElem? hpacket
      simp only [List.mem_append, List.mem_singleton] at hp ⊢
      rcases hp with hp | hp | rfl
      · exact .inl (List.eraseIdx_subset hp)
      · exact .inr hp
      · exact .inl hmem
  | learn index =>
      obtain ⟨sources, hsources, rfl⟩ := Option.map_eq_some_iff.mp hstep
      refine ⟨h.near.know (Finset.Subset.refl _) (fun name hname => ?_)
        (fun _ hmem => .inl (List.eraseIdx_subset hmem)) (fun p hp name hname => .inr ⟨p, hp, hname⟩)
        hkeep (fun _ _ _ _ hp => hp) le_rfl (fun _ _ hw => hw) (List.Subset.refl _),
        h.far.grow (Finset.Subset.refl _) (fun hopen => hopen) (List.Subset.refl _) fun _ _ hp => hp⟩
      rcases Finset.mem_union.mp hname with hname | hname
      · exact .inl hname
      · exact .inr (.inr ⟨sources, List.mem_of_getElem? hsources, List.mem_toFinset.mp hname⟩)
  | arrive ok =>
      simp only [Link.stepNear] at hstep
      cases hinbound : l.inbound with
      | nil =>
          rw [hinbound] at hstep
          cases hstep
      | cons packet rest =>
          rw [hinbound] at hstep
          simp only [Option.ite_none_left_eq_some] at hstep
          obtain ⟨-, ⟨⟩⟩ := hstep
          have hnear := h.near
          have hfar := h.far
          rw [hinbound] at hnear hfar
          exact ⟨hnear.arrive hfar ok, hfar.arrived ok (haccepted packet rest hinbound)⟩
  | load index ok =>
      obtain ⟨load, hload, rfl⟩ := Option.map_eq_some_iff.mp hstep
      refine ⟨h.near.serve index ok ?_, h.far.served ok hload (haccepted load hload)⟩
      exact h.far.loads load (List.mem_of_getElem? hload)
  | imports name =>
      cases hstep
      refine ⟨h.near.know (Finset.subset_insert _ _) (fun _ => .inl) (fun _ => .inl)
        (fun p hp name hname => .inr ⟨p, hp, hname⟩)
        (fun p hp name hname => Finset.mem_insert_of_mem (hkeep p hp name hname))
        (fun _ _ _ _ hp => hp) le_rfl (fun _ _ hw => hw) (List.Subset.refl _),
        h.far.grow (Finset.subset_insert _ _) (fun hopen => hopen) (List.Subset.refl _)
          fun _ _ hp => hp⟩
  | setAcceptCode value =>
      cases hstep
      exact ⟨h.near.know_of_eq rfl (List.Subset.refl _),
        h.far.grow (Finset.Subset.refl _) (fun hopen => hopen) (List.Subset.refl _) fun _ _ hp => hp⟩

theorem Consistent.step (h : l.Consistent) {event : Bool × Event} (haccepted : l.Accepted event)
    (hstep : l.step event = some t) : t.Consistent := by
  obtain ⟨side, event⟩ := event
  cases side with
  | true => exact h.stepNear haccepted hstep
  | false =>
      obtain ⟨u, hu, rfl⟩ := Option.map_eq_some_iff.mp hstep
      exact (h.swap.stepNear haccepted hu).swap

theorem consistent_new (near far : Finset String) (nearAccepts farAccepts : Bool) :
    (new near far nearAccepts farAccepts).Consistent := by
  constructor <;>
    exact ⟨fun _ => by simp [new, Peer.new], fun _ => nofun, fun _ => nofun, fun _ => by simp [new],
      nofun, nofun, nofun, nofun, nofun⟩

/-- In every run in which no envelope with something new is refused, and no request for a tool
that is loaded already brings something new, every packet that arrives at an endpoint that
accepts code leaves out only modules that the process of that endpoint has. -/
theorem omitted_available (near far : Finset String) (nearAccepts farAccepts : Bool)
    {events : List (Bool × Event)} {l : Link}
    (hrun : Machine.run step (new near far nearAccepts farAccepts) events = some l)
    (haccepted : Machine.meets step Accepted (new near far nearAccepts farAccepts) events) :
    l.Available :=
  (Machine.run_invariant Consistent (fun _ _ _ h haccepted hstep => h.step haccepted hstep) hrun
    haccepted (consistent_new near far nearAccepts farAccepts)).available

/-- A value and its module, and then the same value again. -/
def twice : List (Bool × Event) :=
  [(true, .encode ["pkg"]), (true, .write 0), (true, .learn 0), (false, .arrive true),
    (true, .encode ["pkg"]), (true, .write 0)]

theorem twice_available :
    ∃ l, Machine.run step (new {"pkg"} ∅ false true) twice = some l ∧
      l.outbound.map Packet.omitted = [["pkg"]] ∧ l.Available := by
  obtain ⟨l, hrun⟩ : ∃ l, Machine.run step (new {"pkg"} ∅ false true) twice = some l := ⟨_, rfl⟩
  have haccepted : Machine.meets step Accepted (new {"pkg"} ∅ false true) twice := by
    refine ⟨trivial, fun l hl => ⟨trivial, fun l₁ hl₁ => ⟨trivial, fun l₂ hl₂ => ⟨?_, ?_⟩⟩⟩⟩
    · cases hl
      cases hl₁
      cases hl₂
      exact fun _ _ _ => .inl rfl
    · exact fun _ _ => ⟨trivial, fun _ _ => ⟨trivial, fun _ _ => trivial⟩⟩
  refine ⟨l, hrun, ?_, omitted_available _ _ _ _ hrun haccepted⟩
  cases hrun
  rfl

/-- A value and its module, which the peer refuses; then the peer accepts code, and the value
comes again. -/
def refusedFirst : List (Bool × Event) :=
  [(true, .encode ["pkg"]), (true, .write 0), (true, .learn 0), (false, .arrive true),
    (false, .setAcceptCode true), (true, .encode ["pkg"]), (true, .write 0)]

/-- The second packet leaves out a module that was never installed. -/
theorem refusedFirst_not_available :
    ∃ l, Machine.run step (new {"pkg"} ∅ false false) refusedFirst = some l ∧ ¬ l.Available := by
  obtain ⟨l, hrun⟩ : ∃ l, Machine.run step (new {"pkg"} ∅ false false) refusedFirst = some l :=
    ⟨_, rfl⟩
  refine ⟨l, hrun, fun havailable => ?_⟩
  cases hrun
  have hname := havailable.2 (.value [] ["pkg"]) [] rfl rfl rfl "pkg" (by decide)
  exact absurd hname (by decide)

end Link

end Modules

end Rmote
