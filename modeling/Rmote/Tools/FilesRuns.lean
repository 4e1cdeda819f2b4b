import Rmote.Library.Counting
import Rmote.Tools.Files

/-!
# Runs of file sessions

The invariant has four parts: who has a lock, what a session keeps, what a call may rely on
while it has the lock, and which sessions the registry names. The descriptors follow the
ownership rules: the handles and the calls hold exactly what the process has open.
-/

namespace Rmote

namespace Files

open Ownership Counting

/-- Everything that a handle or a call holds. -/
def held (s : Files) : List Descriptor :=
  s.sessions.flatMap FileSession.resources ++ s.calls.flatMap fun c => c.phase.held

/-- What a session keeps. -/
structure FileSession.Kept (session : FileSession) : Prop where
  limit : session.handles.length ≤ maxHandles
  keys : (session.handles.map Prod.fst).Nodup
  emptied : session.closed = true → session.handles = []

/-- What a call that has the lock relies on. -/
def Call.Fits (c : Call) (session : FileSession) : Prop :=
  match c.phase with
  | .wants | .ended => True
  | .inside => session.closed = false ∧ c.op ≠ .release
  | .opened _ =>
      session.closed = false ∧ c.op ≠ .release ∧ session.handles.length < maxHandles
  | .using fd => c.op ≠ .release ∧ fd ∈ session.resources
  | .closing _ => c.op = .release → session.closed = true

/-- A lock is had by one call, and a call works only with the lock of its session. -/
structure Locked (sessions : List FileSession) (calls : List Call) : Prop where
  known : ∀ (i : ℕ) c, calls[i]? = some c → ∃ session, sessions[c.session]? = some session ∧
    (c.phase.locked = true → session.lock = some i ∧ c.Fits session)
  had : ∀ (o : ℕ) session i, sessions[o]? = some session → session.lock = some i →
    ∃ c : Call, calls[i]? = some c ∧ c.session = o ∧ c.phase.locked = true

/-- The registry names the sessions that are open, less those that a `release` waits for. -/
structure Registered (registry : List (String × ℕ)) (sessions : List FileSession)
    (calls : List Call) : Prop where
  ids : (registry.map Prod.fst).Nodup
  nodup : (registry.map Prod.snd).Nodup
  opened : ∀ o ∈ registry.map Prod.snd, ∃ session, sessions[o]? = some session ∧
    session.closed = false
  leaving : ∀ (i : ℕ) c, calls[i]? = some c → c.op = .release → c.session ∉ registry.map Prod.snd
  waiting : ∀ (o : ℕ) session, sessions[o]? = some session → session.closed = false →
    o ∈ registry.map Prod.snd ∨
      ∃ (i : ℕ) (c : Call), calls[i]? = some c ∧ c.session = o ∧ c.op = .release ∧
        c.phase = .wants

/-- What holds in every state. -/
structure Sound (s : Files) : Prop where
  held : Held s.table s.held
  kept : ∀ session ∈ s.sessions, session.Kept
  locked : Locked s.sessions s.calls
  registered : Registered s.registry s.sessions s.calls
  touched : ∀ e ∈ s.touched, e.2 = some e.1.2

variable {s s' : Files} {i : ℕ} {c c' : Call} {session session' : FileSession}

theorem sound_init : init.Sound where
  held := held_nil
  kept _ h := absurd h List.not_mem_nil
  locked := ⟨fun _ _ h => (by simp [init] at h), fun _ _ _ h => (by simp [init] at h)⟩
  registered := ⟨List.nodup_nil, List.nodup_nil, fun _ h => absurd h List.not_mem_nil,
    fun _ _ h => (by simp [init] at h), fun _ _ h => (by simp [init] at h)⟩
  touched _ h := absurd h List.not_mem_nil

theorem withCall_eq_some {next : Call → FileSession → Option Files} :
    s.withCall i next = some s' ↔
      ∃ c session, s.calls[i]? = some c ∧ s.sessions[c.session]? = some session ∧
        next c session = some s' := by
  simp only [withCall, Option.bind_eq_some_iff]
  constructor
  · rintro ⟨c, hc, session, hs, hnext⟩
    exact ⟨c, session, hc, hs, hnext⟩
  · rintro ⟨c, session, hc, hs, hnext⟩
    exact ⟨c, hc, session, hs, hnext⟩

/-- How a call that has the lock, or takes the free one, goes on with its session. -/
structure Turns (i : ℕ) (c : Call) (session : FileSession) (c' : Call) (session' : FileSession) :
    Prop where
  same : c'.session = c.session
  op : c'.op = c.op
  free : c.phase.locked = true ∨ session.lock = none
  lock : session'.lock = if c'.phase.locked then some i else none
  fits : c'.phase.locked = true → c'.Fits session'
  closed : session'.closed = (session.closed || c.op = .release)
  wants : c'.phase ≠ .wants
  kept : session'.Kept

theorem Locked.turn (h : Locked s.sessions s.calls) (hc : s.calls[i]? = some c)
    (hs : s.sessions[c.session]? = some session) (hturns : Turns i c session c' session') :
    Locked (s.turn i c' session').sessions (s.turn i c' session').calls := by
  have hi := (List.getElem?_eq_some_iff.mp hc).1
  have ho := (List.getElem?_eq_some_iff.mp hs).1
  have hown : session.lock = none ∨ session.lock = some i := by
    rcases hturns.free with hlocked | hfree
    · obtain ⟨session₁, hs₁, hlock⟩ := h.known i c hc
      rw [hs] at hs₁
      cases hs₁
      exact .inr (hlock hlocked).1
    · exact .inl hfree
  simp only [Files.turn, hturns.same]
  refine ⟨fun j d hd => ?_, fun o session₁ j hs₁ hlock => ?_⟩
  · rcases getElem?_set_cases hd with ⟨rfl, rfl⟩ | ⟨hj, hd⟩
    · refine ⟨session', ?_, fun hlocked => ⟨by rw [hturns.lock, if_pos hlocked], ?_⟩⟩
      · rw [hturns.same]
        exact List.getElem?_set_self ho
      · exact hturns.fits hlocked
    · obtain ⟨session₁, hs₁, hlock⟩ := h.known j d hd
      by_cases hsame : d.session = c.session
      · rw [hsame]
        refine ⟨session', List.getElem?_set_self ho, fun hlocked => ?_⟩
        rw [hsame, hs] at hs₁
        cases hs₁
        rw [(hlock hlocked).1] at hown
        rcases hown with hown | hown
        · cases hown
        · exact absurd (Option.some.inj hown) hj
      · exact ⟨session₁, by rw [List.getElem?_set_ne (Ne.symm hsame)]; exact hs₁, hlock⟩
  · rcases getElem?_set_cases hs₁ with ⟨rfl, rfl⟩ | ⟨ho', hs₁⟩
    · rw [hturns.lock] at hlock
      split_ifs at hlock with hlocked
      cases hlock
      exact ⟨c', List.getElem?_set_self hi, hturns.same, hlocked⟩
    · obtain ⟨d, hd, rfl, hlocked⟩ := h.had o session₁ j hs₁ hlock
      have hj : j ≠ i := by
        rintro rfl
        rw [hc] at hd
        cases hd
        exact ho' rfl
      exact ⟨d, by rw [List.getElem?_set_ne (Ne.symm hj)]; exact hd, rfl, hlocked⟩

theorem Registered.turn (h : Registered s.registry s.sessions s.calls)
    (hc : s.calls[i]? = some c) (hs : s.sessions[c.session]? = some session)
    (hturns : Turns i c session c' session') :
    Registered s.registry (s.turn i c' session').sessions (s.turn i c' session').calls := by
  have hi := (List.getElem?_eq_some_iff.mp hc).1
  have ho := (List.getElem?_eq_some_iff.mp hs).1
  simp only [Files.turn, hturns.same]
  refine ⟨h.ids, h.nodup, fun o hmem => ?_, fun j d hd hop => ?_, fun o session₁ hs₁ hopen => ?_⟩
  · obtain ⟨session₁, hs₁, hopen⟩ := h.opened o hmem
    by_cases hsame : o = c.session
    · subst hsame
      rw [hs] at hs₁
      cases hs₁
      refine ⟨session', List.getElem?_set_self ho, ?_⟩
      rw [hturns.closed, hopen]
      have hop : c.op ≠ .release := fun hop => h.leaving i c hc hop hmem
      simpa using hop
    · exact ⟨session₁, by rw [List.getElem?_set_ne (Ne.symm hsame)]; exact hs₁, hopen⟩
  · rcases getElem?_set_cases hd with ⟨rfl, rfl⟩ | ⟨-, hd⟩
    · rw [hturns.same]
      exact h.leaving j c hc (hturns.op ▸ hop)
    · exact h.leaving j d hd hop
  · have hopen₁ : ∃ session₂, s.sessions[o]? = some session₂ ∧ session₂.closed = false ∧
        (o = c.session → c.op ≠ .release) := by
      rcases getElem?_set_cases hs₁ with ⟨rfl, rfl⟩ | ⟨hne, hs₁⟩
      · rw [hturns.closed] at hopen
        simp only [Bool.or_eq_false_iff, decide_eq_false_iff_not] at hopen
        exact ⟨session, hs, hopen.1, fun _ => hopen.2⟩
      · exact ⟨session₁, hs₁, hopen, fun heq => absurd heq hne⟩
    obtain ⟨session₂, hs₂, hopen₂, hop⟩ := hopen₁
    rcases h.waiting o session₂ hs₂ hopen₂ with hmem | ⟨j, d, hd, hsame, hrelease, hwants⟩
    · exact .inl hmem
    · have hj : j ≠ i := by
        rintro rfl
        rw [hc] at hd
        cases hd
        exact hop hsame.symm hrelease
      exact .inr ⟨j, d, by rw [List.getElem?_set_ne (Ne.symm hj)]; exact hd, hsame, hrelease,
        hwants⟩

/-- What a turn moves between the session, the call and the kernel. -/
theorem held_turn (session' : FileSession) (hc : s.calls[i]? = some c)
    (hs : s.sessions[c.session]? = some session)
    (hsame : c'.session = c.session) :
    ∃ rest, s.held.Perm (session.resources ++ c.phase.held ++ rest) ∧
      (s.turn i c' session').held.Perm (session'.resources ++ c'.phase.held ++ rest) := by
  obtain ⟨others, hsessions, hsessions'⟩ := exists_rest FileSession.resources hs
  obtain ⟨idle, hcalls, hcalls'⟩ := exists_rest (fun c : Call => c.phase.held) hc
  have hmove : ∀ a b : List Descriptor,
      (a ++ others ++ (b ++ idle)).Perm (a ++ b ++ (others ++ idle)) := by
    intro a b
    rw [List.append_assoc, List.append_assoc]
    exact (List.perm_append_comm_assoc others b idle).append_left a
  refine ⟨others ++ idle, ?_, ?_⟩
  · exact (hsessions.append hcalls).trans (hmove _ _)
  · simp only [held, Files.turn, hsame]
    exact ((hsessions' session').append (hcalls' c')).trans (hmove _ _)

/-- One call goes on, and the kernel with it. -/
theorem Sound.turn (h : s.Sound) (table : ℕ → Option ℕ) (opens : ℕ)
    (touched : List (Descriptor × Option ℕ)) (hc : s.calls[i]? = some c)
    (hs : s.sessions[c.session]? = some session) (hturns : Turns i c session c' session')
    (htable : ∀ rest, Held s.table (session.resources ++ c.phase.held ++ rest) →
      Held table (session'.resources ++ c'.phase.held ++ rest))
    (htouched : ∀ e ∈ touched, e ∈ s.touched ∨ e.2 = some e.1.2) :
    ({ s with table := table, opens := opens, touched := touched }.turn i c' session').Sound := by
  obtain ⟨rest, hbefore, hafter⟩ := held_turn session' hc hs hturns.same
  refine ⟨?_, fun session₁ hmem => ?_, h.locked.turn hc hs hturns, h.registered.turn hc hs hturns,
    fun e he => ?_⟩
  · exact (htable rest (h.held.perm hbefore)).perm hafter.symm
  · rcases List.mem_or_eq_of_mem_set hmem with hmem | rfl
    · exact h.kept session₁ hmem
    · exact hturns.kept
  · rcases htouched e he with he | he
    · exact h.touched e he
    · exact he

theorem Sound.fits (h : s.Sound) (hc : s.calls[i]? = some c)
    (hs : s.sessions[c.session]? = some session) (hlocked : c.phase.locked = true) :
    session.lock = some i ∧ c.Fits session := by
  obtain ⟨session₁, hs₁, hlock⟩ := h.locked.known i c hc
  rw [hs] at hs₁
  cases hs₁
  exact hlock hlocked

theorem Turns.finish (hfree : c.phase.locked = true ∨ session.lock = none)
    (hclosed : c.op = .release → session.closed = true) {handles : List (Bytes × Handle)}
    (hkept : FileSession.Kept ⟨handles, none, session.closed⟩) :
    Turns i c session { c with phase := .ended } ⟨handles, none, session.closed⟩ where
  same := rfl
  op := rfl
  free := hfree
  lock := rfl
  fits := by rintro ⟨⟩
  closed := by
    by_cases hop : c.op = .release
    · simp [hclosed hop]
    · simp [hop]
  wants := by rintro ⟨⟩
  kept := hkept

/-- A call that works on the handles has its session open or does not touch them. -/
theorem Turns.work (hlocked : c.phase.locked = true) {phase : Phase} (hphase : phase.locked = true)
    (hop : c.op = .release → session.closed = true) {session' : FileSession}
    (hlock : session'.lock = some i) (hclosed : session'.closed = session.closed)
    (hfits : Call.Fits { c with phase := phase } session') (hkept : session'.Kept) :
    Turns i c session { c with phase := phase } session' where
  same := rfl
  op := rfl
  free := .inl hlocked
  lock := by rw [if_pos (by exact hphase), hlock]
  fits _ := hfits
  closed := by
    rw [hclosed]
    by_cases hop' : c.op = .release
    · simp [hop hop']
    · simp [hop']
  wants := by
    rintro rfl
    cases hphase
  kept := hkept

theorem FileSession.Kept.unlock (h : session.Kept) :
    FileSession.Kept ⟨session.handles, none, session.closed⟩ :=
  ⟨h.limit, h.keys, h.emptied⟩

/-- The call returns or raises, with the handles as they are. -/
theorem Sound.finish (h : s.Sound) (hc : s.calls[i]? = some c)
    (hs : s.sessions[c.session]? = some session)
    (hfree : c.phase.locked = true ∨ session.lock = none)
    (hclosed : c.op = .release → session.closed = true) (hheld : c.phase.held = []) :
    (s.finish i c session).Sound := by
  have hkept := (h.kept session (List.mem_of_getElem? hs)).unlock
  refine h.turn s.table s.opens s.touched hc hs
    (Turns.finish hfree hclosed hkept) (fun rest htable => ?_) (fun e he => .inl he)
  rw [hheld] at htable
  exact htable

theorem Sound.start (h : s.Sound) {id : String} (hid : id ∉ s.registry.map Prod.fst) :
    Sound { s with
      registry := s.registry ++ [(id, s.sessions.length)]
      sessions := s.sessions ++ [.new] } where
  held := by
    have hheld : (s.sessions ++ [FileSession.new]).flatMap FileSession.resources =
        s.sessions.flatMap FileSession.resources := by
      simp [FileSession.new, FileSession.resources]
    refine h.held.perm ?_
    simp only [Files.held, hheld]
    exact .refl _
  kept session hmem := by
    rcases List.mem_append.mp hmem with hmem | hmem
    · exact h.kept session hmem
    · rw [List.mem_singleton.mp hmem]
      exact ⟨Nat.zero_le _, List.nodup_nil, fun _ => rfl⟩
  locked := by
    refine ⟨fun i c hc => ?_, fun o session i hs hlock => ?_⟩
    · obtain ⟨session, hs, hlock⟩ := h.locked.known i c hc
      exact ⟨session, getElem?_snoc hs _, hlock⟩
    · rcases getElem?_snoc_cases hs with hs | ⟨-, rfl⟩
      · exact h.locked.had o session i hs hlock
      · cases hlock
  registered := by
    have hlt : ∀ o ∈ s.registry.map Prod.snd, o < s.sessions.length := fun o hmem => by
      obtain ⟨session, hs, -⟩ := h.registered.opened o hmem
      exact (List.getElem?_eq_some_iff.mp hs).1
    have hsnd : (s.registry ++ [(id, s.sessions.length)]).map Prod.snd =
        s.registry.map Prod.snd ++ [s.sessions.length] := List.map_append ..
    refine ⟨?_, ?_, fun o hmem => ?_, fun i c hc hop hmem => ?_, fun o session hs hopen => ?_⟩
    · rw [List.map_append, List.nodup_append]
      refine ⟨h.registered.ids, List.nodup_singleton _, ?_⟩
      rintro id' hmem _ hlast rfl
      rw [List.mem_singleton.mp hlast] at hmem
      exact hid hmem
    · rw [hsnd]
      refine List.nodup_append.mpr ⟨h.registered.nodup, List.nodup_singleton _, ?_⟩
      rintro o hmem _ hlast rfl
      exact Nat.lt_irrefl _ (List.mem_singleton.mp hlast ▸ hlt o hmem)
    · rw [hsnd] at hmem
      rcases List.mem_append.mp hmem with hmem | hmem
      · obtain ⟨session, hs, hopen⟩ := h.registered.opened o hmem
        exact ⟨session, getElem?_snoc hs _, hopen⟩
      · rw [List.mem_singleton.mp hmem]
        exact ⟨.new, List.getElem?_concat_length .., rfl⟩
    · rw [hsnd] at hmem
      rcases List.mem_append.mp hmem with hmem | hmem
      · exact h.registered.leaving i c hc hop hmem
      · obtain ⟨session, hs, -⟩ := h.locked.known i c hc
        have := (List.getElem?_eq_some_iff.mp hs).1
        rw [List.mem_singleton.mp hmem] at this
        exact Nat.lt_irrefl _ this
    · rw [hsnd]
      rcases getElem?_snoc_cases hs with hs | ⟨rfl, -⟩
      · exact (h.registered.waiting o session hs hopen).imp_left (List.mem_append_left _)
      · exact .inl (List.mem_append_right _ List.mem_cons_self)
  touched := h.touched

/-- A call looks its session up; a `release` takes it out of the registry. -/
theorem Sound.call (h : s.Sound) {id : String} {o : ℕ} (hid : s.registry.lookup id = some o)
    (op : Operation) :
    Sound { s with
      registry := if op = .release then Assoc.del id s.registry else s.registry
      calls := s.calls ++ [⟨o, op, .wants⟩] } where
  held := by
    have hheld : (s.calls ++ [Call.mk o op .wants]).flatMap (fun c => c.phase.held) =
        s.calls.flatMap fun c => c.phase.held := by
      simp [Phase.held]
    refine h.held.perm ?_
    simp only [Files.held, hheld]
    exact .refl _
  kept := h.kept
  locked := by
    have hmem : o ∈ s.registry.map Prod.snd := List.mem_map_of_mem (Assoc.mem_of_lookup hid)
    refine ⟨fun i c hc => ?_, fun o' session i hs hlock => ?_⟩
    · rcases getElem?_snoc_cases hc with hc | ⟨-, rfl⟩
      · exact h.locked.known i c hc
      · obtain ⟨session, hs, -⟩ := h.registered.opened o hmem
        exact ⟨session, hs, by rintro ⟨⟩⟩
    · obtain ⟨c, hc, hsame, hlocked⟩ := h.locked.had o' session i hs hlock
      exact ⟨c, getElem?_snoc hc _, hsame, hlocked⟩
  registered := by
    have hentry := Assoc.mem_of_lookup hid
    have hsub : ∀ o', o' ∈ (if op = .release then Assoc.del id s.registry
        else s.registry).map Prod.snd → o' ∈ s.registry.map Prod.snd := by
      intro o' hmem
      split_ifs at hmem
      · exact (List.filter_sublist.map Prod.snd).subset hmem
      · exact hmem
    refine ⟨?_, ?_, fun o' hmem => h.registered.opened o' (hsub o' hmem),
      fun i c hc hop hmem => ?_, fun o' session hs hopen => ?_⟩
    · split_ifs
      · exact Assoc.nodup_del h.registered.ids
      · exact h.registered.ids
    · split_ifs
      · exact (List.filter_sublist.map Prod.snd).nodup h.registered.nodup
      · exact h.registered.nodup
    · rcases getElem?_snoc_cases hc with hc | ⟨-, rfl⟩
      · exact h.registered.leaving i c hc hop (hsub _ hmem)
      · rw [if_pos hop] at hmem
        obtain ⟨⟨id', o'⟩, hdel, heq⟩ := List.mem_map.mp hmem
        obtain ⟨hentry', hid'⟩ := List.mem_filter.mp hdel
        have hsame := List.inj_on_of_nodup_map h.registered.nodup hentry' hentry heq
        exact of_decide_eq_true hid' (congrArg Prod.fst hsame)
    · rcases h.registered.waiting o' session hs hopen with hmem | ⟨i, c, hc, hrest⟩
      · split_ifs with hop
        · by_cases hsame : o' = o
          · exact .inr ⟨s.calls.length, ⟨o, op, .wants⟩, List.getElem?_concat_length .., hsame.symm,
              hop, rfl⟩
          · obtain ⟨⟨id', o''⟩, hentry', rfl⟩ := List.mem_map.mp hmem
            refine .inl (List.mem_map_of_mem (List.mem_filter.mpr ⟨hentry', ?_⟩))
            refine decide_eq_true fun hid' => hsame ?_
            have hlookup := Assoc.lookup_of_mem h.registered.ids hentry'
            rw [show id' = id from hid', hid] at hlookup
            exact (Option.some.inj hlookup).symm
        · exact .inl hmem
      · exact .inr ⟨i, c, getElem?_snoc hc _, hrest⟩
  touched := h.touched

/-- `release` gets the lock and takes everything that the session has. -/
theorem Sound.acquire_release (h : s.Sound) (hc : s.calls[i]? = some c)
    (hs : s.sessions[c.session]? = some session) (hwants : c.phase = .wants)
    (hfree : session.lock = none) (hop : c.op = .release) :
    (s.turn i { c with phase := .closing session.resources } ⟨[], some i, true⟩).Sound := by
  have hturns : Turns i c session { c with phase := .closing session.resources }
      ⟨[], some i, true⟩ :=
    ⟨rfl, rfl, .inr hfree, rfl, fun _ _ => rfl, by simp [hop], by rintro ⟨⟩,
      ⟨Nat.zero_le _, List.nodup_nil, fun _ => rfl⟩⟩
  refine h.turn s.table s.opens s.touched hc hs hturns
    (fun rest htable => ?_) (fun e he => .inl he)
  simpa [hwants, Phase.held, FileSession.resources] using htable

/-- Any other call gets the lock of an open session. -/
theorem Sound.acquire (h : s.Sound) (hc : s.calls[i]? = some c)
    (hs : s.sessions[c.session]? = some session) (hwants : c.phase = .wants)
    (hfree : session.lock = none) (hop : c.op ≠ .release) (hopen : session.closed = false) :
    (s.turn i { c with phase := .inside } { session with lock := some i }).Sound := by
  have hkept := h.kept session (List.mem_of_getElem? hs)
  have hturns : Turns i c session { c with phase := .inside } { session with lock := some i } :=
    ⟨rfl, rfl, .inr hfree, rfl, fun _ => ⟨hopen, hop⟩, by simp [hop], by rintro ⟨⟩,
      ⟨hkept.limit, hkept.keys, hkept.emptied⟩⟩
  refine h.turn s.table s.opens s.touched hc hs hturns
    (fun rest htable => ?_) (fun e he => .inl he)
  rw [hwants] at htable
  exact htable

/-- The kernel opens a file for a call. -/
theorem Sound.openFile (h : s.Sound) (hc : s.calls[i]? = some c)
    (hs : s.sessions[c.session]? = some session) (hinside : c.phase = .inside)
    (hroom : session.handles.length < maxHandles) {n : ℕ} (hn : s.table n = none) :
    ((s.opening n).turn i { c with phase := .opened (n, s.opens + 1) } session).Sound := by
  have hlocked : c.phase.locked = true := by rw [hinside]; rfl
  obtain ⟨hlock, hfits⟩ := h.fits hc hs hlocked
  rw [Call.Fits, hinside] at hfits
  have hturns : Turns i c session { c with phase := .opened (n, s.opens + 1) } session :=
    .work hlocked rfl (fun hop => absurd hop hfits.2) hlock rfl
      ⟨hfits.1, hfits.2, hroom⟩ (h.kept session (List.mem_of_getElem? hs))
  refine h.turn _ _ s.touched hc hs hturns (fun rest htable => ?_) (fun e he => .inl he)
  refine (htable.acquire hn (s.opens + 1)).perm ?_
  rw [hinside]
  simpa [Phase.held] using List.perm_middle.symm

/-- A new handle goes to the session. -/
theorem FileSession.Kept.add (h : session.Kept) (hroom : session.handles.length < maxHandles)
    (hopen : session.closed = false) {key : Bytes} (hkey : key ∉ session.handles.map Prod.fst)
    (handle : Handle) :
    FileSession.Kept ⟨session.handles ++ [(key, handle)], none, session.closed⟩ where
  limit := by
    rw [List.length_append, List.length_singleton]
    exact hroom
  keys := by
    rw [List.map_append, List.nodup_append]
    refine ⟨h.keys, List.nodup_singleton _, ?_⟩
    rintro key' hmem _ hlast rfl
    rw [List.mem_singleton.mp hlast] at hmem
    exact hkey hmem
  emptied hclosed := by
    rw [hopen] at hclosed
    cases hclosed

theorem Sound.enter (h : s.Sound) (hc : s.calls[i]? = some c)
    (hs : s.sessions[c.session]? = some session) {fd : Descriptor}
    (hopened : c.phase = .opened fd) {key : Bytes} (hkey : key ∉ session.handles.map Prod.fst)
    {handle : Handle} {table : ℕ → Option ℕ} {opens : ℕ}
    (htable : ∀ rest, Held s.table (fd :: rest) → Held table (handle.resources ++ rest)) :
    ({ s with table := table, opens := opens }.finish i c
      { session with handles := session.handles ++ [(key, handle)] }).Sound := by
  have hlocked : c.phase.locked = true := by rw [hopened]; rfl
  have hfits := (h.fits hc hs hlocked).2
  rw [Call.Fits, hopened] at hfits
  refine h.turn _ _ s.touched hc hs
    (Turns.finish (.inl hlocked) (fun hop => absurd hop hfits.2.1)
      ((h.kept session (List.mem_of_getElem? hs)).add hfits.2.2 hfits.1 hkey handle))
    (fun rest hheld => ?_) (fun e he => .inl he)
  rw [hopened] at hheld
  have hmove : (session.resources ++ Phase.held (.opened fd) ++ rest).Perm
      (fd :: (session.resources ++ rest)) := by
    simp [Phase.held]
  refine (htable _ (hheld.perm hmove)).perm ?_
  simp only [FileSession.resources, List.flatMap_append, List.flatMap_singleton, Phase.held,
    List.append_nil]
  rw [List.append_assoc]
  exact List.perm_append_comm_assoc ..

/-- A file of the wrong kind is closed again. -/
theorem Sound.reject (h : s.Sound) (hc : s.calls[i]? = some c)
    (hs : s.sessions[c.session]? = some session) {fd : Descriptor}
    (hopened : c.phase = .opened fd) :
    (s.turn i { c with phase := .closing [fd] } session).Sound := by
  have hlocked : c.phase.locked = true := by rw [hopened]; rfl
  obtain ⟨hlock, hfits⟩ := h.fits hc hs hlocked
  rw [Call.Fits, hopened] at hfits
  have hturns : Turns i c session { c with phase := .closing [fd] } session :=
    .work hlocked rfl (fun hop => absurd hop hfits.2.1) hlock rfl
      (fun hop => absurd hop hfits.2.1) (h.kept session (List.mem_of_getElem? hs))
  refine h.turn s.table s.opens s.touched hc hs hturns
    (fun rest htable => ?_) (fun e he => .inl he)
  rw [hopened] at htable
  exact htable

/-- `close` takes the handle out of its session. -/
theorem Sound.find_close (h : s.Sound) (hc : s.calls[i]? = some c)
    (hs : s.sessions[c.session]? = some session) (hinside : c.phase = .inside) {key : Bytes}
    {handle : Handle} (hlookup : Assoc.get session.handles key = some handle) :
    (s.turn i { c with phase := .closing handle.resources }
      { session with handles := Assoc.del key session.handles }).Sound := by
  have hlocked : c.phase.locked = true := by rw [hinside]; rfl
  have hkept := h.kept session (List.mem_of_getElem? hs)
  obtain ⟨hlock, hfits⟩ := h.fits hc hs hlocked
  rw [Call.Fits, hinside] at hfits
  have hperm := Assoc.perm_cons_del hkept.keys (Assoc.mem_of_lookup hlookup)
  have hkept' : FileSession.Kept { session with handles := Assoc.del key session.handles } := by
    refine ⟨Nat.le_trans (List.length_filter_le _ _) hkept.limit, Assoc.nodup_del hkept.keys,
      fun hclosed => ?_⟩
    rw [hkept.emptied hclosed] at hlookup
    cases hlookup
  have hturns : Turns i c session { c with phase := .closing handle.resources }
      { session with handles := Assoc.del key session.handles } :=
    .work hlocked rfl (fun hop => absurd hop hfits.2) hlock rfl
      (fun hop => absurd hop hfits.2) hkept'
  refine h.turn s.table s.opens s.touched hc hs hturns
    (fun rest htable => ?_) (fun e he => .inl he)
  rw [hinside] at htable
  refine htable.perm (List.Perm.append_right rest ?_)
  have hall : session.resources.Perm
      (handle.resources ++ (Assoc.del key session.handles).flatMap fun e => e.2.resources) :=
    hperm.flatMap_right _
  rw [show Phase.held .inside = [] from rfl, List.append_nil]
  exact hall.trans List.perm_append_comm

/-- The descriptor of a handle that a call got. -/
theorem FileSession.get_resources {key : Bytes} {directory : Bool} {handle : Handle}
    (hget : session.get key directory = some handle) :
    handle.entries.getD handle.fd ∈ session.resources := by
  obtain ⟨handle', hlookup, hrest⟩ := Option.bind_eq_some_iff.mp hget
  split_ifs at hrest
  cases hrest
  refine List.mem_flatMap.mpr ⟨(key, handle), Assoc.mem_of_lookup hlookup, ?_⟩
  rw [Handle.resources]
  cases handle.entries <;> simp

theorem Sound.find_io (h : s.Sound) (hc : s.calls[i]? = some c)
    (hs : s.sessions[c.session]? = some session) (hinside : c.phase = .inside)
    {fd : Descriptor} (hfd : fd ∈ session.resources) :
    (s.turn i { c with phase := .using fd } session).Sound := by
  have hlocked : c.phase.locked = true := by rw [hinside]; rfl
  obtain ⟨hlock, hfits⟩ := h.fits hc hs hlocked
  rw [Call.Fits, hinside] at hfits
  have hturns : Turns i c session { c with phase := .using fd } session :=
    .work hlocked rfl (fun hop => absurd hop hfits.2) hlock rfl ⟨hfits.2, hfd⟩
      (h.kept session (List.mem_of_getElem? hs))
  refine h.turn s.table s.opens s.touched hc hs hturns
    (fun rest htable => ?_) (fun e he => .inl he)
  rw [hinside] at htable
  exact htable

/-- What a call or its session holds is the file that was opened. -/
theorem Sound.table_eq (h : s.Sound) {fd : Descriptor} (hfd : fd ∈ s.held) :
    s.table fd.1 = some fd.2 := (h.held.covers fd.1 fd.2).mp hfd

theorem Sound.touch (h : s.Sound) {fd : Descriptor} (hfd : fd ∈ s.held) :
    (s.touching fd).Sound where
  held := h.held
  kept := h.kept
  locked := h.locked
  registered := h.registered
  touched e he := by
    rcases List.mem_append.mp he with he | he
    · exact h.touched e he
    · rw [List.mem_singleton.mp he]
      exact h.table_eq hfd

/-- A call closes the next descriptor. -/
theorem Sound.closeFile (h : s.Sound) (hc : s.calls[i]? = some c)
    (hs : s.sessions[c.session]? = some session) {fd : Descriptor} {fds : List Descriptor}
    (hclosing : c.phase = .closing (fd :: fds)) :
    ({ s.touching fd with table := Function.update s.table fd.1 none }.turn i
      { c with phase := .closing fds } session).Sound := by
  have hlocked : c.phase.locked = true := by rw [hclosing]; rfl
  obtain ⟨hlock, hfits⟩ := h.fits hc hs hlocked
  rw [Call.Fits, hclosing] at hfits
  have hheld : fd ∈ s.held := by
    refine List.mem_append_right _ (List.mem_flatMap.mpr ⟨c, List.mem_of_getElem? hc, ?_⟩)
    rw [hclosing]
    exact List.mem_cons_self
  have hturns : Turns i c session { c with phase := .closing fds } session :=
    .work hlocked rfl hfits hlock rfl hfits (h.kept session (List.mem_of_getElem? hs))
  refine h.turn _ s.opens _ hc hs hturns (fun rest htable => ?_)
    (fun e he => .inr ((h.touch hheld).touched e he))
  rw [hclosing] at htable
  have hmove : (session.resources ++ Phase.held (.closing (fd :: fds)) ++ rest).Perm
      (fd :: (session.resources ++ fds ++ rest)) := by
    simp [Phase.held]
  exact (htable.perm hmove).release

/-- The call leaves the lock with nothing of its own. -/
theorem Sound.leave (h : s.Sound) (hc : s.calls[i]? = some c)
    (hs : s.sessions[c.session]? = some session) (hlocked : c.phase.locked = true)
    (hheld : c.phase.held = []) : (s.finish i c session).Sound := by
  refine h.finish hc hs (.inl hlocked) (fun hop => ?_) hheld
  have hfits := (h.fits hc hs hlocked).2
  rw [Call.Fits] at hfits
  split at hfits
  · simp_all [Phase.locked]
  · simp_all [Phase.locked]
  · exact absurd hop hfits.2
  · exact absurd hop hfits.2.1
  · exact absurd hop hfits.1
  · exact hfits hop

theorem Sound.openFor (h : s.Sound) (hc : s.calls[i]? = some c)
    (hs : s.sessions[c.session]? = some session) (hinside : c.phase = .inside) {fd : Option ℕ}
    (hnext : s.openFor i c session fd = some s') : s'.Sound := by
  have hleave := h.leave hc hs (by rw [hinside]; rfl) (by rw [hinside]; rfl)
  cases fd with
  | none =>
      cases hnext
      exact hleave
  | some n =>
      rw [Files.openFor] at hnext
      split_ifs at hnext with hfull hn
      · cases hnext
        exact hleave
      · cases hnext
        exact h.openFile hc hs hinside (Nat.lt_of_not_le hfull) hn

theorem Sound.step_enter (h : s.Sound) {key : Bytes} {entries : ℕ}
    (hstep : s.step (.enter i key entries) = some s') : s'.Sound := by
  obtain ⟨c, session, hc, hs, hnext⟩ := withCall_eq_some.mp hstep
  by_cases hkey : key ∈ session.handles.map Prod.fst
  · rw [if_pos hkey] at hnext
    cases hnext
  · rw [if_neg hkey] at hnext
    split at hnext
    · rename_i fd flags hopened hop
      cases hnext
      exact h.enter hc hs hopened hkey (fun rest hheld => hheld)
    · rename_i fd hopened hop
      split_ifs at hnext with hentries
      cases hnext
      exact h.enter hc hs hopened hkey (fun rest hheld => hheld.acquire hentries _)
    · cases hnext

theorem Sound.step_find (h : s.Sound) (hstep : s.step (.find i) = some s') : s'.Sound := by
  obtain ⟨c, session, hc, hs, hnext⟩ := withCall_eq_some.mp hstep
  split at hnext
  · rename_i handle hinside hop
    split at hnext
    · cases hnext
      exact h.leave hc hs (by rw [hinside]; rfl) (by rw [hinside]; rfl)
    · cases hnext
      exact h.find_close hc hs hinside ‹_›
  · rename_i handle directory hinside hop
    split at hnext
    · cases hnext
      exact h.leave hc hs (by rw [hinside]; rfl) (by rw [hinside]; rfl)
    · rename_i found hget
      cases hnext
      exact h.find_io hc hs hinside (FileSession.get_resources hget)
  · cases hnext

/-- Every step keeps the invariant. -/
theorem Sound.step (h : s.Sound) {event : Event} (hstep : s.step event = some s') : s'.Sound := by
  cases event with
  | start id =>
      rw [Files.step] at hstep
      split_ifs at hstep with hid
      · cases hstep
        exact h
      · cases hstep
        exact h.start hid
  | call id op =>
      rw [Files.step] at hstep
      by_cases hvalid : op.valid = true
      · rw [if_pos hvalid] at hstep
        split at hstep
        · cases hstep
          exact h
        · cases hstep
          exact h.call ‹_› op
      · rw [if_neg hvalid] at hstep
        cases hstep
        exact h
  | acquire i =>
      obtain ⟨c, session, hc, hs, hnext⟩ := withCall_eq_some.mp hstep
      split_ifs at hnext with hguard hop hclosed
      · cases hnext
        exact h.acquire_release hc hs hguard.1 hguard.2 hop
      · cases hnext
        exact h.finish hc hs (.inr hguard.2) (fun hop' => absurd hop' hop) (by rw [hguard.1]; rfl)
      · cases hnext
        exact h.acquire hc hs hguard.1 hguard.2 hop (by simpa using hclosed)
  | openFile i fd =>
      obtain ⟨c, session, hc, hs, hnext⟩ := withCall_eq_some.mp hstep
      split at hnext
      · exact h.openFor hc hs ‹_› hnext
      · exact h.openFor hc hs ‹_› hnext
      · cases hnext
  | enter i key entries => exact h.step_enter hstep
  | reject i =>
      obtain ⟨c, session, hc, hs, hnext⟩ := withCall_eq_some.mp hstep
      split at hnext
      · rename_i fd hopened
        cases hnext
        exact h.reject hc hs hopened
      · cases hnext
  | find i => exact h.step_find hstep
  | touch i =>
      obtain ⟨c, session, hc, hs, hnext⟩ := withCall_eq_some.mp hstep
      split at hnext
      · rename_i fd husing
        cases hnext
        have hfits := (h.fits hc hs (by rw [husing]; rfl)).2
        rw [Call.Fits, husing] at hfits
        exact h.touch (List.mem_append_left _
          (List.mem_flatMap.mpr ⟨session, List.mem_of_getElem? hs, hfits.2⟩))
      · cases hnext
  | closeFile i =>
      obtain ⟨c, session, hc, hs, hnext⟩ := withCall_eq_some.mp hstep
      split at hnext
      · rename_i fd fds hclosing
        cases hnext
        exact h.closeFile hc hs hclosing
      · cases hnext
  | leave i =>
      obtain ⟨c, session, hc, hs, hnext⟩ := withCall_eq_some.mp hstep
      split at hnext
      · rename_i hphase hop
        cases hnext
        exact h.leave hc hs (by rw [hphase]; rfl) (by rw [hphase]; rfl)
      · rename_i fd hphase
        cases hnext
        exact h.leave hc hs (by rw [hphase]; rfl) (by rw [hphase]; rfl)
      · rename_i hphase
        cases hnext
        exact h.leave hc hs (by rw [hphase]; rfl) (by rw [hphase]; rfl)
      · cases hnext

/-- What a user of the sessions may rely on, whatever the calls do at once. -/
structure Safe (s : Files) : Prop where
  /-- Every descriptor that is used or closed is still the one that was opened. -/
  touched : ∀ e ∈ s.touched, e.2 = some e.1.2
  limit : ∀ session ∈ s.sessions, session.handles.length ≤ maxHandles
  /-- A descriptor that is open belongs to a session of the registry, or to a call that is not
  over and has its session, or to a session that a `release` is about to close. -/
  owned : ∀ fd file, s.table fd = some file →
    (∃ e ∈ s.registry, ∃ session, s.sessions[e.2]? = some session ∧
      (fd, file) ∈ session.resources) ∨ ∃ c ∈ s.calls, c.phase ≠ .ended
  /-- Two calls never work on one session. -/
  alone : ∀ (i j : ℕ) c d, s.calls[i]? = some c → s.calls[j]? = some d → c.phase.locked = true →
    d.phase.locked = true → c.session = d.session → i = j

theorem Sound.safe (h : s.Sound) : s.Safe where
  touched := h.touched
  limit session hmem := (h.kept session hmem).limit
  owned fd file hfd := by
    rcases List.mem_append.mp ((h.held.covers fd file).mpr hfd) with hmem | hmem
    · obtain ⟨session, hsession, hfd'⟩ := List.mem_flatMap.mp hmem
      obtain ⟨o, hs⟩ := List.mem_iff_getElem?.mp hsession
      have hopen : session.closed = false := by
        by_contra hclosed
        have hempty := (h.kept session hsession).emptied (by simpa using hclosed)
        simp [FileSession.resources, hempty] at hfd'
      rcases h.registered.waiting o session hs hopen with hreg | ⟨i, c, hc, -, -, hwants⟩
      · obtain ⟨e, he, rfl⟩ := List.mem_map.mp hreg
        exact .inl ⟨e, he, session, hs, hfd'⟩
      · exact .inr ⟨c, List.mem_of_getElem? hc, by rw [hwants]; rintro ⟨⟩⟩
    · obtain ⟨c, hc, hfd'⟩ := List.mem_flatMap.mp hmem
      refine .inr ⟨c, hc, fun hover => ?_⟩
      rw [hover] at hfd'
      cases hfd'
  alone i j c d hc hd hlocked hlocked' hsame := by
    obtain ⟨session, hs, hlock⟩ := h.locked.known i c hc
    obtain ⟨session', hs', hlock'⟩ := h.locked.known j d hd
    rw [hsame, hs'] at hs
    cases hs
    have heq := (hlock hlocked).1.symm.trans (hlock' hlocked').1
    exact Option.some.inj heq

/-- A read waits while a release closes its file and another session gets the number. -/
def reused : List Event :=
  [.start "a", .start "b", .call "a" (.open 1), .acquire 0, .openFile 0 (some 3),
    .enter 0 [7] 0, .call "a" (.io [7] false), .call "a" .release, .acquire 2, .closeFile 2,
    .call "b" .opendir, .acquire 3, .openFile 3 (some 3), .leave 2, .acquire 1,
    .enter 3 [8] 4, .call "b" (.io [8] true), .acquire 4, .find 4, .touch 4]

end Files

end Rmote
