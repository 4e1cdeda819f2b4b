import Rmote.Cli.MuxClient

/-!
# The lease of a mux client

`Speaks` is the conversation on the control socket and `Follows` is what a client may do with what
it holds: descriptors, one session of the remote side, one forwarded agent. Whatever the answers
are, the code of `MuxClient` keeps to both, and when it ends it has given everything back.
-/

namespace Rmote

namespace Mux

open Sftp (PyText pyText)
open Awaiting
open Mux.Client (number code authSock agentPid)

/-- What is due on the control socket. -/
inductive Talk where
  | start
  | ready
  | owing (id : ℕ)
  | running (key : ℕ)
  | over

/-- The packets that may be sent. A session without a key has the number 0. -/
inductive Speaks (key : Option ℕ) : Talk → List Value → Talk → Prop
  | hello : Speaks key .start [code .hello, number 4] .ready
  | alive (id pid : ℕ) : Speaks key (.owing id) [code .alive, number id, number pid] .ready
  | ok (id : ℕ) : Speaks key (.owing id) [code .ok, number id] .over
  | failure (id : ℕ) (text : PyText) :
      Speaks key (.owing id) [code .failure, number id, .text text] .over
  | opened (id : ℕ) :
      Speaks key (.owing id) [code .sessionOpened, number id, number (key.getD 0)]
        (.running (key.getD 0))
  | exit (k : ℕ) (status : ℤ) :
      Speaks key (.running k) [code .exitMessage, number k, .number status] .over

/-- What a client holds. -/
structure Watch where
  talk : Talk
  held : List ℕ
  key : Option ℕ
  path : Option PyText
  connected : Bool

def Watch.start : Watch := ⟨.start, [], none, none, true⟩

/-- What a client may do. Nothing is sent behind a packet that was cut, and a shell has the agent
socket of the client or none. -/
inductive Follows (w : Watch) : Effect → Watch → Prop
  | asked (id : ℕ) (hready : w.talk = .ready) : Follows w (.asked id) { w with talk := .owing id }
  | sent {values : List Value} {talk : Talk} (hconnected : w.connected = true)
      (h : Speaks w.key w.talk values talk) : Follows w (.sent values) { w with talk := talk }
  | cut {values : List Value} {talk : Talk} (hconnected : w.connected = true)
      (h : Speaks w.key w.talk values talk) : Follows w (.cut values) { w with talk := .over }
  | took {fd : ℕ} (hfree : fd ∉ w.held) (hconnected : w.connected = true) :
      Follows w (.took fd) { w with held := w.held ++ [fd] }
  | closed {fd : ℕ} (hheld : fd ∈ w.held) (hkey : w.key = none) (hpath : w.path = none) :
      Follows w (.closed fd) { w with held := w.held.erase fd }
  | forwarded (path : PyText) (hpath : w.path = none) :
      Follows w (.forwarded path) { w with path := some path }
  | unforwarded (path : PyText) (hpath : w.path = some path) (hkey : w.key = none) :
      Follows w .unforwarded { w with path := none }
  | calling {command : PyText} {env : List (PyText × PyText)} (hkey : w.key = none)
      (hsock : Assoc.get env authSock = some (w.path.getD []))
      (hpid : Assoc.get env agentPid = some []) : Follows w (.calling command env) w
  | opened (key : ℕ) (hkey : w.key = none) : Follows w (.opened key) { w with key := some key }
  | released (key : ℕ) (hkey : w.key = some key) : Follows w (.released key) { w with key := none }
  | stopped (hover : w.talk = .over) : Follows w .stopped w
  | disconnected (hheld : w.held = []) (hkey : w.key = none) (hpath : w.path = none)
      (hconnected : w.connected = true) : Follows w .disconnected { w with connected := false }

/-- What a client did, one step after the other. -/
inductive Accepts : List Effect → Watch → Prop
  | nil : Accepts [] .start
  | snoc {trace : List Effect} {effect : Effect} {w w' : Watch} (h : Accepts trace w)
      (hstep : Follows w effect w') : Accepts (trace ++ [effect]) w'

namespace Client

/-- So far the client kept to what it may do. -/
def Kept (c : Client) : Prop := ∃ w, Accepts c.trace w

/-- The open files of two tables agree on the descriptors of the items. -/
theorem foldr_restored_congr {table table' : ℕ → Option ℕ} {items : List NonBlocking}
    (h : ∀ item ∈ items, table' item.fd = table item.fd) (modes : ℕ → ℕ) :
    items.foldr (restored table') modes = items.foldr (restored table) modes := by
  induction items with
  | nil => rfl
  | cons item items ih =>
      rw [List.forall_mem_cons] at h
      rw [List.foldr_cons, List.foldr_cons, ih h.2]
      unfold restored setFlags
      rw [h.1]

/-- A restore takes back what an enter did. -/
theorem restored_enter (host : Host) (c : Client) (fd : ℕ) :
    restored c.table ⟨fd, c.saved host fd⟩ (c.entered host fd) = c.modes := by
  unfold restored entered
  rcases hsaved : c.saved host fd with _ | flags
  · rfl
  · dsimp only
    obtain ⟨file, hfile, hflags⟩ := Option.bind_eq_some_iff.mp hsaved
    split_ifs at hflags
    rw [setFlags, setFlags, hfile]
    dsimp only
    rw [Function.update_idem, ← Option.some.inj hflags, Function.update_eq_self]

/-- The client holds what the watch says, and `loose` descriptors that are not its own yet. To
restore the flags leads back to `modes`. -/
structure At (modes : ℕ → ℕ) (w : Watch) (loose : List ℕ) (c : Client) : Prop where
  accepted : Accepts c.trace w
  held : w.held = c.fds ++ loose
  path : w.path = c.path
  connected : w.connected = true
  nodup : w.held.Nodup
  table : ∀ fd, (c.table fd).isSome = true ↔ fd ∈ w.held
  flags : ∀ item ∈ c.flags, item.fd ∈ c.fds
  undo : c.flags.foldr (restored c.table) c.modes = modes

variable {modes : ℕ → ℕ} {w w' : Watch} {loose : List ℕ} {c : Client} {fd id : ℕ} {α β : Type}

theorem At.kept (h : At modes w loose c) : c.Kept := ⟨w, h.accepted⟩

theorem At.note {effect : Effect} (h : At modes w loose c) (hstep : Follows w effect w')
    (hheld : w'.held = w.held) (hpath : w'.path = w.path) (hconnected : w'.connected = w.connected) :
    At modes w' loose { c with trace := c.trace ++ [effect] } where
  accepted := h.accepted.snoc hstep
  held := hheld.trans h.held
  path := hpath.trans h.path
  connected := hconnected.trans h.connected
  nodup := hheld ▸ h.nodup
  table fd := hheld ▸ h.table fd
  flags := h.flags
  undo := h.undo

/-- The code changes nothing of what the client holds. -/
def Steady (m : Task α) : Prop :=
  ∀ modes w loose, Does Kept (At modes w loose) m (fun _ => At modes w loose) (At modes w loose)

theorem Steady.bind {m : Task α} {f : α → Task β} (h : Steady m) (hf : ∀ a, Steady (f a)) :
    Steady (m >>= f) :=
  fun modes w loose => (h modes w loose).bind fun a => hf a modes w loose

theorem steady_pure (a : α) : Steady (pure a : Task α) := fun _ _ _ => does_pure fun _ h => h

theorem steady_wait : Steady (wait : Task α) := fun _ _ _ => does_wait fun _ h => h.kept

theorem steady_raise (kind : Kind) (text : String) : Steady (raise kind text : Task α) :=
  fun _ _ _ => does_raise fun _ h => h

theorem At.answers (h : At modes w loose c) (answers : List Awaited) :
    At modes w loose { c with answers := answers } :=
  ⟨h.accepted, h.held, h.path, h.connected, h.nodup, h.table, h.flags, h.undo⟩

theorem At.withKey (h : At modes w loose c) (key : Option ℕ) :
    At modes w loose { c with key := key } :=
  ⟨h.accepted, h.held, h.path, h.connected, h.nodup, h.table, h.flags, h.undo⟩

theorem steady_awaited : Steady awaited := by
  intro modes w loose
  refine does_get_bind fun c h => ?_
  rcases c.answers with _ | ⟨answer, answers⟩
  · exact (steady_wait modes w loose).restrict h
  · intro t ht
    subst ht
    cases answer <;> exact h.answers answers

theorem steady_pause : Steady pause := by
  refine steady_awaited.bind fun answer => ?_
  cases answer with
  | done => exact steady_pure ()
  | _ => exact steady_wait

theorem steady_recv (size : ℕ) : Steady (recv size) := by
  refine steady_awaited.bind fun answer => ?_
  cases answer with
  | chunk data =>
      dsimp only
      split_ifs
      · exact steady_pure data
      · exact steady_wait
  | _ => exact steady_wait

theorem steady_receiveLoop (size fuel : ℕ) (chunks : Bytes) :
    Steady (receiveLoop size fuel chunks) := by
  induction fuel generalizing chunks with
  | zero =>
      rw [receiveLoop]
      split_ifs
      · exact steady_wait
      · exact steady_pure chunks
  | succ fuel ih =>
      rw [receiveLoop]
      split_ifs
      · refine (steady_recv _).bind fun chunk => ?_
        split_ifs
        · exact steady_raise _ _
        · exact ih _
      · exact steady_pure chunks

theorem steady_receivePacket : Steady receivePacket := by
  refine (steady_receiveLoop 4 4 []).bind fun header => ?_
  dsimp only
  split_ifs
  · exact (steady_receiveLoop _ _ []).bind fun data => steady_pure _
  · exact steady_raise _ _

theorem steady_parse (m : Reader α) (p : Packet) : Steady (parse m p) := by
  rw [parse]
  split
  · exact steady_pure _
  · exact steady_raise _ _

theorem steady_suppress {m : Task Unit} (h : Steady m) : Steady (suppress m) := by
  intro modes w loose
  refine does_except (h modes w loose) (fun e k hk => ?_) fun _ hs => hs
  split_ifs at hk
  cases hk
  exact does_pure fun _ hs => hs

theorem steady_bridgeLoop (fuel : ℕ) : Steady (bridgeLoop fuel) := by
  induction fuel with
  | zero => exact steady_wait
  | succ fuel ih =>
      refine steady_awaited.bind fun answer => ?_
      cases answer with
      | bridge tasks =>
          dsimp only
          split
          · exact steady_pure _
          · exact fun _ _ _ => does_raise fun _ h => h
          · exact steady_pure _
          · exact fun _ _ _ => does_raise fun _ h => h
          · exact fun _ _ _ => does_raise fun _ h => h
          · exact steady_pure _
          · exact fun _ _ _ => does_raise fun _ h => h
          · exact ih
      | _ => exact steady_wait

theorem steady_bridge : Steady bridge := by
  intro modes w loose
  refine does_get_bind fun c h => ?_
  refine Does.restrict ?_ h
  exact does_andFinally (steady_bridgeLoop _ modes w loose) (fun _ => steady_pause modes w loose)
    (steady_pause modes w loose)

/-! ## Packets -/

/-- The client holds what it held, whatever was said. -/
def Holds (modes : ℕ → ℕ) (w : Watch) (c : Client) : Prop :=
  ∃ talk, At modes { w with talk := talk } [] c

theorem At.holds (h : At modes w [] c) : Holds modes w c := ⟨w.talk, h⟩

theorem does_note {effect : Effect} (hstep : Follows w effect w') (hheld : w'.held = w.held)
    (hpath : w'.path = w.path) (hconnected : w'.connected = w.connected) {R : Client → Prop} :
    Does Kept (At modes w loose) (note effect) (fun _ => At modes w' loose) R :=
  does_modify fun _ h => h.note hstep hheld hpath hconnected

theorem does_send {values : List Value} {talk : Talk} (hspeaks : Speaks w.key w.talk values talk) :
    Does Kept (At modes w []) (send values) (fun _ => At modes { w with talk := talk } [])
      (Holds modes w) := by
  rw [send]
  split
  · exact does_raise fun _ h => h.holds
  · refine does_of_forall fun c h => Does.restrict ?_ h
    have hconnected := h.connected
    have hsent : Does Kept (At modes w []) (do pause; note (.sent values))
        (fun _ => At modes { w with talk := talk } []) (At modes w []) :=
      (steady_pause modes w []).bind fun _ => does_note (.sent hconnected hspeaks) rfl rfl rfl
    refine does_except hsent (fun e k hk => ?_) fun _ hs => hs.holds
    cases hk
    exact (does_note (.cut hconnected hspeaks) rfl rfl rfl).bind fun _ =>
      does_raise fun _ hs => ⟨_, hs⟩

/-! ## Descriptors -/

theorem At.adopt (h : At modes w loose c) {received : ℕ × ℕ} (hfree : received.1 ∉ w.held) :
    At modes { w with held := w.held ++ [received.1] } (loose ++ [received.1])
      { c with
        table := Function.update c.table received.1 (some received.2)
        trace := c.trace ++ [.took received.1] } where
  accepted := h.accepted.snoc (.took hfree h.connected)
  held := by rw [h.held, List.append_assoc]
  path := h.path
  connected := h.connected
  nodup := by
    rw [List.nodup_append]
    refine ⟨h.nodup, List.nodup_singleton _, fun fd hfd fd' hfd' heq => hfree ?_⟩
    rw [← List.mem_singleton.mp hfd', ← heq]
    exact hfd
  table fd := by
    rw [List.mem_append, List.mem_singleton]
    by_cases hfd : fd = received.1
    · subst hfd
      simp
    · dsimp only
      rw [Function.update_of_ne hfd, h.table fd, or_iff_left hfd]
  flags := h.flags
  undo := by
    rw [← h.undo]
    refine foldr_restored_congr (fun item hitem => Function.update_of_ne ?_ _ _) _
    rintro heq
    exact hfree (by rw [h.held, ← heq]; exact List.mem_append_left _ (h.flags item hitem))

theorem At.close (h : At modes w (fd :: loose) c) (hkey : w.key = none) (hpath : w.path = none) :
    At modes { w with held := c.fds ++ loose } loose
      { c with table := Function.update c.table fd none, trace := c.trace ++ [.closed fd] } := by
  have hnodup := h.nodup
  rw [h.held, List.nodup_append] at hnodup
  have hforeign : fd ∉ c.fds := fun hfd => hnodup.2.2 fd hfd fd List.mem_cons_self rfl
  have herase : w.held.erase fd = c.fds ++ loose := by
    rw [h.held, List.erase_append_right _ hforeign, List.erase_cons_head]
  have hmem : fd ∈ w.held := by
    rw [h.held]
    exact List.mem_append_right _ List.mem_cons_self
  have hclosed := Follows.closed hmem hkey hpath
  rw [herase] at hclosed
  refine ⟨h.accepted.snoc hclosed, rfl, h.path, h.connected, ?_, fun fd' => ?_, h.flags, ?_⟩
  · exact herase ▸ h.nodup.erase fd
  · change _ ↔ fd' ∈ c.fds ++ loose
    rw [← herase, h.nodup.mem_erase_iff]
    by_cases hfd : fd' = fd
    · subst hfd
      simp
    · dsimp only
      rw [Function.update_of_ne hfd, h.table fd', and_iff_right hfd]
  · rw [← h.undo]
    refine foldr_restored_congr (fun item hitem => Function.update_of_ne ?_ _ _) _
    rintro rfl
    exact hforeign (h.flags item hitem)

/-- The client has descriptors and nothing else. -/
def Idle (modes : ℕ → ℕ) (talk : Talk) (c : Client) : Prop :=
  At modes ⟨talk, c.fds, none, none, true⟩ [] c

theorem does_adopt {talk : Talk} {received : List (ℕ × ℕ)} (hidle : Idle modes talk c)
    (hnodup : (received.map Prod.fst).Nodup) (hfree : ∀ e ∈ received, c.table e.1 = none)
    {R : Client → Prop} :
    Does Kept (fun t => t = c) (received.forM adopt)
      (fun _ => At modes ⟨talk, c.fds ++ received.map Prod.fst, none, none, true⟩
        (received.map Prod.fst)) R := by
  -- the loop has taken `done` of them
  let I (rest : List (ℕ × ℕ)) (t : Client) : Prop := ∃ done, received = done ++ rest ∧
    At modes ⟨talk, c.fds ++ done.map Prod.fst, none, none, true⟩ (done.map Prod.fst) t
  have hstep : ∀ e rest, Does Kept (I (e :: rest)) (adopt e) (fun _ => I rest) R := by
    intro e rest
    refine does_modify ?_
    rintro t ⟨done, rfl, ht⟩
    have hnew : e.1 ∉ c.fds ++ done.map Prod.fst := by
      rw [List.mem_append, not_or]
      constructor
      · intro hmem
        have hopen := (hidle.table e.1).mpr hmem
        rw [hfree e (by simp)] at hopen
        cases hopen
      · rw [List.map_append, List.map_cons, List.nodup_append] at hnodup
        exact fun hmem => hnodup.2.2 e.1 hmem e.1 List.mem_cons_self rfl
    refine ⟨done ++ [e], by simp, ?_⟩
    have hadopt := ht.adopt hnew
    rw [List.append_assoc] at hadopt
    rw [List.map_append]
    exact hadopt
  refine (does_forM hstep received).mono ?_ ?_ fun _ hs => hs
  · rintro t rfl
    refine ⟨[], rfl, ?_⟩
    rw [List.map_nil, List.append_nil]
    exact hidle
  · rintro _ t ⟨done, rfl, ht⟩
    rw [List.append_nil]
    exact ht

/-- One that came is the client's own from now on. -/
theorem At.own (h : At modes w [fd] c) : At modes w [] { c with fds := c.fds ++ [fd] } where
  accepted := h.accepted
  held := by rw [h.held, List.append_nil]
  path := h.path
  connected := h.connected
  nodup := h.nodup
  table := h.table
  flags item hitem := List.mem_append_left _ (h.flags item hitem)
  undo := h.undo

/-- All that came is closed again. -/
theorem does_closeAll {talk : Talk} {fds : List ℕ} (received : List (ℕ × ℕ)) {R : Client → Prop} :
    Does Kept (fun t => t.fds = fds ∧
        At modes ⟨talk, fds ++ received.map Prod.fst, none, none, true⟩ (received.map Prod.fst) t)
      (received.forM fun e => Client.close e.1) (fun _ => Idle modes talk) R := by
  let I (rest : List (ℕ × ℕ)) (t : Client) : Prop := t.fds = fds ∧
    At modes ⟨talk, fds ++ rest.map Prod.fst, none, none, true⟩ (rest.map Prod.fst) t
  have hstep : ∀ e rest, Does Kept (I (e :: rest)) (close e.1) (fun _ => I rest) R := by
    intro e rest
    refine does_modify ?_
    rintro t ⟨hfds, ht⟩
    refine ⟨hfds, ?_⟩
    rw [← hfds]
    exact ht.close rfl rfl
  refine (does_forM hstep received).mono (fun _ hs => hs) ?_ fun _ hs => hs
  rintro _ t ⟨rfl, ht⟩
  rw [List.map_nil, List.append_nil] at ht
  exact ht

theorem steady_idle {m : Task α} (h : Steady m) (talk : Talk) :
    Does Kept (Idle modes talk) m (fun _ => Idle modes talk) (Idle modes talk) := by
  have hidle : ∀ fds t, At modes ⟨talk, fds, none, none, true⟩ [] t → Idle modes talk t := by
    intro fds t ht
    have hheld : fds = t.fds := by simpa using ht.held
    rw [Idle, ← hheld]
    exact ht
  refine does_of_forall fun c hc => ?_
  exact ((h modes _ []).mono (fun _ ht => ht ▸ hc) (fun _ t ht => hidle c.fds t ht)
    fun t ht => hidle c.fds t ht)

/-- One descriptor more, or those that came are closed. -/
theorem does_receiveFd (modes : ℕ → ℕ) (talk : Talk) :
    Does Kept (Idle modes talk) receiveFd (fun _ => Idle modes talk) (Idle modes talk) := by
  refine (steady_idle steady_awaited talk).bind fun answer => ?_
  cases answer with
  | message data truncated received =>
      refine does_get_bind fun c hidle => ?_
      split_ifs with hkernel
      · have hadopt := does_adopt hidle hkernel.1 hkernel.2 (R := Idle modes talk)
        refine hadopt.bind fun _ => ?_
        have hfds : ∀ t, At modes ⟨talk, c.fds ++ received.map Prod.fst, none, none, true⟩
            (received.map Prod.fst) t → t.fds = c.fds :=
          fun t ht => (List.append_cancel_right ht.held).symm
        split
        · refine does_modify fun t ht => ?_
          rw [← hfds t ht] at ht
          exact ht.own
        · refine Does.bind ?_ fun _ => does_raise fun _ ht => ht
          exact (does_closeAll received).mono (fun t ht => ⟨hfds t ht, ht⟩) (fun _ _ ht => ht)
            fun _ ht => ht
      · exact does_wait fun t ht => ht ▸ hidle.kept
  | _ => exact does_wait fun t ht => ht.kept

theorem At.enter (h : At modes w [] c) (host : Host) (hfd : fd ∈ w.held) :
    At modes w [] { c with
      modes := c.entered host fd
      flags := c.flags ++ [⟨fd, c.saved host fd⟩] } where
  accepted := h.accepted
  held := h.held
  path := h.path
  connected := h.connected
  nodup := h.nodup
  table := h.table
  flags item hitem := by
    rcases List.mem_append.mp hitem with hitem | hitem
    · exact h.flags item hitem
    · rw [List.mem_singleton.mp hitem]
      rw [h.held, List.append_nil] at hfd
      exact hfd
  undo := by
    rw [List.foldr_append, ← h.undo, ← restored_enter host c fd]
    rfl

theorem does_enterAll (host : Host) (modes : ℕ → ℕ) (w : Watch) :
    Does Kept (At modes w []) (enterAll host) (fun _ => At modes w []) (At modes w []) := by
  refine does_get_bind fun c h => ?_
  let I (rest : List ℕ) (t : Client) : Prop := (∀ fd ∈ rest, fd ∈ w.held) ∧ At modes w [] t
  have hstep : ∀ fd rest, Does Kept (I (fd :: rest)) (enter host fd) (fun _ => I rest)
      (At modes w []) := by
    intro fd rest
    refine does_modify ?_
    rintro t ⟨hmem, ht⟩
    rw [List.forall_mem_cons] at hmem
    exact ⟨hmem.2, ht.enter host hmem.1⟩
  refine (does_forM hstep c.fds).mono ?_ (fun _ t ht => ht.2) fun _ ht => ht
  rintro t rfl
  refine ⟨fun fd hfd => ?_, h⟩
  rw [h.held, List.append_nil]
  exact hfd

/-! ## Sessions -/

theorem does_suppress {m : Task Unit} {P Q : Client → Prop} (h : Does Kept P m (fun _ => Q) Q) :
    Does Kept P (suppress m) (fun _ => Q) Q := by
  refine does_except h (fun e k hk => ?_) fun _ hs => hs
  split_ifs at hk
  cases hk
  exact does_pure fun _ hs => hs

theorem steady_holds {m : Task α} (h : Steady m) (modes : ℕ → ℕ) (w : Watch) :
    Does Kept (Holds modes w) m (fun _ => Holds modes w) (Holds modes w) := by
  refine does_of_forall fun c => ?_
  rintro ⟨talk, hc⟩
  exact ((h modes _ []).mono (fun _ ht => ht) (fun _ _ ht => ⟨talk, ht⟩)
    fun _ ht => ⟨talk, ht⟩).restrict hc

/-- The client calls `Vty.close`, and the session is no longer its own, whatever the call does. -/
theorem does_release (modes : ℕ → ℕ) {key : ℕ} (hkey : w.key = some key) :
    Does Kept (Holds modes w) (release key) (fun _ => Holds modes { w with key := none })
      (Holds modes { w with key := none }) := by
  refine does_of_forall fun c => ?_
  rintro ⟨talk, h⟩
  refine Does.restrict ?_ h
  refine (does_note (w := { w with talk := talk }) (.released key hkey) rfl rfl rfl).bind fun _ => ?_
  exact (steady_pause modes _ []).mono (fun _ ht => ht) (fun _ _ ht => ⟨talk, ht⟩)
    fun _ ht => ⟨talk, ht⟩

theorem does_awaitKey (modes : ℕ → ℕ) (hkey : w.key = none) :
    Does Kept (At modes w []) awaitKey (fun key => At modes { w with key := some key } [])
      (At modes w []) := by
  refine (steady_awaited modes w []).bind fun answer => ?_
  cases answer with
  | opened key =>
      exact (does_note (.opened key hkey) rfl rfl rfl).bind fun _ => does_pure fun _ ht => ht
  | _ => exact does_wait fun _ ht => ht.kept

theorem Watch.without_key (hkey : w.key = none) : { w with key := none } = w := by
  rw [← hkey]

theorem Watch.without_path (hpath : w.path = none) : { w with path := none } = w := by
  rw [← hpath]

theorem does_collect (hkey : w.key = none) :
    Does Kept (At modes w []) collect (fun _ => Holds modes w) (Holds modes w) := by
  have hrelease : Does Kept (At modes w []) (do release (← awaitKey)) (fun _ => Holds modes w)
      (Holds modes w) := by
    refine Does.bind ((does_awaitKey modes hkey).mono (fun _ ht => ht) (fun _ _ ht => ht)
      fun _ ht => ht.holds) fun key => ?_
    have hdone := does_release modes (w := { w with key := some key }) rfl
    rw [Watch.without_key hkey] at hdone
    exact hdone.mono (fun _ ht => ht.holds) (fun _ _ ht => ht) fun _ ht => ht
  exact does_andFinally (does_suppress hrelease) (fun _ => steady_holds steady_pause modes w)
    (steady_holds steady_pause modes w)

/-- The client has the key of a session, or the session is over. -/
def Opens (modes : ℕ → ℕ) (w : Watch) (key : Option ℕ) (c : Client) : Prop :=
  match key with
  | some key => At modes { w with key := some key } [] c
  | none => Holds modes w c

theorem does_openShell (htalk : w.talk = .owing id) (hkey : w.key = none) :
    Does Kept (At modes w []) (openShell id) (Opens modes w) (Holds modes w) := by
  have hopen : Does Kept (At modes w []) (do return some (← awaitKey)) (Opens modes w)
      (At modes w []) :=
    (does_awaitKey modes hkey).bind fun key => does_pure fun _ ht => ht
  refine does_except hopen (fun e k hk => ?_) fun _ ht => ht.holds
  cases hk
  split_ifs
  · exact (does_collect hkey).bind fun _ => does_raise fun _ ht => ht
  · have hspeaks : Speaks w.key (.owing id) _ .over := .failure id e.text
    rw [← htalk] at hspeaks
    exact (does_send hspeaks).bind fun _ => does_pure fun _ ht => ⟨_, ht⟩

theorem does_shellSession {request : SessionRequest} {env : List (PyText × PyText)}
    (htalk : w.talk = .owing id) (hkey : w.key = none)
    (hsock : Assoc.get env authSock = some (w.path.getD []))
    (hpid : Assoc.get env agentPid = some []) :
    Does Kept (At modes w []) (shellSession request id env) (fun _ => Holds modes w)
      (Holds modes w) := by
  refine (does_note (.calling hkey hsock hpid) rfl rfl rfl).bind fun _ => ?_
  refine (does_openShell htalk hkey).bind fun key => ?_
  rcases key with _ | key
  · exact does_pure fun _ ht => ht
  · refine Does.bind (Q := fun _ => At modes { w with key := some key } [])
      (does_modify fun _ ht => ht.withKey (some key)) fun _ => ?_
    have hopened : Speaks (some key) (.owing id) _ (.running key) := .opened id
    rw [← htalk] at hopened
    have hbody : Does Kept (At modes { w with key := some key } []) (do
        send [code .sessionOpened, number id, number key]
        let status ← bridge
        send [code .exitMessage, number key, .number (if 0 ≤ status then status else 128 - status)])
        (fun _ => Holds modes { w with key := some key })
        (Holds modes { w with key := some key }) := by
      refine (does_send (w := { w with key := some key }) hopened).bind fun _ => ?_
      refine Does.bind ((steady_bridge modes _ []).mono (fun _ ht => ht) (fun _ _ ht => ht)
        fun _ ht => ⟨_, ht⟩) fun status => ?_
      refine (does_send (.exit key _)).mono (fun _ ht => ht) (fun _ _ ht => ⟨_, ht⟩) ?_
      rintro t ⟨talk, ht⟩
      exact ⟨talk, ht⟩
    have hclose : Does Kept (Holds modes { w with key := some key }) (do
        suppress (release key)
        modify fun c => { c with key := none }) (fun _ => Holds modes w) (Holds modes w) := by
      have hrelease := does_release modes (w := { w with key := some key }) rfl
      rw [Watch.without_key hkey] at hrelease
      refine (does_suppress hrelease).bind fun _ => does_modify ?_
      rintro t ⟨talk, ht⟩
      exact ⟨talk, ht.withKey none⟩
    exact does_andFinally hbody (fun _ => hclose) hclose

theorem does_sftp (host : Host) (htalk : w.talk = .owing id) (hkey : w.key = none) :
    Does Kept (At modes w []) (sftp host id) (fun _ => Holds modes w) (Holds modes w) := by
  have hopened : Speaks w.key w.talk [code .sessionOpened, number id, number 0] (.running 0) := by
    rw [htalk, hkey]
    exact .opened id
  have hexit : ∀ status, Does Kept (At modes { w with talk := .running 0 } [])
      (send [code .exitMessage, number 0, .number status]) (fun _ => Holds modes w)
      (Holds modes w) := by
    intro status
    exact (does_send (.exit 0 status)).mono (fun _ ht => ht) (fun _ _ ht => ⟨_, ht⟩)
      fun t ⟨talk, ht⟩ => ⟨talk, ht⟩
  have hsteady : ∀ {γ : Type} {m : Task γ}, Steady m →
      Does Kept (At modes { w with talk := .running 0 } []) m
        (fun _ => At modes { w with talk := .running 0 } []) (Holds modes w) :=
    fun hm => (hm modes _ []).mono (fun _ ht => ht) (fun _ _ ht => ht) fun _ ht => ⟨_, ht⟩
  refine ((does_enterAll host modes w).mono (fun _ ht => ht) (fun _ _ ht => ht)
    fun _ ht => ht.holds).bind fun _ => ?_
  refine (does_send hopened).bind fun _ => ?_
  refine does_andFinally ?_ (fun _ => steady_holds steady_pause modes w)
    (steady_holds steady_pause modes w)
  refine (hsteady steady_awaited).bind fun answer => ?_
  cases answer with
  | sftp ended =>
      rcases ended with _ | e | status
      · exact does_pure fun _ ht => ⟨_, ht⟩
      · dsimp only
        split_ifs
        · exact (hsteady steady_pause).bind fun _ => hexit 1
        · exact does_raise fun _ ht => ⟨_, ht⟩
      · exact hexit status
  | _ => exact does_wait fun _ ht => ht.kept

/-- The environment of a shell has the forwarded socket, or no agent. -/
def Fits (path : Option PyText) (env : List (PyText × PyText)) : Prop :=
  Assoc.get env authSock = some (path.getD []) ∧ Assoc.get env agentPid = some []

theorem authSock_ne_agentPid : authSock ≠ agentPid := by decide

theorem fits_sessionEnv (request : SessionRequest) : Fits none (sessionEnv request) := by
  rw [Fits, sessionEnv, Assoc.get_put, Assoc.get_put, Assoc.get_put, if_pos rfl,
    if_neg authSock_ne_agentPid, if_pos rfl]
  exact ⟨rfl, rfl⟩

theorem Fits.forward {env : List (PyText × PyText)} (h : Fits none env) (path : PyText) :
    Fits (some path) (Assoc.put authSock path env) := by
  rw [Fits, Assoc.get_put, Assoc.get_put, if_pos rfl, if_neg authSock_ne_agentPid.symm]
  exact ⟨rfl, h.2⟩

/-- The agent is forwarded or it is not, and the environment says so. -/
def Forwards (modes : ℕ → ℕ) (w : Watch) (env : List (PyText × PyText)) (c : Client) : Prop :=
  ∃ path, Fits path env ∧ At modes { w with path := path } [] c

theorem does_forwardAgent (host : Host) {env : List (PyText × PyText)} (henv : Fits none env)
    (hpath : w.path = none) :
    Does Kept (At modes w []) (forwardAgent host env) (Forwards modes w) (At modes w []) := by
  have hnone : ∀ t, At modes w [] t → Forwards modes w env t := by
    intro t ht
    refine ⟨none, henv, ?_⟩
    rw [← hpath]
    exact ht
  refine does_except (R := At modes w []) ?_ (fun e k hk => ?_) fun _ ht => ht
  · split_ifs
    · exact does_raise fun _ ht => ht
    · refine (steady_awaited modes w []).bind fun answer => ?_
      cases answer with
      | forwarded path =>
          refine Does.bind (Q := fun _ => At modes { w with path := some path } [])
            (does_modify fun t ht => ?_) fun _ => does_pure fun t ht => ⟨_, henv.forward path, ht⟩
          exact ⟨ht.accepted.snoc (.forwarded path hpath), ht.held, rfl, ht.connected, ht.nodup,
            ht.table, ht.flags, ht.undo⟩
      | _ => exact does_wait fun _ ht => ht.kept
  · split_ifs at hk
    cases hk
    exact (steady_pause modes w []).bind fun _ => does_pure hnone

theorem does_leaveAgent (modes : ℕ → ℕ) {path : Option PyText} (hkey : w.key = none) :
    Does Kept (Holds modes { w with path := path }) leaveAgent
      (fun _ => Holds modes { w with path := none }) (Holds modes { w with path := none }) := by
  refine does_get_bind fun c => ?_
  rintro ⟨talk, h⟩
  split_ifs with hsome
  · rw [← h.path] at hsome
    obtain ⟨p, rfl⟩ := Option.isSome_iff_exists.mp hsome
    have hleft : At modes { w with talk := talk, path := none } []
        { c with path := none, trace := c.trace ++ [.unforwarded] } :=
      ⟨h.accepted.snoc (.unforwarded p rfl hkey), h.held, rfl, h.connected, h.nodup, h.table,
        h.flags, h.undo⟩
    refine Does.bind (Q := fun _ => Holds modes { w with path := none }) ?_
      fun _ => steady_holds steady_pause modes _
    rintro t rfl
    exact ⟨talk, hleft⟩
  · refine does_pure ?_
    rintro t rfl
    have hnone : path = none := by
      rw [Option.not_isSome_iff_eq_none, ← h.path] at hsome
      exact hsome
    rw [← hnone]
    exact ⟨talk, h⟩

theorem does_session (host : Host) (request : SessionRequest) (htalk : w.talk = .owing id)
    (hkey : w.key = none) (hpath : w.path = none) :
    Does Kept (At modes w []) (session host request id) (fun _ => Holds modes w)
      (Holds modes w) := by
  have hrefuse : ∀ text, Does Kept (At modes w [])
      (send [code .failure, number id, .text text]) (fun _ => Holds modes w) (Holds modes w) := by
    intro text
    have hspeaks : Speaks w.key (.owing id) _ .over := .failure id text
    rw [← htalk] at hspeaks
    exact (does_send hspeaks).mono (fun _ ht => ht) (fun _ _ ht => ⟨_, ht⟩) fun _ ht => ht
  rw [session]
  split
  · split
    · exact hrefuse _
    · split
      · exact hrefuse _
      · exact does_sftp host htalk hkey
  · refine ((does_enterAll host modes w).mono (fun _ ht => ht) (fun _ _ ht => ht)
      fun _ ht => ht.holds).bind fun _ => ?_
    -- the agent may have been forwarded when the session ends
    let Q (c : Client) : Prop := ∃ path, Holds modes { w with path := path } c
    have hleave : Does Kept Q leaveAgent (fun _ => Holds modes w) (Holds modes w) := by
      refine does_of_forall fun c => ?_
      rintro ⟨path, h⟩
      refine Does.restrict ?_ h
      have hleft : Does Kept (Holds modes { w with path := path }) leaveAgent
          (fun _ => Holds modes { w with path := none }) (Holds modes { w with path := none }) :=
        does_leaveAgent modes hkey
      rw [Watch.without_path hpath] at hleft
      exact hleft
    refine does_andFinally (Q := fun _ => Q) (R := Q) ?_ (fun _ => hleave) hleave
    have henv : Does Kept (At modes w []) (if request.agent then
        forwardAgent host (sessionEnv request) else pure (sessionEnv request))
        (Forwards modes w) Q := by
      split_ifs
      · exact (does_forwardAgent host (fits_sessionEnv request) hpath).mono (fun _ ht => ht)
          (fun _ _ ht => ht) fun _ ht => ⟨w.path, ht.holds⟩
      · refine does_pure fun _ ht => ⟨none, fits_sessionEnv request, ?_⟩
        rw [Watch.without_path hpath]
        exact ht
    refine henv.bind fun env => ?_
    refine does_of_forall fun c => ?_
    rintro ⟨path, hfits, h⟩
    refine Does.restrict ?_ h
    have hshell : Does Kept (At modes { w with path := path } []) (shellSession request id env)
        (fun _ => Holds modes { w with path := path }) (Holds modes { w with path := path }) :=
      does_shellSession htalk hkey hfits.1 hfits.2
    have hdone := hshell.mono (fun _ ht => ht) (fun _ t ht => (⟨path, ht⟩ : Q t))
      fun t ht => (⟨path, ht⟩ : Q t)
    split_ifs
    · exact ((steady_pause modes _ []).mono (fun _ ht => ht) (fun _ _ ht => ht)
        fun _ ht => ⟨path, ht.holds⟩).bind fun _ => hdone
    · exact hdone

/-! ## The connection -/

/-- The client has descriptors and nothing else, whatever was said. -/
def Spent (modes : ℕ → ℕ) (c : Client) : Prop := ∃ talk, Idle modes talk c

theorem At.idle {talk : Talk} {fds : List ℕ} (h : At modes ⟨talk, fds, none, none, true⟩ [] c) :
    Idle modes talk c := by
  have hheld : fds = c.fds := by simpa using h.held
  rw [Idle, ← hheld]
  exact h

theorem does_idle {m : Task α} {talk talk' : Talk}
    (h : ∀ fds, Does Kept (At modes ⟨talk, fds, none, none, true⟩ []) m
      (fun _ => At modes ⟨talk', fds, none, none, true⟩ [])
      (Holds modes ⟨talk, fds, none, none, true⟩)) :
    Does Kept (Idle modes talk) m (fun _ => Idle modes talk') (Spent modes) := by
  refine does_of_forall fun c hc => ?_
  refine ((h c.fds).mono (fun _ ht => ht) (fun _ _ ht => ht.idle) ?_).restrict hc
  rintro t ⟨said, ht⟩
  exact ⟨said, ht.idle⟩

theorem does_idleSend {talk talk' : Talk} {values : List Value}
    (h : Speaks none talk values talk') :
    Does Kept (Idle modes talk) (send values) (fun _ => Idle modes talk') (Spent modes) :=
  does_idle fun fds => does_send (w := ⟨talk, fds, none, none, true⟩) h

theorem does_idleSteady {m : Task α} (h : Steady m) (modes : ℕ → ℕ) (talk : Talk) :
    Does Kept (Idle modes talk) m (fun _ => Idle modes talk) (Spent modes) :=
  does_idle fun _ => (h modes _ []).mono (fun _ ht => ht) (fun _ _ ht => ht) fun _ ht => ht.holds

theorem does_greet (modes : ℕ → ℕ) :
    Does Kept (Idle modes .start) greet (fun _ => Idle modes .ready) (Spent modes) := by
  refine (does_idleSend .hello).bind fun _ => ?_
  refine (does_idleSteady steady_receivePacket modes .ready).bind fun p => ?_
  refine (does_idleSteady (steady_parse _ _) modes .ready).bind fun parsed => ?_
  split
  split_ifs
  · exact (does_idleSteady (steady_parse _ _) modes .ready).bind fun _ => does_pure fun _ ht => ht
  · exact does_raise fun _ ht => ⟨_, ht⟩

theorem does_serve (host : Host) (modes : ℕ → ℕ) (fuel : ℕ) :
    Does Kept (Idle modes .ready) (serve host fuel) (fun _ => Spent modes) (Spent modes) := by
  induction fuel with
  | zero => exact does_wait fun _ ht => ht.kept
  | succ fuel ih =>
      refine (does_idleSteady steady_receivePacket modes .ready).bind fun p => ?_
      refine (does_idleSteady (steady_parse _ _) modes .ready).bind fun parsed => ?_
      obtain ⟨⟨kind, id⟩, p⟩ := parsed
      have hasked : Does Kept (Idle modes .ready) (note (.asked id))
          (fun _ => Idle modes (.owing id)) (Spent modes) :=
        does_idle fun fds => does_note (w := ⟨.ready, fds, none, none, true⟩) (.asked id rfl) rfl rfl
          rfl
      refine hasked.bind fun _ => ?_
      have hfinish := does_idleSteady (steady_parse finish p) modes (.owing id)
      split
      · refine hfinish.bind fun _ => ?_
        exact (does_idleSend (.alive id host.pid)).bind fun _ => ih
      · split
        · refine hfinish.bind fun _ => ?_
          refine (does_idleSend (.ok id)).bind fun _ => ?_
          have hstopped : Does Kept (Idle modes .over) (note .stopped) (fun _ => Idle modes .over)
              (Spent modes) :=
            does_idle fun fds => does_note (w := ⟨.over, fds, none, none, true⟩) (.stopped rfl) rfl
              rfl rfl
          exact hstopped.mono (fun _ ht => ht) (fun _ _ ht => ⟨_, ht⟩) fun _ ht => ht
        · split
          · exact (does_idleSend (.failure id _)).mono (fun _ ht => ht) (fun _ _ ht => ⟨_, ht⟩)
              fun _ ht => ht
          · refine (does_idleSteady (steady_parse _ p) modes (.owing id)).bind fun parsed => ?_
            obtain ⟨request, -⟩ := parsed
            have hfd : Does Kept (Idle modes (.owing id)) receiveFd
                (fun _ => Idle modes (.owing id)) (Spent modes) :=
              (does_receiveFd modes (.owing id)).mono (fun _ ht => ht) (fun _ _ ht => ht)
                fun _ ht => ⟨_, ht⟩
            refine hfd.bind fun _ => hfd.bind fun _ => hfd.bind fun _ => ?_
            refine does_of_forall fun c hc => ?_
            have hspent : ∀ t, Holds modes ⟨.owing id, c.fds, none, none, true⟩ t →
                Spent modes t := fun t ⟨talk, ht⟩ => ⟨talk, ht.idle⟩
            exact ((does_session host request rfl rfl rfl).mono (fun _ ht => ht)
              (fun _ t ht => hspent t ht) hspent).restrict hc

/-- The flags are as they were, and `fds` are left. -/
def Bare (modes : ℕ → ℕ) (fds : List ℕ) (c : Client) : Prop :=
  ∃ talk, Accepts c.trace ⟨talk, fds, none, none, true⟩ ∧ fds.Nodup ∧
    (∀ fd, (c.table fd).isSome = true ↔ fd ∈ fds) ∧ c.modes = modes

/-- The connection is closed, and everything was given back. -/
def Ended (modes : ℕ → ℕ) (c : Client) : Prop :=
  (∃ talk, Accepts c.trace ⟨talk, [], none, none, false⟩) ∧ (∀ fd, c.table fd = none) ∧
    c.modes = modes

theorem does_restoreAll {talk : Talk} {R : Client → Prop} (h : Idle modes talk c) :
    Does Kept (fun t => t = c) (c.flags.reverse.forM restore) (fun _ => Bare modes c.fds) R := by
  let I (rest : List NonBlocking) (t : Client) : Prop := t.trace = c.trace ∧ t.table = c.table ∧
    rest.foldl (fun modes item => restored c.table item modes) t.modes = modes
  have hstep : ∀ item rest, Does Kept (I (item :: rest)) (restore item) (fun _ => I rest) R := by
    intro item rest
    refine does_modify ?_
    rintro t ⟨htrace, htable, hmodes⟩
    refine ⟨htrace, htable, ?_⟩
    rw [List.foldl_cons, ← htable] at hmodes
    rw [← htable]
    exact hmodes
  refine (does_forM hstep c.flags.reverse).mono ?_ ?_ fun _ ht => ht
  · rintro t rfl
    refine ⟨rfl, rfl, ?_⟩
    rw [List.foldl_reverse]
    exact h.undo
  · rintro _ t ⟨htrace, htable, hmodes⟩
    refine ⟨talk, ?_, h.nodup, ?_, hmodes⟩
    · rw [htrace]
      exact h.accepted
    · rw [htable]
      exact h.table

theorem Bare.close {fds : List ℕ} (h : Bare modes (fd :: fds) c) :
    Bare modes fds
      { c with table := Function.update c.table fd none, trace := c.trace ++ [.closed fd] } := by
  obtain ⟨talk, haccepted, hnodup, htable, hmodes⟩ := h
  rw [List.nodup_cons] at hnodup
  have hclosed : Follows ⟨talk, fd :: fds, none, none, true⟩ (.closed fd) _ :=
    .closed List.mem_cons_self rfl rfl
  dsimp only at hclosed
  rw [List.erase_cons_head] at hclosed
  refine ⟨talk, haccepted.snoc hclosed, hnodup.2, fun fd' => ?_, hmodes⟩
  by_cases hfd : fd' = fd
  · subst hfd
    simpa using hnodup.1
  · dsimp only
    rw [Function.update_of_ne hfd, htable fd', List.mem_cons, or_iff_right hfd]

theorem does_cleanup (modes : ℕ → ℕ) :
    Does Kept (Spent modes) cleanup (fun _ => Ended modes) (Ended modes) := by
  refine does_get_bind fun c => ?_
  rintro ⟨talk, hidle⟩
  refine (does_restoreAll hidle).bind fun _ => ?_
  have hstep : ∀ fd rest, Does Kept (Bare modes (fd :: rest)) (Client.close fd)
      (fun _ => Bare modes rest) (Ended modes) :=
    fun fd rest => does_modify fun _ ht => ht.close
  refine (does_forM hstep c.fds).bind fun _ => does_modify ?_
  rintro t ⟨talk, haccepted, -, htable, hmodes⟩
  refine ⟨⟨talk, haccepted.snoc (.disconnected rfl rfl rfl rfl)⟩, fun fd => ?_, hmodes⟩
  have hclosed := htable fd
  simpa using hclosed

/-- A client that was just accepted. -/
def start (answers : List Awaited) (modes : ℕ → ℕ) : Client where
  answers := answers
  fds := []
  flags := []
  key := none
  path := none
  table _ := none
  modes := modes
  trace := []

theorem idle_start (answers : List Awaited) (modes : ℕ → ℕ) :
    Idle modes .start (start answers modes) where
  accepted := .nil
  held := rfl
  path := rfl
  connected := rfl
  nodup := List.nodup_nil
  table fd := by simp [start]
  flags item hitem := absurd hitem List.not_mem_nil
  undo := rfl

theorem does_run (host : Host) (modes : ℕ → ℕ) :
    Does Kept (Idle modes .start) (run host) (fun _ => Ended modes) (Ended modes) := by
  refine does_get_bind fun c hc => ?_
  refine Does.restrict ?_ hc
  have hserve : Does Kept (Idle modes .start) (do
      greet
      serve host (c.answers.length + 1)) (fun _ => Spent modes) (Spent modes) :=
    (does_greet modes).bind fun _ => does_serve host modes _
  exact does_andFinally (does_suppress hserve) (fun _ => does_cleanup modes) (does_cleanup modes)

/-- Where the run of a client leads. It waits where the answers end. -/
def final (host : Host) (answers : List Awaited) (modes : ℕ → ℕ) : Client :=
  match run host (start answers modes) with
  | .ok _ c => c
  | .error _ c => c

/-- Whatever the client, the remote side and the tasks do, a run has kept to the conversation and
to what a client may do so far. -/
theorem final_kept (host : Host) (answers : List Awaited) (modes : ℕ → ℕ) :
    (final host answers modes).Kept := by
  have hrun := does_run host modes
  have hstart := idle_start answers modes
  have hended : ∀ c, Ended modes c → c.Kept := fun c h => ⟨_, h.1.choose_spec⟩
  rw [final]
  rcases hresult : run host (start answers modes) with ⟨_, c⟩ | ⟨e | _, c⟩
  · exact hended c (hrun.ok hstart hresult)
  · exact hended c (hrun.raised hstart hresult)
  · exact hrun.waiting hstart hresult

/-- A run that does not wait any more has given everything back, also when it was cancelled. -/
theorem final_ended (host : Host) (answers : List Awaited) (modes : ℕ → ℕ) :
    Ended modes (final host answers modes) ∨
      ∃ c, run host (start answers modes) = .error .waiting c := by
  have hrun := does_run host modes
  have hstart := idle_start answers modes
  rw [final]
  rcases hresult : run host (start answers modes) with ⟨_, c⟩ | ⟨e | _, c⟩
  · exact .inl (hrun.ok hstart hresult)
  · exact .inl (hrun.raised hstart hresult)
  · exact .inr ⟨c, rfl⟩

/-- A client that leaves at once. -/
example : (final ⟨7, [], fun _ => false, fun _ => false⟩ [.done, .chunk []] fun _ => 0).trace =
    [.sent [code .hello, number 4], .disconnected] := by
  decide +kernel

end Client

end Mux

end Rmote
