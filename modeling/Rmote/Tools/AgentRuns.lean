import Rmote.Tools.Agent
import Rmote.Library.Machine
import Mathlib.Data.List.Nodup

/-!
# Runs of an agent session

What holds in every state of a session falls into parts, and each of them is about a few
fields only: the ids with the two limits, the transports with who closes them, the
socket that listens, the files, the stream of `accept` and the registry. `release` is the
step that touches all of them.
-/

namespace Rmote

namespace Agent

/-- The limits, and the ids behind them. -/
structure Counted (connections : List (String × ℕ)) (connecting : List String)
    (pending : List (Option String)) (connects : List ConnectTask) : Prop where
  limit : connections.length + connecting.length ≤ maxConnections
  queue : pending.length ≤ maxPending
  ids : (connections.map Prod.fst).Nodup
  distinct : connecting.Nodup
  apart : ∀ id ∈ connecting, id ∉ connections.map Prod.fst
  connects : connecting.Perm (connects.map ConnectTask.id)

/-- Every transport that is live has somebody who closes it. -/
structure Owned (connections : List (String × ℕ)) (live : List ℕ) (next : ℕ)
    (releases : List ReleaseTask) : Prop where
  nodup : (connections.map Prod.snd).Nodup
  opened : ∀ t ∈ connections.map Prod.snd, t ∈ live
  owned : ∀ t ∈ live, t ∈ connections.map Prod.snd ∨ ∃ task ∈ releases, t ∈ task.transports
  fresh : ∀ t ∈ live, t < next

/-- The socket listens for a server of an open session, or for one that is being started. -/
structure Served (listener : Listener) (closed server : Bool) (listens : List ListenTask) :
    Prop where
  listening : listener = .listening → (closed = false ∧ server = true) ∨ .starting ∈ listens

/-- The files are the path and the directory, and after the close somebody removes them. -/
structure Filed (files : List String) (path directory : String) (closed : Bool)
    (releases : List ReleaseTask) : Prop where
  known : ∀ f ∈ files, f = path ∨ f = directory
  unnamed : path = "" → files = []
  named : path ≠ "" → directory ≠ ""
  removed : closed = true → files ≠ [] → releases ≠ []

/-- At most one `accept` goes on, and it is woken where there is something in the queue. -/
structure Streamed (accepts : List AcceptTask) (accepting : Bool) (pending : List (Option String))
    (closed : Bool) : Prop where
  count : accepts.length = if accepting then 1 else 0
  awake : ∀ woken, .getting woken ∈ accepts → pending ≠ [] → woken = true
  closing : closed = true → ∀ woken, .getting woken ∈ accepts → pending = [none]

/-- A session is closed when it leaves the registry, and then it has no connections. -/
structure Registry (started registered closed : Bool) (connections : List (String × ℕ))
    (releases : List ReleaseTask) : Prop where
  known : registered = true → started = true
  opened : registered = true → closed = false
  unstarted : started = false → closed = false
  released : started = true → registered = false → closed = true
  emptied : closed = true → connections = []
  releasing : releases ≠ [] → closed = true

/-- What holds in every state. -/
structure Inv (a : Agent) : Prop where
  counted : Counted a.session.connections a.session.connecting a.session.pending a.connects
  owned : Owned a.session.connections a.live a.next a.releases
  served : Served a.listener a.session.closed a.session.server a.listens
  filed : Filed a.files a.session.path a.session.directory a.session.closed a.releases
  streamed : Streamed a.accepts a.session.accepting a.session.pending a.session.closed
  registry : Registry a.started a.registered a.session.closed a.session.connections a.releases

variable {a : Agent} {id : String}

theorem inv_init : init.Inv where
  counted := ⟨by decide, by decide, List.nodup_nil, List.nodup_nil,
    by simp [init, AgentSession.new], .refl _⟩
  owned := ⟨List.nodup_nil, by simp [init, AgentSession.new], by simp [init], by simp [init]⟩
  served := ⟨by simp [init]⟩
  filed := ⟨by simp [init], fun _ => rfl, fun h => absurd rfl h, by simp [init]⟩
  streamed := ⟨rfl, by simp [init], by simp [init]⟩
  registry := ⟨by simp [init], by simp [init], fun _ => rfl, by simp [init], fun _ => rfl,
    by simp [init]⟩

theorem getting_mem_wake {accepts : List AcceptTask} {woken : Bool}
    (h : .getting woken ∈ accepts.map AcceptTask.wake) : woken = true := by
  obtain ⟨task, -, htask⟩ := List.mem_map.mp h
  cases task with
  | getting _ => exact (AcceptTask.getting.inj htask).symm
  | yielded => cases htask

/-- What `release` makes of a session that is registered. -/
theorem release_eq (hregistered : a.registered = true) (hclosed : a.session.closed = false) :
    a.release = { a with
      registered := false
      session := { a.session with closed := true, pending := [none], connections := [] }
      listener := if a.session.server then .closed else a.listener
      accepts := a.accepts.map AcceptTask.wake
      releases := a.releases ++ [.gathering a.transports] } := by
  unfold release sessionClose putNowait
  rw [if_pos hregistered]
  simp only [hclosed, Bool.false_eq_true, if_false, List.nil_append]
  rfl

/-- A release leaves nothing registered, and hands the transports and the files on. -/
theorem inv_release (h : a.Inv) : a.release.Inv := by
  cases hregistered : a.registered with
  | false =>
      have hsame : a.release = a := by simp [release, hregistered]
      rw [hsame]
      exact h
  | true =>
      rw [release_eq hregistered (h.registry.opened hregistered)]
      refine ⟨?_, ?_, ⟨fun hlistening => ?_⟩, ?_, ?_, ?_⟩
      · have hlength := h.counted.limit
        exact ⟨by simp only [List.length_nil]; omega, Nat.le_of_ble_eq_true rfl, List.nodup_nil,
          h.counted.distinct, fun _ _ => List.not_mem_nil, h.counted.connects⟩
      · refine ⟨List.nodup_nil, fun t ht => absurd ht List.not_mem_nil, fun t ht => ?_,
          h.owned.fresh⟩
        rcases h.owned.owned t ht with hopen | ⟨task, htask, hmem⟩
        · exact .inr ⟨.gathering a.transports, by simp, hopen⟩
        · exact .inr ⟨task, List.mem_append_left _ htask, hmem⟩
      · cases hserver : a.session.server with
        | true => simp [hserver] at hlistening
        | false =>
            simp only [hserver, Bool.false_eq_true, if_false] at hlistening
            refine .inr ((h.served.listening hlistening).resolve_left fun hopen => ?_)
            rw [hserver] at hopen
            cases hopen.2
      · exact ⟨h.filed.known, h.filed.unnamed, h.filed.named, fun _ _ => by simp⟩
      · refine ⟨?_, fun woken hmem _ => getting_mem_wake hmem, fun _ _ _ => rfl⟩
        rw [List.length_map]
        exact h.streamed.count
      · refine ⟨by simp, by simp, fun hstarted => ?_, fun _ _ => rfl, fun _ => rfl, fun _ => rfl⟩
        rw [h.registry.known hregistered] at hstarted
        cases hstarted

/-- The end of a `listen` that raises; its server needs nobody any more. -/
theorem inv_undoListen (h : ({ a with listener := .closed } : Agent).Inv) : a.undoListen.Inv :=
  inv_release h

theorem inv_start (h : a.Inv) : a.start.1.Inv := by
  unfold start
  split_ifs with hregistered hstarted
  · exact h
  · exact h
  · refine ⟨h.counted, h.owned, h.served, h.filed, h.streamed, ?_⟩
    rw [Bool.not_eq_true] at hstarted
    have hclosed := h.registry.unstarted hstarted
    refine ⟨fun _ => rfl, fun _ => hclosed, by simp, by simp, h.registry.emptied,
      h.registry.releasing⟩

theorem known_eq_true (h : ¬a.known = false) : a.registered = true ∧ a.session.closed = false := by
  simpa [known] using h

theorem inv_listen (h : a.Inv) (suffix : String) (outcome : ListenStart) :
    (a.listen suffix outcome).1.Inv := by
  unfold listen
  split_ifs with hknown hpath
  · exact h
  · exact h
  · rw [not_not] at hpath
    have hclosed := (known_eq_true hknown).2
    have hfiles := h.filed.unnamed hpath
    have hmade (files : List String)
        (hmem : ∀ f ∈ files, f = "/tmp/rmote-agent-" ++ suffix ++ "/agent.sock" ∨
          f = "/tmp/rmote-agent-" ++ suffix) :
        Filed files ("/tmp/rmote-agent-" ++ suffix ++ "/agent.sock")
          ("/tmp/rmote-agent-" ++ suffix) a.session.closed a.releases := by
      refine ⟨hmem, fun hempty => ?_, fun _ hempty => ?_, fun hc => ?_⟩
      · simp at hempty
      · simp at hempty
      · rw [hclosed] at hc
        cases hc
    have hdirectory := hmade (a.files ++ ["/tmp/rmote-agent-" ++ suffix]) (by simp [hfiles])
    have hbound := hmade (a.files ++ ["/tmp/rmote-agent-" ++ suffix] ++
      ["/tmp/rmote-agent-" ++ suffix ++ "/agent.sock"]) (by simp [hfiles])
    cases outcome with
    | noDirectory => exact h
    | noSocket => exact ⟨h.counted, h.owned, h.served, hdirectory, h.streamed, h.registry⟩
    | noBind =>
        refine inv_undoListen ?_
        exact ⟨h.counted, h.owned, ⟨by simp⟩, hdirectory, h.streamed, h.registry⟩
    | noChmod =>
        refine inv_undoListen ?_
        exact ⟨h.counted, h.owned, ⟨by simp⟩, hbound, h.streamed, h.registry⟩
    | waits =>
        exact ⟨h.counted, h.owned, ⟨fun _ => .inr (by simp)⟩, hbound, h.streamed, h.registry⟩

theorem inv_resumeListen (h : a.Inv) (task : ListenTask) (outcome : AwaitOutcome) :
    (a.resumeListen task outcome).1.Inv := by
  have hended : ({ a with listens := a.listens.erase task, listener := .closed } : Agent).Inv :=
    ⟨h.counted, h.owned, ⟨by simp⟩, h.filed, h.streamed, h.registry⟩
  unfold resumeListen
  cases task with
  | refusing => cases outcome <;> exact inv_undoListen hended
  | starting =>
      cases outcome with
      | failed => exact inv_undoListen hended
      | done =>
          dsimp only
          split_ifs with hclosed
          · exact ⟨h.counted, h.owned, ⟨by simp⟩, h.filed, h.streamed, h.registry⟩
          · rw [Bool.not_eq_true] at hclosed
            exact ⟨h.counted, h.owned, ⟨fun _ => .inl ⟨hclosed, rfl⟩⟩, h.filed, h.streamed,
              h.registry⟩

/-- The ids with one more. -/
theorem ids_append {t : ℕ} (h : a.ids.Nodup) (hid : id ∉ a.ids) :
    ((a.session.connections ++ [(id, t)]).map Prod.fst).Nodup ∧
      ∀ k, k ∉ a.ids → k ≠ id → k ∉ (a.session.connections ++ [(id, t)]).map Prod.fst := by
  rw [List.map_append, List.map_singleton]
  refine ⟨List.nodup_append.mpr ⟨h, by simp, fun k hk l hl => ?_⟩, fun k hk hne hmem => ?_⟩
  · rintro rfl
    have hkey : k = id := List.mem_singleton.mp hl
    exact hid (hkey ▸ hk)
  · rcases List.mem_append.mp hmem with hmem | hmem
    · exact hk hmem
    · exact hne (List.mem_singleton.mp hmem)

/-- A connection under an id that is not in use, with a transport of its own. -/
theorem registered_connection (h : a.Inv) (hid : id ∉ a.ids) :
    Assoc.put id a.next a.session.connections = a.session.connections ++ [(id, a.next)] ∧
    Owned (a.session.connections ++ [(id, a.next)]) (a.live ++ [a.next]) (a.next + 1)
      a.releases := by
  refine ⟨Assoc.put_of_notMem hid, ?_, ?_, ?_, ?_⟩
  · rw [List.map_append, List.nodup_append]
    refine ⟨h.owned.nodup, by simp, fun t ht u hu => ?_⟩
    rw [List.map_singleton, List.mem_singleton] at hu
    have hlt := h.owned.fresh t (h.owned.opened t ht)
    omega
  · intro t ht
    rw [List.map_append, List.mem_append] at ht
    exact List.mem_append.mpr (ht.imp (h.owned.opened t) (by simp))
  · intro t ht
    rw [List.map_append]
    rcases List.mem_append.mp ht with ht | ht
    · exact Or.imp_left (List.mem_append_left _) (h.owned.owned t ht)
    · exact .inl (List.mem_append_right _ (by simpa using ht))
  · intro t ht
    rcases List.mem_append.mp ht with ht | ht
    · exact Nat.lt_succ_of_lt (h.owned.fresh t ht)
    · rw [List.mem_singleton.mp ht]
      exact Nat.lt_succ_self _

/-- A transport that is closed at once is a number that is used up. -/
theorem Owned.next (h : Owned a.session.connections a.live a.next a.releases) :
    Owned a.session.connections a.live (a.next + 1) a.releases :=
  ⟨h.nodup, h.opened, h.owned, fun t ht => Nat.lt_succ_of_lt (h.fresh t ht)⟩

theorem inv_connected (h : a.Inv) (hid : id ∉ a.ids) (hnew : id ∉ a.session.connecting) :
    (a.connected id).Inv := by
  unfold connected
  dsimp only
  split_ifs with hrefuse
  · exact ⟨h.counted, h.owned.next, h.served, h.filed, h.streamed, h.registry⟩
  · simp only [not_or, Nat.not_le, Bool.not_eq_true] at hrefuse
    obtain ⟨hclosed, hfull, hpending⟩ := hrefuse
    have hroom : a.session.connections.length + a.session.connecting.length < maxConnections := by
      simpa [full] using hfull
    obtain ⟨hput, howned⟩ := registered_connection h hid
    obtain ⟨hids, hother⟩ := ids_append (t := a.next) h.counted.ids hid
    have hcounted : Counted (a.session.connections ++ [(id, a.next)]) a.session.connecting
        (a.session.pending ++ [some id]) a.connects := by
      refine ⟨?_, ?_, hids, h.counted.distinct, fun k hk => ?_, h.counted.connects⟩
      · rw [List.length_append, List.length_singleton]
        omega
      · rw [List.length_append, List.length_singleton]
        omega
      · exact hother k (h.counted.apart k hk) fun heq => hnew (heq ▸ hk)
    rw [hput]
    refine ⟨hcounted, howned, h.served, h.filed, ?_, ?_⟩
    · refine ⟨?_, fun woken hmem _ => getting_mem_wake hmem, fun hc => ?_⟩
      · exact (List.length_map _).trans h.streamed.count
      · rw [hclosed] at hc
        cases hc
    · refine ⟨h.registry.known, h.registry.opened, h.registry.unstarted, h.registry.released,
        fun hc => ?_, h.registry.releasing⟩
      rw [hclosed] at hc
      cases hc

theorem inv_connect (h : a.Inv) (path id : String) : (a.connect path id).1.Inv := by
  unfold connect
  split_ifs with hknown hpath hused hfull
  · exact h
  · exact h
  · exact h
  · exact h
  · rw [not_or] at hused
    have hroom : a.session.connections.length + a.session.connecting.length < maxConnections := by
      simpa [full] using hfull
    have hcounted : Counted a.session.connections (a.session.connecting ++ [id])
        a.session.pending (a.connects ++ [.opening id]) := by
      refine ⟨?_, h.counted.queue, h.counted.ids, ?_, fun k hk => ?_, ?_⟩
      · rw [List.length_append, List.length_singleton]
        omega
      · refine List.nodup_append.mpr ⟨h.counted.distinct, by simp, fun k hk l hl => ?_⟩
        rintro rfl
        exact hused.2 (List.mem_singleton.mp hl ▸ hk)
      · rcases List.mem_append.mp hk with hk | hk
        · exact h.counted.apart k hk
        · rw [List.mem_singleton.mp hk]
          exact hused.1
      · rw [List.map_append]
        exact h.counted.connects.append_right _
    exact ⟨hcounted, h.owned, h.served, h.filed, h.streamed, h.registry⟩

/-- The ids that are being connected, without one of them. -/
theorem perm_erase {connecting : List String} {connects : List ConnectTask} {task : ConnectTask}
    (h : connecting.Perm (connects.map ConnectTask.id)) (htask : task ∈ connects) :
    (connecting.erase task.id).Perm ((connects.erase task).map ConnectTask.id) := by
  have hall : (connects.map ConnectTask.id).Perm
      (task.id :: (connects.erase task).map ConnectTask.id) :=
    (List.perm_cons_erase htask).map ConnectTask.id
  have herase := (h.trans hall).erase task.id
  rwa [List.erase_cons_head] at herase

/-- What is left of the counts when a `connect` ends. -/
theorem Counted.endConnect (h : Counted a.session.connections a.session.connecting
    a.session.pending a.connects) {task : ConnectTask} (htask : task ∈ a.connects) :
    Counted a.session.connections (a.session.connecting.erase task.id) a.session.pending
      (a.connects.erase task) := by
  refine ⟨?_, h.queue, h.ids, h.distinct.erase task.id,
    fun k hk => h.apart k (List.mem_of_mem_erase hk), perm_erase h.connects htask⟩
  have hlength := List.length_erase_le (a := task.id) (l := a.session.connecting)
  have hlimit := h.limit
  omega

theorem inv_resumeConnect (h : a.Inv) {task : ConnectTask} (htask : task ∈ a.connects)
    (outcome : AwaitOutcome) : (a.resumeConnect task outcome).1.Inv := by
  have hended := h.counted.endConnect htask
  have hmem : task.id ∈ a.session.connecting := by
    rw [h.counted.connects.mem_iff]
    exact List.mem_map_of_mem htask
  unfold resumeConnect
  cases task with
  | discarding id =>
      cases outcome <;>
        exact ⟨hended, h.owned, h.served, h.filed, h.streamed, h.registry⟩
  | opening id =>
      cases outcome with
      | failed => exact ⟨hended, h.owned, h.served, h.filed, h.streamed, h.registry⟩
      | done =>
          dsimp only
          split_ifs with hclosed
          · refine ⟨⟨h.counted.limit, h.counted.queue, h.counted.ids, h.counted.distinct,
              h.counted.apart, ?_⟩, h.owned.next, h.served, h.filed, h.streamed, h.registry⟩
            have hperm := (List.perm_cons_erase htask).map ConnectTask.id
            rw [List.map_append]
            exact (h.counted.connects.trans hperm).trans (List.perm_append_singleton _ _).symm
          · have hid : id ∉ a.ids := h.counted.apart id hmem
            obtain ⟨hput, howned⟩ := registered_connection h hid
            obtain ⟨hids, hother⟩ := ids_append (t := a.next) h.counted.ids hid
            have hcounted : Counted (a.session.connections ++ [(id, a.next)])
                (a.session.connecting.erase id) a.session.pending
                (a.connects.erase (.opening id)) := by
              refine ⟨?_, h.counted.queue, hids, hended.distinct, fun k hk => ?_, hended.connects⟩
              · have hlength := List.length_erase_of_mem hmem
                have hpos := List.length_pos_of_mem hmem
                have hlimit := h.counted.limit
                simp only [ConnectTask.id] at hlength
                rw [List.length_append, List.length_singleton, hlength]
                omega
              · obtain ⟨hne, hk⟩ := h.counted.distinct.mem_erase_iff.mp hk
                exact hother k (h.counted.apart k hk) hne
            rw [hput]
            refine ⟨hcounted, howned, h.served, h.filed, h.streamed, h.registry.known,
              h.registry.opened, h.registry.unstarted, h.registry.released,
              fun hc => absurd hc hclosed, h.registry.releasing⟩

/-- An `accept` that goes on is the only one. -/
theorem accepts_eq (h : a.Inv) {task : AcceptTask} (htask : task ∈ a.accepts) :
    a.accepts = [task] ∧ a.session.accepting = true := by
  have hcount := h.streamed.count
  have hpos := List.length_pos_of_mem htask
  split_ifs at hcount with haccepting
  · obtain ⟨only, honly⟩ := List.length_eq_one_iff.mp hcount
    rw [honly, List.mem_singleton] at htask
    exact ⟨by rw [honly, htask], haccepting⟩
  · omega

/-- An `accept` of an open session awaits the queue. -/
theorem streamed_get (pending : List (Option String)) :
    Streamed [.getting !pending.isEmpty] true pending false := by
  refine ⟨rfl, fun woken hmem hpending => ?_, by simp⟩
  rw [AcceptTask.getting.inj (List.mem_singleton.mp hmem)]
  simpa using hpending

/-- The queue without its first item. -/
theorem Counted.tail {item : Option String} {pending : List (Option String)}
    (h : Counted a.session.connections a.session.connecting (item :: pending) a.connects) :
    Counted a.session.connections a.session.connecting pending a.connects :=
  ⟨h.limit, Nat.le_of_succ_le h.queue, h.ids, h.distinct, h.apart, h.connects⟩

/-- The end of an `accept`, with what it left in the queue. -/
theorem inv_endAccept (h : a.Inv) {pending : List (Option String)}
    (hcounted : Counted a.session.connections a.session.connecting pending a.connects) :
    ({ a with
      session := { a.session with pending := pending }
      accepts := [] } : Agent).endAccept.Inv := by
  unfold endAccept
  refine inv_release ?_
  exact ⟨hcounted, h.owned, h.served, h.filed, ⟨rfl, by simp, by simp⟩, h.registry⟩

theorem inv_acceptLoop (h : a.Inv) (haccepting : a.session.accepting = true)
    {pending : List (Option String)}
    (hcounted : Counted a.session.connections a.session.connecting pending a.connects) :
    ({ a with
      session := { a.session with pending := pending }
      accepts := [] } : Agent).acceptLoop.1.Inv := by
  unfold acceptLoop
  split_ifs with hclosed
  · exact inv_endAccept h hcounted
  · rw [Bool.not_eq_true] at hclosed
    refine ⟨hcounted, h.owned, h.served, h.filed, ?_, h.registry⟩
    have hget := streamed_get pending
    rw [← haccepting, ← hclosed] at hget
    exact hget

theorem inv_accept (h : a.Inv) : a.accept.1.Inv := by
  unfold accept
  split_ifs with hknown hserver haccepting
  · exact h
  · exact h
  · exact h
  · have hclosed := (known_eq_true hknown).2
    rw [Bool.not_eq_true] at haccepting
    have hnone : a.accepts = [] := by
      have hcount := h.streamed.count
      rw [haccepting] at hcount
      exact List.length_eq_zero_iff.mp hcount
    refine ⟨h.counted, h.owned, h.served, h.filed, ?_, h.registry⟩
    have hget := streamed_get a.session.pending
    rw [← hclosed] at hget
    simpa [get, hnone] using hget

theorem inv_resumeAccept (h : a.Inv) {task : AcceptTask} (htask : task ∈ a.accepts)
    (outcome : AwaitOutcome) : (a.resumeAccept task outcome).1.Inv := by
  obtain ⟨haccepts, haccepting⟩ := accepts_eq h htask
  have herase : a.accepts.erase task = [] := by
    rw [haccepts, List.erase_cons_head]
  unfold resumeAccept
  rw [herase]
  cases task with
  | yielded =>
      cases outcome with
      | done => exact inv_acceptLoop h haccepting h.counted
      | failed => exact inv_endAccept h h.counted
  | getting woken =>
      cases outcome with
      | failed => exact inv_endAccept h h.counted
      | done =>
          dsimp only
          cases hpending : a.session.pending with
          | nil =>
              have hclosed : a.session.closed = false := by
                by_contra hclosed
                rw [Bool.not_eq_false] at hclosed
                have hnone := h.streamed.closing hclosed woken htask
                rw [hpending] at hnone
                cases hnone
              refine ⟨h.counted, h.owned, h.served, h.filed, ?_, h.registry⟩
              have hget := streamed_get a.session.pending
              rw [← haccepting, ← hclosed] at hget
              exact hget
          | cons item pending =>
              have hcounted := h.counted
              rw [hpending] at hcounted
              cases item with
              | none => exact inv_endAccept h hcounted.tail
              | some id =>
                  dsimp only
                  split_ifs with hmem
                  · refine ⟨hcounted.tail, h.owned, h.served, h.filed, ?_, h.registry⟩
                    rw [haccepting]
                    exact ⟨rfl, by simp, by simp⟩
                  · exact inv_acceptLoop h haccepting hcounted.tail

/-- A connection that is taken out of the session is closed at once. -/
theorem inv_close (h : a.Inv) (id : String) : (a.close id).1.Inv := by
  unfold close
  split_ifs with hregistered
  · exact h
  · rw [Bool.not_eq_false] at hregistered
    cases hget : Assoc.get a.session.connections id with
    | none => exact h
    | some t =>
        have hmem : (id, t) ∈ a.session.connections := Assoc.mem_of_lookup hget
        have hsub : (Assoc.del id a.session.connections).Sublist a.session.connections :=
          List.filter_sublist
        have hgone : t ∉ (Assoc.del id a.session.connections).map Prod.snd := by
          intro hmem'
          obtain ⟨c, hc, hsnd⟩ := List.mem_map.mp hmem'
          obtain ⟨hc, hne⟩ := List.mem_filter.mp hc
          obtain rfl := List.inj_on_of_nodup_map h.owned.nodup hc hmem hsnd
          simp at hne
        have hlength := hsub.length_le
        have hlimit := h.counted.limit
        have hcounted : Counted (Assoc.del id a.session.connections) a.session.connecting
            a.session.pending a.connects :=
          ⟨by omega, h.counted.queue, h.counted.ids.sublist (hsub.map Prod.fst),
            h.counted.distinct,
            fun k hk hmem => h.counted.apart k hk ((hsub.map Prod.fst).subset hmem),
            h.counted.connects⟩
        have howned : Owned (Assoc.del id a.session.connections) (a.live.filter (· ∉ [t])) a.next
            a.releases := by
          refine ⟨h.owned.nodup.sublist (hsub.map Prod.snd), fun u hu => ?_, fun u hu => ?_,
            fun u hu => h.owned.fresh u (List.mem_of_mem_filter hu)⟩
          · have hlive := h.owned.opened u ((hsub.map Prod.snd).subset hu)
            refine List.mem_filter.mpr ⟨hlive, ?_⟩
            have hne : u ≠ t := fun heq => hgone (heq ▸ hu)
            simpa using hne
          · obtain ⟨hlive, hne⟩ := List.mem_filter.mp hu
            refine Or.imp_left (fun hopen => ?_) (h.owned.owned u hlive)
            obtain ⟨c, hc, rfl⟩ := List.mem_map.mp hopen
            refine List.mem_map_of_mem (List.mem_filter.mpr ⟨hc, decide_eq_true fun hkey => ?_⟩)
            obtain rfl := List.inj_on_of_nodup_map h.counted.ids hc hmem hkey
            simp at hne
        have hopen := h.registry.opened hregistered
        exact ⟨hcounted, howned, h.served, h.filed, h.streamed, h.registry.known,
          h.registry.opened, h.registry.unstarted, h.registry.released,
          fun hclosed => absurd (hopen.symm.trans hclosed) Bool.false_ne_true,
          h.registry.releasing⟩

/-- The transports that a close hands on are closed. -/
theorem Owned.shut {task : ReleaseTask} (h : a.Inv) (htask : task ∈ a.releases) :
    Owned a.session.connections (a.live.filter (· ∉ task.transports)) a.next
      (a.releases.erase task) := by
  have hnone := h.registry.emptied (h.registry.releasing (List.ne_nil_of_mem htask))
  rw [hnone]
  refine ⟨List.nodup_nil, fun t ht => absurd ht List.not_mem_nil, fun t ht => ?_,
    fun t ht => h.owned.fresh t (List.mem_of_mem_filter ht)⟩
  obtain ⟨hlive, hout⟩ := List.mem_filter.mp ht
  rcases h.owned.owned t hlive with hopen | ⟨other, hother, hmem⟩
  · rw [hnone] at hopen
    exact absurd hopen List.not_mem_nil
  · have hne : other ≠ task := by
      rintro rfl
      simp [hmem] at hout
    exact .inr ⟨other, (List.mem_erase_of_ne hne).mpr hother, hmem⟩

theorem inv_resumeRelease (h : a.Inv) {task : ReleaseTask} (htask : task ∈ a.releases)
    (outcome : AwaitOutcome) : (a.resumeRelease task outcome).1.Inv := by
  have hclosed := h.registry.releasing (List.ne_nil_of_mem htask)
  have howned := Owned.shut h htask
  have hcleanup :
      (({ a with releases := a.releases.erase task } : Agent).cleanup task.transports).Inv := by
    have hfiles : (({ a with releases := a.releases.erase task } : Agent).cleanup
        task.transports).files = [] := by
      simp only [cleanup]
      by_cases hpath : a.session.path = ""
      · simp [hpath, h.filed.unnamed hpath]
      · rw [if_pos hpath, if_pos (h.filed.named hpath), List.filter_filter,
          List.filter_eq_nil_iff]
        intro f hf
        rcases h.filed.known f hf with rfl | rfl
        · simp
        · simp
    refine ⟨h.counted, howned, h.served, ?_, h.streamed, h.registry.known, h.registry.opened,
      h.registry.unstarted, h.registry.released, h.registry.emptied, fun _ => hclosed⟩
    rw [hfiles]
    exact ⟨by simp, fun _ => rfl, h.filed.named, fun _ hne => absurd rfl hne⟩
  unfold resumeRelease
  cases task with
  | waiting ts => cases outcome <;> exact hcleanup
  | gathering ts =>
      cases outcome with
      | failed => exact hcleanup
      | done =>
          dsimp only
          split_ifs with hserver
          · refine ⟨h.counted, ⟨howned.nodup, howned.opened, fun t ht => ?_, howned.fresh⟩,
              h.served, ⟨h.filed.known, h.filed.unnamed, h.filed.named, fun _ _ => by simp [shut]⟩,
              h.streamed, h.registry.known, h.registry.opened, h.registry.unstarted, h.registry.released,
              h.registry.emptied, fun _ => hclosed⟩
            refine Or.imp_right (fun hother => ?_) (howned.owned t ht)
            obtain ⟨other, hother, hmem⟩ := hother
            exact ⟨other, List.mem_append_left _ hother, hmem⟩
          · exact hcleanup

theorem inv_of_eq {p : Agent × AgentReply} {b : Agent} {r : AgentReply} (h : p.1.Inv)
    (heq : some p = some (b, r)) : b.Inv := by
  obtain rfl := Option.some.inj heq
  exact h

/-- What one step preserves. -/
theorem inv_step (h : a.Inv) {e : AgentEvent} {b : Agent} {r : AgentReply}
    (hstep : a.step e = some (b, r)) : b.Inv := by
  cases e with
  | start => exact inv_of_eq (inv_start h) hstep
  | listen suffix outcome =>
      exact inv_of_eq (inv_listen h suffix outcome) hstep
  | connected id =>
      rw [step] at hstep
      split_ifs at hstep with hnew
      exact inv_of_eq (p := (a.connected id, _)) (inv_connected h hnew.2.1 hnew.2.2) hstep
  | connect path id => exact inv_of_eq (inv_connect h path id) hstep
  | accept => exact inv_of_eq (inv_accept h) hstep
  | close id => exact inv_of_eq (inv_close h id) hstep
  | release => exact inv_of_eq (p := (a.release, _)) (inv_release h) hstep
  | resumeListen task outcome =>
      rw [step] at hstep
      split_ifs at hstep
      exact inv_of_eq (inv_resumeListen h task outcome) hstep
  | resumeConnect task outcome =>
      rw [step] at hstep
      split_ifs at hstep with htask
      exact inv_of_eq (inv_resumeConnect h htask outcome) hstep
  | resumeAccept task outcome =>
      rw [step] at hstep
      split_ifs at hstep with htask
      exact inv_of_eq (inv_resumeAccept h htask.1 outcome) hstep
  | resumeClose transport outcome =>
      rw [step] at hstep
      split_ifs at hstep
      all_goals
        obtain ⟨rfl, -⟩ := Prod.mk.inj (Option.some.inj hstep)
        exact ⟨h.counted, h.owned, h.served, h.filed, h.streamed, h.registry⟩
  | resumeRelease task outcome =>
      rw [step] at hstep
      split_ifs at hstep with htask
      exact inv_of_eq (inv_resumeRelease h htask outcome) hstep

/-- The state after one event, whatever the caller gets. -/
def advance (a : Agent) (e : AgentEvent) : Option Agent := (a.step e).map Prod.fst

theorem inv_advance (h : a.Inv) {e : AgentEvent} {b : Agent} (hnext : a.advance e = some b) :
    b.Inv := by
  obtain ⟨⟨c, r⟩, hstep, rfl⟩ := Option.map_eq_some_iff.mp hnext
  exact inv_step h hstep

theorem inv_run {b : Agent} {es : List AgentEvent} (hrun : Machine.run advance init es = some b) :
    b.Inv :=
  Machine.run_always Inv (fun _ _ _ h hnext => inv_advance h hnext) hrun inv_init

end Agent

end Rmote
