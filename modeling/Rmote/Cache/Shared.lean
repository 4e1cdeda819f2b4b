import Rmote.Cache.Directory
import Rmote.Cache.Read
import Rmote.Library.Counting
import Rmote.Library.Linear
import Rmote.Library.Machine

/-!
# Processes that share a directory

Several processes and threads use one `JSONCacheDir`. A call takes the lock of its namespace,
reads the document, and a write puts the new text in a temporary file before it replaces the
document. A process may be killed at any step: the kernel gives its locks back, and its temporary
file stays. A disk may fail while a file is read or written.
-/

namespace Rmote

namespace Cache

/-- The namespace of a call. -/
def Operation.ns : Operation → String
  | .setMany ns _ => ns
  | .set ns _ _ => ns
  | .delete ns _ => ns
  | .getMany ns _ => ns
  | .get ns _ => ns

/-- What `write_entries` is called with. -/
def Operation.changes : Operation → Option (List (String × Option CacheEntry))
  | .setMany _ batch => some (batch.entries.map fun e => (e.1, some e.2))
  | .set _ key entry => some [(key, some entry)]
  | .delete _ key => some [(key, none)]
  | .getMany _ _ => none
  | .get _ _ => none

namespace JSONCacheDir

def lockName (ns : String) : String := quote ns ++ ".lock"

/-- The new text of a document; `none` when nothing changed. -/
def rewrite (c : Classes) (text : Option Json) (entries : List (String × Option CacheEntry)) :
    Except Failure (Option Json) :=
  match Assoc.traverse encodeEntry entries with
  | .error failure => .error failure
  | .ok encoded =>
      match parsePlain text with
      | .error failure => .error failure
      | .ok document =>
          match mergeAll (asDict document) false encoded with
          | .error failure => .error failure
          | .ok (document, changed) =>
              if changed then (Cache.dumps c (.dict document)).map some else .ok none

/-- What a write answers before it takes the lock: a batch that cannot be encoded, or is empty. -/
def immediateWrite (changes : List (String × Option CacheEntry)) : Option Outcome :=
  match Assoc.traverse encodeEntry changes with
  | .error failure => some (.raised failure)
  | .ok [] => some .done
  | .ok _ => none

/-- A read of no keys takes no lock either. -/
def immediate : Operation → Option Outcome
  | .setMany _ batch => immediateWrite (batch.entries.map fun e => (e.1, some e.2))
  | .set _ key entry => immediateWrite [(key, some entry)]
  | .delete _ key => immediateWrite [(key, none)]
  | .getMany _ keys => if keys = some [] then some (.entries []) else none
  | .get _ _ => none

end JSONCacheDir

namespace Shared

open JSONCacheDir

/-- Where a call stands. -/
inductive Phase where
  | calling
  | locked
  /-- A write has the text of the new document. -/
  | ready (text : Json)
  /-- The temporary file holds the text in part, or whole. -/
  | writing (temporary : String) (text : Json) (whole : Bool)
  | unlocking (outcome : Outcome)
  /-- The disk failed. -/
  | failing
  | returned (outcome : Outcome)
  | failed
  /-- The process was killed, and a temporary file that it had stays. -/
  | killed (temporary : Option String)

/-- The call has the lock of its namespace. -/
def Phase.holds : Phase → Bool
  | calling | returned _ | failed | killed _ => false
  | locked | ready _ | writing _ _ _ | unlocking _ | failing => true

/-- The temporary file of the call. -/
def Phase.temporary : Phase → Option String
  | writing temporary _ _ => some temporary
  | killed temporary => temporary
  | _ => none

structure Process where
  op : Operation
  phase : Phase

end Shared

/-- The directory with its locks, and the calls on it. `temporaries` are the files that no
document is, `none` while one is written, and `log` has the calls in the order in which they took
effect. -/
structure Shared where
  files : List (String × Json)
  temporaries : List (String × Option Json)
  locks : String → Option ℕ
  processes : List Shared.Process
  log : List (ℕ × Operation × Outcome)

namespace Shared

open JSONCacheDir Counting

inductive Event where
  | call (op : Operation)
  | acquire (i : ℕ)
  /-- The document is read, and a write merges its batch. -/
  | work (i : ℕ)
  | create (i : ℕ) (temporary : String)
  | write (i : ℕ)
  | replace (i : ℕ)
  | unlock (i : ℕ)
  | fail (i : ℕ)
  | kill (i : ℕ)

def init (files : List (String × Json)) : Shared where
  files := files
  temporaries := []
  locks _ := none
  processes := []
  log := []

/-- The lock of a namespace, for a call in a phase or for nobody. -/
def relock (s : Shared) (i : ℕ) (op : Operation) (phase : Phase) : String → Option ℕ :=
  Function.update s.locks (lockName op.ns) (if phase.holds then some i else none)

/-- A call goes on, with its lock or without. -/
def move (s : Shared) (i : ℕ) (q : Process) (phase : Phase) : Shared :=
  { s with
    processes := s.processes.set i { q with phase := phase }
    locks := if q.phase.holds ∨ phase.holds then s.relock i q.op phase else s.locks }

/-- A call takes effect. -/
def commit (s : Shared) (i : ℕ) (q : Process) (outcome : Outcome) : Shared :=
  { s with log := s.log ++ [(i, q.op, outcome)] }

/-- What a call does with the document that it read. -/
def perform (c : Classes) (s : Shared) (i : ℕ) (q : Process) : Shared :=
  match q.op.changes with
  | none =>
      (s.commit i q ((backend c).perform s.files q.op).2).move i q
        (.unlocking ((backend c).perform s.files q.op).2)
  | some changes =>
      match rewrite c (s.files.lookup (fileName q.op.ns)) changes with
      | .error failure => (s.commit i q (.raised failure)).move i q (.unlocking (.raised failure))
      | .ok none => (s.commit i q .done).move i q (.unlocking .done)
      | .ok (some text) => s.move i q (.ready text)

def step (c : Classes) (s : Shared) : Event → Option Shared
  | .call op =>
      some { s with processes := s.processes ++ [⟨op, .calling⟩] }
  | .acquire i =>
      (s.processes[i]?).bind fun q =>
        match q.phase, immediate q.op with
        | .calling, some outcome => some ((s.commit i q outcome).move i q (.returned outcome))
        | .calling, none =>
            if s.locks (lockName q.op.ns) = none then some (s.move i q .locked) else none
        | _, _ => none
  | .work i =>
      (s.processes[i]?).bind fun q =>
        match q.phase with
        | .locked => some (s.perform c i q)
        | _ => none
  | .create i temporary =>
      (s.processes[i]?).bind fun q =>
        match q.phase with
        | .ready text =>
            -- the kernel refuses a name that exists
            if s.temporaries.lookup temporary = none then
              some ({ s with temporaries := Assoc.put temporary none s.temporaries }.move i q
                (.writing temporary text false))
            else
              none
        | _ => none
  | .write i =>
      (s.processes[i]?).bind fun q =>
        match q.phase with
        | .writing temporary text false =>
            some ({ s with temporaries := Assoc.put temporary (some text) s.temporaries }.move i q
              (.writing temporary text true))
        | _ => none
  | .replace i =>
      (s.processes[i]?).bind fun q =>
        match q.phase with
        | .writing temporary _ true =>
            -- the document is what the temporary file holds
            match s.temporaries.lookup temporary with
            | some (some text) =>
                some (({ s with
                  files := Assoc.put (fileName q.op.ns) text s.files
                  temporaries := Assoc.del temporary s.temporaries }.commit i q .done).move i q
                    (.unlocking .done))
            | _ => none
        | _ => none
  | .unlock i =>
      (s.processes[i]?).bind fun q =>
        match q.phase with
        | .unlocking outcome => some (s.move i q (.returned outcome))
        | .failing => some (s.move i q .failed)
        | _ => none
  | .fail i =>
      (s.processes[i]?).bind fun q =>
        match q.phase, immediate q.op with
        | .calling, none => some (s.move i q .failed)
        | .locked, _ | .ready _, _ => some (s.move i q .failing)
        | .writing temporary _ _, _ =>
            some ({ s with temporaries := Assoc.del temporary s.temporaries }.move i q .failing)
        | _, _ => none
  | .kill i =>
      (s.processes[i]?).bind fun q =>
        match q.phase with
        | .returned _ | .failed | .killed _ => none
        | _ => some (s.move i q (.killed q.phase.temporary))

/-! ## One call by itself -/

theorem perform_write {c : Classes} {op : Operation} {changes : List (String × Option CacheEntry)}
    (h : op.changes = some changes) (files : List (String × Json)) :
    (backend c).perform files op = CacheBackend.settle files (update c files op.ns changes) := by
  cases op with
  | setMany ns batch => cases h; rfl
  | set ns key entry => cases h; rfl
  | delete ns key => cases h; rfl
  | getMany ns keys => cases h
  | get ns key => cases h

theorem perform_read {c : Classes} {op : Operation} (h : op.changes = none)
    (files : List (String × Json)) :
    (backend c).perform files op = (files, ((backend c).perform files op).2) := by
  cases op with
  | setMany ns batch => cases h
  | set ns key entry => cases h
  | delete ns key => cases h
  | getMany ns keys => rfl
  | get ns key => rfl

/-- A document that keeps its text. -/
theorem update_same {c : Classes} {files : List (String × Json)} {ns : String}
    {changes : List (String × Option CacheEntry)}
    (h : writeEntries c (files.lookup (fileName ns)) changes = .ok (files.lookup (fileName ns))) :
    update c files ns changes = .ok files := by
  rw [update, h]
  rcases hfile : files.lookup (fileName ns) with _ | text
  · rfl
  · dsimp only
    rw [Assoc.put_of_lookup hfile]

theorem update_eq (c : Classes) (files : List (String × Json)) (ns : String)
    (changes : List (String × Option CacheEntry))
    (hne : Assoc.traverse encodeEntry changes ≠ .ok []) :
    update c files ns changes =
      match rewrite c (files.lookup (fileName ns)) changes with
      | .error failure => .error failure
      | .ok none => .ok files
      | .ok (some text) => .ok (Assoc.put (fileName ns) text files) := by
  have hsame :
      writeEntries c (files.lookup (fileName ns)) changes = .ok (files.lookup (fileName ns)) →
        update c files ns changes = .ok files := update_same
  rw [rewrite]
  rcases hencoded : Assoc.traverse encodeEntry changes with failure | encoded
  · rw [update, writeEntries, hencoded]
  · have hfull : encoded.isEmpty = false := by
      cases encoded with
      | nil => exact absurd hencoded hne
      | cons _ _ => rfl
    rw [writeEntries, hencoded] at hsame
    simp only [hfull, Bool.false_eq_true, if_false] at hsame
    dsimp only
    rcases hparsed : parsePlain (files.lookup (fileName ns)) with failure | document
    · rw [update, writeEntries, hencoded]
      simp only [hfull, Bool.false_eq_true, if_false, hparsed]
    · rw [hparsed] at hsame
      dsimp only at hsame ⊢
      rcases hmerged : mergeAll (asDict document) false encoded with failure | ⟨merged, changed⟩
      · rw [update, writeEntries, hencoded]
        simp only [hfull, Bool.false_eq_true, if_false, hparsed, hmerged]
      · rw [hmerged] at hsame
        cases changed with
        | false => exact hsame rfl
        | true =>
            rw [update, writeEntries, hencoded]
            simp only [hfull, Bool.false_eq_true, if_false, hparsed, hmerged, if_true]
            rcases Cache.dumps c (.dict merged) with failure | text
            · rfl
            · rfl

theorem update_immediate {c : Classes} {changes : List (String × Option CacheEntry)}
    {outcome : Outcome} (h : immediateWrite changes = some outcome) (files : List (String × Json))
    (ns : String) : CacheBackend.settle files (update c files ns changes) = (files, outcome) := by
  rw [immediateWrite] at h
  rcases hencoded : Assoc.traverse encodeEntry changes with failure | encoded
  · rw [hencoded] at h
    cases h
    rw [update, writeEntries, hencoded]
    rfl
  · rw [hencoded] at h
    cases encoded with
    | nil =>
        cases h
        rw [update_same]
        · rfl
        · rw [writeEntries, hencoded]
          rfl
    | cons _ _ => cases h

/-- A call that answers at once does not look at the documents. -/
theorem perform_immediate {c : Classes} {op : Operation} {outcome : Outcome}
    (h : immediate op = some outcome) (files : List (String × Json)) :
    (backend c).perform files op = (files, outcome) := by
  cases op with
  | setMany ns batch => exact update_immediate h files ns
  | set ns key entry => exact update_immediate h files ns
  | delete ns key =>
      have hwrite : immediateWrite [(key, none)] = some outcome := h
      exact update_immediate hwrite files ns
  | getMany ns keys =>
      rw [immediate] at h
      split_ifs at h with hkeys
      cases h
      subst hkeys
      rfl
  | get ns key => cases h

/-- A write that does not answer at once has something to merge. -/
theorem encoded_ne_nil {op : Operation} (h : immediate op = none)
    {changes : List (String × Option CacheEntry)} (hchanges : op.changes = some changes) :
    Assoc.traverse encodeEntry changes ≠ .ok [] := by
  have hwrite : immediateWrite changes = none := by
    cases op with
    | setMany ns batch => cases hchanges; exact h
    | set ns key entry => cases hchanges; exact h
    | delete ns key => cases hchanges; exact h
    | getMany ns keys => cases hchanges
    | get ns key => cases hchanges
  intro hnil
  rw [immediateWrite, hnil] at hwrite
  cases hwrite

/-! ## The invariant -/

/-- What a call that has its lock relies on. -/
def Process.Fits (c : Classes) (files : List (String × Json)) (q : Process) : Prop :=
  match q.phase with
  | .locked => immediate q.op = none
  | .ready text | .writing _ text _ => ∃ changes, q.op.changes = some changes ∧
      Assoc.traverse encodeEntry changes ≠ .ok [] ∧
      rewrite c (files.lookup (fileName q.op.ns)) changes = .ok (some text)
  | _ => True

/-- The call took effect, with this outcome. -/
def Phase.outcome : Phase → Option Outcome
  | .unlocking outcome | .returned outcome => some outcome
  | _ => none

/-- The call took no effect so far. -/
def Phase.noEffect : Phase → Bool
  | .calling | .locked | .ready _ | .writing _ _ _ | .failing | .failed => true
  | .unlocking _ | .returned _ | .killed _ => false

/-- A lock belongs to one call under way, and the document is as that call read it. -/
structure Guarded (c : Classes) (s : Shared) : Prop where
  locked : ∀ (i : ℕ) q, s.processes[i]? = some q → q.phase.holds = true →
    s.locks (lockName q.op.ns) = some i ∧ q.Fits c s.files
  had : ∀ k i, s.locks k = some i →
    ∃ q, s.processes[i]? = some q ∧ q.phase.holds = true ∧ lockName q.op.ns = k

/-- The log explains the documents and has every call that took effect, once. -/
structure Recorded (c : Classes) (start : List (String × Json)) (s : Shared) : Prop where
  explained : Linear.Explains (backend c).perform start s.log s.files
  logged : ∀ (i : ℕ) q outcome, s.processes[i]? = some q → q.phase.outcome = some outcome →
    (i, q.op, outcome) ∈ s.log
  unlogged : ∀ (i : ℕ) q, s.processes[i]? = some q → q.phase.noEffect = true →
    i ∉ s.log.map Prod.fst
  known : ∀ e ∈ s.log, ∃ q, s.processes[e.1]? = some q ∧ q.op = e.2.1
  once : (s.log.map Prod.fst).Nodup

/-- What a call has written so far. -/
def Phase.written : Phase → Option (Option Json)
  | .writing _ text whole => some (if whole then some text else none)
  | _ => none

/-- A temporary file belongs to one call, and holds what the call wrote. -/
structure Stored (s : Shared) : Prop where
  kept : ∀ (i : ℕ) q temporary, s.processes[i]? = some q → q.phase.temporary = some temporary →
    ∃ content, s.temporaries.lookup temporary = some content ∧
      ∀ written, q.phase.written = some written → content = written
  owned : ∀ temporary content, s.temporaries.lookup temporary = some content →
    ∃ (i : ℕ) (q : Process), s.processes[i]? = some q ∧ q.phase.temporary = some temporary
  distinct : ∀ (i j : ℕ) p q temporary, s.processes[i]? = some p → s.processes[j]? = some q →
    p.phase.temporary = some temporary → q.phase.temporary = some temporary → i = j

/-- What holds in every state. -/
structure Sound (c : Classes) (start : List (String × Json)) (s : Shared) : Prop where
  guarded : s.Guarded c
  recorded : s.Recorded c start
  stored : s.Stored

variable {c : Classes} {start : List (String × Json)} {s t : Shared} {i : ℕ} {q : Process}
  {phase : Phase}

theorem sound_init (c : Classes) (start : List (String × Json)) : (init start).Sound c start where
  guarded :=
    { locked := fun i q h => by simp [init] at h
      had := fun k i h => by cases h }
  recorded :=
    { explained := .nil
      logged := fun i q outcome h => by simp [init] at h
      unlogged := fun i q h => by simp [init] at h
      known := fun e h => absurd h List.not_mem_nil
      once := List.nodup_nil }
  stored :=
    { kept := fun i q temporary h => by simp [init] at h
      owned := fun temporary content h => by cases h
      distinct := fun i j p q temporary h => by simp [init] at h }

/-! ## A call that goes on -/

theorem Process.fits_congr {files files' : List (String × Json)}
    (h : files'.lookup (fileName q.op.ns) = files.lookup (fileName q.op.ns)) (hfits : q.Fits c files) :
    q.Fits c files' := by
  rw [Process.Fits] at hfits ⊢
  rw [h]
  exact hfits

theorem move_locks (t : Shared) (i : ℕ) (q : Process) (phase : Phase) :
    (t.move i q phase).locks =
      if q.phase.holds ∨ phase.holds then t.relock i q.op phase else t.locks := rfl

/-- The lock of a call that goes on. -/
theorem move_lock (h : q.phase.holds = true ∨ phase.holds = true) :
    (t.move i q phase).locks (lockName q.op.ns) = if phase.holds then some i else none := by
  rw [move_locks, if_pos h, relock, Function.update_self]

theorem move_other {k : String} (h : k ≠ lockName q.op.ns) :
    (t.move i q phase).locks k = t.locks k := by
  rw [move_locks]
  split_ifs
  · rw [relock, Function.update_of_ne h]
  · rfl

theorem move_without (hq : q.phase.holds = false) (hphase : phase.holds = false) :
    (t.move i q phase).locks = t.locks := by
  rw [move_locks, hq, hphase, if_neg (by simp)]

theorem move_self (h : s.processes[i]? = some q) (hprocesses : t.processes = s.processes) :
    (t.move i q phase).processes[i]? = some ⟨q.op, phase⟩ := by
  rw [move, hprocesses, List.getElem?_set_self (List.getElem?_eq_some_iff.mp h).1]

theorem move_ne {j : ℕ} (hne : j ≠ i) (hprocesses : t.processes = s.processes) :
    (t.move i q phase).processes[j]? = s.processes[j]? := by
  rw [move, hprocesses, List.getElem?_set_ne (Ne.symm hne)]

theorem move_cases {j : ℕ} {p : Process} (hprocesses : t.processes = s.processes)
    (h : (t.move i q phase).processes[j]? = some p) :
    j = i ∧ p = ⟨q.op, phase⟩ ∨ j ≠ i ∧ s.processes[j]? = some p := by
  rw [move, hprocesses] at h
  exact getElem?_set_cases h

/-- Only the call that has the lock of a document may change it. -/
theorem guarded_move (h : s.Guarded c) (hq : s.processes[i]? = some q)
    (hprocesses : t.processes = s.processes) (hlocks : t.locks = s.locks)
    (hfiles : ∀ ns, t.files.lookup (fileName ns) = s.files.lookup (fileName ns) ∨
      q.phase.holds = true ∧ ns = q.op.ns)
    (htake : q.phase.holds = true ∨ phase.holds = false ∨ s.locks (lockName q.op.ns) = none)
    (hfits : phase.holds = true → Process.Fits c t.files ⟨q.op, phase⟩) :
    (t.move i q phase).Guarded c := by
  -- no other call has the lock that this one has or takes
  have halone : ∀ j p, j ≠ i → s.processes[j]? = some p → p.phase.holds = true →
      (q.phase.holds = true ∨ phase.holds = true) → lockName p.op.ns ≠ lockName q.op.ns := by
    intro j p hne hj hholds htouch hname
    have hown := (h.locked j p hj hholds).1
    rw [hname] at hown
    cases hhad : q.phase.holds with
    | true => exact hne (Option.some.inj (hown.symm.trans (h.locked i q hq hhad).1))
    | false =>
        rw [hhad] at htake htouch
        rcases htake with hfalse | hphase | hfree
        · cases hfalse
        · rw [hphase] at htouch
          rcases htouch with hfalse | hfalse <;> cases hfalse
        · rw [hfree] at hown
          cases hown
  have hkept : ∀ j p, j ≠ i → s.processes[j]? = some p → p.phase.holds = true →
      (t.move i q phase).locks (lockName p.op.ns) = s.locks (lockName p.op.ns) := by
    intro j p hne hj hholds
    by_cases htouch : q.phase.holds = true ∨ phase.holds = true
    · rw [move_other (halone j p hne hj hholds htouch), hlocks]
    · rw [not_or, Bool.not_eq_true, Bool.not_eq_true] at htouch
      rw [move_without htouch.1 htouch.2, hlocks]
  constructor
  · intro j p hj hholds
    rcases move_cases hprocesses hj with ⟨rfl, rfl⟩ | ⟨hne, hj⟩
    · refine ⟨?_, hfits hholds⟩
      rw [move_lock (.inr hholds), if_pos hholds]
    · obtain ⟨hown, hp⟩ := h.locked j p hj hholds
      refine ⟨(hkept j p hne hj hholds).trans hown, Process.fits_congr ?_ hp⟩
      rcases hfiles p.op.ns with hsame | ⟨hhad, hns⟩
      · exact hsame
      · exact absurd (congrArg lockName hns) (halone j p hne hj hholds (.inl hhad))
  · intro k j hk
    by_cases htouch : q.phase.holds = true ∨ phase.holds = true
    · by_cases hname : k = lockName q.op.ns
      · rw [hname, move_lock htouch] at hk
        split_ifs at hk with hholds
        cases hk
        exact ⟨⟨q.op, phase⟩, move_self hq hprocesses, hholds, hname.symm⟩
      · rw [move_other hname, hlocks] at hk
        obtain ⟨p, hj, hholds, hp⟩ := h.had k j hk
        have hne : j ≠ i := by
          rintro rfl
          cases hq.symm.trans hj
          exact hname hp.symm
        exact ⟨p, (move_ne hne hprocesses).trans hj, hholds, hp⟩
    · rw [not_or, Bool.not_eq_true, Bool.not_eq_true] at htouch
      rw [move_without htouch.1 htouch.2, hlocks] at hk
      obtain ⟨p, hj, hholds, hp⟩ := h.had k j hk
      have hne : j ≠ i := by
        rintro rfl
        cases hq.symm.trans hj
        rw [htouch.1] at hholds
        cases hholds
      exact ⟨p, (move_ne hne hprocesses).trans hj, hholds, hp⟩

theorem recorded_move (h : s.Recorded c start) (hq : s.processes[i]? = some q)
    (hprocesses : t.processes = s.processes) (hfiles : t.files = s.files) (hlog : t.log = s.log)
    (heffect : phase.noEffect = true → q.phase.noEffect = true)
    (houtcome : ∀ outcome, phase.outcome = some outcome → q.phase.outcome = some outcome) :
    (t.move i q phase).Recorded c start := by
  have hlog : (t.move i q phase).log = s.log := hlog
  constructor
  · have hfiles : (t.move i q phase).files = s.files := hfiles
    rw [hlog, hfiles]
    exact h.explained
  · intro j p outcome hj hp
    rw [hlog]
    rcases move_cases hprocesses hj with ⟨rfl, rfl⟩ | ⟨-, hj⟩
    · exact h.logged j q outcome hq (houtcome outcome hp)
    · exact h.logged j p outcome hj hp
  · intro j p hj hp
    rw [hlog]
    rcases move_cases hprocesses hj with ⟨rfl, rfl⟩ | ⟨-, hj⟩
    · exact h.unlogged j q hq (heffect hp)
    · exact h.unlogged j p hj hp
  · intro e he
    rw [hlog] at he
    obtain ⟨p, hp, hop⟩ := h.known e he
    by_cases hi : e.1 = i
    · rw [hi, hq] at hp
      cases hp
      exact ⟨⟨q.op, phase⟩, by rw [hi]; exact move_self hq hprocesses, hop⟩
    · exact ⟨p, (move_ne hi hprocesses).trans hp, hop⟩
  · rw [hlog]
    exact h.once

/-- A call takes effect: the log has it from now on. -/
theorem recorded_commit (h : s.Recorded c start) (hq : s.processes[i]? = some q)
    {outcome : Outcome} (hprocesses : t.processes = s.processes) (hlog : t.log = s.log)
    (hperform : (backend c).perform s.files q.op = (t.files, outcome))
    (heffect : q.phase.noEffect = true) (hphase : phase.noEffect = false)
    (houtcome : phase.outcome = some outcome) :
    ((t.commit i q outcome).move i q phase).Recorded c start := by
  have hlog : ((t.commit i q outcome).move i q phase).log = s.log ++ [(i, q.op, outcome)] :=
    congrArg (· ++ [(i, q.op, outcome)]) hlog
  have hnew := h.unlogged i q hq heffect
  constructor
  · rw [hlog]
    exact h.explained.commit i hperform
  · intro j p outcome' hj hp
    rw [hlog, List.mem_append]
    rcases move_cases (t := t.commit i q outcome) hprocesses hj with ⟨rfl, rfl⟩ | ⟨-, hj⟩
    · rw [houtcome] at hp
      cases hp
      exact .inr (List.mem_singleton.mpr rfl)
    · exact .inl (h.logged j p outcome' hj hp)
  · intro j p hj hp
    rcases move_cases (t := t.commit i q outcome) hprocesses hj with ⟨rfl, rfl⟩ | ⟨hne, hj⟩
    · rw [hphase] at hp
      cases hp
    · rw [hlog, List.map_append, List.mem_append, not_or]
      exact ⟨h.unlogged j p hj hp, fun hmem => hne (List.mem_singleton.mp hmem)⟩
  · intro e he
    rw [hlog, List.mem_append, List.mem_singleton] at he
    rcases he with he | rfl
    · obtain ⟨p, hp, hop⟩ := h.known e he
      by_cases hi : e.1 = i
      · exact absurd (List.mem_map.mpr ⟨e, he, hi⟩) hnew
      · exact ⟨p, (move_ne (t := t.commit i q outcome) hi hprocesses).trans hp, hop⟩
    · exact ⟨⟨q.op, phase⟩, move_self (t := t.commit i q outcome) hq hprocesses, rfl⟩
  · rw [hlog, List.map_append, List.nodup_append]
    refine ⟨h.once, List.nodup_singleton i, fun j hj k hk heq => ?_⟩
    rw [heq, List.mem_singleton.mp hk] at hj
    exact hnew hj

/-- A call touches no temporary file but its own. -/
theorem stored_move (h : s.Stored) (hq : s.processes[i]? = some q)
    (hprocesses : t.processes = s.processes)
    (hothers : ∀ temporary, q.phase.temporary ≠ some temporary → phase.temporary ≠ some temporary →
      t.temporaries.lookup temporary = s.temporaries.lookup temporary)
    (hold : ∀ temporary, q.phase.temporary = some temporary → phase.temporary = some temporary ∨
      t.temporaries.lookup temporary = none)
    (hnew : ∀ temporary, phase.temporary = some temporary →
      (q.phase.temporary = some temporary ∨ s.temporaries.lookup temporary = none) ∧
      ∃ content, t.temporaries.lookup temporary = some content ∧
        ∀ written, phase.written = some written → content = written) :
    (t.move i q phase).Stored := by
  -- a file of another call is not one that this call has or gets
  have hforeign : ∀ j p temporary, j ≠ i → s.processes[j]? = some p →
      p.phase.temporary = some temporary → q.phase.temporary ≠ some temporary ∧
        phase.temporary ≠ some temporary := by
    intro j p temporary hne hj hp
    have hmine : q.phase.temporary ≠ some temporary :=
      fun hmine => hne (h.distinct j i p q temporary hj hq hp hmine)
    refine ⟨hmine, fun hphase => ?_⟩
    obtain ⟨content, hcontent, -⟩ := h.kept j p temporary hj hp
    rcases (hnew temporary hphase).1 with hmine' | hfresh
    · exact hmine hmine'
    · rw [hfresh] at hcontent
      cases hcontent
  constructor
  · intro j p temporary hj hp
    rcases move_cases hprocesses hj with ⟨rfl, rfl⟩ | ⟨hne, hj⟩
    · exact (hnew temporary hp).2
    · obtain ⟨hmine, hphase⟩ := hforeign j p temporary hne hj hp
      have hsame : (t.move i q phase).temporaries.lookup temporary = s.temporaries.lookup temporary :=
        hothers temporary hmine hphase
      rw [hsame]
      exact h.kept j p temporary hj hp
  · intro temporary content hcontent
    have hcontent : t.temporaries.lookup temporary = some content := hcontent
    by_cases hphase : phase.temporary = some temporary
    · exact ⟨i, ⟨q.op, phase⟩, move_self hq hprocesses, hphase⟩
    · by_cases hmine : q.phase.temporary = some temporary
      · rcases hold temporary hmine with hphase' | hgone
        · exact absurd hphase' hphase
        · rw [hgone] at hcontent
          cases hcontent
      · rw [hothers temporary hmine hphase] at hcontent
        obtain ⟨j, p, hj, hp⟩ := h.owned temporary content hcontent
        have hne : j ≠ i := by
          rintro rfl
          cases hq.symm.trans hj
          exact hmine hp
        exact ⟨j, p, (move_ne hne hprocesses).trans hj, hp⟩
  · intro j k p p' temporary hj hk hp hp'
    rcases move_cases hprocesses hj with ⟨hji, rfl⟩ | ⟨hne, hjs⟩
    · rcases move_cases hprocesses hk with ⟨hki, -⟩ | ⟨hne, hks⟩
      · exact hji.trans hki.symm
      · exact absurd hp (hforeign k p' temporary hne hks hp').2
    · rcases move_cases hprocesses hk with ⟨-, rfl⟩ | ⟨-, hks⟩
      · exact absurd hp' (hforeign j p temporary hne hjs hp).2
      · exact h.distinct j k p p' temporary hjs hks hp hp'

/-- A call removes its temporary file. -/
theorem stored_remove (h : s.Stored) (hq : s.processes[i]? = some q)
    (hprocesses : t.processes = s.processes) {temporary : String}
    (hhad : q.phase.temporary = some temporary) (hphase : phase.temporary = none)
    (ht : t.temporaries = Assoc.del temporary s.temporaries) : (t.move i q phase).Stored := by
  refine stored_move h hq hprocesses ?_ ?_ ?_
  · intro name hname _
    rw [ht, Assoc.lookup_del, if_neg fun heq => hname (hhad.trans (congrArg some heq.symm))]
  · intro name hname
    cases hhad.symm.trans hname
    rw [ht, Assoc.lookup_del, if_pos rfl]
    exact .inr rfl
  · intro name hname
    rw [hphase] at hname
    cases hname

/-- A call that goes on without taking effect. -/
theorem sound_move (h : s.Sound c start) (hq : s.processes[i]? = some q)
    (htake : q.phase.holds = true ∨ phase.holds = false ∨ s.locks (lockName q.op.ns) = none)
    (hfits : phase.holds = true → Process.Fits c s.files ⟨q.op, phase⟩)
    (heffect : phase.noEffect = true → q.phase.noEffect = true)
    (houtcome : ∀ outcome, phase.outcome = some outcome → q.phase.outcome = some outcome)
    (htemporary : phase.temporary = q.phase.temporary) (hwritten : phase.written = none) :
    (s.move i q phase).Sound c start where
  guarded := guarded_move h.guarded hq rfl rfl (fun ns => .inl rfl) htake hfits
  recorded := recorded_move h.recorded hq rfl rfl rfl heffect houtcome
  stored := by
    refine stored_move h.stored hq rfl (fun temporary _ _ => rfl) ?_ ?_
    · intro temporary hold
      exact .inl (htemporary.trans hold)
    · intro temporary hnew
      rw [htemporary] at hnew
      obtain ⟨content, hcontent, -⟩ := h.stored.kept i q temporary hq hnew
      refine ⟨.inl hnew, content, hcontent, fun written hphase => ?_⟩
      rw [hwritten] at hphase
      cases hphase

/-- A call takes effect and changes no document. -/
theorem sound_commit (h : s.Sound c start) (hq : s.processes[i]? = some q) {outcome : Outcome}
    (hperform : (backend c).perform s.files q.op = (s.files, outcome))
    (hphase : q.phase = .calling ∧ phase = .returned outcome ∨
      q.phase = .locked ∧ phase = .unlocking outcome) :
    ((s.commit i q outcome).move i q phase).Sound c start := by
  have hnone : q.phase.temporary = none ∧ phase.temporary = none := by
    rcases hphase with ⟨hold, hnew⟩ | ⟨hold, hnew⟩ <;> rw [hold, hnew] <;> exact ⟨rfl, rfl⟩
  refine ⟨?_, ?_, ?_⟩
  · refine guarded_move (t := s.commit i q outcome) h.guarded hq rfl rfl (fun ns => .inl rfl) ?_ ?_
    · rcases hphase with ⟨hold, hnew⟩ | ⟨hold, hnew⟩
      · rw [hnew]
        exact .inr (.inl rfl)
      · rw [hold]
        exact .inl rfl
    · rcases hphase with ⟨-, hnew⟩ | ⟨-, hnew⟩
      · rw [hnew]
        intro hholds
        cases hholds
      · rw [hnew]
        exact fun _ => trivial
  · rcases hphase with ⟨hold, hnew⟩ | ⟨hold, hnew⟩
    · rw [hnew]
      exact recorded_commit (t := s) h.recorded hq rfl rfl hperform (by rw [hold]; rfl) rfl rfl
    · rw [hnew]
      exact recorded_commit (t := s) h.recorded hq rfl rfl hperform (by rw [hold]; rfl) rfl rfl
  · refine stored_move (t := s.commit i q outcome) h.stored hq rfl (fun _ _ _ => rfl) ?_ ?_
    · intro temporary htemporary
      rw [hnone.1] at htemporary
      cases htemporary
    · intro temporary htemporary
      rw [hnone.2] at htemporary
      cases htemporary

/-! ## Every step -/

theorem sound_call (h : s.Sound c start) (op : Operation) :
    ({ s with processes := s.processes ++ [⟨op, .calling⟩] } : Shared).Sound c start := by
  have hcases : ∀ (j : ℕ) p, (s.processes ++ [⟨op, .calling⟩])[j]? = some p →
      s.processes[j]? = some p ∨ j = s.processes.length ∧ p = ⟨op, .calling⟩ :=
    fun j p hj => getElem?_snoc_cases hj
  have hkeep : ∀ (j : ℕ) p, s.processes[j]? = some p →
      (s.processes ++ [⟨op, .calling⟩])[j]? = some p := fun j p hj => getElem?_snoc hj _
  refine ⟨⟨?_, ?_⟩, ⟨h.recorded.explained, ?_, ?_, ?_, h.recorded.once⟩, ⟨?_, ?_, ?_⟩⟩
  · intro j p hj hholds
    rcases hcases j p hj with hj | ⟨-, rfl⟩
    · exact h.guarded.locked j p hj hholds
    · cases hholds
  · intro k j hk
    obtain ⟨p, hj, hholds, hname⟩ := h.guarded.had k j hk
    exact ⟨p, hkeep j p hj, hholds, hname⟩
  · intro j p outcome hj houtcome
    rcases hcases j p hj with hj | ⟨-, rfl⟩
    · exact h.recorded.logged j p outcome hj houtcome
    · cases houtcome
  · intro j p hj heffect
    rcases hcases j p hj with hj | ⟨rfl, -⟩
    · exact h.recorded.unlogged j p hj heffect
    · intro hmem
      obtain ⟨e, he, hi⟩ := List.mem_map.mp hmem
      obtain ⟨p, hp, -⟩ := h.recorded.known e he
      rw [hi, List.getElem?_eq_none le_rfl] at hp
      cases hp
  · intro e he
    obtain ⟨p, hp, hop⟩ := h.recorded.known e he
    exact ⟨p, hkeep _ p hp, hop⟩
  · intro j p temporary hj htemporary
    rcases hcases j p hj with hj | ⟨-, rfl⟩
    · exact h.stored.kept j p temporary hj htemporary
    · cases htemporary
  · intro temporary content hcontent
    obtain ⟨j, p, hj, htemporary⟩ := h.stored.owned temporary content hcontent
    exact ⟨j, p, hkeep j p hj, htemporary⟩
  · intro j k p p' temporary hj hk hp hp'
    rcases hcases j p hj with hj | ⟨-, rfl⟩
    · rcases hcases k p' hk with hk | ⟨-, rfl⟩
      · exact h.stored.distinct j k p p' temporary hj hk hp hp'
      · cases hp'
    · cases hp

theorem sound_acquire (h : s.Sound c start) (hstep : step c s (.acquire i) = some t) :
    t.Sound c start := by
  rw [step, Option.bind_eq_some_iff] at hstep
  obtain ⟨q, hq, hstep⟩ := hstep
  split at hstep
  · rename_i outcome hphase himmediate
    cases hstep
    exact sound_commit h hq (perform_immediate himmediate s.files) (.inl ⟨hphase, rfl⟩)
  · rename_i hphase himmediate
    split_ifs at hstep with hfree
    cases hstep
    exact sound_move h hq (.inr (.inr hfree)) (fun _ => himmediate) (fun _ => by rw [hphase]; rfl)
      (fun outcome houtcome => by cases houtcome) (by rw [hphase]; rfl) rfl
  · cases hstep

theorem sound_work (h : s.Sound c start) (hstep : step c s (.work i) = some t) :
    t.Sound c start := by
  rw [step, Option.bind_eq_some_iff] at hstep
  obtain ⟨q, hq, hstep⟩ := hstep
  split at hstep
  · rename_i hphase
    cases hstep
    have hholds : q.phase.holds = true := by rw [hphase]; rfl
    have himmediate : immediate q.op = none := by
      have hfits := (h.guarded.locked i q hq hholds).2
      rw [Process.Fits, hphase] at hfits
      exact hfits
    rw [perform]
    rcases hchanges : q.op.changes with _ | changes
    · exact sound_commit h hq (perform_read hchanges s.files) (.inr ⟨hphase, rfl⟩)
    · have hne := encoded_ne_nil himmediate hchanges
      have hperform := perform_write (c := c) hchanges s.files
      rw [update_eq c s.files q.op.ns changes hne] at hperform
      dsimp only
      rcases hrewrite : rewrite c (s.files.lookup (fileName q.op.ns)) changes with
        failure | _ | text
      · rw [hrewrite] at hperform
        exact sound_commit h hq hperform (.inr ⟨hphase, rfl⟩)
      · rw [hrewrite] at hperform
        exact sound_commit h hq hperform (.inr ⟨hphase, rfl⟩)
      · exact sound_move h hq (.inl hholds) (fun _ => ⟨changes, hchanges, hne, hrewrite⟩)
          (fun _ => by rw [hphase]; rfl) (fun outcome houtcome => by cases houtcome)
          (by rw [hphase]; rfl) rfl
  · cases hstep

theorem sound_create {temporary : String} (h : s.Sound c start)
    (hstep : step c s (.create i temporary) = some t) : t.Sound c start := by
  rw [step, Option.bind_eq_some_iff] at hstep
  obtain ⟨q, hq, hstep⟩ := hstep
  split at hstep
  · rename_i text hphase
    split_ifs at hstep with hfresh
    cases hstep
    have hholds : q.phase.holds = true := by rw [hphase]; rfl
    have hfits := (h.guarded.locked i q hq hholds).2
    rw [Process.Fits, hphase] at hfits
    refine ⟨?_, ?_, ?_⟩
    · exact guarded_move (t := { s with temporaries := _ }) h.guarded hq rfl rfl (fun ns => .inl rfl)
        (.inl hholds) fun _ => hfits
    · exact recorded_move (t := { s with temporaries := _ }) h.recorded hq rfl rfl rfl
        (fun _ => by rw [hphase]; rfl) fun outcome houtcome => by cases houtcome
    · refine stored_move (t := { s with temporaries := _ }) h.stored hq rfl ?_ ?_ ?_
      · intro name _ hname
        exact Assoc.lookup_put.trans (if_neg fun heq => hname (congrArg some heq.symm))
      · intro name hname
        rw [hphase] at hname
        cases hname
      · intro name hname
        cases hname
        exact ⟨.inr hfresh, none, Assoc.lookup_put.trans (if_pos rfl), fun written hwritten =>
          Option.some.inj hwritten⟩
  · cases hstep

theorem sound_write (h : s.Sound c start) (hstep : step c s (.write i) = some t) :
    t.Sound c start := by
  rw [step, Option.bind_eq_some_iff] at hstep
  obtain ⟨q, hq, hstep⟩ := hstep
  split at hstep
  · rename_i temporary text hphase
    cases hstep
    have hholds : q.phase.holds = true := by rw [hphase]; rfl
    have hfits := (h.guarded.locked i q hq hholds).2
    rw [Process.Fits, hphase] at hfits
    refine ⟨?_, ?_, ?_⟩
    · exact guarded_move (t := { s with temporaries := _ }) h.guarded hq rfl rfl (fun ns => .inl rfl)
        (.inl hholds) fun _ => hfits
    · exact recorded_move (t := { s with temporaries := _ }) h.recorded hq rfl rfl rfl
        (fun _ => by rw [hphase]; rfl) fun outcome houtcome => by cases houtcome
    · refine stored_move (t := { s with temporaries := _ }) h.stored hq rfl ?_ ?_ ?_
      · intro name _ hname
        exact Assoc.lookup_put.trans (if_neg fun heq => hname (congrArg some heq.symm))
      · intro name hname
        rw [hphase] at hname
        exact .inl hname
      · intro name hname
        cases hname
        refine ⟨.inl (by rw [hphase]; rfl), some text, Assoc.lookup_put.trans (if_pos rfl), ?_⟩
        intro written hwritten
        exact Option.some.inj hwritten
  · cases hstep

theorem sound_replace (h : s.Sound c start) (hstep : step c s (.replace i) = some t) :
    t.Sound c start := by
  rw [step, Option.bind_eq_some_iff] at hstep
  obtain ⟨q, hq, hstep⟩ := hstep
  split at hstep
  · rename_i temporary text hphase
    have hholds : q.phase.holds = true := by rw [hphase]; rfl
    have hhad : q.phase.temporary = some temporary := by rw [hphase]; rfl
    have hfits := (h.guarded.locked i q hq hholds).2
    rw [Process.Fits, hphase] at hfits
    obtain ⟨changes, hchanges, hne, hrewrite⟩ := hfits
    -- the file holds the whole text
    obtain ⟨content, hcontent, hwritten⟩ := h.stored.kept i q temporary hq hhad
    rw [hwritten (some text) (by rw [hphase]; rfl)] at hcontent
    rw [hcontent] at hstep
    cases hstep
    have hperform := perform_write (c := c) hchanges s.files
    rw [update_eq c s.files q.op.ns changes hne, hrewrite] at hperform
    refine ⟨?_, ?_, ?_⟩
    · refine guarded_move (t := commit { s with files := _, temporaries := _ } i q .done) h.guarded hq
        rfl rfl ?_ (.inl hholds) fun _ => trivial
      intro ns
      by_cases hns : ns = q.op.ns
      · exact .inr ⟨hholds, hns⟩
      · exact .inl (Assoc.lookup_put.trans (if_neg fun heq => hns (fileName_injective heq)))
    · exact recorded_commit (t := { s with files := _, temporaries := _ }) h.recorded hq rfl rfl
        hperform (by rw [hphase]; rfl) rfl rfl
    · exact stored_remove (t := commit { s with files := _, temporaries := _ } i q .done) h.stored hq
        rfl hhad rfl rfl
  · cases hstep

theorem sound_unlock (h : s.Sound c start) (hstep : step c s (.unlock i) = some t) :
    t.Sound c start := by
  rw [step, Option.bind_eq_some_iff] at hstep
  obtain ⟨q, hq, hstep⟩ := hstep
  split at hstep
  · rename_i outcome hphase
    cases hstep
    exact sound_move h hq (.inr (.inl rfl)) (fun hholds => by cases hholds)
      (fun heffect => by cases heffect) (fun _ houtcome => by rw [hphase]; exact houtcome)
      (by rw [hphase]; rfl) rfl
  · rename_i hphase
    cases hstep
    exact sound_move h hq (.inr (.inl rfl)) (fun hholds => by cases hholds)
      (fun _ => by rw [hphase]; rfl) (fun _ houtcome => by cases houtcome)
      (by rw [hphase]; rfl) rfl
  · cases hstep

theorem sound_fail (h : s.Sound c start) (hstep : step c s (.fail i) = some t) :
    t.Sound c start := by
  rw [step, Option.bind_eq_some_iff] at hstep
  obtain ⟨q, hq, hstep⟩ := hstep
  split at hstep
  · rename_i hphase _
    cases hstep
    exact sound_move h hq (.inr (.inl rfl)) (fun hholds => by cases hholds)
      (fun _ => by rw [hphase]; rfl) (fun _ houtcome => by cases houtcome)
      (by rw [hphase]; rfl) rfl
  · rename_i hphase
    cases hstep
    exact sound_move h hq (.inl (by rw [hphase]; rfl)) (fun _ => trivial)
      (fun _ => by rw [hphase]; rfl) (fun _ houtcome => by cases houtcome)
      (by rw [hphase]; rfl) rfl
  · rename_i text hphase
    cases hstep
    exact sound_move h hq (.inl (by rw [hphase]; rfl)) (fun _ => trivial)
      (fun _ => by rw [hphase]; rfl) (fun _ houtcome => by cases houtcome)
      (by rw [hphase]; rfl) rfl
  · rename_i temporary text whole hphase
    cases hstep
    refine ⟨?_, ?_, ?_⟩
    · exact guarded_move (t := { s with temporaries := _ }) h.guarded hq rfl rfl (fun ns => .inl rfl)
        (.inl (by rw [hphase]; rfl)) fun _ => trivial
    · exact recorded_move (t := { s with temporaries := _ }) h.recorded hq rfl rfl rfl
        (fun _ => by rw [hphase]; rfl) fun outcome houtcome => by cases houtcome
    · exact stored_remove (t := { s with temporaries := _ }) h.stored hq rfl
        (by rw [hphase]; rfl) rfl rfl
  · cases hstep

/-- The kernel takes a lock back from a process that is killed. -/
theorem sound_kill (h : s.Sound c start) (hstep : step c s (.kill i) = some t) :
    t.Sound c start := by
  rw [step, Option.bind_eq_some_iff] at hstep
  obtain ⟨q, hq, hstep⟩ := hstep
  have hkilled : (s.move i q (.killed q.phase.temporary)).Sound c start :=
    sound_move h hq (.inr (.inl rfl)) (fun hholds => by cases hholds)
      (fun heffect => by cases heffect) (fun _ houtcome => by cases houtcome) rfl rfl
  split at hstep
  · cases hstep
  · cases hstep
  · cases hstep
  · cases hstep
    exact hkilled

theorem sound_step {event : Event} (h : s.Sound c start) (hstep : step c s event = some t) :
    t.Sound c start := by
  cases event with
  | call op =>
      cases hstep
      exact sound_call h op
  | acquire i => exact sound_acquire h hstep
  | work i => exact sound_work h hstep
  | create i temporary => exact sound_create h hstep
  | write i => exact sound_write h hstep
  | replace i => exact sound_replace h hstep
  | unlock i => exact sound_unlock h hstep
  | fail i => exact sound_fail h hstep
  | kill i => exact sound_kill h hstep

theorem sound_run {events : List Event} (hrun : Machine.run (step c) s events = some t)
    (h : s.Sound c start) : t.Sound c start :=
  Machine.run_always (fun s => s.Sound c start) (fun _ _ _ h hstep => sound_step h hstep) hrun h

/-! ## The log only grows -/

theorem log_perform (c : Classes) (s : Shared) (i : ℕ) (q : Process) :
    s.log <+: (s.perform c i q).log := by
  rw [perform]
  split
  · exact List.prefix_append _ _
  · split
    · exact List.prefix_append _ _
    · exact List.prefix_append _ _
    · exact List.prefix_rfl

theorem log_step {event : Event} (hstep : step c s event = some t) : s.log <+: t.log := by
  cases event with
  | call op =>
      cases hstep
      exact List.prefix_rfl
  | acquire i =>
      rw [step, Option.bind_eq_some_iff] at hstep
      obtain ⟨q, -, hstep⟩ := hstep
      split at hstep
      · cases hstep
        exact List.prefix_append _ _
      · split_ifs at hstep
        cases hstep
        exact List.prefix_rfl
      · cases hstep
  | work i =>
      rw [step, Option.bind_eq_some_iff] at hstep
      obtain ⟨q, -, hstep⟩ := hstep
      split at hstep
      · cases hstep
        exact log_perform c s i q
      · cases hstep
  | create i temporary =>
      rw [step, Option.bind_eq_some_iff] at hstep
      obtain ⟨q, -, hstep⟩ := hstep
      split at hstep
      · split_ifs at hstep
        cases hstep
        exact List.prefix_rfl
      · cases hstep
  | replace i =>
      rw [step, Option.bind_eq_some_iff] at hstep
      obtain ⟨q, -, hstep⟩ := hstep
      split at hstep
      · split at hstep
        · cases hstep
          exact List.prefix_append _ _
        · cases hstep
      · cases hstep
  | write i | unlock i | fail i | kill i =>
      rw [step, Option.bind_eq_some_iff] at hstep
      obtain ⟨q, -, hstep⟩ := hstep
      split at hstep <;> cases hstep <;> exact List.prefix_rfl

theorem log_run {events : List Event} (hrun : Machine.run (step c) s events = some t) :
    s.log <+: t.log :=
  Machine.run_always (fun u => s.log <+: u.log) (fun _ _ _ h hstep => h.trans (log_step hstep)) hrun
    List.prefix_rfl

/-! ## Every run -/

/-- After any run the documents are those that the calls in the log leave one after the other, and
the log has these calls' answers. A call that returned is in the log with what it returned, and a
call that failed or waits is not. The log only grows, so a call that returned is before every call
that began later. Nobody has a lock but a call under way, and the temporary files are those of
calls that are writing or were killed; a whole one has all of the new document. -/
theorem always_linear {events more : List Event}
    (hrun : Machine.run (step c) (init start) events = some s)
    (hmore : Machine.run (step c) s more = some t) :
    Linear.Explains (backend c).perform start t.log t.files ∧
      (t.log.map Prod.fst).Nodup ∧
      (∀ e ∈ t.log, ∃ q, t.processes[e.1]? = some q ∧ q.op = e.2.1) ∧
      (∀ (i : ℕ) q, t.processes[i]? = some q →
        (∀ outcome, q.phase = .returned outcome → (i, q.op, outcome) ∈ t.log) ∧
        (q.phase.noEffect = true → i ∉ t.log.map Prod.fst)) ∧
      s.log <+: t.log ∧
      (∀ i, s.processes[i]? = none → i ∉ s.log.map Prod.fst) ∧
      (∀ k i, t.locks k = some i →
        ∃ q, t.processes[i]? = some q ∧ q.phase.holds = true ∧ lockName q.op.ns = k) ∧
      (∀ temporary, temporary ∈ t.temporaries.map Prod.fst ↔
        ∃ (i : ℕ) (q : Process), t.processes[i]? = some q ∧ q.phase.temporary = some temporary) ∧
      ∀ (i : ℕ) q temporary text, t.processes[i]? = some q →
        q.phase = .writing temporary text true →
        t.temporaries.lookup temporary = some (some text) := by
  have hs := sound_run hrun (sound_init c start)
  have ht := sound_run hmore hs
  refine ⟨ht.recorded.explained, ht.recorded.once, ht.recorded.known, ?_, log_run hmore, ?_,
    ht.guarded.had, ?_, ?_⟩
  · intro i q hq
    refine ⟨fun outcome hphase => ht.recorded.logged i q outcome hq ?_, ht.recorded.unlogged i q hq⟩
    rw [hphase]
    rfl
  · intro i hnone hmem
    obtain ⟨e, he, rfl⟩ := List.mem_map.mp hmem
    obtain ⟨q, hq, -⟩ := hs.recorded.known e he
    rw [hnone] at hq
    cases hq
  · intro temporary
    rw [← Assoc.lookup_isSome, Option.isSome_iff_exists]
    constructor
    · rintro ⟨content, hcontent⟩
      exact ht.stored.owned temporary content hcontent
    · rintro ⟨i, q, hq, htemporary⟩
      obtain ⟨content, hcontent, -⟩ := ht.stored.kept i q temporary hq htemporary
      exact ⟨content, hcontent⟩
  · intro i q temporary text hq hphase
    obtain ⟨content, hcontent, hwritten⟩ :=
      ht.stored.kept i q temporary hq (by rw [hphase]; rfl)
    rw [hwritten (some text) (by rw [hphase]; rfl)] at hcontent
    exact hcontent

def written (n : ℤ) : Operation := .set "h" "f" ⟨.int n, .int n, .int 1⟩

/-- Two calls write one document. The first is killed before it replaces the document, and the
second waits for the lock. -/
def interrupted : List Event :=
  [.call (written 1), .call (written 2), .acquire 0, .work 0, .create 0 "1", .write 0, .kill 0,
    .acquire 1, .work 1, .create 1 "2"]

def resumed : List Event := [.write 1, .replace 1, .unlock 1]

theorem interrupted_linear :
    ∃ s t, Machine.run (step anyClass) (init []) interrupted = some s ∧
      Machine.run (step anyClass) s resumed = some t ∧ t.log.map Prod.fst = [1] ∧
      Linear.Explains (backend anyClass).perform [] t.log t.files := by
  have hlog : (Machine.run (step anyClass) (init []) (interrupted ++ resumed)).map
      (fun t => t.log.map Prod.fst) = some [1] := by decide +kernel
  obtain ⟨t, hrun, hlog⟩ := Option.map_eq_some_iff.mp hlog
  obtain ⟨s, hrun, hmore⟩ := Machine.run_append_eq_some.mp hrun
  exact ⟨s, t, hrun, hmore, hlog, (always_linear hrun hmore).1⟩

/-- Calls of several processes on an empty directory are answered as the store answers them in the
order of the log. -/
theorem shared_answers {events : List Event}
    (hrun : Machine.run (step c) (init []) events = some s)
    (h : Simulation.Along Store.perform (fun store o => Admitted c o ∧ Cache.Sound store o)
      Store.empty (s.log.map fun e => e.2.1)) :
    List.Forall₂ Matches (s.log.map fun e => e.2.2)
        (Simulation.answers Store.perform Store.empty (s.log.map fun e => e.2.1)) ∧
      ∀ (i : ℕ) q outcome, s.processes[i]? = some q → q.phase = .returned outcome →
        (i, q.op, outcome) ∈ s.log := by
  have hs := sound_run hrun (sound_init c [])
  constructor
  · rw [← hs.recorded.explained.answers]
    refine Simulation.answers_related (JSONCacheDir.Represents c) Matches ?_ ?_ h
    · intro files store o hstore ho
      exact (JSONCacheDir.backend_implements c).perform hstore ho.1 ho.2
    · exact fun ns => ⟨⟨List.nodup_nil, fun key => .none⟩, .inl rfl⟩
  · intro i q outcome hq hphase
    refine hs.recorded.logged i q outcome hq ?_
    rw [hphase]
    rfl

/-- A removal and a read in turn, and a third call that is killed while it waits. -/
def cleared : List Event :=
  [.call (.delete "h" "f"), .call (.get "h" "f"), .call (written 1), .acquire 0, .work 0,
    .kill 2, .unlock 0, .acquire 1, .work 1, .unlock 1]

theorem cleared_answers :
    ∃ s, Machine.run (step anyClass) (init []) cleared = some s ∧ s.log.length = 2 ∧
      List.Forall₂ Matches (s.log.map fun e => e.2.2)
        (Simulation.answers Store.perform Store.empty (s.log.map fun e => e.2.1)) := by
  refine ⟨_, rfl, rfl, (@shared_answers anyClass _ cleared rfl ?_).1⟩
  exact ⟨⟨trivial, trivial⟩, ⟨trivial, fun hreserved => ⟨by decide, by decide⟩⟩, trivial⟩

end Shared

end Cache

end Rmote
