import Mathlib.Logic.Function.Basic
import Rmote.Library.Machine
import Rmote.Modules.Loader

/-!
# The tools of a connection

A call of a tool first makes sure that the peer has it. `prepare_call` sends the definition
of a class or a module once, under a lock for each bundle, and remembers the key that the
peer has it under. The peer loads one definition at a time and keeps the first one that it
gets under a key. The caller may be cancelled at every await, the load may fail, and the
connection may lose what is on it.
-/

namespace Rmote

namespace Modules

/-- What a call needs: a class, or the module of a function. -/
inductive TargetKind where
  | module (name : String)
  /-- The module of an inline class may not be known. -/
  | tool (name qualname : String) (module : Option String)
  deriving DecidableEq

/-- A class object or a module. Two classes may have the same names. -/
structure Target where
  id : ℕ
  kind : TargetKind
  deriving DecidableEq

/-- A name without a dot, as every method has. -/
structure MethodName where
  name : String
  dotless : '.' ∉ name.toList

/-- What travels to the peer, apart from the sources. -/
structure Definition where
  kind : Option String
  name : String
  qualname : Option String
  module : Option String

namespace TargetKind

/-- `"<locals>" in qualname` -/
def isLocal (qualname : String) : Bool :=
  (qualname.toList.tails.any fun rest => "<locals>".toList.isPrefixOf rest)

/-- `tool_to_dict`, or the definition of a module. An inline class has no module in it. -/
def definition : TargetKind → Definition
  | .module name => ⟨some "module", name, none, some name⟩
  | .tool name qualname home =>
      match home with
      | none => ⟨none, name, none, none⟩
      | some path =>
          if isLocal qualname || path == "__main__" then
            ⟨none, name, none, none⟩
          else
            ⟨none, name, some qualname, some path⟩

end TargetKind

/-- The name that a definition is registered under, on either side. -/
def toolKey (d : Definition) : String :=
  if d.kind = some "module" then
    d.module.getD "None"
  else
    match d.module with
    | some path =>
        if path = "" then d.qualname.getD d.name
        else path ++ "." ++ d.qualname.getD d.name
    | none => d.qualname.getD d.name

namespace Target

def key (t : Target) : String := toolKey t.kind.definition

end Target

/-- What a lock is for. -/
inductive LockKey where
  | bundle (root : String)
  | own (target : Target)
  deriving DecidableEq

/-- `_sync_lock`; the root of a module is the package that carries it. -/
def syncLock (root : String → String) (t : Target) : LockKey :=
  match t.kind with
  | .module name => .bundle (root name)
  | .tool _ qualname home =>
      if TargetKind.isLocal qualname then
        .own t
      else
        match home with
        | none => .own t
        | some path => if path = "__main__" then .own t else .bundle (root path)

/-- The method id of a call. -/
def methodId (key : String) (method : MethodName) : String := key ++ "." ++ method.name

/-- The key in a method id, as `rsplit(".", 1)` gives it. -/
def toolName (method : String) : String := String.ofList (beforeLastDot method.toList)

/-- Where a call stands. -/
inductive PreparePhase where
  /-- It waits for the lock of its bundle. -/
  | waiting
  /-- It has the lock and waits for the answer to its definition. -/
  | syncing
  /-- It has the method id. -/
  | ready
  | ended
  deriving DecidableEq

/-- One run of `prepare_call`, with the call after it. -/
structure Preparing where
  target : Target
  method : MethodName
  phase : PreparePhase

/-- A caller and the peer that serves it. `syncs`, `calls` and `replies` are on the wire; a
definition is named by its target and by the task that sent it. `loads` wait for the load
lock of the peer, and `loading` has it. `loaded` are the keys in the order of their loads,
and `served` the calls with the tool that the peer found. -/
structure Preparation where
  cache : List Target
  locks : LockKey → Option ℕ
  lastTask : ℕ
  tasks : ℕ → Option Preparing
  syncs : List (ℕ × Target)
  calls : List (Target × String)
  replies : List (ℕ × Bool)
  tools : String → Option Target
  loads : List (ℕ × Target)
  loading : Option (ℕ × Target)
  loaded : List String
  served : List (Target × Option Target)

/-- The steps of both sides, and what the network does. -/
inductive PrepareEvent where
  /-- A call begins and looks at the cache. -/
  | begin (target : Target) (method : MethodName)
  /-- A task gets the lock; which one of those that wait is left open. -/
  | acquire (task : ℕ)
  /-- An answer arrives. -/
  | answer (index : ℕ)
  /-- The caller is cancelled, or the connection fails. -/
  | interrupt (task : ℕ)
  /-- The call itself is written. -/
  | call (task : ℕ)
  /-- A definition arrives; a peer that accepts no code refuses it. -/
  | receive (index : ℕ) (accepted : Bool)
  /-- A load gets the lock. -/
  | load (index : ℕ)
  /-- The worker thread is done. -/
  | loadEnd (ok : Bool)
  /-- A call arrives. -/
  | serve (index : ℕ)
  | loseSync (index : ℕ)
  /-- A load is cancelled before it has the lock. -/
  | loseLoad (index : ℕ)
  | loseCall (index : ℕ)
  | loseReply (index : ℕ)

namespace Preparation

def init : Preparation where
  cache := []
  locks _ := none
  lastTask := 0
  tasks _ := none
  syncs := []
  calls := []
  replies := []
  tools _ := none
  loads := []
  loading := none
  loaded := []
  served := []

def setTask (s : Preparation) (n : ℕ) (p : Preparing) : Preparation :=
  { s with tasks := Function.update s.tasks n (some p) }

/-- The task has the lock and sends its definition. -/
def sync (root : String → String) (s : Preparation) (n : ℕ) (p : Preparing) : Preparation :=
  { s.setTask n { p with phase := .syncing } with
    locks := Function.update s.locks (syncLock root p.target) (some n)
    syncs := s.syncs ++ [(n, p.target)] }

/-- The task leaves the lock. -/
def leave (root : String → String) (s : Preparation) (n : ℕ) (p : Preparing)
    (phase : PreparePhase) : Preparation :=
  { s.setTask n { p with phase := phase } with
    locks := Function.update s.locks (syncLock root p.target) none }

/-- The second look at the cache, with the lock. -/
def enter (root : String → String) (s : Preparation) (n : ℕ) (p : Preparing) : Preparation :=
  if p.target ∈ s.cache then s.setTask n { p with phase := .ready } else s.sync root n p

/-- One stretch of one side, or what the network does. -/
def step (root : String → String) (s : Preparation) : PrepareEvent → Option Preparation
  | .begin target method =>
      let n := s.lastTask + 1
      let s := { s with lastTask := n }
      some (s.setTask n ⟨target, method, if target ∈ s.cache then .ready else .waiting⟩)
  | .acquire n =>
      (s.tasks n).bind fun p =>
        if p.phase = .waiting ∧ s.locks (syncLock root p.target) = none then
          some (s.enter root n p)
        else
          none
  | .answer index =>
      s.replies[index]?.bind fun reply =>
        let s := { s with replies := s.replies.eraseIdx index }
        match s.tasks reply.1 with
        | none => some s
        | some p =>
            if p.phase = .syncing then
              if reply.2 then
                some { s.leave root reply.1 p .ready with cache := s.cache ++ [p.target] }
              else
                some (s.leave root reply.1 p .ended)
            else
              some s
  | .interrupt n =>
      (s.tasks n).map fun p =>
        if p.phase = .syncing then s.leave root n p .ended
        else s.setTask n { p with phase := .ended }
  | .call n =>
      (s.tasks n).bind fun p =>
        if p.phase = .ready then
          some { s.setTask n { p with phase := .ended } with
            calls := s.calls ++ [(p.target, methodId p.target.key p.method)] }
        else
          none
  | .receive index accepted =>
      s.syncs[index]?.map fun sync =>
        let s := { s with syncs := s.syncs.eraseIdx index }
        if accepted then { s with loads := s.loads ++ [sync] }
        else { s with replies := s.replies ++ [(sync.1, false)] }
  | .load index =>
      s.loads[index]?.bind fun load =>
        if s.loading = none then
          let s := { s with loads := s.loads.eraseIdx index }
          if (s.tools load.2.key).isSome then
            some { s with replies := s.replies ++ [(load.1, true)] }
          else
            some { s with loading := some load }
        else
          none
  | .loadEnd ok =>
      s.loading.map fun load =>
        let s := { s with loading := none, replies := s.replies ++ [(load.1, ok)] }
        if ok then
          { s with
            tools := Function.update s.tools load.2.key (some load.2)
            loaded := s.loaded ++ [load.2.key] }
        else
          s
  | .serve index =>
      s.calls[index]?.map fun call =>
        { s with
          calls := s.calls.eraseIdx index
          served := s.served ++ [(call.1, s.tools (toolName call.2))] }
  | .loseSync index => some { s with syncs := s.syncs.eraseIdx index }
  | .loseLoad index => some { s with loads := s.loads.eraseIdx index }
  | .loseCall index => some { s with calls := s.calls.eraseIdx index }
  | .loseReply index => some { s with replies := s.replies.eraseIdx index }

end Preparation

/-! ## The method id -/

theorem eq_of_append_dot {a b x y : List Char} (h : a ++ '.' :: x = b ++ '.' :: y)
    (hx : '.' ∉ x) (hy : '.' ∉ y) : a = b := by
  rcases List.append_eq_append_iff.mp h with ⟨c, rfl, hc⟩ | ⟨c, rfl, hc⟩
  · cases c with
    | nil => exact (List.append_nil a).symm
    | cons d c =>
        rw [List.cons_append] at hc
        exact absurd (by rw [(List.cons.inj hc).2]; simp) hx
  · cases c with
    | nil => exact List.append_nil b
    | cons d c =>
        rw [List.cons_append] at hc
        exact absurd (by rw [(List.cons.inj hc).2]; simp) hy

/-- The peer reads the key out of a method id again. -/
theorem toolName_methodId (key : String) (method : MethodName) :
    toolName (methodId key method) = key := by
  have htext : (methodId key method).toList = key.toList ++ '.' :: method.name.toList := by
    simp [methodId, String.toList_append]
  have hdot : '.' ∈ (methodId key method).toList := by
    rw [htext]
    simp
  obtain ⟨tail, heq, htail⟩ := beforeLastDot_append hdot
  rw [toolName]
  rw [htext] at heq ⊢
  rw [← eq_of_append_dot heq method.dotless htail, String.ofList_toList]

/-! ## The invariant -/

namespace Preparation

/-- The task exists, for this target. -/
def For (s : Preparation) (n : ℕ) (t : Target) : Prop :=
  ∃ p, s.tasks n = some p ∧ p.target = t

/-- The peer has a tool under the key of the target. -/
def Has (s : Preparation) (t : Target) : Prop := (s.tools t.key).isSome = true

/-- The cache, the answers and the calls speak only of tools that the peer has. A lock is
held exactly while its task waits for an answer, and what the peer keeps under a key is the
target of a call. -/
structure Sound (root : String → String) (s : Preparation) : Prop where
  numbers : ∀ n p, s.tasks n = some p → n ≤ s.lastTask
  cached : ∀ t ∈ s.cache, s.Has t
  cachedOnce : s.cache.Nodup
  holds : ∀ n p, s.tasks n = some p → p.phase = .syncing →
    s.locks (syncLock root p.target) = some n ∧ p.target ∉ s.cache
  held : ∀ k n, s.locks k = some n →
    ∃ p, s.tasks n = some p ∧ p.phase = .syncing ∧ syncLock root p.target = k
  ready : ∀ n p, s.tasks n = some p → p.phase = .ready → s.Has p.target
  sent : ∀ n t, (n, t) ∈ s.syncs ++ s.loads ++ s.loading.toList → s.For n t
  replies : ∀ n, (n, true) ∈ s.replies → ∃ t, s.For n t ∧ s.Has t
  calls : ∀ t m, (t, m) ∈ s.calls → s.Has t ∧ toolName m = t.key
  tools : ∀ k t, s.tools k = some t → t.key = k ∧ ∃ n, s.For n t
  fresh : ∀ load, s.loading = some load → s.tools load.2.key = none
  loadedOnce : s.loaded.Nodup
  loaded : ∀ k, k ∈ s.loaded ↔ (s.tools k).isSome = true
  served : ∀ t found, (t, found) ∈ s.served → found = s.tools t.key ∧ s.Has t

variable {root : String → String} {s s' : Preparation} {n : ℕ} {p : Preparing}

theorem sound_init (root : String → String) : Sound root init where
  numbers _ _ h := by cases h
  cached _ h := absurd h List.not_mem_nil
  cachedOnce := List.nodup_nil
  holds _ _ h := by cases h
  held _ _ h := by cases h
  ready _ _ h := by cases h
  sent _ _ h := absurd h List.not_mem_nil
  replies _ h := absurd h List.not_mem_nil
  calls _ _ h := absurd h List.not_mem_nil
  tools _ _ h := by cases h
  fresh _ h := by cases h
  loadedOnce := List.nodup_nil
  loaded k := by simp [init]
  served _ _ h := absurd h List.not_mem_nil

/-- A task is written with the target that it had, or it is new. -/
def Keeps (s : Preparation) (n : ℕ) (p : Preparing) : Prop :=
  ∀ p', s.tasks n = some p' → p'.target = p.target

theorem keeps_self (h : s.tasks n = some p) (phase : PreparePhase) :
    s.Keeps n { p with phase := phase } := by
  intro p' hp'
  rw [h] at hp'
  cases hp'
  rfl

theorem For.setTask {m : ℕ} {t : Target} (h : s.For m t) (hkeeps : s.Keeps n p) :
    (s.setTask n p).For m t := by
  obtain ⟨p', hp', rfl⟩ := h
  by_cases hm : m = n
  · subst hm
    exact ⟨p, Function.update_self .., (hkeeps p' hp').symm⟩
  · exact ⟨p', (Function.update_of_ne hm _ _).trans hp', rfl⟩

theorem setTask_eq_some {m : ℕ} {p' : Preparing} (h : (s.setTask n p).tasks m = some p') :
    m = n ∧ p' = p ∨ m ≠ n ∧ s.tasks m = some p' := by
  simp only [Preparation.setTask, Function.update_apply] at h
  split_ifs at h with hm
  · exact .inl ⟨hm, (Option.some.inj h).symm⟩
  · exact .inr ⟨hm, h⟩

/-- One task changes, and neither takes nor has a lock. -/
theorem Sound.setTask (h : Sound root s) (hn : n ≤ s.lastTask) (hkeeps : s.Keeps n p)
    (hbefore : ∀ p', s.tasks n = some p' → p'.phase ≠ .syncing) (hafter : p.phase ≠ .syncing)
    (hready : p.phase = .ready → s.Has p.target) : Sound root (s.setTask n p) where
  numbers m p' hp' := by
    rcases setTask_eq_some hp' with ⟨rfl, -⟩ | ⟨-, hp'⟩
    · exact hn
    · exact h.numbers m p' hp'
  cached := h.cached
  cachedOnce := h.cachedOnce
  holds m p' hp' hphase := by
    rcases setTask_eq_some hp' with ⟨-, rfl⟩ | ⟨-, hp'⟩
    · exact absurd hphase hafter
    · exact h.holds m p' hp' hphase
  held k m hm := by
    obtain ⟨p', hp', hphase, hlock⟩ := h.held k m hm
    have hne : m ≠ n := by
      rintro rfl
      exact hbefore p' hp' hphase
    exact ⟨p', (Function.update_of_ne hne _ _).trans hp', hphase, hlock⟩
  ready m p' hp' hphase := by
    rcases setTask_eq_some hp' with ⟨-, rfl⟩ | ⟨-, hp'⟩
    · exact hready hphase
    · exact h.ready m p' hp' hphase
  sent m t hm := (h.sent m t hm).setTask hkeeps
  replies m hm := by
    obtain ⟨t, hfor, hhas⟩ := h.replies m hm
    exact ⟨t, hfor.setTask hkeeps, hhas⟩
  calls := h.calls
  tools k t hk := by
    obtain ⟨hkey, m, hfor⟩ := h.tools k t hk
    exact ⟨hkey, m, hfor.setTask hkeeps⟩
  fresh := h.fresh
  loadedOnce := h.loadedOnce
  loaded := h.loaded
  served := h.served

/-- A task takes a free lock and sends its definition. -/
theorem Sound.sync (h : Sound root s) (hn : n ≤ s.lastTask) (hkeeps : s.Keeps n p)
    (hfree : s.locks (syncLock root p.target) = none) (hcache : p.target ∉ s.cache) :
    Sound root (s.sync root n p) where
  numbers m p' hp' := by
    rcases setTask_eq_some hp' with ⟨rfl, -⟩ | ⟨-, hp'⟩
    · exact hn
    · exact h.numbers m p' hp'
  cached := h.cached
  cachedOnce := h.cachedOnce
  holds m p' hp' hphase := by
    simp only [Preparation.sync, Function.update_apply]
    rcases setTask_eq_some hp' with ⟨rfl, rfl⟩ | ⟨-, hp'⟩
    · exact ⟨if_pos rfl, hcache⟩
    · obtain ⟨hlock, hout⟩ := h.holds m p' hp' hphase
      refine ⟨?_, hout⟩
      rw [if_neg]
      · exact hlock
      · intro heq
        rw [heq, hfree] at hlock
        cases hlock
  held k m hm := by
    simp only [Preparation.sync, Function.update_apply] at hm
    split_ifs at hm with hk
    · cases hm
      exact ⟨{ p with phase := .syncing }, Function.update_self .., rfl, hk.symm⟩
    · obtain ⟨p', hp', hphase, hlock⟩ := h.held k m hm
      have hne : m ≠ n := by
        rintro rfl
        rw [← hlock, hkeeps p' hp'] at hk
        exact hk rfl
      exact ⟨p', (Function.update_of_ne hne _ _).trans hp', hphase, hlock⟩
  ready m p' hp' hphase := by
    rcases setTask_eq_some hp' with ⟨-, rfl⟩ | ⟨-, hp'⟩
    · cases hphase
    · exact h.ready m p' hp' hphase
  sent m t hm := by
    have hkeeps' : s.Keeps n { p with phase := .syncing } := hkeeps
    have hnew : (s.setTask n { p with phase := .syncing }).For n p.target :=
      ⟨_, Function.update_self .., rfl⟩
    simp only [Preparation.sync, List.mem_append, List.mem_singleton] at hm
    rcases hm with ((hm | hm) | hm) | hm
    · exact (h.sent m t (by simp [hm])).setTask hkeeps'
    · cases hm
      exact hnew
    · exact (h.sent m t (by simp only [List.mem_append]; exact .inl (.inr hm))).setTask hkeeps'
    · exact (h.sent m t (by simp only [List.mem_append]; exact .inr hm)).setTask hkeeps'
  replies m hm := by
    obtain ⟨t, hfor, hhas⟩ := h.replies m hm
    exact ⟨t, hfor.setTask (p := { p with phase := .syncing }) hkeeps, hhas⟩
  calls := h.calls
  tools k t hk := by
    obtain ⟨hkey, m, hfor⟩ := h.tools k t hk
    exact ⟨hkey, m, hfor.setTask (p := { p with phase := .syncing }) hkeeps⟩
  fresh := h.fresh
  loadedOnce := h.loadedOnce
  loaded := h.loaded
  served := h.served

/-- A task leaves its lock. -/
theorem Sound.leave (h : Sound root s) (hp : s.tasks n = some p) (hsyncing : p.phase = .syncing)
    {phase : PreparePhase} (hafter : phase ≠ .syncing)
    (hready : phase = .ready → s.Has p.target) : Sound root (s.leave root n p phase) where
  numbers m p' hp' := by
    rcases setTask_eq_some hp' with ⟨rfl, -⟩ | ⟨-, hp'⟩
    · exact h.numbers m p hp
    · exact h.numbers m p' hp'
  cached := h.cached
  cachedOnce := h.cachedOnce
  holds m p' hp' hphase := by
    rcases setTask_eq_some hp' with ⟨-, rfl⟩ | ⟨hne, hp'⟩
    · exact absurd hphase hafter
    · obtain ⟨hlock, hout⟩ := h.holds m p' hp' hphase
      refine ⟨?_, hout⟩
      simp only [Preparation.leave, Function.update_apply]
      rw [if_neg]
      · exact hlock
      · intro heq
        rw [heq, (h.holds n p hp hsyncing).1] at hlock
        exact hne (Option.some.inj hlock).symm
  held k m hm := by
    simp only [Preparation.leave, Function.update_apply] at hm
    split_ifs at hm with hk
    obtain ⟨p', hp', hphase, hlock⟩ := h.held k m hm
    have hne : m ≠ n := by
      rintro rfl
      rw [hp] at hp'
      cases hp'
      exact hk hlock.symm
    exact ⟨p', (Function.update_of_ne hne _ _).trans hp', hphase, hlock⟩
  ready m p' hp' hphase := by
    rcases setTask_eq_some hp' with ⟨-, rfl⟩ | ⟨-, hp'⟩
    · exact hready hphase
    · exact h.ready m p' hp' hphase
  sent m t hm := (h.sent m t hm).setTask (keeps_self hp phase)
  replies m hm := by
    obtain ⟨t, hfor, hhas⟩ := h.replies m hm
    exact ⟨t, hfor.setTask (keeps_self hp phase), hhas⟩
  calls := h.calls
  tools k t hk := by
    obtain ⟨hkey, m, hfor⟩ := h.tools k t hk
    exact ⟨hkey, m, hfor.setTask (keeps_self hp phase)⟩
  fresh := h.fresh
  loadedOnce := h.loadedOnce
  loaded := h.loaded
  served := h.served

/-- A target whose definition the peer took goes to the cache. -/
theorem Sound.remember (h : Sound root s) {t : Target} (hhas : s.Has t) (hnew : t ∉ s.cache)
    (hnobody : ∀ m p, s.tasks m = some p → p.phase = .syncing → p.target ≠ t) :
    Sound root { s with cache := s.cache ++ [t] } where
  numbers := h.numbers
  cached t' ht' := by
    rcases List.mem_append.mp ht' with ht' | ht'
    · exact h.cached t' ht'
    · rw [List.mem_singleton.mp ht']
      exact hhas
  cachedOnce := List.nodup_append.mpr ⟨h.cachedOnce, List.nodup_singleton t, fun a ha b hb heq =>
    hnew (by rw [← List.mem_singleton.mp hb, ← heq]; exact ha)⟩
  holds m p hp hphase := by
    obtain ⟨hlock, hout⟩ := h.holds m p hp hphase
    refine ⟨hlock, fun hmem => ?_⟩
    rcases List.mem_append.mp hmem with hmem | hmem
    · exact hout hmem
    · exact hnobody m p hp hphase (List.mem_singleton.mp hmem)
  held := h.held
  ready := h.ready
  sent := h.sent
  replies := h.replies
  calls := h.calls
  tools := h.tools
  fresh := h.fresh
  loadedOnce := h.loadedOnce
  loaded := h.loaded
  served := h.served

/-- The wire loses messages, and answers to nobody come and go. -/
theorem Sound.wire (h : Sound root s) {syncs loads : List (ℕ × Target)}
    {loading : Option (ℕ × Target)} {calls : List (Target × String)} {replies : List (ℕ × Bool)}
    (hsent : ∀ e ∈ syncs ++ loads ++ loading.toList, e ∈ s.syncs ++ s.loads ++ s.loading.toList)
    (hcalls : calls ⊆ s.calls)
    (hreplies : ∀ m, (m, true) ∈ replies → (m, true) ∈ s.replies ∨ ∃ t, s.For m t ∧ s.Has t)
    (hfresh : ∀ load, loading = some load → s.tools load.2.key = none) :
    Sound root { s with
      syncs := syncs, loads := loads, loading := loading, calls := calls, replies := replies } where
  numbers := h.numbers
  cached := h.cached
  cachedOnce := h.cachedOnce
  holds := h.holds
  held := h.held
  ready := h.ready
  sent m t hm := h.sent m t (hsent _ hm)
  replies m hm := by
    rcases hreplies m hm with hm | hknown
    · exact h.replies m hm
    · exact hknown
  calls t m hm := h.calls t m (hcalls hm)
  tools := h.tools
  fresh := hfresh
  loadedOnce := h.loadedOnce
  loaded := h.loaded
  served := h.served

/-- The worker thread loaded a definition whose key is free. -/
theorem Sound.loaded_ok (h : Sound root s) {load : ℕ × Target} (hloading : s.loading = some load) :
    Sound root { s with
      loading := none
      replies := s.replies ++ [(load.1, true)]
      tools := Function.update s.tools load.2.key (some load.2)
      loaded := s.loaded ++ [load.2.key] } := by
  have hfree := h.fresh load hloading
  have hfor : s.For load.1 load.2 := h.sent load.1 load.2 (by simp [hloading])
  have hhas : ∀ t, s.Has t → (Function.update s.tools load.2.key (some load.2) t.key).isSome =
      true := by
    intro t ht
    rw [Function.update_apply]
    split_ifs
    · rfl
    · exact ht
  have hnew : load.2.key ∉ s.loaded := by
    rw [h.loaded, hfree]
    exact Bool.false_ne_true
  refine ⟨h.numbers, fun t ht => hhas t (h.cached t ht), h.cachedOnce, h.holds, h.held,
    fun m p hp hphase => hhas _ (h.ready m p hp hphase), fun m t hm => h.sent m t ?_,
    fun m hm => ?_, fun t m hm => ?_, fun k t hk => ?_, fun _ hnone => (by cases hnone), ?_,
    fun k => ?_, fun t found hm => ?_⟩
  · have hm' : (m, t) ∈ s.syncs ++ s.loads := by simpa using hm
    exact List.mem_append_left _ hm'
  · rcases List.mem_append.mp hm with hm | hm
    · obtain ⟨t, hfor', hhas'⟩ := h.replies m hm
      exact ⟨t, hfor', hhas t hhas'⟩
    · cases List.mem_singleton.mp hm
      refine ⟨load.2, hfor, ?_⟩
      simp only [Has, Function.update_self]
      rfl
  · exact ⟨hhas t (h.calls t m hm).1, (h.calls t m hm).2⟩
  · simp only [Function.update_apply] at hk
    split_ifs at hk with heq
    · cases hk
      exact ⟨heq.symm, load.1, hfor⟩
    · exact h.tools k t hk
  · exact List.nodup_append.mpr ⟨h.loadedOnce, List.nodup_singleton _, fun a ha b hb heq =>
      hnew (by rw [← List.mem_singleton.mp hb, ← heq]; exact ha)⟩
  · simp only [List.mem_append, List.mem_singleton, h.loaded, Function.update_apply]
    split_ifs with heq
    · simp [heq]
    · simp [heq]
  · obtain ⟨hfound, hhas'⟩ := h.served t found hm
    have hne : t.key ≠ load.2.key := by
      intro heq
      rw [Has, heq, hfree] at hhas'
      cases hhas'
    exact ⟨hfound.trans (Function.update_of_ne hne _ _).symm, hhas t hhas'⟩

/-- The peer looks a call up. -/
theorem Sound.serve (h : Sound root s) {call : Target × String} (hcall : call ∈ s.calls)
    (calls : List (Target × String)) (hcalls : calls ⊆ s.calls) :
    Sound root { s with
      calls := calls, served := s.served ++ [(call.1, s.tools (toolName call.2))] } := by
  obtain ⟨hhas, hname⟩ := h.calls call.1 call.2 hcall
  refine ⟨h.numbers, h.cached, h.cachedOnce, h.holds, h.held, h.ready, h.sent, h.replies,
    fun t m hm => h.calls t m (hcalls hm), h.tools, h.fresh, h.loadedOnce, h.loaded,
    fun t found hm => ?_⟩
  rcases List.mem_append.mp hm with hm | hm
  · exact h.served t found hm
  · cases List.mem_singleton.mp hm
    exact ⟨by rw [hname], hhas⟩

/-- A number that no task has yet. -/
theorem Sound.number (h : Sound root s) : Sound root { s with lastTask := s.lastTask + 1 } where
  numbers m p hp := (h.numbers m p hp).trans (Nat.le_succ _)
  cached := h.cached
  cachedOnce := h.cachedOnce
  holds := h.holds
  held := h.held
  ready := h.ready
  sent := h.sent
  replies := h.replies
  calls := h.calls
  tools := h.tools
  fresh := h.fresh
  loadedOnce := h.loadedOnce
  loaded := h.loaded
  served := h.served

/-- A task that waited gets the lock. -/
theorem Sound.enter (h : Sound root s) (hp : s.tasks n = some p) (hphase : p.phase = .waiting)
    (hfree : s.locks (syncLock root p.target) = none) : Sound root (s.enter root n p) := by
  rw [Preparation.enter]
  split_ifs with hcache
  · refine h.setTask (h.numbers n p hp) (keeps_self hp .ready) (fun p' hp' => ?_)
      (by rintro ⟨⟩) (fun _ => h.cached _ hcache)
    rw [hp] at hp'
    cases hp'
    rw [hphase]
    rintro ⟨⟩
  · exact h.sync (h.numbers n p hp) (keeps_self hp p.phase) hfree hcache

/-- A call begins. -/
theorem Sound.begin (h : Sound root s) (t : Target) (method : MethodName) :
    Sound root ({ s with lastTask := s.lastTask + 1 }.setTask (s.lastTask + 1)
      ⟨t, method, if t ∈ s.cache then .ready else .waiting⟩) := by
  have hnew : s.tasks (s.lastTask + 1) = none := by
    rcases hp : s.tasks (s.lastTask + 1) with _ | p
    · rfl
    · have := h.numbers _ p hp
      omega
  refine h.number.setTask le_rfl (fun p hp => ?_) (fun p hp => ?_) ?_ (fun hready => ?_)
  · exact absurd (hp.symm.trans hnew) (Option.some_ne_none p)
  · exact absurd (hp.symm.trans hnew) (Option.some_ne_none p)
  · dsimp only
    split_ifs <;> rintro ⟨⟩
  · dsimp only at hready
    split_ifs at hready with hcache
    exact h.cached t hcache

/-- An answer reaches the task that waits for it. -/
theorem Sound.answer (h : Sound root s) (hp : s.tasks n = some p)
    (hsyncing : p.phase = .syncing) (hhas : s.Has p.target) :
    Sound root { s.leave root n p .ready with cache := s.cache ++ [p.target] } := by
  have hleft : Sound root (s.leave root n p .ready) :=
    h.leave hp hsyncing (by rintro ⟨⟩) (fun _ => hhas)
  refine hleft.remember hhas (h.holds n p hp hsyncing).2 (fun m q hq hphase heq => ?_)
  have hlock := (hleft.holds m q hq hphase).1
  rw [heq, Preparation.leave] at hlock
  simp only [Function.update_self] at hlock
  cases hlock

/-- A caller is cancelled at an await. -/
theorem Sound.interrupt (h : Sound root s) (hp : s.tasks n = some p) :
    Sound root (if p.phase = .syncing then s.leave root n p .ended
      else s.setTask n { p with phase := .ended }) := by
  split_ifs with hsyncing
  · exact h.leave hp hsyncing (by rintro ⟨⟩) (by rintro ⟨⟩)
  · refine h.setTask (h.numbers n p hp) (keeps_self hp .ended) (fun p' hp' => ?_) (by rintro ⟨⟩)
      (by rintro ⟨⟩)
    rw [hp] at hp'
    cases hp'
    exact hsyncing

/-- A call with its method id is written. -/
theorem Sound.call (h : Sound root s) (hp : s.tasks n = some p) (hready : p.phase = .ready) :
    Sound root { s.setTask n { p with phase := .ended } with
      calls := s.calls ++ [(p.target, methodId p.target.key p.method)] } := by
  have hset := h.setTask (h.numbers n p hp) (keeps_self hp .ended) (fun p' hp' => by
    rw [hp] at hp'
    cases hp'
    rw [hready]
    rintro ⟨⟩) (by rintro ⟨⟩) (by rintro ⟨⟩)
  refine { hset with calls := fun t m hm => ?_ }
  rcases List.mem_append.mp hm with hm | hm
  · exact h.calls t m hm
  · cases List.mem_singleton.mp hm
    exact ⟨h.ready n p hp hready, toolName_methodId _ _⟩

/-- A definition arrives at the peer. -/
theorem Sound.receive (h : Sound root s) {sync : ℕ × Target} {index : ℕ} {accepted : Bool}
    (hsync : s.syncs[index]? = some sync) :
    Sound root (if accepted then
        { s with syncs := s.syncs.eraseIdx index, loads := s.loads ++ [sync] }
      else
        { s with syncs := s.syncs.eraseIdx index, replies := s.replies ++ [(sync.1, false)] }) := by
  have hmem := List.mem_of_getElem? hsync
  have hrest : ∀ e ∈ s.syncs.eraseIdx index, e ∈ s.syncs := fun _ => List.mem_of_mem_eraseIdx
  cases accepted with
  | true =>
      refine h.wire (fun e he => ?_) (List.Subset.refl _) (fun m hm => .inl hm) h.fresh
      simp only [List.mem_append, List.mem_singleton] at he ⊢
      rcases he with (he | he | rfl) | he
      · exact .inl (.inl (hrest e he))
      · exact .inl (.inr he)
      · exact .inl (.inl hmem)
      · exact .inr he
  | false =>
      refine h.wire (fun e he => ?_) (List.Subset.refl _) (fun m hm => .inl ?_) h.fresh
      · simp only [List.mem_append] at he ⊢
        rcases he with (he | he) | he
        · exact .inl (.inl (hrest e he))
        · exact .inl (.inr he)
        · exact .inr he
      · rcases List.mem_append.mp hm with hm | hm
        · exact hm
        · cases List.mem_singleton.mp hm

/-- A definition gets the load lock. A key that is loaded is answered at once. -/
theorem Sound.load (h : Sound root s) {load : ℕ × Target} {index : ℕ}
    (hload : s.loads[index]? = some load) :
    Sound root (if (s.tools load.2.key).isSome then
        { s with loads := s.loads.eraseIdx index, replies := s.replies ++ [(load.1, true)] }
      else
        { s with loads := s.loads.eraseIdx index, loading := some load }) := by
  have hmem := List.mem_of_getElem? hload
  have hrest : ∀ e ∈ s.loads.eraseIdx index, e ∈ s.loads := fun _ => List.mem_of_mem_eraseIdx
  have hfor : s.For load.1 load.2 := h.sent load.1 load.2 (by simp [hmem])
  split_ifs with hhas
  · refine h.wire (fun e he => ?_) (List.Subset.refl _) (fun m hm => ?_) h.fresh
    · simp only [List.mem_append] at he ⊢
      rcases he with (he | he) | he
      · exact .inl (.inl he)
      · exact .inl (.inr (hrest e he))
      · exact .inr he
    · rcases List.mem_append.mp hm with hm | hm
      · exact .inl hm
      · cases List.mem_singleton.mp hm
        exact .inr ⟨load.2, hfor, hhas⟩
  · refine h.wire (fun e he => ?_) (List.Subset.refl _) (fun m hm => .inl hm) (fun l hl => ?_)
    · simp only [List.mem_append, Option.toList_some, List.mem_singleton] at he ⊢
      rcases he with (he | he) | rfl
      · exact .inl (.inl he)
      · exact .inl (.inr (hrest e he))
      · exact .inl (.inr hmem)
    · cases hl
      exact Option.not_isSome_iff_eq_none.mp hhas

/-- A load that failed leaves only its answer. -/
theorem Sound.load_failed (h : Sound root s) (load : ℕ × Target) :
    Sound root { s with loading := none, replies := s.replies ++ [(load.1, false)] } := by
  refine h.wire (fun e he => ?_) (List.Subset.refl _) (fun m hm => .inl ?_) (by rintro _ ⟨⟩)
  · simp only [Option.toList_none, List.append_nil] at he
    exact List.mem_append_left _ he
  · rcases List.mem_append.mp hm with hm | hm
    · exact hm
    · cases List.mem_singleton.mp hm

/-- Every step keeps the invariant. -/
theorem Sound.step (h : Sound root s) {event : PrepareEvent}
    (hstep : s.step root event = some s') : Sound root s' := by
  cases event with
  | begin target method =>
      cases hstep
      exact h.begin target method
  | acquire n =>
      obtain ⟨p, hp, hrest⟩ := Option.bind_eq_some_iff.mp hstep
      split_ifs at hrest with hguard
      cases hrest
      exact h.enter hp hguard.1 hguard.2
  | answer index =>
      obtain ⟨reply, hreply, hrest⟩ := Option.bind_eq_some_iff.mp hstep
      have hmem := List.mem_of_getElem? hreply
      have hlost : Sound root { s with replies := s.replies.eraseIdx index } :=
        h.wire (fun _ he => he) (List.Subset.refl _)
          (fun m hm => .inl (List.mem_of_mem_eraseIdx hm)) h.fresh
      dsimp only at hrest
      rcases hp : s.tasks reply.1 with _ | p
      · rw [hp] at hrest
        cases hrest
        exact hlost
      · rw [hp] at hrest
        dsimp only at hrest
        split_ifs at hrest with hsyncing hok
        · cases hrest
          obtain ⟨t, ⟨p', hp', ht⟩, hhas⟩ := h.replies reply.1 (by rwa [← hok])
          rw [hp] at hp'
          cases hp'
          subst ht
          exact hlost.answer hp hsyncing hhas
        · cases hrest
          exact hlost.leave hp hsyncing (by rintro ⟨⟩) (by rintro ⟨⟩)
        · cases hrest
          exact hlost
  | interrupt n =>
      obtain ⟨p, hp, rfl⟩ := Option.map_eq_some_iff.mp hstep
      exact h.interrupt hp
  | call n =>
      obtain ⟨p, hp, hrest⟩ := Option.bind_eq_some_iff.mp hstep
      split_ifs at hrest with hready
      cases hrest
      exact h.call hp hready
  | receive index accepted =>
      obtain ⟨sync, hsync, rfl⟩ := Option.map_eq_some_iff.mp hstep
      exact h.receive hsync
  | load index =>
      obtain ⟨load, hload, hrest⟩ := Option.bind_eq_some_iff.mp hstep
      split_ifs at hrest with hidle
      have hnext := h.load hload
      dsimp only at hrest
      split_ifs at hrest hnext with hhas
      · cases hrest
        exact hnext
      · cases hrest
        exact hnext
  | loadEnd ok =>
      obtain ⟨load, hload, rfl⟩ := Option.map_eq_some_iff.mp hstep
      cases ok with
      | true => exact h.loaded_ok hload
      | false => exact h.load_failed load
  | serve index =>
      obtain ⟨call, hcall, rfl⟩ := Option.map_eq_some_iff.mp hstep
      exact h.serve (List.mem_of_getElem? hcall) _ List.eraseIdx_subset
  | loseSync index =>
      cases hstep
      refine h.wire (fun e he => ?_) (List.Subset.refl _) (fun m hm => .inl hm) h.fresh
      simp only [List.mem_append] at he ⊢
      exact he.imp_left (Or.imp_left List.mem_of_mem_eraseIdx)
  | loseLoad index =>
      cases hstep
      refine h.wire (fun e he => ?_) (List.Subset.refl _) (fun m hm => .inl hm) h.fresh
      simp only [List.mem_append] at he ⊢
      exact he.imp_left (Or.imp_right List.mem_of_mem_eraseIdx)
  | loseCall index =>
      cases hstep
      exact h.wire (fun _ he => he) List.eraseIdx_subset (fun m hm => .inl hm) h.fresh
  | loseReply index =>
      cases hstep
      exact h.wire (fun _ he => he) (List.Subset.refl _)
        (fun m hm => .inl (List.mem_of_mem_eraseIdx hm)) h.fresh

/-- What holds after any run. -/
structure Prepared (root : String → String) (s : Preparation) : Prop where
  /-- A call finds the tool of a target that has its key. -/
  found : ∀ t found, (t, found) ∈ s.served → ∃ t' n, found = some t' ∧ t'.key = t.key ∧ s.For n t'
  /-- Two tasks never sync under one lock. -/
  alone : ∀ m n p q, s.tasks m = some p → s.tasks n = some q → p.phase = .syncing →
    q.phase = .syncing → syncLock root p.target = syncLock root q.target → m = n
  /-- A task that is over, or that never had it, does not keep a lock. -/
  freed : ∀ k n, s.locks k = some n →
    ∃ p, s.tasks n = some p ∧ p.phase = .syncing ∧ syncLock root p.target = k
  /-- What the caller believes to be on the peer is there. -/
  cached : ∀ t ∈ s.cache, s.Has t
  /-- A target is synced with success once, and a key is loaded once. -/
  cachedOnce : s.cache.Nodup
  loadedOnce : s.loaded.Nodup

theorem Sound.prepared (h : Sound root s) : Prepared root s where
  found t found hm := by
    obtain ⟨hfound, hhas⟩ := h.served t found hm
    obtain ⟨t', ht'⟩ := Option.isSome_iff_exists.mp hhas
    obtain ⟨hkey, n, hfor⟩ := h.tools t.key t' ht'
    exact ⟨t', n, hfound.trans ht', hkey, hfor⟩
  alone m n p q hp hq hpsync hqsync hlock := by
    have hm := (h.holds m p hp hpsync).1
    rw [hlock, (h.holds n q hq hqsync).1] at hm
    exact (Option.some.inj hm).symm
  freed := h.held
  cached := h.cached
  cachedOnce := h.cachedOnce
  loadedOnce := h.loadedOnce

/-- Whatever both sides, the callers that cancel and the network do, a call that is written
with its method id finds a tool on the peer, and the locks keep the syncs of a bundle apart. -/
theorem always_prepared (root : String → String) {events : List PrepareEvent}
    (hrun : Machine.run (Preparation.step root) init events = some s) : Prepared root s :=
  (Machine.run_always (Sound root) (fun _ _ _ h hstep => h.step hstep) hrun
    (sound_init root)).prepared

/-- Two classes of one package. The first call is cancelled after its definition left, and
the second caller gets its lock. -/
def rivals : List PrepareEvent :=
  [.begin ⟨0, .tool "A" "A" (some "p.a")⟩ ⟨"f", by decide⟩, .acquire 1,
    .begin ⟨0, .tool "A" "A" (some "p.a")⟩ ⟨"g", by decide⟩, .interrupt 1, .acquire 2,
    .receive 0 true, .receive 0 true, .load 0, .loadEnd true, .load 0, .answer 0, .answer 0,
    .call 2, .serve 0]

theorem rivals_prepared :
    ∃ s, Machine.run (Preparation.step fun _ => "p") init rivals = some s ∧
      s.served.length = 1 ∧ Prepared (fun _ => "p") s := by
  refine ⟨_, rfl, rfl, @always_prepared _ _ rivals rfl⟩

end Preparation

end Modules

end Rmote
