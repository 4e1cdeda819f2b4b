import Rmote.Cache.Read
import Rmote.Library.Latest
import Rmote.Library.Outcome
import Mathlib.Order.WithBot

/-!
# The cache in memory

A `Cache` takes entries from `update`, from `merge` and from a backend, and keeps the latest one of
each key. The three check different things, and a load lets other calls run while it waits for its
backend. A run is a list of calls, with the two halves of a load for themselves. Whatever the order,
the cache ends with the latest of all entries that were handed to it.
-/

namespace Rmote

namespace Memory

open Cache (Failure toDouble)
open Outcome Latest

/-- What a caller gives as a key or a namespace: a string, or another hashable object. -/
inductive Key where
  | str (s : String)
  | other (object : ℕ)
  deriving DecidableEq

/-- `collected_at`: a number, or an object without an order. -/
inductive Time where
  | int (n : ℤ)
  | float (x : Cache.Real)
  | other (type : String)

/-- `type(value).__name__`. -/
def Time.type : Time → String
  | .int _ => "int"
  | .float _ => "float"
  | .other type => type

/-- The place of a number in the order, which a NaN has not. -/
def rank : Cache.Real → Option (WithBot (WithTop ℚ))
  | .finite q => some ((q : WithTop ℚ) : WithBot (WithTop ℚ))
  | .infinite true => some ⊥
  | .infinite false => some ((⊤ : WithTop ℚ) : WithBot (WithTop ℚ))
  | .nan => none

def Time.number : Time → Option Cache.Real
  | .int n => some (.finite n)
  | .float x => some x
  | .other _ => none

/-- `<=` of two numbers. -/
def atMost (x y : Cache.Real) : Bool :=
  match rank x, rank y with
  | some a, some b => a ≤ b
  | _, _ => false

/-- `<=`. -/
def Time.le (a b : Time) : Except Failure Bool :=
  match a.number, b.number with
  | some x, some y => .ok (atMost x y)
  | _, _ => .error (.type ("'<=' not supported between instances of '" ++ a.type ++ "' and '" ++
      b.type ++ "'"))

/-- One complete value result. -/
structure CacheEntry (T : Type) where
  data : T
  collectedAt : Time
  version : ℤ

abbrev Entries (T : Type) := List (Key × CacheEntry T)

structure Cache (T : Type) where
  versions : List (Key × ℤ)
  entries : Entries T
  data : List (Key × T)
  ns : Option String

/-- The keys that a caller asks for. -/
inductive Keys where
  | all
  | text (s : String)
  | iterable (keys : List Key)

/-! ## The methods -/

section Methods

variable {T : Type}

/-- What a method does with the cache; an exception leaves the cache as it is at that point. -/
abbrev CacheM (T : Type) := EStateM Failure (Cache T)

/-- Raise what a computation without a cache raises. -/
def lift {α : Type} : Except Failure α → CacheM T α
  | .ok a => pure a
  | .error failure => throw failure

def validateKey : Key → Except Failure Unit
  | .str s => if s = "" then .error (.value "cache key must be a nonempty string") else .ok ()
  | .other _ => .error (.value "cache key must be a nonempty string")

def validateKeys : List Key → Except Failure Unit
  | [] => .ok ()
  | key :: rest => do
      validateKey key
      validateKeys rest

/-- The loop of the constructor; a version that is not an integer is `none`. -/
def validateVersions : List (Key × Option ℤ) → Except Failure (List (Key × ℤ))
  | [] => .ok []
  | (key, version) :: rest => do
      validateKey key
      match version with
      | some n =>
          if n < 1 then
            .error (.value "version must be a positive integer")
          else
            return (key, n) :: (← validateVersions rest)
      | none => .error (.value "version must be a positive integer")

def Cache.new (versions : List (Key × Option ℤ)) : Except Failure (Cache T) := do
  return ⟨← validateVersions versions, [], [], none⟩

/-- `self.versions.get(key, 1)`. -/
def expected (versions : List (Key × ℤ)) (key : Key) : ℤ := (versions.lookup key).getD 1

/-- `dict.fromkeys`. -/
def fromKeys (keys : List Key) : List Key :=
  (Assoc.ofPairs (keys.map fun key => (key, ()))).map Prod.fst

/-- The data view of entries. -/
def view (entries : Entries T) : List (Key × T) := entries.map fun e => (e.1, e.2.data)

def Cache.select (keys : Keys) : CacheM T (List Key) := do
  let c ← get
  match keys with
  | .text _ => throw (.value "keys must be an iterable of keys, not a string")
  | .all =>
      let selected := fromKeys (c.versions.map Prod.fst ++ c.entries.map Prod.fst)
      lift (validateKeys selected)
      return selected
  | .iterable keys =>
      lift (validateKeys (fromKeys keys))
      return fromKeys keys

/-- The loop of `merge` over the new entries. -/
def mergeInto (merged : Entries T) : Entries T → Except Failure (Entries T)
  | [] => .ok merged
  | (key, entry) :: rest => do
      validateKey key
      match merged.lookup key with
      | none => mergeInto (Assoc.put key entry merged) rest
      | some previous =>
          if ← previous.collectedAt.le entry.collectedAt then
            mergeInto (Assoc.put key entry merged) rest
          else
            mergeInto merged rest

def Cache.merge (entries : Entries T) : CacheM T Unit := do
  let c ← get
  let merged ← lift (mergeInto c.entries entries)
  modify fun c => { c with entries := merged }
  modify fun c => { c with data := view merged }

/-- The check of the timestamp in `update`. -/
def checkTimestamp : Time → Except Failure Unit
  | .int n =>
      if (toDouble n).isNone then .error .overflow
      else if n < 0 then .error (.value "collected_at must be finite and non-negative")
      else .ok ()
  | .float (.finite q) =>
      if q < 0 then .error (.value "collected_at must be finite and non-negative") else .ok ()
  | _ => .error (.value "collected_at must be finite and non-negative")

/-- The loop of `update` over the new values. -/
def observe (versions : List (Key × ℤ)) (timestamp : Time) (entries : Entries T) :
    List (Key × T) → Except Failure (Entries T)
  | [] => .ok entries
  | (key, value) :: rest => do
      validateKey key
      observe versions timestamp (Assoc.put key ⟨value, timestamp, expected versions key⟩ entries) rest

/-- `update`, at the time `now`. -/
def Cache.update (values : List (Key × T)) (collectedAt : Option Time) (now : Time) :
    CacheM T Unit := do
  let timestamp := collectedAt.getD now
  lift (checkTimestamp timestamp)
  let c ← get
  let entries ← lift (observe c.versions timestamp [] values)
  Cache.merge entries

def Cache.bind (ns : Key) : CacheM T Unit := do
  let c ← get
  match ns with
  | .other _ => throw (.value "namespace must be a nonempty cache identity")
  | .str s =>
      if s = "" then
        throw (.value "namespace must be a nonempty cache identity")
      else if c.ns.isSome && c.ns != some s then
        throw (.value "Use a separate Cache for each namespace")
      else
        modify fun c => { c with ns := some s }

/-- `load` up to the call of the backend, with the selected keys. -/
def Cache.load (ns : Key) (keys : Keys) : CacheM T (Option (List Key)) := do
  let selected ← match keys with
    | .all => pure none
    | keys => do
        let selected ← Cache.select keys
        pure (some selected)
  Cache.bind ns
  return selected

/-- What `load` takes of the entries that the backend returned. -/
def current (versions : List (Key × ℤ)) (selected : Option (List Key)) (loaded : Entries T) :
    Entries T :=
  loaded.filter fun e =>
    (match selected with
      | none => true
      | some keys => e.1 ∈ keys) && e.2.version = expected versions e.1

/-- The rest of `load`, with what the backend returned or raised. -/
def Cache.loaded (selected : Option (List Key)) (answer : Except Failure (Entries T)) :
    CacheM T Unit := do
  let loaded ← lift answer
  let c ← get
  Cache.merge (current c.versions selected loaded)

/-- `save`; the cache is not touched after the batch is made. -/
def Cache.save (ns : Key) (keys : Keys) (setMany : Entries T → Except Failure Unit) :
    CacheM T Unit := do
  let selected ← Cache.select keys
  Cache.bind ns
  let c ← get
  lift (setMany (selected.filterMap fun key => (c.entries.lookup key).map fun entry => (key, entry)))

def Cache.invalidate (keys : Keys) : CacheM T Unit := do
  let removed ← Cache.select keys
  let c ← get
  let remaining := c.entries.filter fun e => e.1 ∉ removed
  modify fun c => { c with entries := remaining }
  modify fun c => { c with data := view remaining }

end Methods

/-! ## Runs -/

section Runs

variable {T : Type}

/-- A cache and the loads that wait for their backend, with the keys that they selected. -/
structure System (T : Type) where
  cache : Cache T
  waiting : List (ℕ × Option (List Key))

/-- What happens to a cache. -/
inductive Call (T : Type) where
  | update (values : List (Key × T)) (collectedAt : Option Time) (now : Time)
  | merge (entries : Entries T)
  | load (id : ℕ) (ns : Key) (keys : Keys)
  | loaded (id : ℕ) (answer : Except Failure (Entries T))
  | save (ns : Key) (keys : Keys) (setMany : Entries T → Except Failure Unit)
  | invalidate (keys : Keys)

/-- Run a method, and give what it raised. -/
def System.run (s : System T) (method : CacheM T Unit) : System T × Option Failure :=
  match EStateM.run method s.cache with
  | .ok _ c => (⟨c, s.waiting⟩, none)
  | .error failure c => (⟨c, s.waiting⟩, some failure)

def System.step (s : System T) : Call T → System T × Option Failure
  | .update values collectedAt now => s.run (Cache.update values collectedAt now)
  | .merge entries => s.run (Cache.merge entries)
  | .load id ns keys =>
      match (Cache.load ns keys).run s.cache with
      | .ok selected c => (⟨c, Assoc.put id selected s.waiting⟩, none)
      | .error failure c => (⟨c, s.waiting⟩, some failure)
  | .loaded id answer =>
      match s.waiting.lookup id with
      | some selected => System.run ⟨s.cache, Assoc.del id s.waiting⟩ (Cache.loaded selected answer)
      -- no load waits under this number
      | none => (s, none)
  | .save ns keys setMany => s.run (Cache.save ns keys setMany)
  | .invalidate keys => s.run (Cache.invalidate keys)

def System.after (s : System T) : List (Call T) → System T
  | [] => s
  | call :: rest => (s.step call).1.after rest

/-- A cache that nothing has happened to. -/
def System.start (c : Cache T) : System T := ⟨c, []⟩

/-- The entries that a call hands to `merge`. -/
def System.handed (s : System T) : Call T → Option (Entries T)
  | .update values collectedAt now =>
      (observe s.cache.versions (collectedAt.getD now) [] values).toOption
  | .merge entries => some entries
  | .loaded id (.ok loaded) =>
      (s.waiting.lookup id).map fun selected => current s.cache.versions selected loaded
  | _ => none

/-- The batches that the calls of a run delivered. -/
def System.deliveries (s : System T) : List (Call T) → List (Entries T)
  | [] => []
  | call :: rest =>
      (if (s.step call).2.isNone then (s.handed call).toList else []) ++
        (s.step call).1.deliveries rest

end Runs

/-! ## What a call does -/

section Specifications

variable {T : Type} {c d : Cache T} {s : System T}

/-- The entries and the data are as before. -/
structure Unchanged (c d : Cache T) : Prop where
  versions : d.versions = c.versions
  entries : d.entries = c.entries
  data : d.data = c.data

theorem Unchanged.refl (c : Cache T) : Unchanged c c := ⟨rfl, rfl, rfl⟩

/-- The batch was merged, and both views show it. -/
structure Merges (c : Cache T) (batch : Entries T) (d : Cache T) : Prop where
  versions : d.versions = c.versions
  entries : mergeInto c.entries batch = .ok d.entries
  data : d.data = view d.entries

theorem ensures_lift {α : Type} (r : Except Failure α) :
    Ensures (lift r) c (fun a d => r = .ok a ∧ d = c) (fun _ d => d = c) := by
  cases r with
  | ok a => exact ensures_pure ⟨rfl, rfl⟩
  | error failure => exact ensures_throw rfl

theorem ensures_merge (batch : Entries T) :
    Ensures (Cache.merge batch) c (fun _ d => Merges c batch d) (fun _ d => d = c) := by
  refine ensures_get_bind ((ensures_lift _).bind ?_)
  rintro merged d ⟨hmerged, rfl⟩
  exact ensures_modify_bind ⟨rfl, hmerged, rfl⟩

theorem ensures_update (values : List (Key × T)) (collectedAt : Option Time) (now : Time) :
    Ensures (Cache.update values collectedAt now) c
      (fun _ d => ∃ batch, observe c.versions (collectedAt.getD now) [] values = .ok batch ∧
        Merges c batch d) (fun _ d => d = c) := by
  refine (ensures_lift _).bind ?_
  rintro - d ⟨-, rfl⟩
  refine ensures_get_bind ((ensures_lift _).bind ?_)
  rintro batch d ⟨hbatch, rfl⟩
  exact (ensures_merge batch).mono (fun _ _ hmerges => ⟨batch, hbatch, hmerges⟩) fun _ _ h => h

theorem ensures_select (keys : Keys) :
    Ensures (Cache.select keys) c (fun _ d => d = c) (fun _ d => d = c) := by
  have hvalidated : ∀ selected, Ensures (do
      lift (validateKeys selected)
      return selected) c (fun _ d => d = c) (fun _ d => d = c) := by
    intro selected
    refine (ensures_lift _).bind ?_
    rintro - d ⟨-, rfl⟩
    exact ensures_pure rfl
  refine ensures_get_bind ?_
  cases keys with
  | text t => exact ensures_throw rfl
  | all => exact hvalidated _
  | iterable keys => exact hvalidated _

theorem ensures_bind (ns : Key) :
    Ensures (Cache.bind ns) c (fun _ d => Unchanged c d) (fun _ d => d = c) := by
  refine ensures_get_bind ?_
  cases ns with
  | other object => exact ensures_throw rfl
  | str t =>
      dsimp only
      split_ifs
      · exact ensures_throw rfl
      · exact ensures_throw rfl
      · exact Unchanged.mk rfl rfl rfl

theorem ensures_load (ns : Key) (keys : Keys) :
    Ensures (Cache.load ns keys) c (fun _ d => Unchanged c d) (fun _ d => d = c) := by
  have hbind : ∀ selected : Option (List Key), Ensures (do
      Cache.bind ns
      return selected) c (fun _ d => Unchanged c d) (fun _ d => d = c) :=
    fun selected => (ensures_bind ns).bind fun _ _ h => ensures_pure h
  unfold Cache.load
  cases keys with
  | all => exact hbind none
  | text t =>
      refine (ensures_select (.text t)).bind ?_
      rintro selected d rfl
      exact hbind (some selected)
  | iterable keys =>
      refine (ensures_select (.iterable keys)).bind ?_
      rintro selected d rfl
      exact hbind (some selected)

theorem ensures_loaded (selected : Option (List Key)) (answer : Except Failure (Entries T)) :
    Ensures (Cache.loaded selected answer) c
      (fun _ d => ∃ loaded, answer = .ok loaded ∧ Merges c (current c.versions selected loaded) d)
      (fun _ d => d = c) := by
  refine (ensures_lift _).bind ?_
  rintro loaded d ⟨hloaded, rfl⟩
  exact ensures_get_bind
    ((ensures_merge _).mono (fun _ _ hmerges => ⟨loaded, hloaded, hmerges⟩) fun _ _ h => h)

theorem ensures_save (ns : Key) (keys : Keys) (setMany : Entries T → Except Failure Unit) :
    Ensures (Cache.save ns keys setMany) c (fun _ d => Unchanged c d) (fun _ d => Unchanged c d) := by
  refine ((ensures_select keys).mono (fun _ _ h => h) fun _ _ h => h ▸ Unchanged.refl c).bind ?_
  rintro selected d rfl
  refine ((ensures_bind ns).mono (fun _ _ h => h) fun _ _ h => h ▸ Unchanged.refl _).bind ?_
  intro _ e he
  refine ensures_get_bind ((ensures_lift _).mono ?_ ?_)
  · rintro - _ ⟨-, rfl⟩
    exact he
  · rintro - _ rfl
    exact he

theorem ensures_invalidate (keys : Keys) :
    Ensures (Cache.invalidate keys) c
      (fun _ d => d.versions = c.versions ∧ d.data = view d.entries) (fun _ d => d = c) := by
  refine (ensures_select keys).bind ?_
  rintro removed d rfl
  exact ensures_get_bind (ensures_modify_bind (ensures_modify_bind ⟨rfl, rfl⟩))

end Specifications

/-! ## What a run does -/

section Steps

variable {T : Type} {c : Cache T} {s : System T} {call : Call T} {calls rest : List (Call T)}

/-- The call may take entries away. -/
def Call.Invalidates : Call T → Prop
  | .invalidate _ => True
  | _ => False

/-- What a call can do to the cache. -/
def System.Does (s : System T) (call : Call T) : Option Failure → Cache T → Prop
  | some _, d => Unchanged s.cache d
  | none, d =>
      match s.handed call with
      | some batch => Merges s.cache batch d
      | none => Unchanged s.cache d ∨
          (call.Invalidates ∧ d.versions = s.cache.versions ∧ d.data = view d.entries)

theorem does_merge {batch : Entries T} {d : Cache T} (hbatch : s.handed call = some batch)
    (h : Merges s.cache batch d) : s.Does call none d := by
  unfold System.Does
  rw [hbatch]
  exact h

theorem does_keep {d : Cache T} (hbatch : s.handed call = none) (h : Unchanged s.cache d) :
    s.Does call none d := by
  unfold System.Does
  rw [hbatch]
  exact .inl h

theorem does_run {method : CacheM T Unit} {t : System T} {Q E : Cache T → Prop}
    (h : Ensures method t.cache (fun _ d => Q d) fun _ d => E d)
    (hok : ∀ d, Q d → s.Does call none d) (herror : ∀ d, E d → Unchanged s.cache d) :
    s.Does call (t.run method).2 (t.run method).1.cache := by
  unfold System.run
  cases hrun : EStateM.run method t.cache with
  | ok a d => exact hok d (h.ok hrun)
  | error failure d => exact herror d (h.error hrun)

theorem step_does (s : System T) (call : Call T) :
    s.Does call (s.step call).2 (s.step call).1.cache := by
  have hsame : ∀ d : Cache T, d = s.cache → Unchanged s.cache d := fun d h => h ▸ .refl _
  cases call with
  | update values collectedAt now =>
      refine does_run (ensures_update values collectedAt now) ?_ hsame
      rintro d ⟨batch, hbatch, hmerges⟩
      refine does_merge ?_ hmerges
      rw [System.handed, hbatch]
      rfl
  | merge batch => exact does_run (ensures_merge batch) (fun d => does_merge rfl) hsame
  | load id ns keys =>
      have hload := ensures_load (c := s.cache) ns keys
      unfold System.step
      dsimp only
      cases hrun : (Cache.load ns keys).run s.cache with
      | ok selected d => exact does_keep rfl (hload.ok hrun)
      | error failure d => exact hsame d (hload.error hrun)
  | loaded id answer =>
      unfold System.step
      dsimp only
      cases hid : s.waiting.lookup id with
      | none =>
          refine does_keep ?_ (.refl _)
          cases answer with
          | ok loaded =>
              rw [System.handed, hid]
              rfl
          | error failure => rfl
      | some selected =>
          refine does_run (t := ⟨s.cache, Assoc.del id s.waiting⟩)
            (ensures_loaded selected answer) ?_ hsame
          rintro d ⟨loaded, rfl, hmerges⟩
          refine does_merge ?_ hmerges
          rw [System.handed, hid]
          rfl
  | save ns keys setMany =>
      exact does_run (ensures_save ns keys setMany) (fun d => does_keep rfl) fun d h => h
  | invalidate keys =>
      refine does_run (ensures_invalidate keys) ?_ hsame
      rintro d ⟨hversions, hdata⟩
      exact .inr ⟨trivial, hversions, hdata⟩

/-- A call that raises leaves the entries and the data. -/
theorem step_raises {failure : Failure} (h : (s.step call).2 = some failure) :
    Unchanged s.cache (s.step call).1.cache := by
  have hdoes := step_does s call
  rw [h] at hdoes
  exact hdoes

theorem step_versions (s : System T) (call : Call T) :
    (s.step call).1.cache.versions = s.cache.versions := by
  have hdoes := step_does s call
  cases hfailure : (s.step call).2 with
  | some failure => exact (step_raises hfailure).versions
  | none =>
      rw [hfailure] at hdoes
      unfold System.Does at hdoes
      dsimp only at hdoes
      split at hdoes
      · exact hdoes.versions
      · rcases hdoes with hdoes | hdoes
        · exact hdoes.versions
        · exact hdoes.2.1

/-- The data view follows the entries. -/
theorem step_view (h : s.cache.data = view s.cache.entries) (call : Call T) :
    (s.step call).1.cache.data = view (s.step call).1.cache.entries := by
  have hkept : Unchanged s.cache (s.step call).1.cache →
      (s.step call).1.cache.data = view (s.step call).1.cache.entries := by
    intro hunchanged
    rw [hunchanged.data, hunchanged.entries, h]
  have hdoes := step_does s call
  cases hfailure : (s.step call).2 with
  | some failure => exact hkept (step_raises hfailure)
  | none =>
      rw [hfailure] at hdoes
      unfold System.Does at hdoes
      dsimp only at hdoes
      split at hdoes
      · exact hdoes.data
      · rcases hdoes with hdoes | hdoes
        · exact hkept hdoes
        · exact hdoes.2.2

/-- What the calls of a run preserve. -/
theorem after_invariant {I : System T → Prop} (hstep : ∀ s call, I s → I (s.step call).1)
    (hs : I s) (calls : List (Call T)) : I (s.after calls) := by
  induction calls generalizing s with
  | nil => exact hs
  | cons call rest ih => exact ih (hstep s call hs)

theorem after_append (s : System T) (calls rest : List (Call T)) :
    s.after (calls ++ rest) = (s.after calls).after rest := by
  induction calls generalizing s with
  | nil => rfl
  | cons call calls ih => exact ih (s.step call).1

theorem after_versions (s : System T) (calls : List (Call T)) :
    (s.after calls).cache.versions = s.cache.versions :=
  after_invariant (I := fun t => t.cache.versions = s.cache.versions)
    (fun t call h => (step_versions t call).trans h) rfl calls

/-! ### Entries of one key -/

/-- The entry was collected at most as late as the other one. -/
def AtMost (e e' : CacheEntry T) : Prop := e.collectedAt.le e'.collectedAt = .ok true

instance : DecidableRel (@AtMost T) := fun e e' =>
  inferInstanceAs (Decidable (e.collectedAt.le e'.collectedAt = .ok true))

theorem le_eq_ok_true {a b : Time} : a.le b = .ok true ↔ ∃ x y u v, a.number = some x ∧
    b.number = some y ∧ rank x = some u ∧ rank y = some v ∧ u ≤ v := by
  unfold Time.le atMost
  cases ha : a.number with
  | none => simp
  | some x =>
      cases hb : b.number with
      | none => simp
      | some y =>
          cases hx : rank x with
          | none => simp [hx]
          | some u =>
              cases hy : rank y with
              | none => simp [hy]
              | some v => simp [hx, hy]

theorem AtMost.trans {x y z : CacheEntry T} (hxy : AtMost x y) (hyz : AtMost y z) : AtMost x z := by
  unfold AtMost at *
  rw [le_eq_ok_true] at hxy hyz ⊢
  obtain ⟨x, y, u, v, hx, hy, hu, hv, huv⟩ := hxy
  obtain ⟨y', z, v', w, hy', hz, hv', hw, hvw⟩ := hyz
  obtain rfl := Option.some.inj (hy.symm.trans hy')
  obtain rfl := Option.some.inj (hv.symm.trans hv')
  exact ⟨x, z, u, w, hx, hz, hu, hw, huv.trans hvw⟩

/-- The entries of a batch for a key. -/
def ofKey (key : Key) (batch : Entries T) : List (CacheEntry T) :=
  (batch.filter fun e => e.1 = key).map Prod.snd

theorem mem_ofKey {key : Key} {batch : Entries T} {entry : CacheEntry T} :
    entry ∈ ofKey key batch ↔ (key, entry) ∈ batch := by
  unfold ofKey
  simp only [List.mem_map, List.mem_filter, decide_eq_true_eq]
  constructor
  · rintro ⟨e, ⟨he, rfl⟩, rfl⟩
    exact he
  · exact fun h => ⟨(key, entry), ⟨h, rfl⟩, rfl⟩

theorem ofKey_append (key : Key) (batch batch' : Entries T) :
    ofKey key (batch ++ batch') = ofKey key batch ++ ofKey key batch' := by
  unfold ofKey
  rw [List.filter_append, List.map_append]

/-- One entry of a merge. -/
theorem mergeInto_cons {key : Key} {entry : CacheEntry T} {old rest merged : Entries T}
    (h : mergeInto old ((key, entry) :: rest) = .ok merged) :
    ∃ next, mergeInto next rest = .ok merged ∧ ∀ k, next.lookup k =
      if k = key then later AtMost (old.lookup key) entry else old.lookup k := by
  have hput : later AtMost (old.lookup key) entry = some entry → ∀ k,
      (Assoc.put key entry old).lookup k =
        if k = key then later AtMost (old.lookup key) entry else old.lookup k := by
    intro hlater k
    rw [hlater, Assoc.lookup_put]
  rw [mergeInto] at h
  cases hkey : validateKey key with
  | error failure =>
      rw [hkey] at h
      cases h
  | ok _ =>
      rw [hkey] at h
      change (match old.lookup key with
        | none => mergeInto (Assoc.put key entry old) rest
        | some previous => do
            if ← previous.collectedAt.le entry.collectedAt then
              mergeInto (Assoc.put key entry old) rest
            else
              mergeInto old rest) = .ok merged at h
      cases hold : old.lookup key with
      | none =>
          rw [hold] at h hput
          exact ⟨_, h, hput rfl⟩
      | some previous =>
          rw [hold] at h hput
          dsimp only at h
          cases hle : previous.collectedAt.le entry.collectedAt with
          | error failure =>
              rw [hle] at h
              cases h
          | ok b =>
              rw [hle] at h
              cases b with
              | true => exact ⟨_, h, hput (if_pos hle)⟩
              | false =>
                  refine ⟨old, h, ?_⟩
                  intro k
                  have hatMost : ¬ AtMost previous entry := by
                    unfold AtMost
                    rw [hle]
                    exact nofun
                  rw [later, if_neg hatMost]
                  split_ifs with hk
                  · rw [hk, hold]
                  · rfl

/-- Each key of a merge for itself. -/
theorem lookup_mergeInto (key : Key) {old batch merged : Entries T}
    (h : mergeInto old batch = .ok merged) :
    merged.lookup key = (ofKey key batch).foldl (later AtMost) (old.lookup key) := by
  induction batch generalizing old with
  | nil =>
      cases h
      rfl
  | cons e rest ih =>
      obtain ⟨next, hnext, hlookup⟩ := mergeInto_cons h
      rw [ih hnext, hlookup key]
      unfold ofKey
      by_cases hkey : e.1 = key
      · rw [List.filter_cons_of_pos (by simpa using hkey), List.map_cons, List.foldl_cons, hkey,
          if_pos rfl]
      · rw [List.filter_cons_of_neg (by simpa using hkey), if_neg (Ne.symm hkey)]

/-! ### Deliveries -/

/-- No call of the run takes entries away. -/
def Keeping (calls : List (Call T)) : Prop := ∀ call ∈ calls, ¬ call.Invalidates

theorem lookup_step (hcall : ¬ call.Invalidates) (key : Key) :
    (s.step call).1.cache.entries.lookup key =
      (ofKey key (if (s.step call).2.isNone then (s.handed call).toList else []).flatten).foldl
        (later AtMost) (s.cache.entries.lookup key) := by
  have hdoes := step_does s call
  cases hfailure : (s.step call).2 with
  | some failure =>
      rw [(step_raises hfailure).entries]
      rfl
  | none =>
      rw [hfailure] at hdoes
      rw [Option.isNone_none, if_pos rfl]
      unfold System.Does at hdoes
      cases hhanded : s.handed call with
      | some batch =>
          rw [hhanded] at hdoes
          rw [lookup_mergeInto key hdoes.entries, Option.toList_some, List.flatten_singleton]
      | none =>
          rw [hhanded] at hdoes
          rcases hdoes with hdoes | hdoes
          · rw [hdoes.entries]
            rfl
          · exact absurd hdoes.1 hcall

/-- After a run that takes nothing away, the entry of a key comes from all deliveries for it. -/
theorem lookup_after (h : Keeping calls) (key : Key) :
    (s.after calls).cache.entries.lookup key =
      (ofKey key (s.deliveries calls).flatten).foldl (later AtMost)
        (s.cache.entries.lookup key) := by
  induction calls generalizing s with
  | nil => rfl
  | cons call rest ih =>
      rw [System.after, ih fun c hc => h c (List.mem_cons_of_mem call hc),
        lookup_step (h call List.mem_cons_self), System.deliveries, List.flatten_append,
        ofKey_append, List.foldl_append]

theorem mem_ofKey_flatten {key : Key} {entry : CacheEntry T} {batches : List (Entries T)} :
    entry ∈ ofKey key batches.flatten ↔ ∃ batch ∈ batches, (key, entry) ∈ batch := by
  rw [mem_ofKey, List.mem_flatten]

/-- What a load brings has the expected version. -/
theorem version_of_loaded {id : ℕ} {answer : Except Failure (Entries T)} {key : Key}
    {entry : CacheEntry T}
    (h : (s.step (.loaded id answer)).1.cache.entries.lookup key = some entry) :
    s.cache.entries.lookup key = some entry ∨ entry.version = expected s.cache.versions key := by
  have hkeeps : ¬ (Call.loaded id answer).Invalidates := fun hinvalidates => hinvalidates
  rw [lookup_step hkeeps] at h
  rcases mem_of_foldl_later h with hold | hnew
  · exact .inl hold
  · right
    obtain ⟨batch, hbatch, hmem⟩ := mem_ofKey_flatten.mp hnew
    split_ifs at hbatch
    · rw [Option.mem_toList] at hbatch
      cases answer with
      | error failure => cases hbatch
      | ok loaded =>
          obtain ⟨selected, -, rfl⟩ := Option.map_eq_some_iff.mp hbatch
          have hversion := (List.mem_filter.mp hmem).2
          rw [Bool.and_eq_true, decide_eq_true_eq] at hversion
          exact hversion.2
    · cases hbatch

theorem new_eq_ok {versions : List (Key × Option ℤ)} (h : Cache.new versions = .ok c) :
    c.entries = [] ∧ c.data = [] := by
  unfold Cache.new at h
  cases hversions : validateVersions versions with
  | error failure =>
      rw [hversions] at h
      cases h
  | ok checked =>
      rw [hversions] at h
      cases h
      exact ⟨rfl, rfl⟩

/-- Two runs that deliver the same batches to a new cache leave the same entries, for each key the
latest one. Along a run that takes nothing away the time of a key never goes back. The data are those
of the entries, what a load brings has the expected version of its key, and a call that raises leaves
the entries and the data. -/
theorem cache_converges {versions : List (Key × Option ℤ)} (hnew : Cache.new versions = .ok c) :
    (∀ calls calls' : List (Call T), Keeping calls → Keeping calls' →
      (∀ batch, batch ∈ (System.start c).deliveries calls ↔
        batch ∈ (System.start c).deliveries calls') →
      (∀ key, Comparable AtMost (ofKey key ((System.start c).deliveries calls).flatten)) →
      ∀ key, ((System.start c).after calls).cache.entries.lookup key =
          ((System.start c).after calls').cache.entries.lookup key ∧
        ∀ entry, ((System.start c).after calls).cache.entries.lookup key = some entry ↔
          IsLatest AtMost (ofKey key ((System.start c).deliveries calls).flatten) entry) ∧
    (∀ calls rest : List (Call T), Keeping rest → ∀ key old,
      ((System.start c).after calls).cache.entries.lookup key = some old →
        ∃ new, ((System.start c).after (calls ++ rest)).cache.entries.lookup key = some new ∧
          (new = old ∨ AtMost old new)) ∧
    (∀ calls : List (Call T), ((System.start c).after calls).cache.data =
      view ((System.start c).after calls).cache.entries) ∧
    (∀ (calls : List (Call T)) (id : ℕ) (answer : Except Failure (Entries T)) (key : Key)
      (entry : CacheEntry T),
      (((System.start c).after calls).step (.loaded id answer)).1.cache.entries.lookup key =
          some entry →
        ((System.start c).after calls).cache.entries.lookup key = some entry ∨
          entry.version = expected c.versions key) ∧
    ∀ (calls : List (Call T)) (call : Call T) (failure : Failure),
      (((System.start c).after calls).step call).2 = some failure →
        (((System.start c).after calls).step call).1.cache.entries =
            ((System.start c).after calls).cache.entries ∧
          (((System.start c).after calls).step call).1.cache.data =
            ((System.start c).after calls).cache.data := by
  obtain ⟨hentries, hdata⟩ := new_eq_ok hnew
  have hnone : ∀ key, (System.start c).cache.entries.lookup key = none := by
    intro key
    change c.entries.lookup key = none
    rw [hentries]
    rfl
  have htrans : ∀ x y z : CacheEntry T, AtMost x y → AtMost y z → AtMost x z :=
    fun x y z hxy hyz => hxy.trans hyz
  refine ⟨?_, ?_, ?_, ?_, ?_⟩
  · intro calls calls' hcalls hcalls' hsame hcomparable key
    have hmem : ∀ entry, entry ∈ ofKey key ((System.start c).deliveries calls).flatten ↔
        entry ∈ ofKey key ((System.start c).deliveries calls').flatten := by
      intro entry
      rw [mem_ofKey_flatten, mem_ofKey_flatten]
      exact exists_congr fun batch => and_congr_left fun _ => hsame batch
    constructor
    · rw [lookup_after hcalls, lookup_after hcalls', hnone]
      exact foldl_later_congr htrans (hcomparable key) hmem
    · intro entry
      rw [lookup_after hcalls, hnone]
      exact foldl_later_eq_some htrans (hcomparable key)
  · intro calls rest hrest key old hold
    rw [after_append, lookup_after hrest, hold]
    exact foldl_later_mono htrans old _
  · intro calls
    have hstart : (System.start c).cache.data = view (System.start c).cache.entries := by
      change c.data = view c.entries
      rw [hentries, hdata]
      rfl
    exact after_invariant (I := fun s => s.cache.data = view s.cache.entries)
      (fun s call h => step_view h call) hstart calls
  · intro calls id answer key entry h
    have hversions : ((System.start c).after calls).cache.versions = c.versions :=
      after_versions (System.start c) calls
    rw [← hversions]
    exact version_of_loaded h
  · intro calls call failure h
    exact ⟨(step_raises h).entries, (step_raises h).data⟩

/-- A cache without versions. -/
def emptyCache : Cache ℕ := ⟨[], [], [], none⟩

/-- A batch with one entry. -/
def batchAt (time : Time) (value : ℕ) : Entries ℕ := [(.str "key", ⟨value, time, 1⟩)]

/-- Merge some batches, one after the other. -/
def merges (batches : List (Entries ℕ)) : List (Call ℕ) := batches.map .merge

theorem two_batches_converge :
    ((System.start emptyCache).after
        (merges [batchAt (.int 1) 10, batchAt (.int 2) 20])).cache.entries.lookup (.str "key") =
      ((System.start emptyCache).after (merges [batchAt (.int 2) 20, batchAt (.int 1) 10,
        batchAt (.int 2) 20])).cache.entries.lookup (.str "key") := by
  have hnew : Cache.new [] = .ok emptyCache := rfl
  have hkeeping : ∀ batches : List (Entries ℕ), Keeping (merges batches) := by
    intro batches call hcall
    obtain ⟨batch, -, rfl⟩ := List.mem_map.mp hcall
    exact id
  have hfirst : (System.start emptyCache).deliveries
      (merges [batchAt (.int 1) 10, batchAt (.int 2) 20]) =
        [batchAt (.int 1) 10, batchAt (.int 2) 20] := rfl
  have hsecond : (System.start emptyCache).deliveries
      (merges [batchAt (.int 2) 20, batchAt (.int 1) 10, batchAt (.int 2) 20]) =
        [batchAt (.int 2) 20, batchAt (.int 1) 10, batchAt (.int 2) 20] := rfl
  refine ((cache_converges hnew).1 _ _ (hkeeping _) (hkeeping _) ?_ ?_ (.str "key")).1
  · intro batch
    rw [hfirst, hsecond]
    simp only [List.mem_cons, List.not_mem_nil, or_false]
    tauto
  · intro key
    rw [hfirst]
    intro x hx y hy hne
    rw [mem_ofKey] at hx hy
    simp only [batchAt, List.flatten_cons, List.flatten_nil, List.append_nil, List.cons_append,
      List.nil_append, List.mem_cons, Prod.mk.injEq, List.not_mem_nil, or_false] at hx hy
    rcases hx with ⟨-, rfl⟩ | ⟨-, rfl⟩
    · rcases hy with ⟨-, rfl⟩ | ⟨-, rfl⟩
      · exact absurd rfl hne
      · exact .inl (by decide)
    · rcases hy with ⟨-, rfl⟩ | ⟨-, rfl⟩
      · exact .inr (by decide)
      · exact absurd rfl hne

/-- An entry with a NaN for its time is not as late as any other, and no other as it. Of two such
entries the one that comes first stays. -/
theorem nan_keeps_first :
    ((System.start emptyCache).deliveries (merges [batchAt (.float .nan) 10, batchAt (.int 1) 20]) =
      [batchAt (.float .nan) 10, batchAt (.int 1) 20]) ∧
    ((System.start emptyCache).deliveries (merges [batchAt (.int 1) 20, batchAt (.float .nan) 10]) =
      [batchAt (.int 1) 20, batchAt (.float .nan) 10]) ∧
    (∀ x ∈ batchAt (.float .nan) 10, ∀ y ∈ batchAt (.int 1) 20,
      ¬ (AtMost x.2 y.2 ∧ AtMost y.2 x.2)) ∧
    ((System.start emptyCache).after
        (merges [batchAt (.float .nan) 10, batchAt (.int 1) 20])).cache.data = [(.str "key", 10)] ∧
    ((System.start emptyCache).after
        (merges [batchAt (.int 1) 20, batchAt (.float .nan) 10])).cache.data =
      [(.str "key", 20)] := by
  refine ⟨rfl, rfl, ?_, rfl, rfl⟩
  intro x hx y hy
  rw [List.mem_singleton.mp hx, List.mem_singleton.mp hy]
  decide

end Steps

end Memory

end Rmote
