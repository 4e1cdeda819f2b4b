import Rmote.Library.Simulation
import Rmote.Cache.Read

/-!
# What a cache is

A cache has an entry or none for each namespace and key. A write replaces what is there unless the
new entry is older, each key of a batch for itself, and a batch with an invalid entry is refused as
a whole. A backend is anything with the methods of `CacheBackend`, and it implements the store when
one relation between its state and the store survives each method.
-/

namespace Rmote

namespace Cache

/-! ## The store -/

/-- The number that a Python value is. -/
def number : Value → Option ℚ
  | .int n => some n
  | .float (.finite q) => some q
  | _ => none

namespace CacheEntry

/-- When an entry was collected. -/
def time (entry : CacheEntry) : ℚ := (number entry.collectedAt).getD 0

/-- The time is a number from zero on and the version one from one on. -/
def valid (entry : CacheEntry) : Bool :=
  match number entry.collectedAt, entry.version with
  | some t, .int n => 0 ≤ t && 1 ≤ n
  | _, _ => false

end CacheEntry

/-- The entries of a mapping have distinct keys. -/
structure Batch where
  entries : List (String × CacheEntry)
  nodup : (entries.map Prod.fst).Nodup

/-- A mapping with one key. -/
def Batch.single (key : String) (entry : CacheEntry) : Batch :=
  ⟨[(key, entry)], List.nodup_singleton key⟩

/-- Every entry of the batch is valid. -/
def Batch.valid (batch : Batch) : Bool := batch.entries.all fun e => e.2.valid

/-- An entry or none for each namespace and key. -/
abbrev Store : Type := String → String → Option CacheEntry

namespace Store

/-- What there is under a key after a new entry for it. -/
def newest (new : CacheEntry) : Option CacheEntry → Option CacheEntry
  | some old => if old.time ≤ new.time then some new else some old
  | none => some new

/-- One key of a namespace, for a new entry or for none. -/
def keep (new : Option CacheEntry) (old : Option CacheEntry) : Option CacheEntry :=
  match new with
  | some new => newest new old
  | none => old

def empty : Store := fun _ _ => none

/-- Change one namespace. -/
def modify (s : Store) (ns : String) (f : String → Option CacheEntry) : Store :=
  fun ns' => if ns' = ns then f else s ns'

def write (s : Store) (ns : String) (batch : Batch) : Store :=
  s.modify ns fun key => keep (batch.entries.lookup key) (s ns key)

def delete (s : Store) (ns key : String) : Store :=
  s.modify ns (Function.update (s ns) key none)

end Store

/-- One key after another, each with a new entry or without one. -/
def reviseAll (entries : String → Option CacheEntry) :
    List (String × Option CacheEntry) → String → Option CacheEntry
  | [] => entries
  | (key, new) :: changes =>
      reviseAll (Function.update entries key (new.bind fun new => Store.newest new (entries key)))
        changes

/-- With distinct keys the order does not matter. -/
theorem reviseAll_batch {batch : List (String × CacheEntry)}
    (hnodup : (batch.map Prod.fst).Nodup) (entries : String → Option CacheEntry) :
    reviseAll entries (batch.map fun e => (e.1, some e.2)) =
      fun key => Store.keep (batch.lookup key) (entries key) := by
  induction batch generalizing entries with
  | nil => rfl
  | cons e batch ih =>
      rw [List.map_cons, List.nodup_cons] at hnodup
      rw [List.map_cons, reviseAll, ih hnodup.2]
      funext key
      rw [Assoc.lookup_cons]
      by_cases hkey : key = e.1
      · have hlookup : batch.lookup key = none := by
          rw [← Option.not_isSome_iff_eq_none, Assoc.lookup_isSome, hkey]
          exact hnodup.1
        rw [hlookup, if_pos hkey, hkey, Function.update_self]
        rfl
      · rw [if_neg hkey, Function.update_of_ne hkey]

/-! ## Operations -/

inductive Operation where
  | setMany (ns : String) (batch : Batch)
  | set (ns key : String) (entry : CacheEntry)
  | delete (ns key : String)
  | getMany (ns : String) (keys : Option (List String))
  | get (ns key : String)

/-- What an operation of the store answers. -/
inductive Reply where
  | done
  | refused
  | found (entries : String → Option CacheEntry)
  | entry (entry : Option CacheEntry)

/-- The keys of a read have this one. -/
def Asked (keys : Option (List String)) (key : String) : Prop := ∀ ks, keys = some ks → key ∈ ks

theorem asked_none (key : String) : Asked none key := by simp [Asked]

instance (keys : Option (List String)) (key : String) : Decidable (Asked keys key) :=
  match keys with
  | none => isTrue nofun
  | some ks => decidable_of_iff (key ∈ ks) (by simp [Asked])

namespace Store

/-- A batch is accepted or refused. -/
def accept (s : Store) (ns : String) (batch : Batch) : Store × Reply :=
  if batch.valid then (s.write ns batch, .done) else (s, .refused)

def perform (s : Store) : Operation → Store × Reply
  | .setMany ns batch => s.accept ns batch
  | .set ns key entry => s.accept ns (.single key entry)
  | .delete ns key => (s.delete ns key, .done)
  | .getMany ns keys => (s, .found fun key => if Asked keys key then s ns key else none)
  | .get ns key => (s, .entry (s ns key))

end Store

/-! ## Backends -/

/-- The methods of a backend, on its state. -/
structure CacheBackend (σ : Type) where
  readEntries : σ → String → Option (List String) → Except Failure (List (String × CacheEntry))
  writeEntries : σ → String → List (String × CacheEntry) → Except Failure σ
  deleteEntry : σ → String → String → Except Failure σ

/-- What a call returns or raises. -/
inductive Outcome where
  | done
  | raised (failure : Failure)
  | entries (items : List (String × CacheEntry))
  | entry (entry : Option CacheEntry)

namespace CacheBackend

variable {σ : Type}

/-- A call that raises leaves what is stored. -/
def settle (s : σ) : Except Failure σ → σ × Outcome
  | .ok t => (t, .done)
  | .error failure => (s, .raised failure)

def get (b : CacheBackend σ) (s : σ) (ns key : String) : Outcome :=
  match b.readEntries s ns (some [key]) with
  | .ok items => .entry (items.lookup key)
  | .error failure => .raised failure

def getMany (b : CacheBackend σ) (s : σ) (ns : String) (keys : Option (List String)) : Outcome :=
  match b.readEntries s ns keys with
  | .ok items => .entries items
  | .error failure => .raised failure

def perform (b : CacheBackend σ) (s : σ) : Operation → σ × Outcome
  | .setMany ns batch => settle s (b.writeEntries s ns batch.entries)
  | .set ns key entry => settle s (b.writeEntries s ns [(key, entry)])
  | .delete ns key => settle s (b.deleteEntry s ns key)
  | .getMany ns keys => (s, b.getMany s ns keys)
  | .get ns key => (s, b.get s ns key)

end CacheBackend

/-- The outcome of a call is the reply of the store; dictionaries are compared by their keys. -/
def Matches : Outcome → Reply → Prop
  | .done, .done => True
  | .raised _, .refused => True
  | .entries items, .found entries => ∀ key, items.lookup key = entries key
  | .entry entry, .entry entry' => entry = entry'
  | _, _ => False

/-! ## What is asked of the operations -/

/-- The data comes back from the codec as it was. -/
def Survives (c : Classes) (entry : CacheEntry) : Prop :=
  ∃ a, dumps c entry.data = .ok a ∧ loads c a = .ok entry.data

/-- A whole number of seconds is below `2 ^ 63` and is its own double. -/
def Exact (entry : CacheEntry) : Prop :=
  ∀ n, entry.collectedAt = .int n → n < 2 ^ 63 ∧ toDouble n = some n

/-- The keys of a namespace are exactly the names of a tagged value. -/
def ReservedNames (entries : String → Option CacheEntry) : Prop :=
  ∀ key, (entries key).isSome ↔ key = "_type" ∨ key = "_value"

/-- The entries of the operation survive the codec. -/
def Admitted (c : Classes) : Operation → Prop
  | .setMany _ batch => ∀ e ∈ batch.entries, Survives c e.2
  | .set _ _ entry => Survives c entry
  | _ => True

/-- The times of an accepted batch are exact, and a read that finds a branch does not find it in a
namespace with the reserved names. -/
def Sound (s : Store) : Operation → Prop
  | .setMany _ batch => batch.valid → ∀ e ∈ batch.entries, Exact e.2
  | .set _ _ entry => entry.valid → Exact entry
  | .delete _ _ => True
  | .getMany ns keys => ReservedNames (s ns) → ¬ Asked keys "_type" ∧ ¬ Asked keys "_value"
  | .get ns key => ReservedNames (s ns) → key ≠ "_type" ∧ key ≠ "_value"

/-- A relation to the store that each method of the backend keeps. -/
structure CacheBackend.Implements {σ : Type} (c : Classes) (b : CacheBackend σ)
    (R : σ → Store → Prop) : Prop where
  read : ∀ s t ns keys, R s t →
    (ReservedNames (t ns) → ¬ Asked keys "_type" ∧ ¬ Asked keys "_value") →
    ∃ items, b.readEntries s ns keys = .ok items ∧
      ∀ key, items.lookup key = if Asked keys key then t ns key else none
  write : ∀ s t ns batch, R s t → Batch.valid batch →
    (∀ e ∈ batch.entries, Survives c e.2 ∧ Exact e.2) →
    ∃ s', b.writeEntries s ns batch.entries = .ok s' ∧ R s' (t.write ns batch)
  refuse : ∀ s t ns batch, R s t → ¬ Batch.valid batch →
    ∃ failure, b.writeEntries s ns batch.entries = .error failure
  delete : ∀ s t ns key, R s t → ∃ s', b.deleteEntry s ns key = .ok s' ∧ R s' (t.delete ns key)

namespace CacheBackend

variable {σ : Type} {c : Classes} {b : CacheBackend σ} {R : σ → Store → Prop}

theorem Implements.settle_write (h : b.Implements c R) {s : σ} {t : Store} (hR : R s t)
    (ns : String) (batch : Batch) (hsurvive : ∀ e ∈ batch.entries, Survives c e.2)
    (hexact : batch.valid → ∀ e ∈ batch.entries, Exact e.2) :
    R (settle s (b.writeEntries s ns batch.entries)).1 (t.accept ns batch).1 ∧
      Matches (settle s (b.writeEntries s ns batch.entries)).2 (t.accept ns batch).2 := by
  unfold Store.accept
  by_cases hvalid : batch.valid = true
  · obtain ⟨s', hs', hR'⟩ := h.write s t ns batch hR hvalid fun e he =>
      ⟨hsurvive e he, hexact hvalid e he⟩
    rw [hs', if_pos hvalid]
    exact ⟨hR', trivial⟩
  · obtain ⟨failure, hfailure⟩ := h.refuse s t ns batch hR hvalid
    rw [hfailure, if_neg hvalid]
    exact ⟨hR, trivial⟩

/-- One operation keeps the relation and answers as the store does. -/
theorem Implements.perform (h : b.Implements c R) {s : σ} {t : Store} (hR : R s t)
    {o : Operation} (hadmitted : Admitted c o) (hsound : Sound t o) :
    R (b.perform s o).1 (t.perform o).1 ∧ Matches (b.perform s o).2 (t.perform o).2 := by
  cases o with
  | setMany ns batch => exact h.settle_write hR ns batch hadmitted hsound
  | set ns key entry =>
      refine h.settle_write hR ns (.single key entry) ?_ ?_
      · rintro e he
        rw [List.mem_singleton.mp he]
        exact hadmitted
      · intro hvalid e he
        rw [List.mem_singleton.mp he]
        exact hsound (by simpa [Batch.valid, Batch.single] using hvalid)
  | delete ns key =>
      obtain ⟨s', hs', hR'⟩ := h.delete s t ns key hR
      rw [CacheBackend.perform, hs']
      exact ⟨hR', trivial⟩
  | getMany ns keys =>
      obtain ⟨items, hitems, hlookup⟩ := h.read s t ns keys hR hsound
      rw [CacheBackend.perform, CacheBackend.getMany, hitems]
      exact ⟨hR, hlookup⟩
  | get ns key =>
      have hasked : ∀ other, Asked (some [key]) other ↔ other = key := by simp [Asked]
      obtain ⟨items, hitems, hlookup⟩ := h.read s t ns (some [key]) hR fun hreserved => by
        rw [hasked, hasked]
        exact ⟨(hsound hreserved).1.symm, (hsound hreserved).2.symm⟩
      rw [CacheBackend.perform, CacheBackend.get, hitems]
      refine ⟨hR, (hlookup key).trans (if_pos ?_)⟩
      exact (hasked key).mpr rfl

end CacheBackend

end Cache

end Rmote
