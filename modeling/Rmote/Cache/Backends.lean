import Rmote.Cache.Directory
import Rmote.Cache.Table

/-!
# Both backends are one store

A whole run on either backend answers as the store does, as long as the times can be compared as
doubles. From `2 ^ 53` on there are whole numbers that are not doubles, and there an older entry
replaces a newer one.
-/

namespace Rmote

namespace Cache

open Simulation

/-- The answers of the directory, of the table and of the store agree in every run of operations
with entries that survive the codec, exact times, and no read from a namespace with the reserved
names. -/
theorem backends_are_store (c : Classes) (operations : List Operation)
    (h : Along Store.perform (fun s o => Admitted c o ∧ Sound s o) Store.empty operations) :
    List.Forall₂ Matches (answers (JSONCacheDir.backend c).perform [] operations)
        (answers Store.perform Store.empty operations) ∧
      List.Forall₂ Matches (answers (SQLiteCache.backend c).perform [] operations)
        (answers Store.perform Store.empty operations) := by
  constructor
  · refine answers_related (JSONCacheDir.Represents c) Matches ?_ ?_ h
    · intro files store o hstore ho
      exact (JSONCacheDir.backend_implements c).perform hstore ho.1 ho.2
    · exact fun ns => ⟨⟨List.nodup_nil, fun key => .none⟩, .inl rfl⟩
  · refine answers_related (SQLiteCache.Represents c) Matches ?_ ?_ h
    · intro table store o hstore ho
      exact (SQLiteCache.backend_implements c).perform hstore ho.1 ho.2
    · exact ⟨List.nodup_nil, fun ns key => .none⟩

/-- An entry that shows its time. -/
def collected (n : ℤ) : CacheEntry := ⟨.int n, .int n, .int 1⟩

/-- One key, written at two times and read. -/
def writtenTwice (m n : ℤ) : List Operation :=
  [.set "host" "facts" (collected m), .set "host" "facts" (collected n), .get "host" "facts"]

/-- The times of today are exact. -/
theorem today_is_store :
    List.Forall₂ Matches
        (answers (JSONCacheDir.backend JSONCacheDir.anyClass).perform [] (writtenTwice 20 10))
        (answers Store.perform Store.empty (writtenTwice 20 10)) ∧
      List.Forall₂ Matches
        (answers (SQLiteCache.backend JSONCacheDir.anyClass).perform [] (writtenTwice 20 10))
        (answers Store.perform Store.empty (writtenTwice 20 10)) := by
  have hsurvives : ∀ n, Survives JSONCacheDir.anyClass (collected n) :=
    fun n => ⟨.int n, rfl, rfl⟩
  have hexact : ∀ n, (n < 2 ^ 63 ∧ toDouble n = some n) → Exact (collected n) := by
    intro n hn m hm
    cases hm
    exact hn
  refine backends_are_store JSONCacheDir.anyClass (writtenTwice 20 10)
    ⟨⟨hsurvives 20, fun _ => hexact 20 (by decide +kernel)⟩,
      ⟨hsurvives 10, fun _ => hexact 10 (by decide +kernel)⟩, ⟨trivial, fun hreserved => ?_⟩, trivial⟩
  exact ⟨by decide, by decide⟩

/-- The time of an entry that was found. -/
def timeOf : Option CacheEntry → Option ℤ
  | some ⟨_, .int n, _⟩ => some n
  | _ => none

def shown : Outcome → Option ℤ
  | .entry entry => timeOf entry
  | _ => none

def replied : Reply → Option ℤ
  | .entry entry => timeOf entry
  | _ => none

theorem shown_of_matches {outcome : Outcome} {reply : Reply} (h : Matches outcome reply) :
    shown outcome = replied reply := by
  cases outcome <;> cases reply
  case entry.entry =>
      cases h
      rfl
  all_goals first | rfl | cases h

theorem shown_answers {outcomes : List Outcome} {replies : List Reply}
    (h : List.Forall₂ Matches outcomes replies) : outcomes.map shown = replies.map replied := by
  induction h with
  | nil => rfl
  | cons hhead _ ih => rw [List.map_cons, List.map_cons, shown_of_matches hhead, ih]

/-- Both backends replace the newer entry by the older one. -/
theorem older_replaces_newer :
    (∀ o ∈ writtenTwice (2 ^ 53 + 1) (2 ^ 53), Admitted JSONCacheDir.anyClass o) ∧
      ¬ List.Forall₂ Matches
        (answers (JSONCacheDir.backend JSONCacheDir.anyClass).perform []
          (writtenTwice (2 ^ 53 + 1) (2 ^ 53)))
        (answers Store.perform Store.empty (writtenTwice (2 ^ 53 + 1) (2 ^ 53))) ∧
      ¬ List.Forall₂ Matches
        (answers (SQLiteCache.backend JSONCacheDir.anyClass).perform []
          (writtenTwice (2 ^ 53 + 1) (2 ^ 53)))
        (answers Store.perform Store.empty (writtenTwice (2 ^ 53 + 1) (2 ^ 53))) := by
  refine ⟨?_, fun h => ?_, fun h => ?_⟩
  · intro o ho
    simp only [writtenTwice, List.mem_cons, List.not_mem_nil, or_false] at ho
    rcases ho with rfl | rfl | rfl
    · exact ⟨.int (2 ^ 53 + 1), rfl, rfl⟩
    · exact ⟨.int (2 ^ 53), rfl, rfl⟩
    · trivial
  · exact absurd (shown_answers h) (by decide +kernel)
  · exact absurd (shown_answers h) (by decide +kernel)

end Cache

end Rmote
