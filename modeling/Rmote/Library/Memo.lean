import Mathlib.Data.List.Nodup
import Rmote.Library.Assoc

/-!
# Functions with a table

A function that keeps its answers in a table runs its body only for a key that is not there. The
rules say that the answers are those of the function without a table, and which keys its table
holds, so that the number of times that a body runs is bounded by the number of these keys.
-/

namespace Memo

universe u v

variable {κ : Type u} {β : Type v}

/-- The answers so far, with the last one first. -/
abbrev Table (κ : Type u) (β : Type v) : Type (max u v) := List (κ × β)

/-- Look the key up, or run the body and keep its answer. -/
def cached [DecidableEq κ] (key : κ) (body : Table κ β → β × Table κ β) (table : Table κ β) : β × Table κ β :=
  match table.lookup key with
  | some answer => (answer, table)
  | none => ((body table).1, (key, (body table).1) :: (body table).2)

/-- Each key is there once, with the answer of the function. -/
structure Sound (f : κ → β) (table : Table κ β) : Prop where
  nodup : (table.map Prod.fst).Nodup
  answers : ∀ e ∈ table, e.2 = f e.1

theorem sound_nil (f : κ → β) : Sound f [] where
  nodup := List.nodup_nil
  answers _ he := absurd he List.not_mem_nil

/-- What a call of the function does to the table: it may add keys with the property. -/
structure Answers (f : κ → β) (added : κ → Prop) (table : Table κ β) (answer : β)
    (result : β × Table κ β) : Prop where
  answer : result.1 = answer
  sound : Sound f result.2
  grows : ∀ e ∈ result.2, e ∈ table ∨ added e.1

variable {f : κ → β} {added : κ → Prop} {table : Table κ β}

/-- A part of a body that needs no call. -/
theorem answers_pure (h : Sound f table) (answer : β) : Answers f added table answer (answer, table) :=
  ⟨rfl, h, fun _ he => .inl he⟩

theorem Answers.mono {added' : κ → Prop} {answer : β} {result : β × Table κ β}
    (h : Answers f added table answer result) (himp : ∀ key, added key → added' key) :
    Answers f added' table answer result :=
  ⟨h.answer, h.sound, fun e he => (h.grows e he).imp_right (himp e.1)⟩

/-- A call that starts from what another call left. -/
theorem Answers.trans {answer answer' : β} {result result' : β × Table κ β}
    (h : Answers f added table answer result) (h' : Answers f added result.2 answer' result') :
    Answers f added table answer' result' := by
  refine ⟨h'.answer, h'.sound, ?_⟩
  intro e he
  rcases h'.grows e he with he | he
  · exact h.grows e he
  · exact .inr he

/-- A call of a function whose body does not come back to its own key. -/
theorem answers_cached [DecidableEq κ] (key : κ) {body : Table κ β → β × Table κ β}
    (h : Sound f table)
    (hbody : Answers f added table (f key) (body table)) (hkey : ¬ added key) :
    Answers f (fun key' => key' = key ∨ added key') table (f key) (cached key body table) := by
  unfold cached
  cases hlookup : table.lookup key with
  | some answer => exact ⟨h.answers _ (Assoc.mem_of_lookup hlookup), h, fun _ he => .inl he⟩
  | none =>
      refine ⟨hbody.answer, ⟨?_, ?_⟩, ?_⟩
      · rw [List.map_cons, List.nodup_cons]
        refine ⟨?_, hbody.sound.nodup⟩
        intro hmem
        obtain ⟨e, he, hekey⟩ := List.mem_map.mp hmem
        rcases hbody.grows e he with he | he
        · have hsome := Assoc.lookup_isSome.mpr (List.mem_map.mpr ⟨e, he, hekey⟩)
          rw [hlookup] at hsome
          cases hsome
        · rw [hekey] at he
          exact hkey he
      · intro e he
        rcases List.mem_cons.mp he with rfl | he
        · exact hbody.answer
        · exact hbody.sound.answers e he
      · intro e he
        rcases List.mem_cons.mp he with rfl | he
        · exact .inr (.inl rfl)
        · exact (hbody.grows e he).imp_right .inr

end Memo
