import Mathlib.Data.Finset.Card
import Mathlib.Data.Finset.Prod
import Rmote.Library.Memo
import Rmote.Library.Wildcard
import Rmote.Rsync.Exclude

/-!
# What a pattern means

`excludedText` is `excluded` on the path as a text, with the function `match` on two indices and its
cache. `Matches` says what a pattern means: its components are aligned with all components of the
path. The cache keeps one answer for each pair of indices, so it bounds the work of a call.
-/

namespace Rmote

namespace Rsync

open Wildcard Memo

section Match

variable (components parts : List (List Char))

/-- `match` without its cache. -/
def matchAt (i j : Nat) : Bool :=
  if hj : j < components.length then
    if components[j] = "**".toList then
      matchAt i (j + 1) || if hi : i < parts.length then matchAt (i + 1) j else false
    else if hi : i < parts.length then
      fnmatchcase parts[i] components[j] && matchAt (i + 1) (j + 1)
    else false
  else i == parts.length
termination_by (components.length - j) + (parts.length - i)

/-- `match` with the table of its cache. -/
def cachedMatch (i j : Nat) : Table (Nat × Nat) Bool → Bool × Table (Nat × Nat) Bool :=
  cached (i, j) fun table =>
    if hj : j < components.length then
      if components[j] = "**".toList then
        let (answer, table) := cachedMatch i (j + 1) table
        if answer then (true, table)
        else if hi : i < parts.length then cachedMatch (i + 1) j table
        else (false, table)
      else if hi : i < parts.length then
        if fnmatchcase parts[i] components[j] then cachedMatch (i + 1) (j + 1) table
        else (false, table)
      else (false, table)
    else (i == parts.length, table)
termination_by (components.length - j) + (parts.length - i)

end Match

/-- Whether the path is matched by the components of a pattern, and the table of the cache. -/
def matchPath (components parts : List (List Char)) : Bool × Table (Nat × Nat) Bool :=
  cachedMatch components parts 0 0 []

/-- One round of the loop of `excluded`. -/
def excludesAt (parts : List (List Char)) (kind : Kind) (pattern : List Char) : Bool :=
  if pattern.getLast? = some '/' ∧ kind ≠ .directory then false
  else
    let text := removeSlash pattern
    if text.contains '/' then (matchPath ((removeRoot text).splitOn '/') parts).1
    else fnmatchcase (parts.getLastD []) text

/-- `Rsync.excluded`. -/
def excludedText (relative : String) (kind : Kind) (patterns : List String) : Bool :=
  patterns.any fun pattern => excludesAt (relative.toList.splitOn '/') kind pattern.toList

example : excludedText "a/x/y/b" .directory ["a/**/b/"] = true := by decide +kernel

/-! ## The meaning of a pattern -/

/-- What a component stands for: `**` for any number of components, another one for a component
that it matches. -/
def item (component : List Char) : Item (List Char) :=
  if component = "**".toList then .many else .one fun part => fnmatchcase part component

/-- The pattern matches the entry of this kind under the path. A slash at its end makes it a
pattern for directories. Without another slash it is for the name of the entry, otherwise it is
for the whole path. -/
structure Matches (parts : List (List Char)) (kind : Kind) (pattern : List Char) : Prop where
  directory : pattern.getLast? = some '/' → kind = .directory
  name : '/' ∉ removeSlash pattern → fnmatchcase (parts.getLastD []) (removeSlash pattern) = true
  path : '/' ∈ removeSlash pattern →
    Aligned (((removeRoot (removeSlash pattern)).splitOn '/').map item) parts

section Aligned

variable {components parts : List (List Char)} {i j : Nat}

theorem item_many {component : List Char} (h : component = "**".toList) : item component = .many :=
  if_pos h

theorem item_one {component : List Char} (h : component ≠ "**".toList) :
    item component = .one fun part => fnmatchcase part component :=
  if_neg h

/-- The components match the parts exactly when they are aligned with them. -/
theorem matchParts_iff :
    matchParts components parts = true ↔ Aligned (components.map item) parts := by
  induction components, parts using matchParts.induct with
  | case1 parts =>
      rw [matchParts, List.map_nil, aligned_nil_iff, List.isEmpty_iff]
  | case2 component components ih =>
      rw [matchParts, List.map_cons, Bool.and_eq_true, beq_iff_eq, ih]
      by_cases h : component = "**".toList
      · rw [item_many h, aligned_many_iff]
        constructor
        · exact fun h' => .inl h'.2
        · rintro (h' | ⟨_, _, h', -⟩)
          · exact ⟨h, h'⟩
          · cases h'
      · rw [item_one h, aligned_one_iff]
        constructor
        · exact fun h' => absurd h'.1 h
        · rintro ⟨_, _, h', -⟩
          cases h'
  | case3 components part parts ihOver ihMore =>
      rw [matchParts, if_pos rfl, Bool.or_eq_true, ihOver, ihMore, List.map_cons, item_many rfl,
        aligned_many_iff (l := part :: parts)]
      simp only [List.cons.injEq, existsAndEq, and_true, true_and]
  | case4 component components part parts h ih =>
      rw [matchParts, if_neg h, Bool.and_eq_true, ih, List.map_cons, item_one h, aligned_one_iff]
      simp only [List.cons.injEq, existsAndEq, and_true, true_and]

/-- `match` decides what is left of the components and of the path. -/
theorem matchAt_eq (hi : i ≤ parts.length) (hj : j ≤ components.length) :
    matchAt components parts i j = matchParts (components.drop j) (parts.drop i) := by
  induction i, j using matchAt.induct components parts with
  | case1 i j hj' hmany ihOver ihMore =>
      rw [matchAt, dif_pos hj', if_pos hmany, ihOver hi hj', List.drop_eq_getElem_cons hj']
      by_cases hi' : i < parts.length
      · rw [dif_pos hi', ihMore hi' hi' hj, List.drop_eq_getElem_cons hj',
          List.drop_eq_getElem_cons hi', matchParts, if_pos hmany]
      · rw [dif_neg hi', Bool.or_false, List.drop_eq_nil_of_le (Nat.le_of_not_lt hi'), matchParts,
          beq_iff_eq.mpr hmany, Bool.true_and]
  | case2 i j hj' hone hi' ih =>
      rw [matchAt, dif_pos hj', if_neg hone, dif_pos hi', ih hi' hj',
        List.drop_eq_getElem_cons hj', List.drop_eq_getElem_cons hi', matchParts, if_neg hone]
  | case3 i j hj' hone hi' =>
      rw [matchAt, dif_pos hj', if_neg hone, dif_neg hi', List.drop_eq_getElem_cons hj',
        List.drop_eq_nil_of_le (Nat.le_of_not_lt hi'), matchParts, beq_false_of_ne hone,
        Bool.false_and]
  | case4 i j hj' =>
      rw [matchAt, dif_neg hj', List.drop_eq_nil_of_le (Nat.le_of_not_lt hj'), matchParts]
      by_cases hlast : i = parts.length
      · rw [hlast, List.drop_length, List.isEmpty_nil, beq_self_eq_true]
      · have hdrop : parts.drop i ≠ [] := by
          rw [Ne, List.drop_eq_nil_iff]
          omega
        rw [beq_false_of_ne hlast, List.isEmpty_eq_false_iff.mpr hdrop]

/-- `match` from the beginning. -/
theorem matchAt_iff :
    matchAt components parts 0 0 = true ↔ Aligned (components.map item) parts := by
  rw [matchAt_eq (Nat.zero_le _) (Nat.zero_le _)]
  exact matchParts_iff

/-- The pairs of indices that a call of `match` can come to. -/
structure Reached (components parts : List (List Char)) (sum : Nat) (key : Nat × Nat) : Prop where
  sum : sum ≤ key.1 + key.2
  left : key.1 ≤ parts.length
  right : key.2 ≤ components.length

theorem Reached.of_lt {sum sum' : Nat} {key : Nat × Nat} (h : Reached components parts sum' key)
    (hle : sum ≤ sum') : Reached components parts sum key :=
  ⟨Nat.le_trans hle h.sum, h.left, h.right⟩

/-- The cache does not change what `match` answers. -/
theorem answers_cachedMatch (hi : i ≤ parts.length) (hj : j ≤ components.length)
    {table : Table (Nat × Nat) Bool}
    (h : Sound (fun key : Nat × Nat => matchAt components parts key.1 key.2) table) :
    Answers (fun key : Nat × Nat => matchAt components parts key.1 key.2)
      (Reached components parts (i + j)) table (matchAt components parts i j)
      (cachedMatch components parts i j table) := by
  have hcached : ∀ {i j : Nat}, i ≤ parts.length → j ≤ components.length →
      ∀ {table : Table (Nat × Nat) Bool} {body},
      Sound (fun key : Nat × Nat => matchAt components parts key.1 key.2) table →
      Answers (fun key : Nat × Nat => matchAt components parts key.1 key.2)
        (Reached components parts (i + j + 1)) table (matchAt components parts i j) (body table) →
      Answers (fun key : Nat × Nat => matchAt components parts key.1 key.2)
        (Reached components parts (i + j)) table (matchAt components parts i j)
        (cached (i, j) body table) := by
    intro i j hi hj table body h hbody
    apply (answers_cached (i, j) h hbody ?_).mono
    · rintro key (rfl | hkey)
      · exact ⟨Nat.le_refl _, hi, hj⟩
      · exact hkey.of_lt (Nat.le_succ _)
    · intro hkey
      exact absurd hkey.sum (Nat.not_succ_le_self _)
  induction i, j using matchAt.induct components parts generalizing table with
  | case1 i j hj' hmany ihOver ihMore =>
      rw [cachedMatch]
      apply hcached hi hj h
      have hover := ihOver hi hj' h
      rw [matchAt]
      simp only [hj', hmany, dif_pos, if_true, hover.answer]
      cases hanswer : matchAt components parts i (j + 1) with
      | true => exact ⟨rfl, hover.sound, hover.grows⟩
      | false =>
          by_cases hi' : i < parts.length
          · simp only [hi', dif_pos, Bool.false_or, Bool.false_eq_true, if_false]
            apply hover.trans
            apply (ihMore hi' hi' hj hover.sound).mono
            exact fun key hkey => hkey.of_lt (by omega)
          · simp only [hi', dif_neg, not_false_eq_true, Bool.false_or, Bool.false_eq_true, if_false]
            exact ⟨rfl, hover.sound, hover.grows⟩
  | case2 i j hj' hone hi' ih =>
      rw [cachedMatch]
      apply hcached hi hj h
      rw [matchAt]
      simp only [hj', hone, hi', dif_pos, if_false]
      cases hpart : fnmatchcase parts[i] components[j] with
      | true =>
          rw [Bool.true_and, if_pos rfl]
          apply (ih hi' hj' h).mono
          exact fun key hkey => hkey.of_lt (by omega)
      | false => exact answers_pure h false
  | case3 i j hj' hone hi' =>
      rw [cachedMatch]
      apply hcached hi hj h
      rw [matchAt]
      simp only [hj', hone, hi', dif_pos, dif_neg, not_false_eq_true, if_false]
      exact answers_pure h false
  | case4 i j hj' =>
      rw [cachedMatch]
      apply hcached hi hj h
      rw [matchAt]
      simp only [hj', dif_neg, not_false_eq_true]
      exact answers_pure h _

theorem answers_matchPath (components parts : List (List Char)) :
    Answers (fun key : Nat × Nat => matchAt components parts key.1 key.2)
      (Reached components parts 0) [] (matchAt components parts 0 0) (matchPath components parts) :=
  answers_cachedMatch (Nat.zero_le _) (Nat.zero_le _) (sound_nil _)

/-- The body of `match` runs once for a pair of indices at most. -/
theorem length_matchPath_le (components parts : List (List Char)) :
    (matchPath components parts).2.length ≤ (parts.length + 1) * (components.length + 1) := by
  have hanswers := answers_matchPath components parts
  have hsub : ((matchPath components parts).2.map Prod.fst).toFinset ⊆
      Finset.range (parts.length + 1) ×ˢ Finset.range (components.length + 1) := by
    intro key hkey
    obtain ⟨e, he, rfl⟩ := List.mem_map.mp (List.mem_toFinset.mp hkey)
    rcases hanswers.grows e he with he | he
    · cases he
    · rw [Finset.mem_product, Finset.mem_range, Finset.mem_range]
      exact ⟨Nat.lt_succ_of_le he.left, Nat.lt_succ_of_le he.right⟩
  have hcard := Finset.card_le_card hsub
  rw [List.toFinset_card_of_nodup hanswers.sound.nodup, List.length_map, Finset.card_product,
    Finset.card_range, Finset.card_range] at hcard
  exact hcard

theorem matchPath_iff : (matchPath components parts).1 = true ↔
    Aligned (components.map item) parts := by
  rw [(answers_matchPath components parts).answer]
  exact matchAt_iff

end Aligned

section Excluded

variable {parts : List (List Char)} {kind : Kind} {pattern : List Char}

theorem excludesAt_iff : excludesAt parts kind pattern = true ↔ Matches parts kind pattern := by
  unfold excludesAt
  by_cases hslash : pattern.getLast? = some '/' ∧ kind ≠ .directory
  · rw [if_pos hslash]
    constructor
    · exact fun h => absurd h Bool.false_ne_true
    · exact fun h => absurd (h.directory hslash.1) hslash.2
  · rw [if_neg hslash]
    have hdirectory : pattern.getLast? = some '/' → kind = .directory :=
      fun hlast => not_not.mp fun hkind => hslash ⟨hlast, hkind⟩
    by_cases htext : '/' ∈ removeSlash pattern
    · rw [if_pos (List.contains_iff_mem.mpr htext), matchPath_iff]
      exact ⟨fun h => ⟨hdirectory, fun h' => absurd htext h', fun _ => h⟩, fun h => h.path htext⟩
    · rw [if_neg (mt List.contains_iff_mem.mp htext)]
      exact ⟨fun h => ⟨hdirectory, fun _ => h, fun h' => absurd h' htext⟩, fun h => h.name htext⟩

/-- On the names of a path, `excluded` is what the run of `remove` and of `transfer` asks for. -/
theorem excludesAt_eq_excludes : excludesAt parts kind pattern = excludes parts kind pattern := by
  unfold excludesAt excludes
  have hpath : ∀ components, (matchPath components parts).1 = matchParts components parts := by
    intro components
    rw [Bool.eq_iff_iff, matchPath_iff, matchParts_iff]
  simp only [hpath]

/-- The path as a text has the names of the path as its parts. -/
theorem excludedText_join {relative : Path} (hnil : relative ≠ [])
    (hnames : ∀ name ∈ relative, '/' ∉ name.toList) (kind : Kind) (patterns : List String) :
    excludedText (String.ofList (['/'].intercalate (relative.reverse.map String.toList))) kind
      patterns = excluded relative kind patterns := by
  have hparts : (['/'].intercalate (relative.reverse.map String.toList)).splitOn '/' =
      relative.reverse.map String.toList := by
    apply List.splitOn_intercalate
    · intro part hpart
      obtain ⟨name, hname, rfl⟩ := List.mem_map.mp hpart
      exact hnames name (List.mem_reverse.mp hname)
    · simpa using hnil
  unfold excludedText excluded
  rw [String.toList_ofList, hparts]
  simp only [excludesAt_eq_excludes]

/-- An entry is excluded exactly when one of the patterns matches its path, and each of the
calls of `match` comes to an end after one round for each pair of a component and a part. -/
theorem excludedText_iff (relative : String) (kind : Kind) (patterns : List String) :
    (excludedText relative kind patterns = true ↔
      ∃ pattern ∈ patterns, Matches (relative.toList.splitOn '/') kind pattern.toList) ∧
    ∀ components parts, (matchPath components parts).2.length ≤
      (parts.length + 1) * (components.length + 1) := by
  refine ⟨?_, length_matchPath_le⟩
  unfold excludedText
  rw [List.any_eq_true]
  exact exists_congr fun pattern => and_congr_right fun _ => excludesAt_iff

end Excluded

end Rsync

end Rmote
