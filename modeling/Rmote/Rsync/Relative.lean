import Rmote.Rsync.Match
import Rmote.Rsync.Remove

/-!
# The removal under a relative name

`removeRelative` is `Rsync.remove` with both of its names: the path that the calls use and the
relative name that the patterns judge. The relative names below the start come from the relative
name of the start, whatever text that is. `remove` is the call of the coordinator, which passes
the path below the root for both.
-/

namespace Rmote

namespace Rsync

open Hoare

/-- `Rsync.remove`. The number is a bound for the depth of the tree below the path. -/
def removeRelative (patterns : List String) : ℕ → Path → String → Call ℕ
  | 0, _, _ => throw .recursion
  | fuel + 1, p, relative => do
      match inspect (← get) p with
      | none => return 0
      | some entry =>
          if excludedText relative entry.kind patterns then return 0
          else if entry.kind = .directory then
            let entries ← scan p
            let count ← entries.foldlM (fun count item => do
              return count + (← removeRelative patterns fuel (item.1 :: p)
                (relative ++ "/" ++ item.1))) 0
            if (← scan p).isEmpty then
              discard p
              return count + 1
            else
              return count
          else
            discard p
            return 1

/-- The relative name of what some names lead to from the start. -/
def relativeName (relative : String) : Path → String
  | [] => relative
  | name :: names => relativeName relative names ++ "/" ++ name

variable {patterns : List String} {relative : String} {t s : Tree} {p q : Path}

/-- An entry from the start on that is excluded under its relative name. -/
def ExcludedUnder (patterns : List String) (relative : String) (t : Tree) (p q : Path) : Prop :=
  ∃ names node, q = names ++ p ∧ t.get q = some node ∧
    excludedText (relativeName relative names) node.kind patterns = true

/-- The path is excluded, inside of something excluded, or above something excluded. -/
def Retained (patterns : List String) (relative : String) (t : Tree) (p q : Path) : Prop :=
  (∃ r, r <:+ q ∧ ExcludedUnder patterns relative t p r) ∨
    ∃ r, q <:+ r ∧ ExcludedUnder patterns relative t p r

/-- What is excluded under the names from the start `p` on. -/
def sparedUnder (patterns : List String) (relative : String) (p q : Path) (kind : Kind) : Bool :=
  excludedText (relativeName relative (q.take (q.length - p.length))) kind patterns

theorem sparedUnder_append (names : Path) (kind : Kind) :
    sparedUnder patterns relative p (names ++ p) kind =
      excludedText (relativeName relative names) kind patterns := by
  rw [sparedUnder, List.length_append, Nat.add_sub_cancel, List.take_left]

/-- The removal from the start on spares what is excluded under its relative name. -/
theorem removeRelative_eq (fuel : ℕ) (names : Path) :
    removeRelative patterns fuel (names ++ p) (relativeName relative names) =
      removal (sparedUnder patterns relative p) fuel (names ++ p) := by
  induction fuel generalizing names with
  | zero => rfl
  | succ fuel ih =>
      have hchild (item : Name × Entry) :
          removeRelative patterns fuel (item.1 :: (names ++ p))
              (relativeName relative names ++ "/" ++ item.1) =
            removal (sparedUnder patterns relative p) fuel (item.1 :: (names ++ p)) :=
        ih (item.1 :: names)
      have hspared (kind : Kind) : excludedText (relativeName relative names) kind patterns =
          sparedUnder patterns relative p (names ++ p) kind := (sparedUnder_append names kind).symm
      rw [removeRelative]
      simp only [hchild, hspared]
      exact rfl

theorem excludedUnder_iff :
    ExcludedUnder patterns relative t p q ↔
      p <:+ q ∧ SparedAt (sparedUnder patterns relative p) t q := by
  constructor
  · rintro ⟨names, node, rfl, hnode, hexcluded⟩
    exact ⟨List.suffix_append _ _, node, hnode, by rwa [sparedUnder_append]⟩
  · rintro ⟨⟨names, rfl⟩, node, hnode, hspared⟩
    exact ⟨names, node, rfl, hnode, by rwa [sparedUnder_append] at hspared⟩

theorem retained_iff (h : p <:+ q) :
    Retained patterns relative t p q ↔ Remains (sparedUnder patterns relative p) t p q := by
  simp only [Retained, Remains, excludedUnder_iff]
  constructor
  · rintro (⟨r, hrq, hpr, hr⟩ | ⟨r, hqr, -, hr⟩)
    · exact .inl ⟨r, hpr, hrq, hr⟩
    · exact .inr ⟨r, hqr, hr⟩
  · rintro (⟨r, hpr, hrq, hr⟩ | ⟨r, hqr, hr⟩)
    · exact .inl ⟨r, hrq, hpr, hr⟩
    · exact .inr ⟨r, hqr, h.trans hqr, hr⟩

theorem not_retained_nil : ¬ Retained [] relative t p q := by
  rintro (⟨r, -, names, node, -, -, hexcluded⟩ | ⟨r, -, names, node, -, -, hexcluded⟩)
  · cases hexcluded
  · cases hexcluded

/-! ## The call of the coordinator -/

/-- The path below the root as a text. -/
def pathText (p : Path) : String := "/".intercalate p.reverse

theorem pathText_cons (n : Name) (h : p ≠ []) : pathText (n :: p) = pathText p ++ "/" ++ n := by
  rw [pathText, List.reverse_cons, String.intercalate_append_of_ne_nil (by simpa using h) (by simp),
    String.intercalate_singleton, pathText]

theorem excludedText_pathText (h : p ≠ []) (hnames : ∀ name ∈ p, '/' ∉ name.toList) (kind : Kind) :
    excludedText (pathText p) kind patterns = excluded p kind patterns := by
  have htext : pathText p = String.ofList (['/'].intercalate (p.reverse.map String.toList)) := by
    rw [pathText, ← String.ofList_toList (s := "/".intercalate p.reverse),
      String.toList_intercalate]
    rfl
  rw [htext, excludedText_join h hnames]

theorem relativeName_pathText (names : Path) (h : p ≠ []) :
    relativeName (pathText p) names = pathText (names ++ p) := by
  induction names with
  | nil => rfl
  | cons name names ih =>
      rw [relativeName, ih, List.cons_append, pathText_cons name (by simp [h])]

/-- Where no name has a slash, `remove` is `removeRelative` with the path as the relative name. -/
theorem run_remove_eq {fuel : ℕ} (hp : p ≠ []) (hpos : 0 < fuel)
    (hfuel : ∀ q, p <:+ q → t.get q ≠ none → q.length < fuel + p.length)
    (hnames : ∀ q, t.get q ≠ none → ∀ name ∈ q, '/' ∉ name.toList) :
    (remove patterns fuel p).run t = (removeRelative patterns fuel p (pathText p)).run t := by
  have heq : removeRelative patterns fuel p (pathText p) =
      removal (sparedUnder patterns (pathText p) p) fuel p := removeRelative_eq fuel []
  rw [heq, remove_eq]
  refine run_removal_congr hpos hfuel fun q kind hpq hq => ?_
  obtain ⟨names, rfl⟩ := hpq
  rw [sparedUnder_append, relativeName_pathText names hp]
  exact (excludedText_pathText (by simp [hp]) (hnames _ hq) kind).symm

/-- `remove` returns for every tree. The entries that are gone are those from the start on that
are not excluded, not inside of something excluded and not above it, all others are as they were,
and the number is the number of entries that are gone. A link is taken as the entry that it is.
Without patterns nothing is left. -/
theorem removeRelative_deletes (patterns : List String) (relative : String) (t : Tree) (p : Path)
    (fuel : ℕ) (hfuel : t.depth < fuel) :
    ∃ s, (removeRelative patterns fuel p relative).run t = .ok (gone t s).length s ∧
      (∀ q, q ∈ gone t s ↔ t.get q ≠ none ∧ p <:+ q ∧ ¬ Retained patterns relative t p q) ∧
      (∀ q, q ∉ gone t s → s.get q = t.get q) ∧
      (∀ target, t.get p = some (.symlink target) → ∀ q, q ≠ p → s.get q = t.get q) ∧
      (patterns = [] → ∀ q, p <:+ q → s.get q = none) := by
  have htriple := triple_removal (sparedUnder patterns relative p) fuel t p (by omega)
    fun q _ hq => by
      have hdepth := Tree.length_le_depth hq
      omega
  have heq : removeRelative patterns fuel p relative =
      removal (sparedUnder patterns relative p) fuel p := removeRelative_eq fuel []
  rw [← heq] at htriple
  have hrun := htriple t rfl
  cases hresult : (removeRelative patterns fuel p relative).run t with
  | error e s =>
      rw [hresult] at hrun
      exact hrun.elim
  | ok count s =>
      rw [hresult] at hrun
      have hgone (q : Path) :
          q ∈ gone t s ↔ t.get q ≠ none ∧ p <:+ q ∧ ¬ Retained patterns relative t p q := by
        rw [mem_gone]
        refine and_congr_right fun hq => ?_
        by_cases hpq : p <:+ q
        · rw [retained_iff hpq]
          refine ⟨fun hnone => ⟨hpq, fun hremains => ?_⟩, fun h => hrun.gone q hpq h.2⟩
          exact hq ((hrun.same q (.inr hremains)).symm.trans hnone)
        · rw [hrun.same q (.inl hpq)]
          exact ⟨fun hnone => absurd hnone hq, fun h => absurd h.1 hpq⟩
      have hsame (q : Path) (hq : q ∉ gone t s) : s.get q = t.get q := by
        by_cases hsome : t.get q = none
        · by_contra hne
          exact hrun.sub (fun hnone => hne (hnone.trans hsome.symm)) hsome
        · rw [hgone, not_and, not_and, not_not] at hq
          by_cases hpq : p <:+ q
          · exact hrun.same q (.inr ((retained_iff hpq).mp (hq hsome hpq)))
          · exact hrun.same q (.inl hpq)
      refine ⟨s, by rw [hrun.length_gone], hgone, hsame, fun target hlink q hne => ?_,
        fun hnil q hpq => ?_⟩
      · refine hsame q fun hq => ?_
        obtain ⟨hsome, hpq, -⟩ := (hgone q).mp hq
        exact hsome (Tree.get_below_eq_none hlink nofun hpq hne)
      · subst hnil
        by_contra hq
        have hmem := (hgone q).mpr ⟨hrun.sub hq, hpq, not_retained_nil⟩
        exact hq (mem_gone.mp hmem).2

/-- A directory with a file and a link that is excluded. -/
def logs : Tree where
  nodes := ⟨[⟨["c.log", "a"], .symlink "b"⟩, ⟨["b", "a"], .file [1] 0o644⟩,
    ⟨["a"], .directory 0o755⟩, ⟨[], .directory 0o755⟩], by unfold List.NodupKeys; decide⟩
  parents n p h := by
    have hkeys : n :: p ∈ [["c.log", "a"], ["b", "a"], ["a"], []] := AList.mem_keys.mp h
    simp only [List.mem_cons, List.cons.injEq, List.not_mem_nil, or_false, reduceCtorEq] at hkeys
    rcases hkeys with ⟨-, rfl⟩ | ⟨-, rfl⟩ | ⟨-, rfl⟩
    · exact ⟨0o755, by decide⟩
    · exact ⟨0o755, by decide⟩
    · exact ⟨0o755, by decide⟩

theorem removeRelative_deletes_logs :
    ∃ s, (removeRelative ["*.log"] 3 ["a"] "a").run logs = .ok 1 s ∧
      gone logs s = [["b", "a"]] ∧ ∀ q, q ≠ ["b", "a"] → s.get q = logs.get q := by
  obtain ⟨s, hrun, -, hsame, -⟩ :=
    removeRelative_deletes ["*.log"] "a" logs ["a"] 3 (by decide)
  have hgone : (match (removeRelative ["*.log"] 3 ["a"] "a").run logs with
      | .ok _ s => gone logs s
      | .error _ _ => []) = [["b", "a"]] := by
    decide +kernel
  rw [hrun] at hgone
  dsimp only at hgone
  refine ⟨s, by rw [hrun, hgone]; rfl, hgone, fun q hq => hsame q ?_⟩
  rw [hgone, List.mem_singleton]
  exact hq

end Rsync

end Rmote
