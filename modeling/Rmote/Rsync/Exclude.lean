import Mathlib.Data.List.Basic
import Mathlib.Data.List.Infix

/-!
# Which entries are excluded

`excluded` judges an entry by its path below the root and by its kind, without a look at the
file system. `fnmatchcase` is the function of the standard library: a star matches any text, a
question mark one character and brackets one character of a set, and the whole name must match.
-/

namespace Rmote

namespace Rsync

/-- The kinds that `inspect` tells apart. -/
inductive Kind where
  | directory
  | file
  | symlink
  | special
  deriving DecidableEq, Repr

/-- The name of an entry in its directory. -/
abbrev Name := String

/-- A path below a root, with the innermost name first. -/
abbrev Path := List Name

/-- The parts of a pattern for names. -/
inductive Token where
  | star
  | question
  | oneOf (negated : Bool) (set : List Char)
  | char (c : Char)
  deriving DecidableEq, Repr

/-- The text in front of the first closing bracket, and the text behind it. -/
def closing : List Char → Option (List Char × List Char)
  | [] => none
  | c :: text =>
      if c = ']' then some ([], text)
      else (closing text).map fun (set, rest) => (c :: set, rest)

theorem length_closing {text set rest : List Char} (h : closing text = some (set, rest)) :
    rest.length ≤ text.length := by
  induction text generalizing set with
  | nil => cases h
  | cons c text ih =>
      rw [closing] at h
      split_ifs at h
      · cases h
        exact Nat.le_succ _
      · obtain ⟨⟨set', rest'⟩, hclosing, heq⟩ := Option.map_eq_some_iff.mp h
        cases heq
        exact (ih hclosing).trans (Nat.le_succ _)

/-- The set behind an opening bracket: whether it is negated, its text, and the text behind it.
The first character belongs to the set even when it is a closing bracket. -/
def bracket : List Char → Option (Bool × List Char × List Char)
  | '!' :: c :: text => (closing text).map fun (set, rest) => (true, c :: set, rest)
  | c :: text => (closing text).map fun (set, rest) => (false, c :: set, rest)
  | [] => none

theorem length_bracket {text set rest : List Char} {negated : Bool}
    (h : bracket text = some (negated, set, rest)) : rest.length ≤ text.length := by
  unfold bracket at h
  split at h
  · obtain ⟨⟨set', rest'⟩, hclosing, heq⟩ := Option.map_eq_some_iff.mp h
    cases heq
    exact (length_closing hclosing).trans ((Nat.le_succ _).trans (Nat.le_succ _))
  · obtain ⟨⟨set', rest'⟩, hclosing, heq⟩ := Option.map_eq_some_iff.mp h
    cases heq
    exact (length_closing hclosing).trans (Nat.le_succ _)
  · cases h

/-- The parts of a pattern. A bracket that nothing closes stands for itself. -/
def tokens : List Char → List Token
  | [] => []
  | c :: text =>
      if c = '*' then .star :: tokens text
      else if c = '?' then .question :: tokens text
      else if c = '[' then
        match h : bracket text with
        | some (negated, set, rest) =>
            have := length_bracket h
            .oneOf negated set :: tokens rest
        | none => .char c :: tokens text
      else .char c :: tokens text
termination_by text => text.length

/-- The character is in the set, or in one of its ranges. -/
def inSet (c : Char) : List Char → Bool
  | low :: '-' :: high :: set => (low ≤ c && c ≤ high) || inSet c set
  | c' :: set => c == c' || inSet c set
  | [] => false

def matchTokens : List Token → List Char → Bool
  | [], name => name.isEmpty
  | .star :: pattern, name => name.tails.any (matchTokens pattern)
  | .question :: pattern, _ :: name => matchTokens pattern name
  | .oneOf negated set :: pattern, c :: name => (inSet c set != negated) && matchTokens pattern name
  | .char c' :: pattern, c :: name => c == c' && matchTokens pattern name
  | _, [] => false

/-- The name matches the pattern, with its case. -/
def fnmatchcase (name pattern : List Char) : Bool := matchTokens (tokens pattern) name

/-- The components of a pattern match the parts of a path. -/
def matchParts (components parts : List (List Char)) : Bool :=
  match components, parts with
  | [], parts => parts.isEmpty
  | component :: components, [] => component == "**".toList && matchParts components []
  | component :: components, part :: parts =>
      if component = "**".toList then
        matchParts components (part :: parts) || matchParts (component :: components) parts
      else fnmatchcase part component && matchParts components parts
termination_by components.length + parts.length

/-- A slash at the end is cut off. -/
def removeSlash (text : List Char) : List Char :=
  if text.getLast? = some '/' then text.dropLast else text

/-- A slash at the beginning is cut off. -/
def removeRoot : List Char → List Char
  | '/' :: text => text
  | text => text

/-- The pattern excludes an entry of this kind under the path. -/
def excludes (parts : List (List Char)) (kind : Kind) (pattern : List Char) : Bool :=
  if pattern.getLast? = some '/' ∧ kind ≠ .directory then false
  else
    let text := removeSlash pattern
    if text.contains '/' then matchParts ((removeRoot text).splitOn '/') parts
    else fnmatchcase (parts.getLastD []) text

/-- One of the patterns excludes the entry. -/
def excluded (relative : Path) (kind : Kind) (patterns : List String) : Bool :=
  patterns.any fun pattern =>
    excludes (relative.reverse.map String.toList) kind pattern.toList

/-- The pattern has a component that is not a name, or a zero byte. -/
def invalid (pattern : String) : Bool :=
  ((removeSlash (removeRoot pattern.toList)).splitOn '/').any (fun part =>
    part ∈ ["".toList, ".".toList, "..".toList]) || pattern.toList.contains '\x00'

@[simp] theorem excluded_nil (relative : Path) (kind : Kind) :
    excluded relative kind [] = false := rfl

example : excluded ["b", "x", "a"] .directory ["a/**/b/"] = true := by decide +kernel
example : excluded ["c.py", "x"] .file ["*.p[a-cy]"] = true := by decide +kernel
example : excluded ["c.py", "x"] .file ["/*.py", "*.p[!y]", "x/c.py/"] = false := by decide +kernel
example : invalid "a//b" = true := by decide +kernel

end Rsync

end Rmote
