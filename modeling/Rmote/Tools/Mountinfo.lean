import Mathlib.Data.List.GetD
import Rmote.Library.LineSearch

/-!
# The mount table

`parseMountinfo` reads the mount table of the kernel: a line for each mount, fields with
a space between them, and the characters that would break this written as octal
escapes. The kernel escapes four characters and ends a line at a newline only, while the
reading ends it at ten characters, and it looks for the separator from the first field
on. A table is read back exactly when no path holds another end of a line and no root
and no target is a lone dash.
-/

namespace Rmote

namespace StorageFacts

/-- The zeros of the decimal digits. -/
def decimalZeros : List ℕ :=
  [0x30, 0x660, 0x6f0, 0x7c0, 0x966, 0x9e6, 0xa66, 0xae6, 0xb66, 0xbe6, 0xc66, 0xce6, 0xd66, 0xde6,
    0xe50, 0xed0, 0xf20, 0x1040, 0x1090, 0x17e0, 0x1810, 0x1946, 0x19d0, 0x1a80, 0x1a90, 0x1b50,
    0x1bb0, 0x1c40, 0x1c50, 0xa620, 0xa8d0, 0xa900, 0xa9d0, 0xa9f0, 0xaa50, 0xabf0, 0xff10, 0x104a0,
    0x10d30, 0x11066, 0x110f0, 0x11136, 0x111d0, 0x112f0, 0x11450, 0x114d0, 0x11650, 0x116c0,
    0x11730, 0x118e0, 0x11950, 0x11c50, 0x11d50, 0x11da0, 0x16a60, 0x16ac0, 0x16b50, 0x1d7ce,
    0x1d7d8, 0x1d7e2, 0x1d7ec, 0x1d7f6, 0x1e140, 0x1e2f0, 0x1e950, 0x1fbf0]

/-- The digits that have no place in a decimal number. -/
def otherDigits : List (ℕ × ℕ) :=
  [(0xb2, 0xb3), (0xb9, 0xb9), (0x1369, 0x1371), (0x19da, 0x19da), (0x2070, 0x2070),
    (0x2074, 0x2079), (0x2080, 0x2089), (0x2460, 0x2468), (0x2474, 0x247c), (0x2488, 0x2490),
    (0x24ea, 0x24ea), (0x24f5, 0x24fd), (0x24ff, 0x24ff), (0x2776, 0x277e), (0x2780, 0x2788),
    (0x278a, 0x2792), (0x10a40, 0x10a43), (0x10e60, 0x10e68), (0x11052, 0x1105a),
    (0x1f100, 0x1f10a)]

/-- The value of a decimal digit. -/
def decimal (c : Char) : Option ℕ :=
  (decimalZeros.find? fun first => first ≤ c.toNat && c.toNat ≤ first + 9).map (c.toNat - ·)

def isDigit (c : Char) : Bool :=
  (decimal c).isSome || otherDigits.any fun block => block.1 ≤ c.toNat && c.toNat ≤ block.2

/-- The error of `int` at a text that is no number of its base. -/
structure ValueError where
  base : ℕ
  text : List Char
  deriving DecidableEq, Repr

/-- The number that octal digits write. -/
def octal (digits : List Char) : Except ValueError ℕ :=
  digits.foldlM (fun n c =>
    match decimal c with
    | some d => if d < 8 then .ok (8 * n + d) else .error ⟨8, digits⟩
    | none => .error ⟨8, digits⟩) 0

/-- The octal escapes of a text, decoded one after the other. -/
def decode : List Char → Except ValueError (List Char)
  | '\\' :: a :: b :: d :: rest =>
      if isDigit a && isDigit b && isDigit d then do
        let code ← octal [a, b, d]
        let text ← decode rest
        return Char.ofNat code :: text
      else do
        let text ← decode (a :: b :: d :: rest)
        return '\\' :: text
  | c :: rest => do
      let text ← decode rest
      return c :: text
  | [] => return []

def unescape (value : List Char) : Except ValueError (List Char) :=
  if '\\' ∉ value then .ok value else decode value

/-- What is reported of a mount. -/
structure Record where
  device : List Char
  root : List Char
  target : List Char
  options : List (List Char)
  fstype : List Char
  source : List Char
  superOptions : List (List Char)
  deriving DecidableEq, Repr

/-- The record of one line; a line that is no record has none. -/
def parseLine (line : List Char) : Except ValueError (Option Record) :=
  let parts := line.splitOn ' '
  if ¬parts.contains ['-'] ∨ parts.length < 10 then
    .ok none
  else
    let separator := parts.idxOf ['-']
    if separator < 6 ∨ parts.length < separator + 3 then
      .ok none
    else do
      let root ← unescape (parts.getD 3 [])
      let target ← unescape (parts.getD 4 [])
      let source ← unescape (parts.getD (separator + 2) [])
      return some
        { device := parts.getD 2 []
          root := root
          target := target
          options := (parts.getD 5 []).splitOn ','
          fstype := parts.getD (separator + 1) []
          source := source
          superOptions := if parts.length > separator + 3 then
            (parts.getD (separator + 3) []).splitOn ',' else [] }

def parseLines : List (List Char) → Except ValueError (List Record)
  | [] => return []
  | line :: lines => do
      let record ← parseLine line
      let records ← parseLines lines
      return record.toList ++ records

def parseMountinfo (text : List Char) : Except ValueError (List Record) :=
  parseLines (Text.splitlines text)

/-- A character of a path, as the kernel writes it. -/
def escapeChar (c : Char) : List Char :=
  if c = ' ' then "\\040".toList
  else if c = '\t' then "\\011".toList
  else if c = '\n' then "\\012".toList
  else if c = '\\' then "\\134".toList
  else [c]

def escape (path : List Char) : List Char := path.flatMap escapeChar

/-- A field that the kernel chooses: nothing in it is escaped, and nothing ends a line. -/
structure Word where
  text : List Char
  plain : ∀ c ∈ text, escapeChar c = [c] ∧ Text.isBoundary c = false

/-- A field in front of the separator. -/
structure Field extends Word where
  ne_dash : text ≠ ['-']

/-- A mount of the kernel, with any paths. -/
structure Mount where
  id : Field
  parent : Field
  device : Field
  root : List Char
  target : List Char
  options : List Field
  options_ne_nil : options ≠ []
  options_comma : ∀ o ∈ options, ',' ∉ o.text
  optional : List Field
  fstype : Word
  source : List Char
  superOptions : List (List Char)
  superOptions_ne_nil : superOptions ≠ []
  superOptions_plain : ∀ o ∈ superOptions, Text.OnlyNewlines o ∧ ',' ∉ o

namespace Mount

/-- The fields in front of the separator. -/
def front (m : Mount) : List (List Char) :=
  [m.id.text, m.parent.text, m.device.text, escape m.root, escape m.target,
    [','].intercalate (m.options.map (·.text))] ++ m.optional.map (·.text)

/-- The fields behind the separator. -/
def back (m : Mount) : List (List Char) :=
  [m.fstype.text, escape m.source, [','].intercalate (m.superOptions.map escape)]

def line (m : Mount) : List Char := [' '].intercalate (m.front ++ ['-'] :: m.back)

/-- The record that is expected of a mount. -/
def record (m : Mount) : Record where
  device := m.device.text
  root := m.root
  target := m.target
  options := m.options.map (·.text)
  fstype := m.fstype.text
  source := m.source
  superOptions := m.superOptions.map escape

end Mount

/-- The table as the kernel writes it. -/
def render (mounts : List Mount) : List Char := Text.unlines (mounts.map Mount.line)

section Escape

variable {c : Char} {rest value path : List Char}

/-- The characters that the kernel escapes. -/
def escaped : List Char := [' ', '\t', '\n', '\\']

theorem mem_escaped : c ∈ escaped ↔ c = ' ' ∨ c = '\t' ∨ c = '\n' ∨ c = '\\' := by
  simp [escaped]

theorem escapeChar_of_notMem (hc : c ∉ escaped) : escapeChar c = [c] := by
  simp only [mem_escaped, not_or] at hc
  simp [escapeChar, hc]

theorem decode_cons (hc : c ≠ '\\') : decode (c :: rest) = (decode rest).map (c :: ·) := by
  rw [decode]
  · cases decode rest <;> rfl
  · rintro _ _ _ _ rfl
    exact absurd rfl hc

/-- An escaped character is decoded. -/
theorem decode_escaped (hc : c ∈ escaped) :
    decode (escapeChar c ++ rest) = (decode rest).map (c :: ·) := by
  rcases mem_escaped.mp hc with rfl | rfl | rfl | rfl <;> cases hrest : decode rest <;>
    simp [escapeChar, decode, hrest] <;> rfl

theorem decode_escapeChar (c : Char) (rest : List Char) :
    decode (escapeChar c ++ rest) = (decode rest).map (c :: ·) := by
  by_cases hc : c ∈ escaped
  · exact decode_escaped hc
  · rw [escapeChar_of_notMem hc]
    exact decode_cons fun h => hc (by simp [h, escaped])

theorem decode_escape (path : List Char) : decode (escape path) = .ok path := by
  induction path with
  | nil => rfl
  | cons c path ih =>
      rw [escape, List.flatMap_cons, decode_escapeChar, ← escape, ih]
      rfl

theorem decode_eq_self (h : '\\' ∉ value) : decode value = .ok value := by
  induction value with
  | nil => rfl
  | cons c value ih =>
      rw [List.mem_cons, not_or] at h
      rw [decode_cons (Ne.symm h.1), ih h.2]
      rfl

theorem unescape_eq_decode (value : List Char) : unescape value = decode value := by
  unfold unescape
  split_ifs with h
  · rfl
  · exact (decode_eq_self h).symm

/-- What the kernel wrote of a path is read as the path. -/
theorem unescape_escape (path : List Char) : unescape (escape path) = .ok path := by
  rw [unescape_eq_decode, decode_escape]

theorem escapeChar_ne_nil (c : Char) : escapeChar c ≠ [] := by
  unfold escapeChar
  split_ifs <;> simp

theorem plain_escaped (hc : c ∈ escaped) : Text.Plain (escapeChar c) ∧ ' ' ∉ escapeChar c := by
  rcases mem_escaped.mp hc with rfl | rfl | rfl | rfl <;> decide

theorem space_notMem_escape (path : List Char) : ' ' ∉ escape path := by
  intro h
  obtain ⟨c, -, hspace⟩ := List.mem_flatMap.mp h
  by_cases hc : c ∈ escaped
  · exact (plain_escaped hc).2 hspace
  · rw [escapeChar_of_notMem hc, List.mem_singleton] at hspace
    exact hc (by simp [← hspace, escaped])

theorem plain_escape (h : Text.OnlyNewlines path) : Text.Plain (escape path) := by
  intro d hd
  obtain ⟨c, hmem, hd⟩ := List.mem_flatMap.mp hd
  by_cases hc : c ∈ escaped
  · exact (plain_escaped hc).1 d hd
  · rw [escapeChar_of_notMem hc, List.mem_singleton] at hd
    subst hd
    by_contra hboundary
    rw [Bool.not_eq_false] at hboundary
    exact hc (by simp [h d hmem hboundary, escaped])

theorem comma_notMem_escape (h : ',' ∉ path) : ',' ∉ escape path := by
  intro hcomma
  obtain ⟨c, hmem, hcomma⟩ := List.mem_flatMap.mp hcomma
  by_cases hc : c ∈ escaped
  · have hno : ',' ∉ escapeChar c := by
      rcases mem_escaped.mp hc with rfl | rfl | rfl | rfl <;> decide
    exact hno hcomma
  · rw [escapeChar_of_notMem hc, List.mem_singleton] at hcomma
    exact h (hcomma ▸ hmem)

theorem escape_eq_dash (path : List Char) : escape path = ['-'] ↔ path = ['-'] := by
  constructor
  · intro h
    have hdecode := decode_escape path
    rw [h] at hdecode
    exact (Except.ok.inj hdecode).symm
  · rintro rfl
    rfl

theorem Word.space_notMem (w : Word) : ' ' ∉ w.text := fun h => by
  have hplain := (w.plain ' ' h).1
  cases hplain

theorem Word.backslash_notMem (w : Word) : '\\' ∉ w.text := fun h => by
  have hplain := (w.plain '\\' h).1
  cases hplain

theorem Word.isPlain (w : Word) : Text.Plain w.text := fun c hc => (w.plain c hc).2

end Escape

/-- The lines of a table, where no line holds what ends one. -/
theorem splitlines_unlines {lines : List (List Char)} (h : ∀ l ∈ lines, Text.Plain l) :
    Text.splitlines (Text.unlines lines) = lines := by
  induction lines with
  | nil => rfl
  | cons l lines ih =>
      rw [List.forall_mem_cons] at h
      rw [Text.unlines_cons, Text.splitlines_append_newline h.1, ih h.2]

namespace Mount

variable (m : Mount)

/-- The kernel's fields hold no space. -/
theorem space_notMem_fields : ∀ f ∈ m.front ++ ['-'] :: m.back, ' ' ∉ f := by
  have hjoin (pieces : List (List Char)) (h : ∀ piece ∈ pieces, ' ' ∉ piece) :
      ' ' ∉ [','].intercalate pieces := fun hmem => by
    exact Text.forall_mem_intercalate (p := (· ≠ ' ')) (by decide)
      (fun piece hpiece c hc heq => h piece hpiece (heq ▸ hc)) ' ' hmem rfl
  refine List.forall_mem_append.mpr ⟨List.forall_mem_append.mpr ⟨?_, ?_⟩, ?_⟩
  · simp only [List.forall_mem_cons, List.not_mem_nil, false_imp_iff, implies_true, and_true]
    refine ⟨m.id.space_notMem, m.parent.space_notMem, m.device.space_notMem,
      space_notMem_escape m.root, space_notMem_escape m.target, hjoin _ fun piece hpiece => ?_⟩
    obtain ⟨o, -, rfl⟩ := List.mem_map.mp hpiece
    exact o.space_notMem
  · intro f hf
    obtain ⟨o, -, rfl⟩ := List.mem_map.mp hf
    exact o.space_notMem
  · simp only [back, List.forall_mem_cons, List.not_mem_nil, false_imp_iff, implies_true, and_true]
    refine ⟨by decide, m.fstype.space_notMem, space_notMem_escape m.source,
      hjoin _ fun piece hpiece => ?_⟩
    obtain ⟨o, -, rfl⟩ := List.mem_map.mp hpiece
    exact space_notMem_escape o

theorem splitOn_line : m.line.splitOn ' ' = m.front ++ ['-'] :: m.back :=
  List.splitOn_intercalate ' ' m.space_notMem_fields (by simp)

theorem length_front : m.front.length = 6 + m.optional.length := by
  rw [front, List.length_append, List.length_map]
  rfl

/-- Joined options are no dash. -/
theorem options_ne_dash : [','].intercalate (m.options.map (·.text)) ≠ ['-'] := by
  intro h
  have hsplit := congrArg (List.splitOn ',') h
  rw [List.splitOn_intercalate ',' ?_ (by simpa using m.options_ne_nil)] at hsplit
  · obtain ⟨o, ho⟩ := List.exists_mem_of_ne_nil m.options m.options_ne_nil
    have hmem : o.text ∈ m.options.map (·.text) := List.mem_map_of_mem ho
    rw [hsplit, List.splitOn_eq_singleton (by decide)] at hmem
    exact o.ne_dash (List.mem_singleton.mp hmem)
  · intro piece hpiece
    obtain ⟨o, ho, rfl⟩ := List.mem_map.mp hpiece
    exact m.options_comma o ho

/-- The separator is the first dash, unless a path in front of it is one. -/
theorem dash_notMem_front (hroot : m.root ≠ ['-']) (htarget : m.target ≠ ['-']) :
    ['-'] ∉ m.front := by
  intro h
  rcases List.mem_append.mp h with h | h
  · simp only [List.mem_cons, List.not_mem_nil, or_false] at h
    rcases h with h | h | h | h | h | h
    · exact m.id.ne_dash h.symm
    · exact m.parent.ne_dash h.symm
    · exact m.device.ne_dash h.symm
    · exact hroot ((escape_eq_dash m.root).mp h.symm)
    · exact htarget ((escape_eq_dash m.target).mp h.symm)
    · exact m.options_ne_dash h.symm
  · obtain ⟨o, -, ho⟩ := List.mem_map.mp h
    exact o.ne_dash ho

theorem getD_front {i : ℕ} (hi : i < m.front.length) :
    (m.front ++ ['-'] :: m.back).getD i [] = m.front.getD i [] :=
  List.getD_append m.front (['-'] :: m.back) [] i hi

theorem getD_back (i : ℕ) :
    (m.front ++ ['-'] :: m.back).getD (m.front.length + i) [] = (['-'] :: m.back).getD i [] := by
  rw [List.getD_append_right m.front (['-'] :: m.back) [] _ (by omega), Nat.add_sub_cancel_left]

/-- The line of a mount is read as its record. -/
theorem parseLine_line (hroot : m.root ≠ ['-']) (htarget : m.target ≠ ['-']) :
    parseLine m.line = .ok (some m.record) := by
  have hlength := m.length_front
  have hseparator : (m.front ++ ['-'] :: m.back).idxOf ['-'] = m.front.length := by
    rw [List.idxOf_append_of_notMem (m.dash_notMem_front hroot htarget), List.idxOf_cons_self,
      Nat.add_zero]
  have hall : (m.front ++ ['-'] :: m.back).length = m.front.length + 4 := by
    simp [back]
  have hoptions : ([','].intercalate (m.options.map (·.text))).splitOn ',' =
      m.options.map (·.text) := by
    refine List.splitOn_intercalate ',' (fun piece hpiece => ?_) (by simpa using m.options_ne_nil)
    obtain ⟨o, ho, rfl⟩ := List.mem_map.mp hpiece
    exact m.options_comma o ho
  have hsuper : ([','].intercalate (m.superOptions.map escape)).splitOn ',' =
      m.superOptions.map escape := by
    refine List.splitOn_intercalate ',' (fun piece hpiece => ?_)
      (by simpa using m.superOptions_ne_nil)
    obtain ⟨o, ho, rfl⟩ := List.mem_map.mp hpiece
    exact comma_notMem_escape (m.superOptions_plain o ho).2
  have hparts : ¬(¬(m.front ++ ['-'] :: m.back).contains ['-'] ∨ m.front.length + 4 < 10) := by
    rw [not_or, not_not, List.contains_iff_mem]
    exact ⟨List.mem_append_right _ List.mem_cons_self, by omega⟩
  have hcount : ¬(m.front.length < 6 ∨ m.front.length + 4 < m.front.length + 3) := by omega
  have h2 : 2 < m.front.length := by omega
  have h3 : 3 < m.front.length := by omega
  have h4 : 4 < m.front.length := by omega
  have h5 : 5 < m.front.length := by omega
  unfold parseLine
  simp only [m.splitOn_line, hseparator, hall]
  rw [if_neg hparts, if_neg hcount, if_pos (Nat.lt_succ_self _), m.getD_front h3, m.getD_front h4,
    m.getD_front h2, m.getD_front h5, m.getD_back 1, m.getD_back 2, m.getD_back 3]
  show (do
    let root ← unescape (escape m.root)
    let target ← unescape (escape m.target)
    let source ← unescape (escape m.source)
    return some (Record.mk m.device.text root target
      (([','].intercalate (m.options.map fun o : Field => o.text)).splitOn ',') m.fstype.text source
      (([','].intercalate (m.superOptions.map escape)).splitOn ','))) = _
  rw [unescape_escape, unescape_escape, unescape_escape, hoptions, hsuper]
  rfl

/-- The paths of the mount that are read back. -/
structure Readable : Prop where
  root : Text.OnlyNewlines m.root ∧ m.root ≠ ['-']
  target : Text.OnlyNewlines m.target ∧ m.target ≠ ['-']
  source : Text.OnlyNewlines m.source

variable {m}

/-- The line of a readable mount is one line. -/
theorem Readable.plain (h : m.Readable) : Text.Plain m.line := by
  have hjoin (pieces : List (List Char)) (hpieces : ∀ piece ∈ pieces, Text.Plain piece) :
      Text.Plain ([','].intercalate pieces) :=
    Text.forall_mem_intercalate (p := (Text.isBoundary · = false)) rfl hpieces
  refine Text.forall_mem_intercalate (p := (Text.isBoundary · = false)) rfl ?_
  refine List.forall_mem_append.mpr ⟨List.forall_mem_append.mpr ⟨?_, ?_⟩, ?_⟩
  · simp only [List.forall_mem_cons, List.not_mem_nil, false_imp_iff, implies_true, and_true]
    refine ⟨m.id.isPlain, m.parent.isPlain, m.device.isPlain, plain_escape h.root.1,
      plain_escape h.target.1, hjoin _ fun piece hpiece => ?_⟩
    obtain ⟨o, -, rfl⟩ := List.mem_map.mp hpiece
    exact o.isPlain
  · intro f hf
    obtain ⟨o, -, rfl⟩ := List.mem_map.mp hf
    exact o.isPlain
  · simp only [back, List.forall_mem_cons, List.not_mem_nil, false_imp_iff, implies_true, and_true]
    refine ⟨by decide, m.fstype.isPlain, plain_escape h.source, hjoin _ fun piece hpiece => ?_⟩
    obtain ⟨o, ho, rfl⟩ := List.mem_map.mp hpiece
    exact plain_escape (m.superOptions_plain o ho).1

end Mount

/-- Readable mounts are read back. -/
theorem parseMountinfo_render {mounts : List Mount} (h : ∀ m ∈ mounts, m.Readable) :
    parseMountinfo (render mounts) = .ok (mounts.map Mount.record) := by
  have hlines : ∀ l ∈ mounts.map Mount.line, Text.Plain l := by
    intro l hl
    obtain ⟨m, hm, rfl⟩ := List.mem_map.mp hl
    exact (h m hm).plain
  rw [parseMountinfo, render, splitlines_unlines hlines]
  clear hlines
  induction mounts with
  | nil => rfl
  | cons m mounts ih =>
      rw [List.forall_mem_cons] at h
      rw [List.map_cons, parseLines, m.parseLine_line h.1.root.2 h.1.target.2, ih h.2]
      rfl

/-- A text of the kernel: every backslash starts the escape of a character. -/
inductive Clean : List Char → Prop
  | nil : Clean []
  | raw (c : Char) (rest : List Char) (hc : c ≠ '\\') : Clean rest → Clean (c :: rest)
  | escape (c : Char) (rest : List Char) (hc : c ∈ escaped) :
      Clean rest → Clean (escapeChar c ++ rest)

namespace Clean

variable {text rest : List Char}

theorem append (h : Clean text) (h' : Clean rest) : Clean (text ++ rest) := by
  induction h with
  | nil => exact h'
  | raw c _ hc _ ih => exact .raw c _ hc ih
  | escape c _ hc _ ih =>
      rw [List.append_assoc]
      exact .escape c _ hc ih

theorem of_notMem (h : '\\' ∉ text) : Clean text := by
  induction text with
  | nil => exact .nil
  | cons c text ih =>
      rw [List.mem_cons, not_or] at h
      exact .raw c text (Ne.symm h.1) (ih h.2)

theorem escape_path (path : List Char) : Clean (StorageFacts.escape path) := by
  induction path with
  | nil => exact .nil
  | cons c path ih =>
      by_cases hc : c ∈ escaped
      · exact .escape c _ hc ih
      · rw [StorageFacts.escape, List.flatMap_cons, escapeChar_of_notMem hc]
        exact .raw c _ (fun h => hc (by simp [h, escaped])) ih

theorem intercalate {sep : Char} (hsep : sep ≠ '\\') {pieces : List (List Char)}
    (h : ∀ piece ∈ pieces, Clean piece) : Clean ([sep].intercalate pieces) := by
  induction pieces with
  | nil => exact .nil
  | cons piece pieces ih =>
      rw [List.forall_mem_cons] at h
      cases pieces with
      | nil => simpa [List.intercalate] using h.1
      | cons next pieces =>
          rw [List.intercalate_cons_cons, List.append_assoc]
          exact h.1.append (.raw sep _ hsep (ih h.2))

theorem line (m : Mount) : Clean m.line := by
  have hword (w : Word) : Clean w.text := .of_notMem w.backslash_notMem
  refine .intercalate (by decide) ?_
  refine List.forall_mem_append.mpr ⟨List.forall_mem_append.mpr ⟨?_, ?_⟩, ?_⟩
  · simp only [List.forall_mem_cons, List.not_mem_nil, false_imp_iff, implies_true, and_true]
    refine ⟨hword _, hword _, hword _, .escape_path m.root, .escape_path m.target,
      .intercalate (by decide) fun piece hpiece => ?_⟩
    obtain ⟨o, -, rfl⟩ := List.mem_map.mp hpiece
    exact hword _
  · intro f hf
    obtain ⟨o, -, rfl⟩ := List.mem_map.mp hf
    exact hword _
  · simp only [Mount.back, List.forall_mem_cons, List.not_mem_nil, false_imp_iff, implies_true,
      and_true]
    refine ⟨.of_notMem (by decide), hword _, .escape_path m.source,
      .intercalate (by decide) fun piece hpiece => ?_⟩
    obtain ⟨o, -, rfl⟩ := List.mem_map.mp hpiece
    exact .escape_path o

theorem render (mounts : List Mount) : Clean (StorageFacts.render mounts) := by
  induction mounts with
  | nil => exact .nil
  | cons m mounts ih =>
      rw [StorageFacts.render, List.map_cons, Text.unlines_cons]
      exact (line m).append (.raw '\n' _ (by decide) ih)

/-- A clean piece in front of the first of clean lines. -/
theorem forall_mem_lines {lines : List (List Char)}
    (hword : ∀ more, Clean more → Clean (text ++ more)) (h : ∀ l ∈ lines, Clean l) :
    ∀ l ∈ (text ++ lines.headD []) :: lines.tail, Clean l := by
  cases lines with
  | nil => exact List.forall_mem_cons.mpr ⟨hword [] .nil, by simp⟩
  | cons l lines =>
      rw [List.forall_mem_cons] at h
      exact List.forall_mem_cons.mpr ⟨hword l h.1, h.2⟩

/-- The lines of a clean text are clean. -/
theorem splitlines (h : Clean text) : ∀ l ∈ Text.splitlines text, Clean l := by
  induction h with
  | nil => simp [Text.splitlines]
  | raw c rest hc _ ih =>
      cases hboundary : Text.isBoundary c with
      | false =>
          have hword : ∀ more, Clean more → Clean ([c] ++ more) := fun more => .raw c more hc
          have hplain : Text.Plain [c] := by simpa using hboundary
          rw [← List.singleton_append, Text.splitlines_append hplain,
            Text.foldr_consLine (List.cons_ne_nil c [])]
          exact forall_mem_lines hword ih
      | true =>
          by_cases hpair : c = '\r' ∧ rest.head? = some '\n'
          · obtain ⟨rfl, hnewline⟩ := hpair
            obtain ⟨more, rfl⟩ := List.head?_eq_some_iff.mp hnewline
            rw [Text.splitlines_newline] at ih
            exact ih
          · rw [Text.splitlines_boundary hboundary fun hr hn => hpair ⟨hr, hn⟩]
            exact List.forall_mem_cons.mpr ⟨.nil, ih⟩
  | escape c rest hc _ ih =>
      rw [Text.splitlines_append (plain_escaped hc).1, Text.foldr_consLine (escapeChar_ne_nil c)]
      exact forall_mem_lines (fun more => .escape c more hc) ih

/-- The fields of a clean line are clean. -/
theorem splitOn (h : Clean text) : ∀ l ∈ text.splitOn ' ', Clean l := by
  induction h with
  | nil => simp [List.splitOn_nil, Clean.nil]
  | raw c rest hc _ ih =>
      by_cases hspace : c = ' '
      · rw [List.splitOn_cons_eq_if_modifyHead, if_pos (by simpa using hspace)]
        exact List.forall_mem_cons.mpr ⟨.nil, ih⟩
      · have hword : ∀ more, Clean more → Clean ([c] ++ more) := fun more => .raw c more hc
        have hnone : ' ' ∉ [c] := by simpa using Ne.symm hspace
        rw [← List.singleton_append, Text.splitOn_append_of_notMem hnone]
        exact forall_mem_lines hword ih
  | escape c rest hc _ ih =>
      rw [Text.splitOn_append_of_notMem (plain_escaped hc).2]
      exact forall_mem_lines (fun more => .escape c more hc) ih

/-- A clean field on one line is decoded, to a text where nothing but newlines end lines. -/
theorem decode (h : Clean text) (hplain : Text.Plain text) :
    ∃ value, StorageFacts.decode text = .ok value ∧ Text.OnlyNewlines value ∧
      (value = [] → text = []) ∧ (value = ['-'] → text = ['-']) := by
  induction h with
  | nil => exact ⟨[], rfl, by simp [Text.OnlyNewlines], fun _ => rfl, id⟩
  | raw c rest hc _ ih =>
      rw [Text.plain_cons] at hplain
      obtain ⟨value, hvalue, honly, hnil, -⟩ := ih hplain.2
      have hdecode : StorageFacts.decode (c :: rest) = .ok (c :: value) := by
        rw [decode_cons hc, hvalue]
        rfl
      refine ⟨c :: value, hdecode, ?_, fun h => absurd h (List.cons_ne_nil c value), fun h => ?_⟩
      · refine List.forall_mem_cons.mpr ⟨fun hboundary => ?_, honly⟩
        rw [hplain.1] at hboundary
        cases hboundary
      · obtain ⟨rfl, rfl⟩ := List.cons.inj h
        rw [hnil rfl]
  | escape c rest hc _ ih =>
      rw [Text.plain_append] at hplain
      obtain ⟨value, hvalue, honly, -, -⟩ := ih hplain.2
      have hnewline : c ≠ '-' ∧ (Text.isBoundary c = true → c = '\n') := by
        rcases mem_escaped.mp hc with rfl | rfl | rfl | rfl <;> decide
      have hdecode : StorageFacts.decode (escapeChar c ++ rest) = .ok (c :: value) := by
        rw [decode_escaped hc, hvalue]
        rfl
      refine ⟨c :: value, hdecode, ?_, fun h => absurd h (List.cons_ne_nil c value), fun h => ?_⟩
      · exact List.forall_mem_cons.mpr ⟨hnewline.2, honly⟩
      · exact absurd (List.cons.inj h).1 hnewline.1

end Clean

/-- What holds of every record that is read from a table of the kernel. -/
structure Record.Sound (r : Record) : Prop where
  root : Text.OnlyNewlines r.root ∧ r.root ≠ ['-']
  target : Text.OnlyNewlines r.target ∧ r.target ≠ ['-']
  source : Text.OnlyNewlines r.source

/-- The field in front of the first dash is no dash. -/
theorem getD_ne_dash {parts : List (List Char)} {i : ℕ} (hi : i < parts.idxOf ['-'])
    (hlength : i < parts.length) : parts.getD i [] ≠ ['-'] := by
  intro h
  have hnot := List.not_of_lt_findIdx hi
  rw [List.getD_eq_getElem _ _ hlength] at h
  simp [h] at hnot

theorem parseLine_clean {line : List Char} (hclean : Clean line) (hplain : Text.Plain line) :
    ∃ record, parseLine line = .ok record ∧ ∀ r ∈ record, r.Sound := by
  have hfield : ∀ part ∈ line.splitOn ' ', ∃ value, unescape part = .ok value ∧
      Text.OnlyNewlines value ∧ (value = ['-'] → part = ['-']) := by
    intro part hpart
    have hpart' : Text.Plain part := fun c hc => hplain c (Text.mem_of_mem_splitOn hpart hc)
    obtain ⟨value, hvalue, honly, -, hdash⟩ := (hclean.splitOn part hpart).decode hpart'
    exact ⟨value, by rw [unescape_eq_decode, hvalue], honly, hdash⟩
  unfold parseLine
  generalize line.splitOn ' ' = parts at hfield
  by_cases hparts : ¬parts.contains ['-'] ∨ parts.length < 10
  · exact ⟨none, if_pos hparts, fun r hr => by cases hr⟩
  · by_cases hcount : parts.idxOf ['-'] < 6 ∨ parts.length < parts.idxOf ['-'] + 3
    · exact ⟨none, by rw [if_neg hparts]; exact if_pos hcount, fun r hr => by cases hr⟩
    · have hget {i : ℕ} (hi : i < parts.length) : parts.getD i [] ∈ parts := by
        rw [List.getD_eq_getElem _ _ hi]
        exact List.getElem_mem hi
      obtain ⟨root, hroot, honly, hdash⟩ := hfield _ (hget (i := 3) (by omega))
      obtain ⟨target, htarget, honly', hdash'⟩ := hfield _ (hget (i := 4) (by omega))
      obtain ⟨source, hsource, honly'', -⟩ :=
        hfield _ (hget (i := parts.idxOf ['-'] + 2) (by omega))
      simp only [if_neg hparts, if_neg hcount, hroot, htarget, hsource]
      refine ⟨_, rfl, fun r hr => ?_⟩
      rw [Option.mem_some_iff] at hr
      subst hr
      exact ⟨⟨honly, fun h => getD_ne_dash (by omega) (by omega) (hdash h)⟩,
        ⟨honly', fun h => getD_ne_dash (by omega) (by omega) (hdash' h)⟩, honly''⟩

/-- A table of the kernel is read without an error, whatever the paths in it are. -/
theorem parseMountinfo_clean {text : List Char} (h : Clean text) :
    ∃ records, parseMountinfo text = .ok records ∧ ∀ r ∈ records, r.Sound := by
  have hclean := h.splitlines
  have hplain : ∀ l ∈ Text.splitlines text, Text.Plain l := fun _ => Text.plain_of_mem_splitlines
  unfold parseMountinfo
  generalize Text.splitlines text = lines at hclean hplain
  induction lines with
  | nil => exact ⟨[], rfl, by simp⟩
  | cons line lines ih =>
      rw [List.forall_mem_cons] at hclean hplain
      obtain ⟨record, hrecord, hsound⟩ := parseLine_clean hclean.1 hplain.1
      obtain ⟨records, hrecords, hsounds⟩ := ih hclean.2 hplain.2
      refine ⟨record.toList ++ records, by rw [parseLines, hrecord, hrecords]; rfl, ?_⟩
      exact List.forall_mem_append.mpr ⟨fun r hr => hsound r (Option.mem_toList.mp hr), hsounds⟩

/-- The mounts are read back, one record for each of them, exactly when every path of theirs is
readable. -/
theorem parseMountinfo_render_iff (mounts : List Mount) :
    parseMountinfo (render mounts) = .ok (mounts.map Mount.record) ↔
      ∀ m ∈ mounts, m.Readable := by
  constructor
  · intro h m hm
    obtain ⟨records, hrecords, hsound⟩ := parseMountinfo_clean (.render mounts)
    rw [h] at hrecords
    obtain rfl := Except.ok.inj hrecords
    have hrecord := hsound m.record (List.mem_map_of_mem hm)
    exact ⟨hrecord.root, hrecord.target, hrecord.source⟩
  · exact parseMountinfo_render

theorem plain_of_all {text : List Char}
    (h : (text.all fun c => escapeChar c = [c] && !Text.isBoundary c) = true) :
    ∀ c ∈ text, escapeChar c = [c] ∧ Text.isBoundary c = false := by
  simpa using h

/-- A mount whose target holds a vertical tab. -/
def verticalTab : Mount where
  id := ⟨⟨"34".toList, plain_of_all (by decide)⟩, by decide⟩
  parent := ⟨⟨"44".toList, plain_of_all (by decide)⟩, by decide⟩
  device := ⟨⟨"0:29".toList, plain_of_all (by decide)⟩, by decide⟩
  root := "/".toList
  target := "/mnt/a\x0bb".toList
  options := [⟨⟨"rw".toList, plain_of_all (by decide)⟩, by decide⟩]
  options_ne_nil := by simp
  options_comma := by decide
  optional := []
  fstype := ⟨"tmpfs".toList, plain_of_all (by decide)⟩
  source := "tmpfs".toList
  superOptions := ["rw".toList]
  superOptions_ne_nil := by simp
  superOptions_plain := by decide

/-- The mount is missing in what is read of it. -/
theorem verticalTab_missing :
    parseMountinfo (render [verticalTab]) = .ok [] ∧ [verticalTab].map Mount.record ≠ [] := by
  decide

end StorageFacts

end Rmote
