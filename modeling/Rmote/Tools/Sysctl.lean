import Rmote.Library.Assoc
import Rmote.Library.Text
import Mathlib.Data.Char
import Mathlib.Data.List.Lex
import Mathlib.Data.List.Sort

/-!
# Kernel parameters

`Sysctl` sets kernel parameters at once, through the files under `/proc/sys`, and
keeps them in a configuration file of lines `key = value`. `present` reads and
writes that file for one key; `converge` reads it once for many keys and writes it
once, after the last of them. The kernel is a parameter: what it answers and how its
state changes is arbitrary.
-/

namespace Rmote

namespace Sysctl

/-- What reading or writing a parameter raises. -/
inductive Error where
  | notImplemented (text : String)
  | fileNotFound
  /-- Any other exception. -/
  | failed (text : String)
  deriving DecidableEq, Repr

/-- The system with its files under `/proc/sys`. -/
structure Kernel (σ : Type) where
  system : String
  readText : List Char → σ → Except Error (List Char) × σ
  writeText : List Char → List Char → σ → Except Error Unit × σ

/-- The state of the kernel and the configuration file, which can be missing. -/
structure Host (σ : Type) where
  kernel : σ
  conf : Option (List Char)

structure Result where
  key : List Char
  value : List Char
  changed : Bool
  deriving DecidableEq, Repr

/-- The configuration: keys with their values. -/
abbrev Conf := List (List Char × List Char)

/-- One line of the configuration file. -/
def readLine (line : List Char) : Option (List Char × List Char) :=
  let stripped := Text.strip line
  if stripped = [] ∨ stripped.head? = some '#' then
    none
  else
    match Text.partition '=' stripped with
    | (key, some value) => some (Text.strip key, Text.strip value)
    | (_, none) => none

/-- Parse the lines `key = value` of the file. Of several lines with one key the last
one holds. -/
def readConf : Option (List Char) → Conf
  | none => []
  | some text =>
      Assoc.ofPairs ((Text.splitlines (Text.universalNewlines text)).filterMap readLine)

/-- One entry as a line without its newline. -/
def entryLine (entry : List Char × List Char) : List Char := entry.1 ++ " = ".toList ++ entry.2

/-- Write the entries as lines `key = value`, in the order of their keys. -/
def writeConf (data : Conf) : List Char :=
  ((data.insertionSort fun a b => a.1 ≤ b.1).map fun entry => entryLine entry ++ ['\n']).flatten

variable {σ : Type}

/-- Map `net.ipv4.ip_forward` to `/proc/sys/net/ipv4/ip_forward`. A key that maps to
an absolute path replaces the directory. -/
def procPath (key : List Char) : List Char :=
  let path := key.map fun c => if c = '.' then '/' else c
  if path.head? = some '/' then path else "/proc/sys/".toList ++ path

/-- Refuse on a system other than Linux. -/
def Kernel.needsLinux (K : Kernel σ) : Except Error Unit :=
  if K.system = "Linux" then
    .ok ()
  else
    .error (.notImplemented
      s!"Sysctl needs the /proc/sys interface of Linux, and this host runs {K.system}")

/-- Read the current value of a key. -/
def getRuntime (K : Kernel σ) (key : List Char) (s : σ) : Except Error (List Char) × σ :=
  match K.needsLinux with
  | .error error => (.error error, s)
  | .ok () =>
      match K.readText (procPath key) s with
      | (.error error, s) => (.error error, s)
      | (.ok text, s) => (.ok (Text.strip (Text.universalNewlines text)), s)

/-- The current value, `none` for a key that the kernel does not have. -/
def currentRuntime (K : Kernel σ) (key : List Char) (s : σ) :
    Except Error (Option (List Char)) × σ :=
  match getRuntime K key s with
  | (.ok value, s) => (.ok (some value), s)
  | (.error .fileNotFound, s) => (.ok none, s)
  | (.error error, s) => (.error error, s)

/-- Write a value to the kernel. -/
def apply (K : Kernel σ) (key value : List Char) (s : σ) : Except Error Unit × σ :=
  match K.needsLinux with
  | .error error => (.error error, s)
  | .ok () => K.writeText (procPath key) (value ++ ['\n']) s

/-- Ensure that a key has a value, at runtime and in the file. -/
def present (K : Kernel σ) (key value : List Char) (h : Host σ) : Except Error Result × Host σ :=
  let conf := readConf h.conf
  match currentRuntime K key h.kernel with
  | (.error error, s) => (.error error, { h with kernel := s })
  | (.ok runtime, s) =>
      if (runtime = none ∨ runtime = some value) ∧ Assoc.get conf key = some value then
        (.ok ⟨key, value, false⟩, { h with kernel := s })
      else
        match if runtime ≠ none ∧ runtime ≠ some value then apply K key value s else (.ok (), s) with
        | (.error error, s) => (.error error, { h with kernel := s })
        | (.ok (), s) =>
            (.ok ⟨key, value, true⟩,
              { kernel := s
                conf := if Assoc.get conf key ≠ some value then
                  some (writeConf (Assoc.put key value conf)) else h.conf })

/-- The variables of the loop of `converge`. -/
structure Progress (σ : Type) where
  kernel : σ
  conf : Conf
  results : List Result
  confChanged : Bool

/-- An entry that the file format keeps: the key and the value are trimmed and on one
line, and the line is not read as a comment or cut inside the key. -/
structure Fits (entry : List Char × List Char) : Prop where
  plain_key : Text.Plain entry.1
  plain_value : Text.Plain entry.2
  strip_key : Text.strip entry.1 = entry.1
  strip_value : Text.strip entry.2 = entry.2
  no_separator : '=' ∉ entry.1
  no_comment : entry.1.head? ≠ some '#'

/-- A line that was read gives an entry that fits. -/
theorem fits_of_readLine {line : List Char} {entry : List Char × List Char}
    (hline : Text.Plain line) (h : readLine line = some entry) : Fits entry := by
  unfold readLine at h
  simp only at h
  split_ifs at h with hskip
  rw [not_or] at hskip
  split at h
  · rename_i key value hpartition
    obtain rfl := Option.some.inj h
    obtain ⟨hstripped, hsep⟩ := Text.partition_eq_some hpartition
    have hplain : Text.Plain (Text.strip line) := fun c hc => hline c (Text.mem_of_mem_strip hc)
    rw [hstripped, Text.plain_append, Text.plain_cons] at hplain
    refine ⟨fun c hc => hplain.1 c (Text.mem_of_mem_strip hc),
      fun c hc => hplain.2.2 c (Text.mem_of_mem_strip hc), Text.strip_strip key,
      Text.strip_strip value, fun hmem => hsep (Text.mem_of_mem_strip hmem), ?_⟩
    cases key with
    | nil => simp
    | cons c key =>
        have hhead : (Text.strip line).head? = some c := by rw [hstripped]; rfl
        have hc : Text.isSpace c = false := Text.isSpace_head_strip hhead
        rw [hhead] at hskip
        have hkey : Text.strip (c :: key) = c :: Text.rstrip key :=
          Text.strip_append_cons [] key hc
        rw [hkey]
        exact hskip.2
  · cases h

/-- An entry that fits is read back from its line. -/
theorem readLine_entryLine {entry : List Char × List Char} (h : Fits entry) :
    readLine (entryLine entry) = some entry := by
  obtain ⟨key, value⟩ := entry
  have hline : entryLine (key, value) = (key ++ [' ']) ++ '=' :: ' ' :: value := by
    simp [entryLine]
  have hleft : Text.lstrip (key ++ [' ']) = if key = [] then [] else key ++ [' '] := by
    cases key with
    | nil => rfl
    | cons c key =>
        have hfirst : (Text.strip (c :: key)).head? = some c := by
          rw [h.strip_key]
          rfl
        have hc : Text.isSpace c = false := Text.isSpace_head_strip hfirst
        exact Text.lstrip_eq_self fun d hd => Option.some.inj hd ▸ hc
  have hsep : '=' ∉ Text.lstrip (key ++ [' ']) := by
    have hkey := h.no_separator
    rw [hleft]
    split_ifs <;> simp_all
  have hhead : (Text.lstrip (key ++ [' ']) ++ '=' :: Text.rstrip (' ' :: value)).head? ≠
      some '#' := by
    have hkey := h.no_comment
    rw [hleft]
    cases key with
    | nil => simp
    | cons c key => simpa using hkey
  have hspace : Text.isSpace ' ' = true := rfl
  have hkey : Text.strip (Text.lstrip (key ++ [' '])) = key := by
    rw [Text.strip_lstrip, Text.strip_append_of_isSpace hspace, h.strip_key]
  have hvalue : Text.strip (Text.rstrip (' ' :: value)) = value := by
    rw [Text.strip_rstrip, Text.strip_cons_of_isSpace hspace, h.strip_value]
  rw [readLine, hline, Text.strip_append_cons _ _ (by rfl),
    if_neg (by rw [not_or]; exact ⟨by simp, hhead⟩), Text.partition_append_cons hsep]
  simp only [hkey, hvalue]

/-- Two configurations hold the same values. -/
def Same (a b : Conf) : Prop := ∀ key, Assoc.get a key = Assoc.get b key

theorem fits_readConf {file : Option (List Char)} {entry : List Char × List Char}
    (h : entry ∈ readConf file) : Fits entry := by
  cases file with
  | none => cases h
  | some text =>
      obtain ⟨line, hline, hentry⟩ := List.mem_filterMap.mp (Assoc.mem_of_mem_ofPairs h)
      exact fits_of_readLine (Text.plain_of_mem_splitlines hline) hentry

theorem nodup_readConf (file : Option (List Char)) : ((readConf file).map Prod.fst).Nodup := by
  cases file with
  | none => exact List.nodup_nil
  | some text => exact Assoc.nodup_ofPairs _

theorem plain_entryLine {entry : List Char × List Char} (h : Fits entry) :
    Text.Plain (entryLine entry) := by
  rw [entryLine, Text.plain_append, Text.plain_append]
  exact ⟨⟨h.plain_key, by decide⟩, h.plain_value⟩

theorem splitlines_entries {entries : Conf} (h : ∀ entry ∈ entries, Fits entry) :
    Text.splitlines ((entries.map fun entry => entryLine entry ++ ['\n']).flatten) =
      entries.map entryLine := by
  induction entries with
  | nil => rfl
  | cons entry entries ih =>
      rw [List.map_cons, List.flatten_cons, List.append_assoc, List.singleton_append,
        Text.splitlines_append_newline (plain_entryLine (h entry List.mem_cons_self)),
        ih fun e he => h e (List.mem_cons_of_mem entry he), List.map_cons]

theorem return_notMem_entries {entries : Conf} (h : ∀ entry ∈ entries, Fits entry) :
    '\r' ∉ (entries.map fun entry => entryLine entry ++ ['\n']).flatten := by
  intro hmem
  obtain ⟨line, hline, hreturn⟩ := List.mem_flatten.mp hmem
  obtain ⟨entry, hentry, rfl⟩ := List.mem_map.mp hline
  rcases List.mem_append.mp hreturn with hreturn | hreturn
  · exact absurd (plain_entryLine (h entry hentry) '\r' hreturn) (by decide)
  · exact absurd hreturn (by decide)

/-- Entries that fit are read back from the file that they were written to. -/
theorem readConf_writeConf {data : Conf} (hfits : ∀ entry ∈ data, Fits entry)
    (hnodup : (data.map Prod.fst).Nodup) : Same (readConf (some (writeConf data))) data := by
  let sorted := data.insertionSort fun a b => a.1 ≤ b.1
  have hperm : sorted.Perm data := List.perm_insertionSort _ data
  have hsorted : ∀ entry ∈ sorted, Fits entry := fun entry h => hfits entry (hperm.subset h)
  have hkeys : (sorted.map Prod.fst).Nodup := (hperm.map Prod.fst).nodup_iff.mpr hnodup
  have hread : (sorted.map entryLine).filterMap readLine = sorted := by
    rw [List.filterMap_map]
    refine (List.filterMap_congr fun entry h => ?_).trans List.filterMap_some
    exact readLine_entryLine (hsorted entry h)
  have hconf : readConf (some (writeConf data)) = sorted := by
    rw [readConf, writeConf, Text.universalNewlines_eq_self (return_notMem_entries hsorted),
      splitlines_entries hsorted, hread, Assoc.ofPairs_of_nodup hkeys]
  intro key
  rw [hconf]
  exact Assoc.get_perm hperm hkeys key

theorem Same.put {a b : Conf} (h : Same a b) (key value : List Char) :
    Same (Assoc.put key value a) (Assoc.put key value b) := by
  intro k
  rw [Assoc.get_put, Assoc.get_put, h k]

theorem Same.trans {a b c : Conf} (h : Same a b) (h' : Same b c) : Same a c :=
  fun key => (h key).trans (h' key)

/-- What both ways do to the kernel for one key: read it, and write it where it differs. -/
def settle (K : Kernel σ) (key value : List Char) (s : σ) : Except Error Bool × σ :=
  match currentRuntime K key s with
  | (.error error, s) => (.error error, s)
  | (.ok runtime, s) =>
      match if runtime ≠ none ∧ runtime ≠ some value then apply K key value s else (.ok (), s) with
      | (.error error, s) => (.error error, s)
      | (.ok (), s) => (.ok (decide (runtime ≠ none ∧ runtime ≠ some value)), s)

/-- The entry has to be written to the file. -/
def missing (conf : Conf) (key value : List Char) : Bool := decide (Assoc.get conf key ≠ some value)

theorem missing_congr {a b : Conf} (h : Same a b) (key value : List Char) :
    missing a key value = missing b key value := by
  rw [missing, missing, h key]

theorem fits_put {conf : Conf} {key value : List Char} (hconf : ∀ entry ∈ conf, Fits entry)
    (hfits : Fits (key, value)) : ∀ entry ∈ Assoc.put key value conf, Fits entry := by
  intro entry hentry
  have hput : entry = (key, value) ∨ entry ∈ conf := Assoc.mem_of_mem_put hentry
  rcases hput with rfl | hentry
  · exact hfits
  · exact hconf entry hentry

/-- The variables of the loop and a host that was changed key by key: the same kernel, and
the configuration in memory is the one in the file. -/
structure Agree (p : Progress σ) (h : Host σ) : Prop where
  kernel : p.kernel = h.kernel
  same : Same p.conf (readConf h.conf)
  fits : ∀ entry ∈ p.conf, Fits entry
  nodup : (p.conf.map Prod.fst).Nodup

/-- Settling one more key keeps the agreement. -/
theorem Agree.next {p : Progress σ} {h : Host σ} (hagree : Agree p h) {key value : List Char}
    (hfits : Fits (key, value)) (s : σ) (results : List Result) (confChanged : Bool) :
    Agree
      { kernel := s
        conf := if missing p.conf key value then Assoc.put key value p.conf else p.conf
        results := results
        confChanged := confChanged }
      { kernel := s
        conf := if missing (readConf h.conf) key value then
          some (writeConf (Assoc.put key value (readConf h.conf))) else h.conf } := by
  have hmissing := missing_congr hagree.same key value
  have hfile : ∀ entry ∈ readConf h.conf, Fits entry := fun _ => fits_readConf
  refine ⟨rfl, ?_, ?_, ?_⟩
  · simp only
    rw [hmissing]
    split_ifs
    · have hwritten := readConf_writeConf (fits_put hfile hfits)
        (Assoc.nodup_put (nodup_readConf h.conf))
      exact fun k => (hagree.same.put key value k).trans (hwritten k).symm
    · exact hagree.same
  · simp only
    split_ifs
    · exact fits_put hagree.fits hfits
    · exact hagree.fits
  · simp only
    split_ifs
    · exact Assoc.nodup_put hagree.nodup
    · exact hagree.nodup

end Sysctl

end Rmote
