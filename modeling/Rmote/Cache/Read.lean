import Mathlib.Algebra.Ring.Nat
import Rmote.Cache.Json

/-!
# Reading branches of a document

A document has one branch for each key, and a branch is an entry with its data, its time and its
version. A read of few branches takes the document without models and rebuilds only what it
returns. A read of many decodes the whole text at once, and then a branch that nobody asked for
has a say.
-/

namespace Rmote

namespace Cache

/-! ## Entries -/

/-- One complete value result. -/
structure CacheEntry where
  data : Value
  collectedAt : Value
  version : Value

/-- The nearest double of a natural number, to the even one in the middle. -/
def roundToDouble (n : ℕ) : ℕ :=
  let excess := n.log2 - 52
  let quotient := n / 2 ^ excess
  let rest := 2 * (n % 2 ^ excess)
  if 2 ^ excess < rest ∨ (rest = 2 ^ excess ∧ quotient % 2 = 1) then (quotient + 1) * 2 ^ excess
  else quotient * 2 ^ excess

/-- `float` of an integer, and nothing when it is too large. -/
def toDouble (n : ℤ) : Option ℤ :=
  let rounded := roundToDouble n.natAbs
  if 2 ^ 1024 ≤ rounded then none
  else some (if n < 0 then -(rounded : ℤ) else rounded)

/-- The time is a finite number, and not negative. -/
def checkCollectedAt : Value → Except Failure Unit
  | .int n =>
      if (toDouble n).isNone then .error .overflow
      else if n < 0 then .error (.value "collected_at must be finite and non-negative")
      else .ok ()
  | .float (.finite q) =>
      if q < 0 then .error (.value "collected_at must be finite and non-negative") else .ok ()
  | _ => .error (.value "collected_at must be finite and non-negative")

def checkVersion : Value → Except Failure Unit
  | .int n => if n < 1 then .error (.value "version must be a positive integer") else .ok ()
  | _ => .error (.value "version must be a positive integer")

namespace JSONEntryCodec

def validate (entry : CacheEntry) : Except Failure Unit := do
  checkCollectedAt entry.collectedAt
  checkVersion entry.version

/-- Wrap an entry without a copy of its data. -/
def encode (entry : CacheEntry) : Except Failure (List (String × Value)) := do
  validate entry
  return [("data", entry.data), ("collected_at", entry.collectedAt), ("version", entry.version),
    ("format", .int 1)]

/-- What a failed look into a branch raises. -/
def invalidEntry : Failure := .value "Invalid cache entry"

/-- A lookup that fails and a number that is too large are errors of the entry. -/
def guardEntry {α : Type} : Except Failure α → Except Failure α
  | .error .overflow => .error invalidEntry
  | result => result

def member (items : List (String × Value)) (name : String) : Except Failure Value :=
  match items.lookup name with
  | some v => .ok v
  | none => .error invalidEntry

def checkFormat : Value → Except Failure Unit
  | .int 1 => .ok ()
  | _ => .error (.value "Unknown cache format")

/-- Restore an entry from a parsed branch. -/
def decode : Value → Except Failure CacheEntry
  | .dict items => do
      let data ← member items "data"
      checkFormat (← member items "format")
      let entry := ⟨data, ← member items "collected_at", ← member items "version"⟩
      guardEntry (validate entry)
      return entry
  | _ => .error invalidEntry

end JSONEntryCodec

/-! ## Documents -/

namespace JSONCacheDir

/-- The plain containers of a document; an absent file is an empty one. -/
def parsePlain : Option Json → Except Failure (List (String × Json))
  | none => .ok []
  | some text =>
      match plain text with
      | .obj document => .ok document
      | _ => .error (.value "Invalid cache document")

/-- A document with the stored models. -/
def parseDocument (c : Classes) : Option Json → Except Failure (List (String × Value))
  | none => .ok []
  | some text =>
      match loads c text with
      | .ok (.dict document) => .ok document
      | .ok _ => .error (.value "Invalid cache document")
      | .error failure => .error failure

/-- The keys without repetitions. -/
def fromKeys (keys : List String) : List String :=
  (Assoc.ofPairs (keys.map fun key => (key, ()))).map Prod.fst

/-- The branch under a key, decoded by itself. -/
def decodeBranch (c : Classes) (document : List (String × Json)) (key : String) :
    Except Failure CacheEntry :=
  match document.lookup key with
  | some branch =>
      match revive c branch with
      | .ok v => JSONEntryCodec.decode v
      | .error failure => .error failure
  | none => .error (.other s!"KeyError: {key}")

/-- The entry under a key of a decoded document. -/
def decodeMember (document : List (String × Value)) (key : String) : Except Failure CacheEntry :=
  match document.lookup key with
  | some v => JSONEntryCodec.decode v
  | none => .error (.other s!"KeyError: {key}")

/-- Collect the entries of some keys. -/
def entriesOf (f : String → Except Failure CacheEntry) (keys : List String) :
    Except Failure (List (String × CacheEntry)) :=
  Assoc.traverse f (keys.map fun key => (key, key))

/-- The keys of a read that the document has. -/
def selectedKeys (document : List (String × Json)) (keys : List String) : List String :=
  keys.filter fun key => (document.lookup key).isSome

/-- A read of selected branches. -/
def readSelected (c : Classes) (text : Option Json) (keys : List String) :
    Except Failure (List (String × CacheEntry)) :=
  if keys = [] then .ok []
  else
    match parsePlain text with
    | .error failure => .error failure
    | .ok document =>
        if document.length ≤ (selectedKeys document keys).length * 2 then
          match parseDocument c text with
          | .error failure => .error failure
          | .ok decoded => entriesOf (decodeMember decoded) (selectedKeys document keys)
        else entriesOf (decodeBranch c document) (selectedKeys document keys)

def readEntries (c : Classes) (text : Option Json) :
    Option (List String) → Except Failure (List (String × CacheEntry))
  | none =>
      match parseDocument c text with
      | .error failure => .error failure
      | .ok decoded => Assoc.traverse JSONEntryCodec.decode decoded
  | some keys => readSelected c text (fromKeys keys)

/-- The pairs of the text of a document. -/
def pairsOf : Option Json → List (String × Json)
  | some (.obj pairs) => pairs
  | _ => []

/-- The keys of the document that a read asks for. -/
def requested (document : List (String × Json)) : Option (List String) → List String
  | none => document.map Prod.fst
  | some keys => selectedKeys document (fromKeys keys)

/-- The result has the branches of these keys, each decoded by itself. -/
def Reads (c : Classes) (document : List (String × Json)) (keys : List String)
    (result : List (String × CacheEntry)) : Prop :=
  result.map Prod.fst = keys ∧ ∀ e ∈ result, decodeBranch c document e.1 = .ok e.2

/-- The read does not look at the whole text, or the whole text can be decoded. -/
def Separate (c : Classes) (text : Option Json) (document : List (String × Json))
    (keys : Option (List String)) : Prop :=
  (∃ ks, keys = some ks ∧
    (ks = [] ∨ (selectedKeys document (fromKeys ks)).length * 2 < document.length)) ∨
  ((∃ items, loadsPairs c (pairsOf text) = .ok items) ∧ reserved document = false)

variable {c : Classes} {text : Option Json} {document : List (String × Json)}
  {decoded : List (String × Value)} {keys : List String} {result : List (String × CacheEntry)}

theorem parsePlain_eq_ok : parsePlain text = .ok document ↔
    (text = none ∧ document = []) ∨
      ∃ pairs, text = some (.obj pairs) ∧ document = Assoc.ofPairs (plainPairs pairs) := by
  cases text with
  | none =>
      constructor
      · rintro ⟨⟩
        exact .inl ⟨rfl, rfl⟩
      · rintro (⟨-, rfl⟩ | ⟨pairs, hpairs, -⟩)
        · rfl
        · cases hpairs
  | some text =>
      cases text with
      | obj pairs =>
          constructor
          · rintro ⟨⟩
            exact .inr ⟨pairs, rfl, rfl⟩
          · rintro (⟨hnone, -⟩ | ⟨pairs', hpairs, rfl⟩)
            · cases hnone
            · cases hpairs
              rfl
      | _ =>
          constructor
          · rintro ⟨⟩
          · rintro (⟨hnone, -⟩ | ⟨pairs, hpairs, -⟩)
            · cases hnone
            · cases hpairs

/-- The whole text is a document when its pairs can be decoded and no record is made of them. -/
theorem parseDocument_eq_ok {pairs : List (String × Json)} :
    parseDocument c (some (.obj pairs)) = .ok decoded ↔
      ∃ items, loadsPairs c pairs = .ok items ∧ reserved (Assoc.ofPairs items) = false ∧
        Assoc.ofPairs items = decoded := by
  rw [parseDocument, loads]
  cases hpairs : loadsPairs c pairs with
  | error failure => simp
  | ok items =>
      dsimp only
      constructor
      · intro hdecoded
        split at hdecoded
        · rename_i hhook
          cases hdecoded
          exact ⟨items, rfl, jsonObjectHook_eq_dict.mp hhook⟩
        · cases hdecoded
        · cases hdecoded
      · rintro ⟨items', hitems, hhook⟩
        cases hitems
        rw [jsonObjectHook_eq_dict.mpr hhook]

/-- When the whole text can be decoded. -/
theorem parseDocument_ok_iff (hdocument : parsePlain text = .ok document) :
    (∃ decoded, parseDocument c text = .ok decoded) ↔
      (∃ items, loadsPairs c (pairsOf text) = .ok items) ∧ reserved document = false := by
  rcases parsePlain_eq_ok.mp hdocument with ⟨rfl, rfl⟩ | ⟨pairs, rfl, rfl⟩
  · exact ⟨fun _ => ⟨⟨[], rfl⟩, rfl⟩, fun _ => ⟨[], rfl⟩⟩
  · have hnames : ∀ {items}, loadsPairs c pairs = .ok items →
        reserved (Assoc.ofPairs (plainPairs pairs)) = reserved (Assoc.ofPairs items) :=
      fun hpairs => hasNames_of_related (revive_plainPairs hpairs).ofPairs _ _
    constructor
    · rintro ⟨decoded, hdecoded⟩
      obtain ⟨items, hpairs, hreserved, -⟩ := parseDocument_eq_ok.mp hdecoded
      exact ⟨⟨items, hpairs⟩, (hnames hpairs).trans hreserved⟩
    · rintro ⟨⟨items, hpairs⟩, hreserved⟩
      exact ⟨_, parseDocument_eq_ok.mpr ⟨items, hpairs, (hnames hpairs).symm.trans hreserved, rfl⟩⟩

/-- The whole text decodes to what its branches decode to. -/
theorem related_of_parseDocument (hdocument : parsePlain text = .ok document)
    (hdecoded : parseDocument c text = .ok decoded) :
    Assoc.Related (fun a v => revive c a = .ok v) document decoded := by
  rcases parsePlain_eq_ok.mp hdocument with ⟨rfl, rfl⟩ | ⟨pairs, rfl, rfl⟩
  · cases hdecoded
    exact .nil
  · obtain ⟨items, hpairs, -, rfl⟩ := parseDocument_eq_ok.mp hdecoded
    exact (revive_plainPairs hpairs).ofPairs

theorem decodeMember_of_lookup {key : String} {v : Value} (h : decoded.lookup key = some v) :
    decodeMember decoded key = JSONEntryCodec.decode v := by
  unfold decodeMember
  rw [h]

/-- A branch of the decoded document is the branch by itself. -/
theorem decodeMember_eq (h : Assoc.Related (fun a v => revive c a = .ok v) document decoded)
    {key : String} (hkey : (document.lookup key).isSome = true) :
    decodeMember decoded key = decodeBranch c document key := by
  obtain ⟨branch, hbranch⟩ := Option.isSome_iff_exists.mp hkey
  obtain ⟨v, hv, hrevive⟩ := h.lookup hbranch
  rw [decodeMember_of_lookup hv]
  unfold decodeBranch
  rw [hbranch]
  dsimp only
  rw [hrevive]

theorem nodup_document (hdocument : parsePlain text = .ok document) :
    (document.map Prod.fst).Nodup := by
  rcases parsePlain_eq_ok.mp hdocument with ⟨rfl, rfl⟩ | ⟨pairs, rfl, rfl⟩
  · exact List.nodup_nil
  · exact Assoc.nodup_ofPairs _

/-- What the collected entries are. -/
theorem entriesOf_eq_ok : entriesOf (decodeBranch c document) keys = .ok result ↔
    Reads c document keys result := by
  rw [entriesOf, Assoc.traverse_eq_ok, Assoc.Related, List.forall₂_map_left_iff]
  constructor
  · intro h
    induction h with
    | nil => exact ⟨rfl, nofun⟩
    | @cons key e keys result hhead _ ih =>
        refine ⟨by rw [List.map_cons, ih.1, ← hhead.1], fun e' he' => ?_⟩
        rcases List.mem_cons.mp he' with rfl | he'
        · rw [← hhead.1]
          exact hhead.2
        · exact ih.2 e' he'
  · rintro ⟨hkeys, hentries⟩
    induction result generalizing keys with
    | nil =>
        rw [← hkeys]
        exact .nil
    | cons e result ih =>
        rw [← hkeys]
        exact .cons ⟨rfl, hentries e List.mem_cons_self⟩
          (ih rfl fun e' he' => hentries e' (List.mem_cons_of_mem e he'))

theorem mem_fromKeys {keys : List String} {key : String} : key ∈ fromKeys keys ↔ key ∈ keys := by
  rw [fromKeys, Assoc.mem_keys_ofPairs, List.map_map]
  simp

/-- The keys of a read are there when something is asked for. -/
theorem fromKeys_eq_nil {ks : List String} : fromKeys ks = [] ↔ ks = [] := by
  constructor
  · intro h
    cases ks with
    | nil => rfl
    | cons key ks =>
        have hmem : key ∈ fromKeys (key :: ks) :=
          Assoc.mem_keys_ofPairs.mpr (List.mem_map.mpr ⟨(key, ()), by simp, rfl⟩)
        rw [h] at hmem
        cases hmem
  · rintro rfl
    rfl

/-- A read of selected keys, path by path. -/
theorem readSelected_eq (hdocument : parsePlain text = .ok document) (keys : List String) :
    readSelected c text keys =
      if keys = [] ∨ (selectedKeys document keys).length * 2 < document.length then
        entriesOf (decodeBranch c document) (selectedKeys document keys)
      else
        match parseDocument c text with
        | .error failure => .error failure
        | .ok _ => entriesOf (decodeBranch c document) (selectedKeys document keys) := by
  unfold readSelected
  rw [hdocument]
  by_cases hkeys : keys = []
  · subst hkeys
    rfl
  · rw [if_neg hkeys]
    by_cases hfew : (selectedKeys document keys).length * 2 < document.length
    · rw [if_pos (.inr hfew)]
      dsimp only
      rw [if_neg (Nat.not_le.mpr hfew)]
    · rw [if_neg (not_or.mpr ⟨hkeys, hfew⟩)]
      dsimp only
      rw [if_pos (Nat.not_lt.mp hfew)]
      cases hdecoded : parseDocument c text with
      | error failure => rfl
      | ok decoded =>
          refine Assoc.traverse_congr fun e he => ?_
          obtain ⟨key, hkey, rfl⟩ := List.mem_map.mp he
          exact decodeMember_eq (related_of_parseDocument hdocument hdecoded)
            (List.mem_filter.mp hkey).2

/-- A read of everything. -/
theorem readAll_eq (hdocument : parsePlain text = .ok document) :
    readEntries c text none =
      match parseDocument c text with
      | .error failure => .error failure
      | .ok _ => entriesOf (decodeBranch c document) (document.map Prod.fst) := by
  rw [readEntries]
  cases hdecoded : parseDocument c text with
  | error failure => rfl
  | ok decoded =>
      have hrelated := related_of_parseDocument hdocument hdecoded
      have hnodup := nodup_document hdocument
      rw [hrelated.keys] at hnodup ⊢
      have hall : Assoc.traverse JSONEntryCodec.decode decoded =
          Assoc.traverse (decodeMember decoded) (decoded.map fun e => (e.1, e.1)) := by
        have hmembers : ∀ items : List (String × Value), (∀ e ∈ items, e ∈ decoded) →
            Assoc.traverse JSONEntryCodec.decode items =
              Assoc.traverse (decodeMember decoded) (items.map fun e => (e.1, e.1)) := by
          intro items hitems
          induction items with
          | nil => rfl
          | cons e items ih =>
              have hlookup := Assoc.lookup_of_mem hnodup (hitems e List.mem_cons_self)
              rw [List.map_cons, Assoc.traverse_cons, Assoc.traverse_cons,
                decodeMember_of_lookup hlookup,
                ih fun e' he' => hitems e' (List.mem_cons_of_mem e he')]
        exact hmembers decoded fun _ he => he
      dsimp only
      rw [hall, entriesOf, List.map_map]
      refine Assoc.traverse_congr fun e he => ?_
      obtain ⟨e', he', rfl⟩ := List.mem_map.mp he
      refine decodeMember_eq hrelated (Assoc.lookup_isSome.mpr ?_)
      rw [hrelated.keys]
      exact List.mem_map_of_mem he'

/-- Where each requested branch decodes by itself, a read returns exactly these entries if and
only if it asks for fewer than half of the branches or the whole text can be decoded. -/
theorem read_separate_iff (c : Classes) (text : Option Json) (document : List (String × Json))
    (hdocument : parsePlain text = .ok document) (keys : Option (List String))
    (halone : ∀ key ∈ requested document keys, ∃ e, decodeBranch c document key = .ok e) :
    (∃ result, readEntries c text keys = .ok result ∧
      Reads c document (requested document keys) result) ↔ Separate c text document keys := by
  obtain ⟨alone, hread⟩ : ∃ alone,
      entriesOf (decodeBranch c document) (requested document keys) = .ok alone := by
    revert halone
    generalize requested document keys = ks
    intro halone
    induction ks with
    | nil => exact ⟨[], rfl⟩
    | cons key ks ih =>
        obtain ⟨e, he⟩ := halone key List.mem_cons_self
        obtain ⟨rest, hrest⟩ := ih fun k hk => halone k (List.mem_cons_of_mem key hk)
        refine ⟨(key, e) :: rest, ?_⟩
        rw [entriesOf] at hrest ⊢
        rw [List.map_cons, Assoc.traverse_cons, he, hrest]
        rfl
  have hwhole := parseDocument_ok_iff (c := c) hdocument
  have hresult : ∀ result, entriesOf (decodeBranch c document) (requested document keys) =
      .ok result → Reads c document (requested document keys) result :=
    fun result h => entriesOf_eq_ok.mp h
  cases keys with
  | none =>
      rw [Separate, ← hwhole]
      rw [requested] at hread hresult ⊢
      rw [readAll_eq hdocument]
      constructor
      · rintro ⟨result, hok, -⟩
        split at hok
        · cases hok
        · exact .inr ⟨_, by assumption⟩
      · rintro (⟨ks, hks, -⟩ | ⟨decoded, hdecoded⟩)
        · cases hks
        · rw [hdecoded]
          exact ⟨alone, hread, hresult alone hread⟩
  | some ks =>
      rw [Separate, ← hwhole]
      rw [requested] at hread hresult ⊢
      rw [readEntries, readSelected_eq hdocument]
      simp only [fromKeys_eq_nil, Option.some.injEq, exists_eq_left']
      split_ifs with hfew
      · exact ⟨fun _ => .inl hfew, fun _ => ⟨alone, hread, hresult alone hread⟩⟩
      · constructor
        · rintro ⟨result, hok, -⟩
          split at hok
          · cases hok
          · exact .inr ⟨_, by assumption⟩
        · rintro (hfew' | ⟨decoded, hdecoded⟩)
          · exact absurd hfew' hfew
          · rw [hdecoded]
            exact ⟨alone, hread, hresult alone hread⟩

/-- A branch with an entry. -/
def branch (data : Json) : Json :=
  .obj [("data", data), ("collected_at", .float (.finite 1)), ("version", .int 1), ("format", .int 1)]

/-- A branch whose data has a tag that nothing decodes. -/
def unknown : Json := branch (.obj [("_type", .str "unknown"), ("_value", .int 1)])

/-- Every class keeps the fields it gets. -/
def anyClass : Classes := ⟨fun _ fields => .ok fields, fun _ => true⟩

/-- A read of one good branch of three is alone with it. -/
theorem good_of_three_read :
    ∃ result, readEntries anyClass (some (.obj [("good", branch (.int 7)), ("bad", unknown),
        ("other", branch .null)])) (some ["good"]) = .ok result ∧
      Reads anyClass [("good", branch (.int 7)), ("bad", unknown), ("other", branch .null)] ["good"]
        result :=
  (read_separate_iff anyClass (some (.obj [("good", branch (.int 7)), ("bad", unknown),
    ("other", branch .null)])) [("good", branch (.int 7)), ("bad", unknown), ("other", branch .null)]
    rfl (some ["good"]) (by
      intro key hkey
      have hgood : key ∈ ["good"] := hkey
      rw [List.mem_singleton] at hgood
      subst hgood
      exact ⟨⟨.int 7, .float (.finite 1), .int 1⟩, rfl⟩)).mpr
    (.inl ⟨["good"], rfl, .inr (show 1 * 2 < 3 by decide)⟩)

/-- The bad branch of two makes the read of the good one fail, and the good one decodes. -/
theorem good_of_two_fails :
    decodeBranch anyClass [("good", branch (.int 7)), ("bad", unknown)] "good" =
      .ok ⟨.int 7, .float (.finite 1), .int 1⟩ ∧
    requested [("good", branch (.int 7)), ("bad", unknown)] (some ["good"]) = ["good"] ∧
    readEntries anyClass (some (.obj [("good", branch (.int 7)), ("bad", unknown)])) (some ["good"]) =
      .error (.value "Unknown or invalid tagged JSON value") :=
  ⟨rfl, rfl, rfl⟩

end JSONCacheDir

end Cache

end Rmote
