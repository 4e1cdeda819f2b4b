import Rmote.Cache.Payload

/-!
# One document for each namespace

`JSONCacheDir` keeps a document in a file of its own for each namespace. A write reads the document
without models, merges the batch into it key by key and writes it again when something changed.
The file of a namespace mirrors the store when it has the text of an entry under the same keys.
-/

namespace Rmote

namespace Cache

open JSONEntryCodec

namespace JSONCacheDir

/-! ## File names -/

/-- The characters that a file name keeps. -/
def safeChars : List Char :=
  "ABCDEFGHIJKLMNOPQRSTUVWXYZabcdefghijklmnopqrstuvwxyz0123456789_.-~@[]:".toList

def hexDigit (n : ℕ) : Char := "0123456789ABCDEF".toList.getD n '0'

def quoteByte (b : UInt8) : List Char :=
  if Char.ofNat b.toNat ∈ safeChars then [Char.ofNat b.toNat]
  else ['%', hexDigit (b.toNat / 16), hexDigit (b.toNat % 16)]

/-- `urllib.parse.quote`, byte by byte of the text in UTF-8. -/
def quote (s : String) : String := String.ofList (s.toByteArray.data.toList.flatMap quoteByte)

def fileName (ns : String) : String := quote ns ++ ".json"

theorem charOfNat_injective : ∀ m < 256, ∀ n < 256, Char.ofNat m = Char.ofNat n → m = n := by
  intro m hm n hn h
  have hval : ∀ k < 256, (Char.ofNat k).toNat = k := by decide +kernel
  rw [← hval m hm, ← hval n hn, h]

theorem safeChars_eq : safeChars = [
    'A', 'B', 'C', 'D', 'E', 'F', 'G', 'H', 'I', 'J', 'K', 'L', 'M', 'N', 'O', 'P', 'Q', 'R', 'S', 'T',
    'U', 'V', 'W', 'X', 'Y', 'Z', 'a', 'b', 'c', 'd', 'e', 'f', 'g', 'h', 'i', 'j', 'k', 'l', 'm', 'n',
    'o', 'p', 'q', 'r', 's', 't', 'u', 'v', 'w', 'x', 'y', 'z', '0', '1', '2', '3', '4', '5', '6', '7',
    '8', '9', '_', '.', '-', '~', '@', '[', ']', ':'] := String.toList_ofList

theorem hexDigit_eq (n : ℕ) : hexDigit n =
    ['0', '1', '2', '3', '4', '5', '6', '7', '8', '9', 'A', 'B', 'C', 'D', 'E', 'F'].getD n '0' :=
  congrArg (fun digits : List Char => digits.getD n '0') String.toList_ofList

theorem hexDigit_injective : ∀ m < 16, ∀ n < 16, hexDigit m = hexDigit n → m = n := by
  simp only [hexDigit_eq]
  decide +kernel

/-- The first byte can be told from the text. -/
theorem quoteByte_append {a b : UInt8} {xs ys : List Char}
    (h : quoteByte a ++ xs = quoteByte b ++ ys) : a = b ∧ xs = ys := by
  have hpercent : '%' ∉ safeChars := by
    rw [safeChars_eq]
    decide
  have ha := a.toNat_lt
  have hb := b.toNat_lt
  unfold quoteByte at h
  split_ifs at h with hsa hsb hsb
  · obtain ⟨hchar, hrest⟩ := List.cons.inj h
    exact ⟨UInt8.toNat_inj.mp (charOfNat_injective _ ha _ hb hchar), hrest⟩
  · obtain ⟨hchar, -⟩ := List.cons.inj h
    exact absurd (hchar ▸ hsa) hpercent
  · obtain ⟨hchar, -⟩ := List.cons.inj h
    exact absurd (hchar ▸ hsb) hpercent
  · obtain ⟨-, h⟩ := List.cons.inj h
    obtain ⟨hhigh, h⟩ := List.cons.inj h
    obtain ⟨hlow, hrest⟩ := List.cons.inj h
    have hhigh := hexDigit_injective _ (by omega) _ (by omega) hhigh
    have hlow := hexDigit_injective _ (by omega) _ (by omega) hlow
    exact ⟨UInt8.toNat_inj.mp (by omega), hrest⟩

theorem flatMap_quoteByte_injective : ∀ {xs ys : List UInt8},
    xs.flatMap quoteByte = ys.flatMap quoteByte → xs = ys
  | [], [], _ => rfl
  | [], b :: ys, h | b :: ys, [], h => by
      rw [List.flatMap_cons, List.flatMap_nil] at h
      have hne : quoteByte b ≠ [] := by
        unfold quoteByte
        split_ifs <;> exact List.cons_ne_nil _ _
      simp_all
  | a :: xs, b :: ys, h => by
      rw [List.flatMap_cons, List.flatMap_cons] at h
      obtain ⟨rfl, hrest⟩ := quoteByte_append h
      rw [flatMap_quoteByte_injective hrest]

/-- Two namespaces never share a file. -/
theorem fileName_injective {ns ns' : String} (h : fileName ns = fileName ns') : ns = ns' := by
  have hquote := (String.append_left_inj ".json").mp h
  have hbytes := flatMap_quoteByte_injective (String.ofList_injective hquote)
  exact String.toByteArray_inj.mp (ByteArray.ext (Array.toList_inj.mp hbytes))

/-! ## Writes -/

def encodeEntry : Option CacheEntry → Except Failure (Option (List (String × Value)))
  | some entry => (encode entry).map some
  | none => .ok none

/-- A stored time is above the one of a new value. -/
def isAbove (time : ℚ) (collectedAt : Value) : Except Failure Bool :=
  match number collectedAt with
  | some t => .ok (t < time)
  | none => .error (.type "'>' not supported between these instances")

/-- One key of a batch, and whether the document changed. -/
def mergeKey (document : List (String × Value)) (key : String) :
    Option (List (String × Value)) → Except Failure (List (String × Value) × Bool)
  | none =>
      if (document.lookup key).isSome then .ok (Assoc.del key document, true)
      else .ok (document, false)
  | some value =>
      match document.lookup key with
      | none => .ok (Assoc.put key (.dict value) document, true)
      | some stored => do
          let time ← storedAt stored
          if ← isAbove time (← member value "collected_at") then return (document, false)
          return (Assoc.put key (.dict value) document, true)

def mergeAll : List (String × Value) → Bool → List (String × Option (List (String × Value))) →
    Except Failure (List (String × Value) × Bool)
  | document, changed, [] => .ok (document, changed)
  | document, changed, (key, value) :: encoded =>
      match mergeKey document key value with
      | .ok (document, changed') => mergeAll document (changed || changed') encoded
      | .error failure => .error failure

/-- The text of a document after a batch. -/
def writeEntries (c : Classes) (text : Option Json) (entries : List (String × Option CacheEntry)) :
    Except Failure (Option Json) :=
  match Assoc.traverse encodeEntry entries with
  | .error failure => .error failure
  | .ok encoded =>
      if encoded.isEmpty then .ok text
      else
        match parsePlain text with
        | .error failure => .error failure
        | .ok document =>
            match mergeAll (asDict document) false encoded with
            | .error failure => .error failure
            | .ok (document, changed) =>
                if changed then (Cache.dumps c (.dict document)).map some else .ok text

/-- Replace the document of a namespace. -/
def update (c : Classes) (files : List (String × Json)) (ns : String)
    (entries : List (String × Option CacheEntry)) : Except Failure (List (String × Json)) :=
  match writeEntries c (files.lookup (fileName ns)) entries with
  | .error failure => .error failure
  | .ok (some text) => .ok (Assoc.put (fileName ns) text files)
  | .ok none => .ok files

/-- The files of a directory, by name. -/
def backend (c : Classes) : CacheBackend (List (String × Json)) where
  readEntries files ns keys := readEntries c (files.lookup (fileName ns)) keys
  writeEntries files ns entries := update c files ns (entries.map fun e => (e.1, some e.2))
  deleteEntry files ns key := update c files ns [(key, none)]

/-! ## The file mirrors the store -/

/-- The same keys, with the text of the entries. -/
structure Mirrors (c : Classes) (pairs : List (String × Json))
    (entries : String → Option CacheEntry) : Prop where
  nodup : (pairs.map Prod.fst).Nodup
  stored : ∀ key, Option.Rel (Stored c) (entries key) (pairs.lookup key)

/-- An absent file, or a document that mirrors the entries. -/
def Holds (c : Classes) (text : Option Json) (entries : String → Option CacheEntry) : Prop :=
  Mirrors c (pairsOf text) entries ∧ (text = none ∨ ∃ pairs, text = some (.obj pairs))

def Represents (c : Classes) (files : List (String × Json)) (store : Store) : Prop :=
  ∀ ns, Holds c (files.lookup (fileName ns)) (store ns)

/-- A branch of the document while a batch is merged: the merge reads its time, and it is written
as a text of its entry. -/
structure Fresh (c : Classes) (entry : CacheEntry) (v : Value) : Prop where
  time : storedAt v = .ok entry.time
  text : ∃ a, Cache.dumps c v = .ok a ∧ Stored c entry a

structure Merged (c : Classes) (document : List (String × Value))
    (entries : String → Option CacheEntry) : Prop where
  nodup : (document.map Prod.fst).Nodup
  fresh : ∀ key, Option.Rel (Fresh c) (entries key) (document.lookup key)

variable {c : Classes} {document : List (String × Value)} {pairs : List (String × Json)}
  {entries : String → Option CacheEntry} {text : Option Json}

/-- What a batch may write. -/
def Writable (c : Classes) (entry : CacheEntry) : Prop :=
  entry.valid = true ∧ Exact entry ∧ Survives c entry

theorem Writable.fresh {entry : CacheEntry} (h : Writable c entry) :
    Fresh c entry (.dict (fieldsOf entry)) :=
  ⟨storedAt_fieldsOf h.1 h.2.1 entry.data, Stored.of_survives h.1 h.2.1 h.2.2⟩

theorem isAbove_of_valid {entry : CacheEntry} (h : entry.valid = true) (time : ℚ) :
    isAbove time entry.collectedAt = .ok (decide (entry.time < time)) := by
  obtain ⟨m, -, -, ⟨n, hn, -⟩ | ⟨q, hq, -⟩⟩ := valid_cases h
  · rw [isAbove, CacheEntry.time, hn, number, Option.getD_some]
  · rw [isAbove, CacheEntry.time, hq, number, Option.getD_some]

/-- A branch replaces what is under a key. -/
theorem Merged.put {entry : CacheEntry} {v : Value} {key : String} (h : Merged c document entries)
    (hv : Fresh c entry v) :
    Merged c (Assoc.put key v document) (Function.update entries key (some entry)) := by
  refine ⟨Assoc.nodup_put h.nodup, fun key' => ?_⟩
  rw [Assoc.lookup_put, Function.update_apply]
  split_ifs with hkey
  · exact .some hv
  · exact h.fresh key'

/-- One key. -/
theorem mergeKey_spec (h : Merged c document entries) (key : String) (new : Option CacheEntry)
    (hnew : ∀ entry, new = some entry → Writable c entry) :
    ∃ document' changed, mergeKey document key (new.map fieldsOf) = .ok (document', changed) ∧
      Merged c document' (Function.update entries key
        (new.bind fun new => Store.newest new (entries key))) ∧
      (changed = false →
        Function.update entries key (new.bind fun new => Store.newest new (entries key)) = entries) := by
  have hfresh := h.fresh key
  cases new with
  | none =>
      rw [Option.map_none, mergeKey, Option.bind_none]
      generalize hold : entries key = old at hfresh
      generalize hlookup : document.lookup key = found at hfresh
      cases hfresh with
      | some _ =>
          refine ⟨Assoc.del key document, true, rfl, ⟨Assoc.nodup_del h.nodup, fun key' => ?_⟩, nofun⟩
          rw [Assoc.lookup_del, Function.update_apply]
          split_ifs
          · exact .none
          · exact h.fresh key'
      | none =>
          have hsame : Function.update entries key none = entries := by
            rw [← hold, Function.update_eq_self]
          refine ⟨document, false, rfl, ?_, fun _ => hsame⟩
          rw [hsame]
          exact h
  | some new =>
      have hwritable := hnew new rfl
      rw [Option.map_some, mergeKey, Option.bind_some]
      generalize hold : entries key = old at hfresh
      generalize hlookup : document.lookup key = found at hfresh
      cases hfresh with
      | none => exact ⟨_, true, rfl, h.put hwritable.fresh, nofun⟩
      | @some old v hv =>
          have hmember : member (fieldsOf new) "collected_at" = .ok new.collectedAt := rfl
          have habove := isAbove_of_valid hwritable.1 old.time
          rw [Store.newest]
          by_cases hle : old.time ≤ new.time
          · refine ⟨Assoc.put key (.dict (fieldsOf new)) document, true, ?_, ?_, nofun⟩
            · simp only [hv.time, hmember, habove, bind, Except.bind, decide_eq_true_eq, if_neg (not_lt.mpr hle)]
              rfl
            · rw [if_pos hle]
              exact h.put hwritable.fresh
          · have hsame : Function.update entries key (some old) = entries := by
              rw [← hold, Function.update_eq_self]
            rw [if_neg hle, hsame]
            refine ⟨document, false, ?_, h, fun _ => rfl⟩
            simp only [hv.time, hmember, habove, bind, Except.bind, decide_eq_true_eq, if_pos (not_le.mp hle)]
            rfl

/-- A batch, key by key. -/
theorem mergeAll_spec (changes : List (String × Option CacheEntry))
    (hchanges : ∀ e ∈ changes, ∀ entry, e.2 = some entry → Writable c entry)
    (h : Merged c document entries) (changed : Bool) :
    ∃ document' changed',
      mergeAll document changed (changes.map fun e => (e.1, e.2.map fieldsOf)) =
        .ok (document', changed') ∧
      Merged c document' (reviseAll entries changes) ∧
      (changed' = false → changed = false ∧ reviseAll entries changes = entries) := by
  induction changes generalizing document entries changed with
  | nil => exact ⟨document, changed, rfl, h, fun hchanged => ⟨hchanged, rfl⟩⟩
  | cons e changes ih =>
      obtain ⟨document₁, changed₁, hmerge, hmerged, hsame⟩ :=
        mergeKey_spec h e.1 e.2 (hchanges e List.mem_cons_self)
      obtain ⟨document₂, changed₂, hrest, hmerged₂, hsame₂⟩ :=
        ih (fun e' he' => hchanges e' (List.mem_cons_of_mem e he')) hmerged (changed || changed₁)
      refine ⟨document₂, changed₂, ?_, hmerged₂, ?_⟩
      · rw [List.map_cons, mergeAll, hmerge]
        exact hrest
      · intro hchanged
        obtain ⟨hbefore, hrevised⟩ := hsame₂ hchanged
        rw [Bool.or_eq_false_iff] at hbefore
        rw [reviseAll, hrevised]
        exact ⟨hbefore.1, hsame hbefore.2⟩

theorem plainPairs_eq_map (pairs : List (String × Json)) :
    plainPairs pairs = pairs.map fun e => (e.1, plain e.2) := by
  induction pairs with
  | nil => rfl
  | cons e pairs ih => rw [plainPairs, ih, List.map_cons]

theorem asDict_eq_map (items : List (String × Json)) :
    asDict items = items.map fun e => (e.1, asValue e.2) := by
  induction items with
  | nil => rfl
  | cons e items ih => rw [asDict, ih, List.map_cons]

/-- The document without models, of a file that mirrors entries. -/
theorem Holds.parsePlain (h : Holds c text entries) :
    parsePlain text = .ok (plainPairs (pairsOf text)) := by
  have hnodup : ((plainPairs (pairsOf text)).map Prod.fst).Nodup := by
    rw [plainPairs_eq_map, List.map_map]
    exact h.1.nodup
  rcases h.2 with rfl | ⟨pairs, rfl⟩
  · rfl
  · rw [pairsOf] at hnodup ⊢
    rw [JSONCacheDir.parsePlain, plain, Assoc.ofPairs_of_nodup hnodup]

/-- The document at the start of a merge. -/
theorem Mirrors.merged (h : Mirrors c pairs entries) :
    Merged c (asDict (plainPairs pairs)) entries := by
  rw [asDict_eq_map, plainPairs_eq_map]
  refine ⟨by rw [List.map_map, List.map_map]; exact h.nodup, fun key => ?_⟩
  rw [Assoc.lookup_map, Assoc.lookup_map]
  have hstored := h.stored key
  generalize entries key = old at hstored ⊢
  generalize pairs.lookup key = found at hstored ⊢
  cases hstored with
  | none => exact .none
  | some hstored => exact .some ⟨hstored.plain.1, hstored.plain.2⟩

/-- The document at the end of a merge. -/
theorem Merged.dumps (h : Merged c document entries) :
    ∃ pairs, Cache.dumps c (.dict document) = .ok (.obj pairs) ∧ Mirrors c pairs entries := by
  have htraverse : ∃ pairs, Assoc.traverse (Cache.dumps c) document = .ok pairs :=
    Assoc.traverse_ok fun e he => by
      have hlookup := Assoc.lookup_of_mem h.nodup he
      have hfresh := h.fresh e.1
      rw [hlookup] at hfresh
      generalize entries e.1 = old at hfresh
      cases hfresh with
      | some hfresh =>
          obtain ⟨a, ha, -⟩ := hfresh.text
          exact ⟨a, ha⟩
  obtain ⟨pairs, hpairs⟩ := htraverse
  have hrelated := Assoc.traverse_eq_ok.mp hpairs
  refine ⟨pairs, by rw [Cache.dumps, dumpsDict_eq_traverse, hpairs]; rfl,
    by rw [← hrelated.keys]; exact h.nodup, fun key => ?_⟩
  have hfresh := h.fresh key
  have hwritten := hrelated.rel key
  generalize entries key = old at hfresh ⊢
  generalize document.lookup key = found at hfresh hwritten
  generalize pairs.lookup key = written at hwritten ⊢
  cases hfresh with
  | none =>
      cases hwritten
      exact .none
  | some hfresh =>
      cases hwritten with
      | some hdumps =>
          obtain ⟨a, ha, hstored⟩ := hfresh.text
          cases hdumps.symm.trans ha
          exact .some hstored

/-- A batch of writable entries and deletions. -/
theorem writeEntries_spec (changes : List (String × Option CacheEntry))
    (hchanges : ∀ e ∈ changes, ∀ entry, e.2 = some entry → Writable c entry)
    (h : Holds c text entries) :
    ∃ text', writeEntries c text changes = .ok text' ∧ Holds c text' (reviseAll entries changes) ∧
      (text' = none → text = none) := by
  have hencoded : Assoc.traverse encodeEntry changes =
      .ok (changes.map fun e => (e.1, e.2.map fieldsOf)) := by
    rw [Assoc.traverse_eq_ok, Assoc.Related, List.forall₂_map_right_iff, List.forall₂_same]
    intro e he
    refine ⟨rfl, ?_⟩
    cases hentry : e.2 with
    | none => rfl
    | some entry =>
        have hwritable := hchanges e he entry hentry
        rw [encodeEntry, encode_of_valid hwritable.1 hwritable.2.1]
        rfl
  rw [writeEntries, hencoded]
  cases changes with
  | nil => exact ⟨text, rfl, h, id⟩
  | cons e changes =>
      obtain ⟨document, changed, hmerge, hmerged, hsame⟩ :=
        mergeAll_spec (e :: changes) hchanges h.1.merged false
      dsimp only
      rw [h.parsePlain, if_neg (by simp)]
      dsimp only
      rw [hmerge]
      dsimp only
      cases changed with
      | false =>
          rw [(hsame rfl).2]
          exact ⟨text, rfl, h, id⟩
      | true =>
          obtain ⟨pairs, hpairs, hmirrors⟩ := hmerged.dumps
          rw [if_pos rfl, hpairs]
          exact ⟨some (.obj pairs), rfl, ⟨hmirrors, .inr ⟨pairs, rfl⟩⟩, by simp⟩

/-- The files after a batch. -/
theorem update_spec {files : List (String × Json)} {store : Store} (ns : String)
    (changes : List (String × Option CacheEntry))
    (hchanges : ∀ e ∈ changes, ∀ entry, e.2 = some entry → Writable c entry)
    (h : Represents c files store) :
    ∃ files', update c files ns changes = .ok files' ∧
      Represents c files' (store.modify ns (reviseAll (store ns) changes)) := by
  obtain ⟨text, htext, hholds, habsent⟩ := writeEntries_spec changes hchanges (h ns)
  rw [update, htext]
  cases text with
  | none =>
      refine ⟨files, rfl, fun ns' => ?_⟩
      rw [Store.modify]
      split_ifs with hns
      · rw [hns, habsent rfl]
        exact hholds
      · exact h ns'
  | some text =>
      refine ⟨Assoc.put (fileName ns) text files, rfl, fun ns' => ?_⟩
      rw [Store.modify, Assoc.lookup_put]
      by_cases hns : ns' = ns
      · rw [if_pos hns, if_pos (congrArg fileName hns)]
        exact hholds
      · rw [if_neg hns, if_neg fun hname => hns (fileName_injective hname)]
        exact h ns'

theorem refuse_batch {batch : Batch} (h : ¬ batch.valid = true) (text : Option Json) :
    ∃ failure, writeEntries c text (batch.entries.map fun e => (e.1, some e.2)) =
      .error failure := by
  cases hencoded : Assoc.traverse encodeEntry (batch.entries.map fun e => (e.1, some e.2)) with
  | error failure => exact ⟨failure, by rw [writeEntries, hencoded]⟩
  | ok encoded =>
      refine absurd (List.all_eq_true.mpr fun e he => ?_) h
      obtain ⟨value, hvalue⟩ := Assoc.traverse_mem hencoded (List.mem_map_of_mem he)
      cases hentry : encode e.2 with
      | error failure =>
          rw [encodeEntry, hentry] at hvalue
          cases hvalue
      | ok items => exact valid_of_encode hentry

/-! ## Reads -/

/-- The branch of a stored entry decodes by itself. -/
theorem Mirrors.decodeBranch_eq (h : Mirrors c pairs entries) {key : String} {entry : CacheEntry}
    (hentry : entries key = some entry) :
    decodeBranch c (plainPairs pairs) key = .ok entry := by
  have hstored := h.stored key
  rw [hentry] at hstored
  generalize hfound : pairs.lookup key = found at hstored
  cases hstored with
  | some hstored =>
      rw [decodeBranch, plainPairs_eq_map, Assoc.lookup_map, hfound, Option.map_some]
      dsimp only
      rw [revive_plain hstored.loads]
      exact hstored.decode

theorem Mirrors.isSome_lookup (h : Mirrors c pairs entries) (key : String) :
    ((plainPairs pairs).lookup key).isSome = (entries key).isSome := by
  have hstored := h.stored key
  rw [plainPairs_eq_map, Assoc.lookup_map, Option.isSome_map]
  generalize entries key = old at hstored ⊢
  generalize pairs.lookup key = found at hstored ⊢
  cases hstored <;> rfl

/-- Every branch of the text decodes. -/
theorem Mirrors.loadsPairs_eq (h : Mirrors c pairs entries) :
    ∃ items, loadsPairs c pairs = .ok items := by
  rw [loadsPairs_eq_traverse]
  refine Assoc.traverse_ok fun e he => ?_
  have hstored := h.stored e.1
  rw [Assoc.lookup_of_mem h.nodup he] at hstored
  generalize entries e.1 = old at hstored
  cases hstored with
  | some hstored => exact ⟨_, hstored.loads⟩

/-- A document with the reserved names has them in the store. -/
theorem Mirrors.reservedNames (h : Mirrors c pairs entries)
    (hreserved : reserved (plainPairs pairs) = true) : ReservedNames entries := by
  intro key
  simp only [reserved, hasNames, Bool.and_eq_true, List.all_eq_true, Bool.or_eq_true,
    decide_eq_true_eq, h.isSome_lookup] at hreserved
  constructor
  · intro hsome
    rw [← h.isSome_lookup, Assoc.lookup_isSome] at hsome
    obtain ⟨e, he, rfl⟩ := List.mem_map.mp hsome
    exact hreserved.1.1 e he
  · rintro (rfl | rfl)
    · exact hreserved.1.2
    · exact hreserved.2

/-- Collected entries are those of the store. -/
theorem Mirrors.entriesOf_eq (h : Mirrors c pairs entries) {keys : List String}
    (hkeys : ∀ key ∈ keys, (entries key).isSome = true) :
    ∃ items, entriesOf (decodeBranch c (plainPairs pairs)) keys = .ok items ∧
      ∀ key, items.lookup key = if key ∈ keys then entries key else none := by
  induction keys with
  | nil => exact ⟨[], rfl, fun key => rfl⟩
  | cons key keys ih =>
      obtain ⟨entry, hentry⟩ := Option.isSome_iff_exists.mp (hkeys key List.mem_cons_self)
      obtain ⟨items, hitems, hlookup⟩ := ih fun k hk => hkeys k (List.mem_cons_of_mem key hk)
      refine ⟨(key, entry) :: items, ?_, fun key' => ?_⟩
      · rw [entriesOf] at hitems ⊢
        rw [List.map_cons, Assoc.traverse, h.decodeBranch_eq hentry, hitems]
        rfl
      · rw [Assoc.lookup_cons, hlookup]
        by_cases hkey : key' = key
        · rw [if_pos hkey, if_pos (hkey ▸ List.mem_cons_self), hkey, hentry]
        · rw [if_neg hkey]
          exact if_congr (by simp [hkey]) rfl rfl

/-- A read returns what the store has under the keys. -/
theorem readEntries_spec (h : Holds c text entries) (keys : Option (List String))
    (hkeys : ReservedNames entries → ¬ Asked keys "_type" ∧ ¬ Asked keys "_value") :
    ∃ items, readEntries c text keys = .ok items ∧
      ∀ key, items.lookup key = if Asked keys key then entries key else none := by
  have hwhole : ¬ ReservedNames entries → ∃ decoded, parseDocument c text = .ok decoded := by
    intro hnames
    refine (parseDocument_ok_iff h.parsePlain).mpr ⟨h.1.loadsPairs_eq, ?_⟩
    exact Bool.eq_false_of_not_eq_true fun hreserved => hnames (h.1.reservedNames hreserved)
  cases keys with
  | none =>
      obtain ⟨decoded, hdecoded⟩ := hwhole fun hnames => (hkeys hnames).1 (asked_none _)
      rw [readAll_eq h.parsePlain, hdecoded]
      have hpresent : ∀ key, key ∈ (plainPairs (pairsOf text)).map Prod.fst ↔
          (entries key).isSome = true := by
        intro key
        rw [← Assoc.lookup_isSome, h.1.isSome_lookup]
      obtain ⟨items, hitems, hlookup⟩ := h.1.entriesOf_eq fun key hkey => (hpresent key).mp hkey
      refine ⟨items, hitems, fun key => ?_⟩
      rw [hlookup, if_pos (asked_none key)]
      split_ifs with hkey
      · rfl
      · rw [hpresent, Option.not_isSome_iff_eq_none] at hkey
        exact hkey.symm
  | some ks =>
      have hasked : ∀ key, Asked (some ks) key ↔ key ∈ ks := by simp [Asked]
      have hselected : ∀ key, key ∈ selectedKeys (plainPairs (pairsOf text)) (fromKeys ks) ↔
          key ∈ ks ∧ (entries key).isSome = true := by
        intro key
        rw [selectedKeys, List.mem_filter, mem_fromKeys, h.1.isSome_lookup]
      obtain ⟨items, hitems, hlookup⟩ := h.1.entriesOf_eq fun key hkey => ((hselected key).mp hkey).2
      refine ⟨items, ?_, fun key => ?_⟩
      · rw [readEntries, readSelected_eq h.parsePlain]
        split_ifs with hfew
        · exact hitems
        · have hnames : ¬ ReservedNames entries := by
            intro hnames
            refine hfew (.inr ?_)
            have hnone : selectedKeys (plainPairs (pairsOf text)) (fromKeys ks) = [] := by
              refine List.eq_nil_iff_forall_not_mem.mpr fun key hkey => ?_
              obtain ⟨hmem, hsome⟩ := (hselected key).mp hkey
              rcases (hnames key).mp hsome with rfl | rfl
              · exact (hkeys hnames).1 ((hasked _).mpr hmem)
              · exact (hkeys hnames).2 ((hasked _).mpr hmem)
            have htype : ((plainPairs (pairsOf text)).lookup "_type").isSome = true := by
              rw [h.1.isSome_lookup]
              exact (hnames "_type").mpr (.inl rfl)
            rw [hnone, List.length_nil, Nat.zero_mul, List.length_pos_iff]
            rintro hempty
            rw [hempty] at htype
            cases htype
          obtain ⟨decoded, hdecoded⟩ := hwhole hnames
          rw [hdecoded]
          exact hitems
      · rw [hlookup]
        by_cases hkey : key ∈ ks
        · rw [if_pos ((hasked key).mpr hkey)]
          split_ifs with hsome
          · rfl
          · rw [hselected, not_and, Option.not_isSome_iff_eq_none] at hsome
            exact (hsome hkey).symm
        · rw [if_neg fun hmem => hkey ((hasked key).mp hmem),
            if_neg fun hmem => hkey ((hselected key).mp hmem).1]

/-- The directory implements the store. -/
theorem backend_implements (c : Classes) : (backend c).Implements c (Represents c) where
  read files store ns keys h hkeys := readEntries_spec (h ns) keys hkeys
  write files store ns batch h hvalid hentries := by
    obtain ⟨files', hfiles, hrepresents⟩ := update_spec ns
      (batch.entries.map fun e => (e.1, some e.2)) (by
        intro e he entry hentry
        obtain ⟨f, hf, rfl⟩ := List.mem_map.mp he
        cases hentry
        exact ⟨List.all_eq_true.mp hvalid f hf, (hentries f hf).2, (hentries f hf).1⟩) h
    rw [reviseAll_batch batch.nodup] at hrepresents
    exact ⟨files', hfiles, hrepresents⟩
  refuse files store ns batch h hvalid := by
    obtain ⟨failure, hfailure⟩ := refuse_batch (c := c) hvalid (files.lookup (fileName ns))
    refine ⟨failure, ?_⟩
    change update c files ns _ = _
    rw [update, hfailure]
  delete files store ns key h := by
    obtain ⟨files', hfiles, hrepresents⟩ := update_spec ns [(key, none)] (by
      intro e he entry hentry
      rw [List.mem_singleton.mp he] at hentry
      cases hentry) h
    exact ⟨files', hfiles, hrepresents⟩

end JSONCacheDir

end Cache

end Rmote
