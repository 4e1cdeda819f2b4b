import Rmote.Cache.Payload

/-!
# One table for all namespaces

`SQLiteCache` keeps a row for each namespace and key, with the time as a double and the text of the
entry. A batch is bound row by row in one transaction, and a row replaces the one that is there
unless its double is smaller. Reads ask for at most five hundred keys in one statement.
-/

namespace Rmote

namespace Cache

open JSONEntryCodec

namespace SQLiteCache

/-- `PRIMARY KEY (namespace, key)`. -/
structure PrimaryKey where
  ns : String
  key : String
  deriving DecidableEq

/-- The rows, with the time and the payload. -/
abbrev Table : Type := List (PrimaryKey × (ℚ × Json))

/-- The value of the column `collected_at` for a bound parameter. -/
def bindReal : Value → Except Failure ℚ
  | .int n => if n < 2 ^ 63 then float (.int n) else .error .overflow
  | v => float v

/-- `INSERT … ON CONFLICT … DO UPDATE … WHERE excluded.collected_at >= entries.collected_at`. -/
def upsert (table : Table) (ns key : String) (collectedAt : ℚ) (payload : Json) : Table :=
  match table.lookup ⟨ns, key⟩ with
  | some row =>
      if row.1 ≤ collectedAt then Assoc.put ⟨ns, key⟩ (collectedAt, payload) table else table
  | none => Assoc.put ⟨ns, key⟩ (collectedAt, payload) table

/-- The rows of a batch in one transaction. -/
def executemany (ns : String) : Table → List (String × (Value × Json)) → Except Failure Table
  | table, [] => .ok table
  | table, (key, collectedAt, payload) :: rows =>
      match bindReal collectedAt with
      | .ok collectedAt => executemany ns (upsert table ns key collectedAt payload) rows
      | .error failure => .error failure

/-- The parameters of the statement for an entry. -/
def rowOf (c : Classes) (entry : CacheEntry) : Except Failure (Value × Json) :=
  (JSONEntryCodec.dumps c entry).map fun payload => (entry.collectedAt, payload)

def writeEntries (c : Classes) (table : Table) (ns : String)
    (entries : List (String × CacheEntry)) : Except Failure Table :=
  match Assoc.traverse (rowOf c) entries with
  | .error failure => .error failure
  | .ok rows => if rows.isEmpty then .ok table else executemany ns table rows

/-- `SELECT key, payload FROM entries WHERE namespace = ?`, with a condition on the key. -/
def select (table : Table) (ns : String) (ok : String → Bool) : List (String × Json) :=
  (table.filter fun row => row.1.ns = ns && ok row.1.key).map fun row => (row.1.key, row.2.2)

/-- Keys in pieces of five hundred. -/
def batches (keys : List String) : List (List String) :=
  (List.range ((keys.length + 499) / 500)).map fun i => (keys.drop (i * 500)).take 500

def readEntries (c : Classes) (table : Table) (ns : String) :
    Option (List String) → Except Failure (List (String × CacheEntry))
  | none => (Assoc.traverse (JSONEntryCodec.loads c) (select table ns fun _ => true)).map Assoc.ofPairs
  | some keys =>
      if keys = [] then .ok []
      else
        (Assoc.traverse (JSONEntryCodec.loads c) ((batches (JSONCacheDir.fromKeys keys)).flatMap fun batch =>
          select table ns fun key => key ∈ batch)).map Assoc.ofPairs

def deleteEntry (table : Table) (ns key : String) : Table := Assoc.del ⟨ns, key⟩ table

def backend (c : Classes) : CacheBackend Table where
  readEntries table ns keys := readEntries c table ns keys
  writeEntries table ns entries := writeEntries c table ns entries
  deleteEntry table ns key := .ok (deleteEntry table ns key)

/-! ## The table mirrors the store -/

/-- The row of an entry. -/
def Row (c : Classes) (entry : CacheEntry) (row : ℚ × Json) : Prop :=
  row.1 = entry.time ∧ Stored c entry row.2

structure Represents (c : Classes) (table : Table) (store : Store) : Prop where
  nodup : (table.map Prod.fst).Nodup
  stored : ∀ ns key, Option.Rel (Row c) (store ns key) (table.lookup ⟨ns, key⟩)

variable {c : Classes} {table : Table} {store : Store}

theorem bindReal_of_valid {entry : CacheEntry} (h : entry.valid = true) (hexact : Exact entry) :
    bindReal entry.collectedAt = .ok entry.time := by
  have hfloat := float_of_valid h hexact
  obtain ⟨m, -, -, ⟨n, hn, -⟩ | ⟨q, hq, -⟩⟩ := valid_cases h
  · rw [hn] at hfloat ⊢
    rw [bindReal, if_pos (hexact n hn).1, hfloat]
  · rw [hq] at hfloat ⊢
    exact hfloat

/-- One row of a batch. -/
theorem upsert_spec (h : Represents c table store) (ns key : String) {entry : CacheEntry}
    {payload : Json} (hpayload : Stored c entry payload) :
    Represents c (upsert table ns key entry.time payload)
      (store.modify ns (Function.update (store ns) key (Store.newest entry (store ns key)))) := by
  have hput : Represents c (Assoc.put ⟨ns, key⟩ (entry.time, payload) table)
      (store.modify ns (Function.update (store ns) key (some entry))) := by
    refine ⟨Assoc.nodup_put h.nodup, fun ns' key' => ?_⟩
    rw [Store.modify, Assoc.lookup_put]
    by_cases hns : ns' = ns
    · rw [if_pos hns, Function.update_apply]
      by_cases hkey : key' = key
      · rw [if_pos hkey, if_pos (by rw [hns, hkey])]
        exact .some ⟨rfl, hpayload⟩
      · rw [if_neg hkey, if_neg fun heq => hkey (congrArg PrimaryKey.key heq), ← hns]
        exact h.stored ns' key'
    · rw [if_neg hns, if_neg fun heq => hns (congrArg PrimaryKey.ns heq)]
      exact h.stored ns' key'
  have hrow := h.stored ns key
  unfold upsert
  generalize hold : store ns key = old at hrow
  generalize table.lookup ⟨ns, key⟩ = found at hrow
  cases hrow with
  | none => exact hput
  | @some old row hrow =>
      rw [Store.newest]
      dsimp only
      rw [hrow.1]
      split_ifs with hle
      · exact hput
      · have hsame : store.modify ns (Function.update (store ns) key (some old)) = store := by
          funext ns'
          rw [Store.modify, ← hold, Function.update_eq_self]
          split_ifs with hns
          · rw [hns]
          · rfl
        rw [hsame]
        exact h

/-- The rows of a batch. -/
theorem executemany_spec {entries : List (String × CacheEntry)}
    {rows : List (String × (Value × Json))} (ns : String) (h : Represents c table store)
    (hrows : Assoc.Related (fun entry row => row.1 = entry.collectedAt ∧ Stored c entry row.2)
      entries rows) :
    ∃ table', executemany ns table rows = .ok table' ∧ Represents c table'
      (store.modify ns (reviseAll (store ns) (entries.map fun e => (e.1, some e.2)))) := by
  have hmodify : ∀ (s : Store) f g, (s.modify ns f).modify ns g = s.modify ns g := by
    intro s f g
    funext ns'
    rw [Store.modify, Store.modify, Store.modify]
    split_ifs <;> rfl
  have hself : ∀ (s : Store) f, s.modify ns f ns = f := fun s f => if_pos rfl
  induction hrows generalizing table store with
  | nil =>
      have hsame : store.modify ns (store ns) = store := by
        funext ns'
        rw [Store.modify]
        split_ifs with hns
        · rw [hns]
        · rfl
      refine ⟨table, rfl, ?_⟩
      rw [List.map_nil, reviseAll, hsame]
      exact h
  | @cons e row entries rows hhead _ ih =>
      obtain ⟨key, collectedAt, payload⟩ := row
      obtain ⟨hkey, hcollected, hstored⟩ := hhead
      have hbind := bindReal_of_valid hstored.valid hstored.exact
      obtain ⟨table', htable', hrepresents⟩ := ih (upsert_spec h ns key hstored)
      refine ⟨table', ?_, ?_⟩
      · dsimp only at hcollected
        rw [executemany, hcollected, hbind]
        exact htable'
      · rw [hmodify, hself] at hrepresents
        rw [List.map_cons, reviseAll, hkey]
        exact hrepresents

theorem rowOf_eq {entry : CacheEntry} (hvalid : entry.valid = true) (hexact : Exact entry)
    (h : Survives c entry) :
    ∃ payload, rowOf c entry = .ok (entry.collectedAt, payload) ∧ Stored c entry payload := by
  obtain ⟨payload, hpayload, hstored⟩ := Stored.of_survives hvalid hexact h
  refine ⟨payload, ?_, hstored⟩
  rw [rowOf, JSONEntryCodec.dumps, encode_of_valid hvalid hexact]
  change (Cache.dumps c (.dict (fieldsOf entry))).map _ = _
  rw [hpayload]
  rfl

theorem writeEntries_spec {batch : Batch} (ns : String) (h : Represents c table store)
    (hvalid : batch.valid = true) (hentries : ∀ e ∈ batch.entries, Survives c e.2 ∧ Exact e.2) :
    ∃ table', writeEntries c table ns batch.entries = .ok table' ∧
      Represents c table' (store.write ns batch) := by
  have hrow : ∀ e ∈ batch.entries, ∃ payload, rowOf c e.2 = .ok (e.2.collectedAt, payload) ∧
      Stored c e.2 payload := fun e he =>
    rowOf_eq (List.all_eq_true.mp hvalid e he) (hentries e he).2 (hentries e he).1
  obtain ⟨rows, hrows⟩ : ∃ rows, Assoc.traverse (rowOf c) batch.entries = .ok rows :=
    Assoc.traverse_ok fun e he => by
      obtain ⟨payload, hpayload, -⟩ := hrow e he
      exact ⟨_, hpayload⟩
  have hrelated : Assoc.Related (fun entry row => row.1 = entry.collectedAt ∧ Stored c entry row.2)
      batch.entries rows := by
    refine (Assoc.traverse_eq_ok.mp hrows).imp_mem fun e he row hrow' => ?_
    obtain ⟨payload, hpayload, hstored⟩ := hrow e he
    cases hpayload.symm.trans hrow'
    exact ⟨rfl, hstored⟩
  obtain ⟨table', htable', hrepresents⟩ := executemany_spec ns h hrelated
  rw [reviseAll_batch batch.nodup] at hrepresents
  refine ⟨table', ?_, hrepresents⟩
  rw [writeEntries, hrows]
  dsimp only
  cases rows with
  | nil => exact htable'
  | cons row rows => exact htable'

theorem refuse_batch {batch : Batch} (h : ¬ batch.valid = true) (ns : String) :
    ∃ failure, writeEntries c table ns batch.entries = .error failure := by
  cases hrows : Assoc.traverse (rowOf c) batch.entries with
  | error failure => exact ⟨failure, by rw [writeEntries, hrows]⟩
  | ok rows =>
      refine absurd (List.all_eq_true.mpr fun e he => ?_) h
      obtain ⟨row, hrow⟩ := Assoc.traverse_mem hrows he
      cases hencode : encode e.2 with
      | error failure =>
          rw [rowOf, JSONEntryCodec.dumps, hencode] at hrow
          cases hrow
      | ok items => exact valid_of_encode hencode

theorem delete_spec (h : Represents c table store) (ns key : String) :
    Represents c (deleteEntry table ns key) (store.delete ns key) := by
  refine ⟨Assoc.nodup_del h.nodup, fun ns' key' => ?_⟩
  rw [deleteEntry, Store.delete, Store.modify, Assoc.lookup_del]
  by_cases hns : ns' = ns
  · rw [if_pos hns, Function.update_apply]
    by_cases hkey : key' = key
    · rw [if_pos hkey, if_pos (by rw [hns, hkey])]
      exact .none
    · rw [if_neg hkey, if_neg fun heq => hkey (congrArg PrimaryKey.key heq), ← hns]
      exact h.stored ns' key'
  · rw [if_neg hns, if_neg fun heq => hns (congrArg PrimaryKey.ns heq)]
    exact h.stored ns' key'

/-! ## Reads -/

theorem mem_select {ns key : String} {payload : Json} {ok : String → Bool} :
    (key, payload) ∈ select table ns ok ↔
      (∃ time, (⟨ns, key⟩, (time, payload)) ∈ table) ∧ ok key = true := by
  simp only [select, List.mem_map, List.mem_filter, Bool.and_eq_true, decide_eq_true_eq,
    Prod.mk.injEq]
  constructor
  · rintro ⟨⟨⟨ns', key'⟩, time, payload'⟩, ⟨hmem, rfl, hok⟩, rfl, rfl⟩
    exact ⟨⟨time, hmem⟩, hok⟩
  · rintro ⟨⟨time, hmem⟩, hok⟩
    exact ⟨(⟨ns, key⟩, (time, payload)), ⟨hmem, rfl, hok⟩, rfl, rfl⟩

/-- A row of a result is one of the store. -/
theorem Represents.of_select (h : Represents c table store) {ns key : String} {payload : Json}
    {ok : String → Bool} (hrow : (key, payload) ∈ select table ns ok) :
    ok key = true ∧ ∃ entry, store ns key = some entry ∧ Stored c entry payload := by
  obtain ⟨⟨time, hmem⟩, hok⟩ := mem_select.mp hrow
  have hstored := h.stored ns key
  rw [Assoc.lookup_of_mem h.nodup hmem] at hstored
  refine ⟨hok, ?_⟩
  generalize store ns key = found at hstored ⊢
  cases hstored with
  | some hstored => exact ⟨_, rfl, hstored.2⟩

theorem Represents.select_of (h : Represents c table store) {key : String} (ns : String)
    (ok : String → Bool) (hok : ok key = true) (hsome : (store ns key).isSome = true) :
    ∃ payload, (key, payload) ∈ select table ns ok := by
  have hstored := h.stored ns key
  generalize store ns key = found at hstored hsome
  generalize hlookup : table.lookup ⟨ns, key⟩ = row at hstored
  cases hstored with
  | none => cases hsome
  | @some entry row hstored =>
      exact ⟨row.2, mem_select.mpr ⟨⟨row.1, Assoc.mem_of_lookup hlookup⟩, hok⟩⟩

/-- Rows of the store become the entries of the store. -/
theorem traverse_loads (entries : String → Option CacheEntry) (rows : List (String × Json))
    (hrows : ∀ e ∈ rows, ∃ entry, entries e.1 = some entry ∧ Stored c entry e.2) :
    ∃ items, (Assoc.traverse (JSONEntryCodec.loads c) rows).map Assoc.ofPairs = .ok items ∧
      ∀ key, items.lookup key = if key ∈ rows.map Prod.fst then entries key else none := by
  have hloads : ∀ e ∈ rows, ∃ entry, entries e.1 = some entry ∧
      JSONEntryCodec.loads c e.2 = .ok entry := by
    intro e he
    obtain ⟨entry, hentry, hstored⟩ := hrows e he
    refine ⟨entry, hentry, ?_⟩
    rw [JSONEntryCodec.loads, hstored.loads]
    exact hstored.decode
  obtain ⟨items, hitems⟩ : ∃ items, Assoc.traverse (JSONEntryCodec.loads c) rows = .ok items :=
    Assoc.traverse_ok fun e he => by
      obtain ⟨entry, -, hentry⟩ := hloads e he
      exact ⟨entry, hentry⟩
  have hrelated := Assoc.traverse_eq_ok.mp hitems
  refine ⟨Assoc.ofPairs items, by rw [hitems]; rfl, fun key => ?_⟩
  have hkeys : key ∈ rows.map Prod.fst ↔ ((Assoc.ofPairs items).lookup key).isSome = true := by
    rw [hrelated.keys, ← Assoc.mem_keys_ofPairs, Assoc.lookup_isSome]
  cases hlookup : (Assoc.ofPairs items).lookup key with
  | none =>
      rw [hlookup] at hkeys
      rw [if_neg fun hmem => nomatch hkeys.mp hmem]
  | some entry =>
      rw [hlookup] at hkeys
      have hmem := Assoc.mem_of_mem_ofPairs (Assoc.mem_of_lookup hlookup)
      obtain ⟨e, he, hkey, hentry⟩ := hrelated.mem_right hmem
      obtain ⟨entry', hentry', hloads'⟩ := hloads e he
      cases hentry.symm.trans hloads'
      dsimp only at hkey
      rw [if_pos (hkeys.mpr rfl), ← hkey, hentry']

/-- The pieces have the same keys together. -/
theorem mem_batches {keys : List String} {key : String} :
    (∃ batch ∈ batches keys, key ∈ batch) ↔ key ∈ keys := by
  simp only [batches, List.mem_map, List.mem_range, exists_exists_and_eq_and]
  constructor
  · rintro ⟨i, -, hmem⟩
    exact List.mem_of_mem_drop (List.mem_of_mem_take hmem)
  · intro hmem
    obtain ⟨j, hj, rfl⟩ := List.getElem_of_mem hmem
    have hpiece : j - j / 500 * 500 < ((keys.drop (j / 500 * 500)).take 500).length := by
      rw [List.length_take, List.length_drop]
      omega
    refine ⟨j / 500, by omega, List.mem_iff_getElem.mpr ⟨j - j / 500 * 500, hpiece, ?_⟩⟩
    rw [List.getElem_take, List.getElem_drop]
    congr 1
    omega

theorem readEntries_spec (h : Represents c table store) (ns : String)
    (keys : Option (List String)) :
    ∃ items, readEntries c table ns keys = .ok items ∧
      ∀ key, items.lookup key = if Asked keys key then store ns key else none := by
  cases keys with
  | none =>
      obtain ⟨items, hitems, hlookup⟩ := traverse_loads (c := c) (store ns)
        (select table ns fun _ => true) fun e he => (h.of_select he).2
      refine ⟨items, hitems, fun key => ?_⟩
      rw [hlookup, if_pos (asked_none key)]
      split_ifs with hmem
      · rfl
      · by_contra hne
        obtain ⟨payload, hpayload⟩ := h.select_of ns (fun _ => true) rfl
          (Option.isSome_iff_ne_none.mpr (Ne.symm hne))
        exact hmem (List.mem_map_of_mem hpayload)
  | some ks =>
      have hasked : ∀ key, Asked (some ks) key ↔ key ∈ ks := by simp [Asked]
      have hbatches : ∀ key, (∃ batch ∈ batches (JSONCacheDir.fromKeys ks), key ∈ batch) ↔
          key ∈ ks := by
        intro key
        rw [mem_batches, JSONCacheDir.mem_fromKeys]
      rw [readEntries]
      split_ifs with hempty
      · refine ⟨[], rfl, fun key => ?_⟩
        rw [if_neg fun hkey => by rw [hasked, hempty] at hkey; cases hkey]
        rfl
      · obtain ⟨items, hitems, hlookup⟩ := traverse_loads (c := c) (store ns)
          ((batches (JSONCacheDir.fromKeys ks)).flatMap fun batch =>
            select table ns fun key => key ∈ batch) fun e he => by
              obtain ⟨batch, -, hrow⟩ := List.mem_flatMap.mp he
              exact (h.of_select hrow).2
        refine ⟨items, hitems, fun key => ?_⟩
        rw [hlookup]
        by_cases hkey : key ∈ ks
        · rw [if_pos ((hasked key).mpr hkey)]
          split_ifs with hmem
          · rfl
          · by_contra hne
            obtain ⟨batch, hbatch, hin⟩ := (hbatches key).mpr hkey
            obtain ⟨payload, hpayload⟩ := h.select_of ns (fun key => key ∈ batch)
              (decide_eq_true hin) (Option.isSome_iff_ne_none.mpr (Ne.symm hne))
            have hrow : (key, payload) ∈ (batches (JSONCacheDir.fromKeys ks)).flatMap fun batch =>
                select table ns fun key => key ∈ batch :=
              List.mem_flatMap.mpr ⟨batch, hbatch, hpayload⟩
            exact hmem (List.mem_map.mpr ⟨(key, payload), hrow, rfl⟩)
        · rw [if_neg fun hmem => hkey ((hasked key).mp hmem), if_neg]
          intro hmem
          obtain ⟨e, he, rfl⟩ := List.mem_map.mp hmem
          obtain ⟨batch, hbatch, hrow⟩ := List.mem_flatMap.mp he
          exact hkey ((hbatches e.1).mp ⟨batch, hbatch, of_decide_eq_true (h.of_select hrow).1⟩)

/-- The table implements the store. -/
theorem backend_implements (c : Classes) : (backend c).Implements c (Represents c) where
  read _ _ ns keys h _ := readEntries_spec h ns keys
  write _ _ ns _ h hvalid hentries := writeEntries_spec ns h hvalid hentries
  refuse _ _ ns _ _ hvalid := refuse_batch hvalid ns
  delete _ _ ns key h := ⟨_, rfl, delete_spec h ns key⟩

end SQLiteCache

end Cache

end Rmote
