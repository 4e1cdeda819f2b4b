import Rmote.Cache.Store

/-!
# How an entry is stored

Both backends store an entry as a JSON object with four names. `Stored c entry a` says that `a` is
such an object for the entry. It is kept when the object is read without models and written again,
and from it come the entry itself and the time that a merge compares.
-/

namespace Rmote

namespace Cache

namespace JSONEntryCodec

/-- `float` of a number. -/
def float : Value → Except Failure ℚ
  | .int n => (toDouble n).elim (.error .overflow) fun m => .ok m
  | .float (.finite q) => .ok q
  | _ => .error (.type "float() argument must be a string or a real number")

/-- The time of a stored branch; its data is left alone. -/
def storedAt : Value → Except Failure ℚ
  | .dict items => do
      checkFormat (← member items "format")
      let entry := ⟨.none, ← member items "collected_at", ← member items "version"⟩
      guardEntry (validate entry)
      guardEntry (float entry.collectedAt)
  | _ => .error invalidEntry

def dumps (c : Classes) (entry : CacheEntry) : Except Failure Json := do
  Cache.dumps c (.dict (← encode entry))

def loads (c : Classes) (payload : Json) : Except Failure CacheEntry := do
  decode (← Cache.loads c payload)

end JSONEntryCodec

open JSONEntryCodec

/-- The text of a number. -/
def scalar : Value → Json
  | .int n => .int n
  | .float x => .float x
  | _ => .null

/-- The fields of an entry as a dictionary. -/
def fieldsOf (entry : CacheEntry) : List (String × Value) :=
  [("data", entry.data), ("collected_at", entry.collectedAt), ("version", entry.version),
    ("format", .int 1)]

/-- The text of an entry whose data has this text. -/
def envelope (entry : CacheEntry) (data : Json) : Json :=
  .obj [("data", data), ("collected_at", scalar entry.collectedAt),
    ("version", scalar entry.version), ("format", .int 1)]

/-- The text is one of the entry. -/
structure Stored (c : Classes) (entry : CacheEntry) (a : Json) : Prop where
  valid : entry.valid = true
  exact : Exact entry
  shape : ∃ data v, a = envelope entry data ∧ Cache.dumps c v = .ok data ∧
    Cache.loads c data = .ok entry.data

section Entries

variable {c : Classes} {entry : CacheEntry} {a data : Json}

/-- What a valid entry has. -/
theorem valid_cases (h : entry.valid = true) : ∃ m : ℤ, entry.version = .int m ∧ 1 ≤ m ∧
    ((∃ n : ℤ, entry.collectedAt = .int n ∧ 0 ≤ n) ∨
      ∃ q : ℚ, entry.collectedAt = .float (.finite q) ∧ 0 ≤ q) := by
  unfold CacheEntry.valid at h
  split at h
  · rename_i t m ht hm
    rw [Bool.and_eq_true, decide_eq_true_eq, decide_eq_true_eq] at h
    refine ⟨m, hm, h.2, ?_⟩
    unfold number at ht
    split at ht
    · rename_i n hn
      cases ht
      exact .inl ⟨n, hn, by exact_mod_cast h.1⟩
    · rename_i q hq
      cases ht
      exact .inr ⟨_, hq, h.1⟩
    · cases ht
  · cases h

theorem validate_of_valid (h : entry.valid = true) (hexact : Exact entry) :
    validate entry = .ok () := by
  obtain ⟨m, hm, hm1, ⟨n, hn, hn0⟩ | ⟨q, hq, hq0⟩⟩ := valid_cases h
  · have hdouble := (hexact n hn).2
    simp [validate, hn, hm, checkCollectedAt, checkVersion, hdouble, not_lt.mpr hn0,
      not_lt.mpr hm1]
    rfl
  · simp [validate, hq, hm, checkCollectedAt, checkVersion, not_lt.mpr hq0, not_lt.mpr hm1]
    rfl

/-- An entry that passes the checks is valid. -/
theorem valid_of_validate (h : validate entry = .ok ()) : entry.valid = true := by
  unfold validate at h
  cases htime : checkCollectedAt entry.collectedAt with
  | error failure =>
      rw [htime] at h
      cases h
  | ok u =>
      rw [htime] at h
      have hversion : checkVersion entry.version = .ok () := h
      unfold checkVersion at hversion
      split at hversion
      · rename_i m hm
        split_ifs at hversion with hm1
        unfold checkCollectedAt at htime
        split at htime
        · rename_i n hn
          split_ifs at htime with hdouble hn0
          have hn0' : (0 : ℚ) ≤ n := by exact_mod_cast not_lt.mp hn0
          simp [CacheEntry.valid, hn, hm, number, hn0', not_lt.mp hm1]
        · rename_i q hq
          split_ifs at htime with hq0
          simp [CacheEntry.valid, hq, hm, number, not_lt.mp hq0, not_lt.mp hm1]
        · cases htime
      · cases hversion

theorem encode_of_validate (h : validate entry = .ok ()) : encode entry = .ok (fieldsOf entry) := by
  rw [encode, h]
  rfl

theorem encode_of_valid (h : entry.valid = true) (hexact : Exact entry) :
    encode entry = .ok (fieldsOf entry) :=
  encode_of_validate (validate_of_valid h hexact)

theorem valid_of_encode {items : List (String × Value)} (h : encode entry = .ok items) :
    entry.valid = true := by
  unfold encode at h
  cases hvalidate : validate entry with
  | error failure =>
      rw [hvalidate] at h
      cases h
  | ok u => exact valid_of_validate hvalidate

theorem dumps_fieldsOf (h : entry.valid = true) {v : Value} (hv : Cache.dumps c v = .ok data) :
    Cache.dumps c (.dict (fieldsOf { entry with data := v })) = .ok (envelope entry data) := by
  obtain ⟨m, hm, -, ⟨n, hn, -⟩ | ⟨q, hq, -⟩⟩ := valid_cases h
  · simp [fieldsOf, envelope, Cache.dumps, dumpsDict, hv, hn, hm, scalar, Except.map]
  · simp [fieldsOf, envelope, Cache.dumps, dumpsDict, hv, hq, hm, scalar, Except.map]

theorem loads_envelope (h : entry.valid = true) (hdata : Cache.loads c data = .ok entry.data) :
    Cache.loads c (envelope entry data) = .ok (.dict (fieldsOf entry)) := by
  have hhook : jsonObjectHook c (Assoc.ofPairs (fieldsOf entry)) = .ok (.dict (fieldsOf entry)) :=
    rfl
  obtain ⟨m, hm, -, ⟨n, hn, -⟩ | ⟨q, hq, -⟩⟩ := valid_cases h
  · simp only [envelope, Cache.loads, loadsPairs, hdata, hn, hm, scalar, Except.map]
    simp only [fieldsOf, hn, hm] at hhook ⊢
    exact hhook
  · simp only [envelope, Cache.loads, loadsPairs, hdata, hq, hm, scalar, Except.map]
    simp only [fieldsOf, hq, hm] at hhook ⊢
    exact hhook

theorem decode_of_validate (h : validate entry = .ok ()) :
    decode (.dict (fieldsOf entry)) = .ok entry := by
  change (do guardEntry (validate entry); return entry) = _
  rw [h]
  rfl

theorem decode_fieldsOf (h : entry.valid = true) (hexact : Exact entry) :
    decode (.dict (fieldsOf entry)) = .ok entry :=
  decode_of_validate (validate_of_valid h hexact)

theorem float_of_valid (h : entry.valid = true) (hexact : Exact entry) :
    float entry.collectedAt = .ok entry.time := by
  obtain ⟨m, -, -, ⟨n, hn, -⟩ | ⟨q, hq, -⟩⟩ := valid_cases h
  · have htime : entry.time = n := by rw [CacheEntry.time, hn, number, Option.getD_some]
    rw [htime, hn, float, (hexact n hn).2, Option.elim_some]
  · have htime : entry.time = q := by rw [CacheEntry.time, hq, number, Option.getD_some]
    rw [htime, hq, float]

/-- The time of a branch is the one of the entry, whatever its data is. -/
theorem storedAt_fieldsOf (h : entry.valid = true) (hexact : Exact entry) (v : Value) :
    storedAt (.dict (fieldsOf { entry with data := v })) = .ok entry.time := by
  have hvalidate : validate { entry with data := .none } = .ok () :=
    @validate_of_valid { entry with data := .none } h hexact
  have hfloat := float_of_valid h hexact
  change (do
    guardEntry (validate { entry with data := .none })
    guardEntry (float entry.collectedAt)) = _
  rw [hvalidate, hfloat]
  rfl

/-- The plain containers of an envelope. -/
theorem asValue_envelope (h : entry.valid = true) :
    asValue (plain (envelope entry data)) =
      .dict (fieldsOf { entry with data := asValue (plain data) }) := by
  obtain ⟨m, hm, -, ⟨n, hn, -⟩ | ⟨q, hq, -⟩⟩ := valid_cases h
  · rw [envelope, plain, hn, hm]
    rfl
  · rw [envelope, plain, hq, hm]
    rfl

end Entries

namespace Stored

variable {c : Classes} {entry : CacheEntry} {a : Json}

/-- What is written for an entry. -/
theorem of_survives (hvalid : entry.valid = true) (hexact : Exact entry) (h : Survives c entry) :
    ∃ a, Cache.dumps c (.dict (fieldsOf entry)) = .ok a ∧ Stored c entry a := by
  obtain ⟨data, hdumps, hloads⟩ := h
  exact ⟨envelope entry data, dumps_fieldsOf hvalid hdumps, hvalid, hexact, data, entry.data, rfl,
    hdumps, hloads⟩

theorem loads (h : Stored c entry a) : Cache.loads c a = .ok (.dict (fieldsOf entry)) := by
  obtain ⟨data, v, rfl, -, hdata⟩ := h.shape
  exact loads_envelope h.valid hdata

theorem decode (h : Stored c entry a) :
    JSONEntryCodec.decode (.dict (fieldsOf entry)) = .ok entry :=
  decode_fieldsOf h.valid h.exact

/-- The plain containers still have the time, and are written as they are. -/
theorem plain (h : Stored c entry a) : storedAt (asValue (plain a)) = .ok entry.time ∧
    ∃ b, Cache.dumps c (asValue (Cache.plain a)) = .ok b ∧ Stored c entry b := by
  obtain ⟨data, v, rfl, hdumps, hdata⟩ := h.shape
  rw [asValue_envelope h.valid]
  exact ⟨storedAt_fieldsOf h.valid h.exact _, envelope entry (Cache.plain data),
    dumps_fieldsOf h.valid (dumps_asValue hdumps), h.valid, h.exact, Cache.plain data,
    asValue (Cache.plain data), rfl, dumps_asValue hdumps, loads_plain hdata⟩

end Stored

end Cache

end Rmote
