import Rmote.Cache.Payload

/-!
# What comes back from the codec

A value is encoded into a JSON text and decoded from it again. Decoding looks at every object of
the text, also at the fields of a record, which the encoder puts into a plain object. A class whose
constructor fields are `_type` and `_value` makes that object look like an encoded value, and no
other class does.
-/

namespace Rmote

namespace Cache

/-! ## Base 64 -/

theorem digits_eq : digits = [
    'A', 'B', 'C', 'D', 'E', 'F', 'G', 'H', 'I', 'J', 'K', 'L', 'M', 'N', 'O', 'P', 'Q', 'R', 'S', 'T',
    'U', 'V', 'W', 'X', 'Y', 'Z', 'a', 'b', 'c', 'd', 'e', 'f', 'g', 'h', 'i', 'j', 'k', 'l', 'm', 'n',
    'o', 'p', 'q', 'r', 's', 't', 'u', 'v', 'w', 'x', 'y', 'z', '0', '1', '2', '3', '4', '5', '6', '7',
    '8', '9', '+', '/'] := String.toList_ofList

/-- Three runs of code points, and two more. -/
theorem digits_codes : digits.map Char.toNat =
    List.range' 65 26 ++ List.range' 97 26 ++ List.range' 48 10 ++ [43, 47] := by
  rw [digits_eq]
  rfl

theorem digits_nodup : digits.Nodup := by
  apply List.Nodup.of_map Char.toNat
  rw [digits_codes, List.nodup_append, List.nodup_append, List.nodup_append]
  simp only [List.mem_append, List.mem_range'_1, List.mem_cons, List.not_mem_nil, or_false]
  have hrange : ∀ start length, (List.range' start length).Nodup := fun _ _ => List.nodup_range'
  refine ⟨⟨⟨hrange _ _, hrange _ _, ?_⟩, hrange _ _, ?_⟩, by decide, ?_⟩
  all_goals
    intro a ha b hb
    omega

theorem getElem?_digits {n : ℕ} (hn : n < 64) : digits[n]? = some (digit n) := by
  have hlength : digits.length = 64 := by
    rw [digits_eq]
    rfl
  rw [digit, Nat.mod_eq_of_lt hn, List.getD_eq_getElem?_getD,
    List.getElem?_eq_getElem (by rw [hlength]; exact hn), Option.getD_some]

theorem digitValue_digit (n : ℕ) (hn : n < 64) : digitValue (digit n) = some n := by
  have hmem := List.mem_of_getElem? (getElem?_digits hn)
  obtain ⟨hlt, hget⟩ := List.getElem?_eq_some_iff.mp (getElem?_digits hn)
  rw [digitValue, if_pos hmem, ← hget, digits_nodup.idxOf_getElem]

theorem digit_ne_padding (n : ℕ) (hn : n < 64) : digit n ≠ '=' := by
  have hpadding : '=' ∉ digits := by
    rw [digits_eq]
    decide
  intro h
  exact hpadding (h ▸ List.mem_of_getElem? (getElem?_digits hn))

/-- Four digits are three bytes. -/
theorem b64decode_block {a b c d : ℕ} {rest : List Char} {content : List UInt8}
    (ha : a < 64) (hb : b < 64) (hc : c < 64) (hd : d < 64) (hrest : b64decode rest = some content) :
    b64decode (digit a :: digit b :: digit c :: digit d :: rest) =
      some (UInt8.ofNat (a * 4 + b / 16) :: UInt8.ofNat (b % 16 * 16 + c / 4) ::
        UInt8.ofNat (c % 4 * 64 + d) :: content) := by
  have hpadding := digit_ne_padding d hd
  unfold b64decode
  split
  · contradiction
  · rename_i heq
    simp only [List.cons.injEq] at heq
    exact absurd heq.2.2.2.1 hpadding
  · rename_i heq
    simp only [List.cons.injEq] at heq
    exact absurd heq.2.2.2.1 hpadding
  · rename_i heq
    simp only [List.cons.injEq] at heq
    obtain ⟨rfl, rfl, rfl, rfl, rfl⟩ := heq
    rw [digitValue_digit a ha, digitValue_digit b hb, digitValue_digit c hc, digitValue_digit d hd,
      hrest]
    rfl
  · rename_i hno
    exact absurd rfl (hno _ _ _ _ _)

/-- What was encoded is decoded again. -/
theorem b64decode_b64encode : ∀ content : List UInt8, b64decode (b64encode content) = some content
  | [] => rfl
  | [a] => by
      have ha := a.toNat_lt
      have hfirst : UInt8.ofNat (a.toNat / 4 * 4 + a.toNat % 4 * 16 / 16) = a := by
        rw [show a.toNat / 4 * 4 + a.toNat % 4 * 16 / 16 = a.toNat by omega, UInt8.ofNat_toNat]
      rw [b64encode, b64decode, digitValue_digit _ (by omega), digitValue_digit _ (by omega)]
      exact congrArg (fun x => some [x]) hfirst
  | [a, b] => by
      have ha := a.toNat_lt
      have hb := b.toNat_lt
      have hfirst : UInt8.ofNat (a.toNat / 4 * 4 + (a.toNat % 4 * 16 + b.toNat / 16) / 16) = a := by
        rw [show a.toNat / 4 * 4 + (a.toNat % 4 * 16 + b.toNat / 16) / 16 = a.toNat by omega,
          UInt8.ofNat_toNat]
      have hsecond : UInt8.ofNat ((a.toNat % 4 * 16 + b.toNat / 16) % 16 * 16 + b.toNat % 16 * 4 / 4) =
          b := by
        rw [show (a.toNat % 4 * 16 + b.toNat / 16) % 16 * 16 + b.toNat % 16 * 4 / 4 = b.toNat by omega,
          UInt8.ofNat_toNat]
      have hpadding := digit_ne_padding (b.toNat % 16 * 4) (by omega)
      rw [b64encode, b64decode, digitValue_digit _ (by omega), digitValue_digit _ (by omega),
        digitValue_digit _ (by omega)]
      · change some [_, _] = _
        rw [hfirst, hsecond]
      · exact fun h => hpadding h
  | a :: b :: c :: rest => by
      have ha := a.toNat_lt
      have hb := b.toNat_lt
      have hc := c.toNat_lt
      have hfirst : a.toNat / 4 * 4 + (a.toNat % 4 * 16 + b.toNat / 16) / 16 = a.toNat := by omega
      have hsecond : (a.toNat % 4 * 16 + b.toNat / 16) % 16 * 16 +
          (b.toNat % 16 * 4 + c.toNat / 64) / 4 = b.toNat := by omega
      have hthird : (b.toNat % 16 * 4 + c.toNat / 64) % 4 * 64 + c.toNat % 64 = c.toNat := by omega
      rw [b64encode, b64decode_block (by omega) (by omega) (by omega) (by omega)
        (b64decode_b64encode rest), hfirst, hsecond, hthird, UInt8.ofNat_toNat, UInt8.ofNat_toNat,
        UInt8.ofNat_toNat]

/-! ## The values -/

/-- A value of the codec: plain containers whose dictionaries have no reserved shape, bytes, and
instances of classes that can be imported and that store their constructor fields unchanged. -/
inductive Encodable (c : Classes) : Value → Prop
  | none : Encodable c .none
  | bool (b : Bool) : Encodable c (.bool b)
  | int (n : ℤ) : Encodable c (.int n)
  | float (q : ℚ) : Encodable c (.float (.finite q))
  | str (s : String) : Encodable c (.str s)
  | list {items : List Value} (hitems : ∀ item ∈ items, Encodable c item) : Encodable c (.list items)
  | dict {items : List (String × Value)} (hnodup : (items.map Prod.fst).Nodup)
      (hreserved : reserved items = false) (hitems : ∀ item ∈ items, Encodable c item.2) :
      Encodable c (.dict items)
  | bytes (content : List UInt8) : Encodable c (.bytes content)
  | model {path : String} {fields : List (String × Value)} (himportable : c.importable path = true)
      (hconstruct : c.construct path fields = .ok fields) (hnodup : (fields.map Prod.fst).Nodup)
      (hfields : ∀ field ∈ fields, Encodable c field.2) : Encodable c (.model path fields)

/-- In the value there is an instance of a class whose fields are `_type` and `_value`. -/
inductive ReservedInside : Value → Prop
  | here {path : String} {fields : List (String × Value)} (hreserved : reserved fields = true) :
      ReservedInside (.model path fields)
  | item {items : List Value} {item : Value} (hitem : item ∈ items) (h : ReservedInside item) :
      ReservedInside (.list items)
  | value {items : List (String × Value)} {item : String × Value} (hitem : item ∈ items)
      (h : ReservedInside item.2) : ReservedInside (.dict items)
  | field {path : String} {fields : List (String × Value)} {field : String × Value}
      (hfield : field ∈ fields) (h : ReservedInside field.2) : ReservedInside (.model path fields)

/-- `json.loads` with the hook takes back `json.dumps` with the default. -/
def RoundTrips (c : Classes) (v : Value) : Prop := ∃ a, dumps c v = .ok a ∧ loads c a = .ok v

section Codec

variable {c : Classes} {v w : Value} {a : Json} {path : String} {failure : Failure}

/-- The text of a record. -/
def record (path : String) (fields : Json) : Json :=
  .obj [("_type", .str "dataclass"), ("_value", .obj [("class", .str path), ("fields", fields)])]

theorem loads_record (h : loads c a = .ok w) : loads c (record path a) =
    untag c (some (.str "dataclass")) (some (.dict [("class", .str path), ("fields", w)])) := by
  have hmodel : loads c (.obj [("class", .str path), ("fields", a)]) =
      .ok (.dict [("class", .str path), ("fields", w)]) := by
    simp only [loads, loadsPairs, h, Except.map]
    rfl
  rw [record, loads, loadsPairs, loadsPairs, hmodel, loads]
  rfl

theorem untag_record (fields : List (String × Value)) :
    untag c (some (.str "dataclass")) (some (.dict [("class", .str path), ("fields", .dict fields)])) =
      match c.construct path fields with
      | .ok fields => .ok (.model path fields)
      | .error (.type _) => .error (.value s!"Invalid fields for {path}")
      | .error failure => .error failure := by
  rfl

theorem loads_record_error (h : loads c a = .error failure) :
    loads c (record path a) = .error failure := by
  simp only [record, loads, loadsPairs, h, Except.map]

theorem loadsItems_of_forall₂ {encoded : List Json} {items : List Value}
    (h : List.Forall₂ (fun a v => loads c a = .ok v) encoded items) :
    loadsItems c encoded = .ok items := by
  induction h with
  | nil => rfl
  | cons hhead _ ih =>
      rw [loadsItems, hhead, ih]
      rfl

theorem loadsItems_mem {encoded : List Json} {items : List Value}
    (h : loadsItems c encoded = .ok items) (ha : a ∈ encoded) : ∃ v, loads c a = .ok v := by
  induction encoded generalizing items with
  | nil => cases ha
  | cons b encoded ih =>
      rw [loadsItems] at h
      cases hb : loads c b with
      | error failure =>
          rw [hb] at h
          cases h
      | ok w =>
          rcases List.mem_cons.mp ha with rfl | ha
          · exact ⟨w, hb⟩
          · rw [hb] at h
            cases hrest : loadsItems c encoded with
            | error failure =>
                rw [hrest] at h
                cases h
            | ok rest => exact ih hrest ha

theorem dumpsItems_eq_ok {items : List Value} {encoded : List Json} :
    dumpsItems c items = .ok encoded ↔
      List.Forall₂ (fun v a => dumps c v = .ok a) items encoded := by
  induction items generalizing encoded with
  | nil =>
      rw [dumpsItems, List.forall₂_nil_left_iff, Except.ok.injEq, eq_comm]
  | cons v items ih =>
      rw [dumpsItems, List.forall₂_cons_left_iff]
      cases hv : dumps c v with
      | error failure =>
          refine iff_of_false nofun ?_
          rintro ⟨b, rest, hb, -⟩
          cases hb
      | ok a =>
          constructor
          · intro h
            cases hrest : dumpsItems c items with
            | error failure =>
                rw [hrest] at h
                cases h
            | ok rest =>
                rw [hrest] at h
                cases h
                exact ⟨a, rest, rfl, ih.mp hrest, rfl⟩
          · rintro ⟨b, rest, hb, hrest, rfl⟩
            cases hb
            dsimp only
            rw [ih.mpr hrest]
            rfl

theorem exists_forall₂ {α β : Type} {R : α → β → Prop} {l : List α} (h : ∀ x ∈ l, ∃ y, R x y) :
    ∃ m, List.Forall₂ R l m := by
  induction l with
  | nil => exact ⟨[], .nil⟩
  | cons x l ih =>
      obtain ⟨y, hy⟩ := h x List.mem_cons_self
      obtain ⟨m, hm⟩ := ih fun z hz => h z (List.mem_cons_of_mem x hz)
      exact ⟨y :: m, .cons hy hm⟩

theorem exists_of_forall₂ {α β : Type} {R : α → β → Prop} {l : List α} {m : List β}
    (h : List.Forall₂ R l m) {x : α} (hx : x ∈ l) : ∃ y ∈ m, R x y := by
  induction h with
  | nil => cases hx
  | @cons x' y l m hhead _ ih =>
      rcases List.mem_cons.mp hx with rfl | hx
      · exact ⟨y, List.mem_cons_self, hhead⟩
      · obtain ⟨z, hz, hrel⟩ := ih hx
        exact ⟨z, List.mem_cons_of_mem y hz, hrel⟩

/-- The names and the values of a dictionary, and the object for it. -/
theorem exists_encoded {items : List (String × Value)} (h : ∀ item ∈ items, RoundTrips c item.2) :
    ∃ pairs, dumpsDict c items = .ok pairs ∧ loadsPairs c pairs = .ok items := by
  obtain ⟨pairs, hpairs⟩ : ∃ pairs, Assoc.Related
      (fun v a => dumps c v = .ok a ∧ loads c a = .ok v) items pairs := Assoc.exists_related h
  refine ⟨pairs, ?_, ?_⟩
  · rw [dumpsDict_eq_traverse, Assoc.traverse_eq_ok]
    exact hpairs.imp_mem fun _ _ _ ha => ha.1
  · rw [loadsPairs_eq_traverse, Assoc.traverse_eq_ok]
    exact (hpairs.imp_mem fun _ _ _ ha => ha.2).flip

theorem loads_obj {pairs : List (String × Json)} {items : List (String × Value)}
    (h : loadsPairs c pairs = .ok items) (hnodup : (items.map Prod.fst).Nodup)
    (hreserved : reserved items = false) : loads c (.obj pairs) = .ok (.dict items) := by
  rw [loads, h]
  dsimp only
  rw [Assoc.ofPairs_of_nodup hnodup, jsonObjectHook_eq_dict]
  exact ⟨hreserved, rfl⟩

/-- A value without such an instance comes back. -/
theorem Encodable.roundTrips (h : Encodable c v) (hv : ¬ ReservedInside v) : RoundTrips c v := by
  induction h with
  | none => exact ⟨_, rfl, rfl⟩
  | bool b => exact ⟨_, rfl, rfl⟩
  | int n => exact ⟨_, rfl, rfl⟩
  | float q => exact ⟨_, rfl, rfl⟩
  | str s => exact ⟨_, rfl, rfl⟩
  | list hitems ih =>
      obtain ⟨encoded, hencoded⟩ :=
        exists_forall₂ fun item hitem => ih item hitem fun h => hv (.item hitem h)
      refine ⟨.list encoded, ?_, ?_⟩
      · rw [dumps, dumpsItems_eq_ok.mpr (hencoded.imp fun _ _ ha => ha.1)]
        rfl
      · rw [loads, loadsItems_of_forall₂ (hencoded.flip.imp fun _ _ ha => ha.2)]
        rfl
  | dict hnodup hreserved hitems ih =>
      obtain ⟨pairs, hdumps, hloads⟩ :=
        exists_encoded fun item hitem => ih item hitem fun h => hv (.value hitem h)
      refine ⟨.obj pairs, ?_, loads_obj hloads hnodup hreserved⟩
      rw [dumps, hdumps]
      rfl
  | bytes content =>
      refine ⟨_, rfl, ?_⟩
      have hpairs : loads c (.obj [("_type", .str "bytes"),
          ("_value", .str (String.ofList (b64encode content)))]) =
            untag c (some (.str "bytes")) (some (.str (String.ofList (b64encode content)))) := rfl
      rw [hpairs, untag, String.toList_ofList, b64decode_b64encode]
  | @model path fields himportable hconstruct hnodup hfields ih =>
      obtain ⟨pairs, hdumps, hloads⟩ :=
        exists_encoded fun field hfield => ih field hfield fun h => hv (.field hfield h)
      have hreserved : reserved fields = false := by
        rw [← Bool.not_eq_true]
        exact fun h => hv (.here h)
      refine ⟨record path (.obj pairs), ?_, ?_⟩
      · rw [dumps, if_pos himportable, hdumps]
        rfl
      · rw [loads_record (loads_obj hloads hnodup hreserved), untag_record, hconstruct]

theorem untag_record_error (h : ∀ items, w ≠ .dict items) : ∃ failure,
    untag c (some (.str "dataclass")) (some (.dict [("class", .str path), ("fields", w)])) =
      .error failure := by
  cases w with
  | dict items => exact absurd rfl (h items)
  | none => exact ⟨_, rfl⟩
  | bool b => exact ⟨_, rfl⟩
  | int n => exact ⟨_, rfl⟩
  | float x => exact ⟨_, rfl⟩
  | str s => exact ⟨_, rfl⟩
  | list items => exact ⟨_, rfl⟩
  | bytes content => exact ⟨_, rfl⟩
  | model path fields => exact ⟨_, rfl⟩
  | object type => exact ⟨_, rfl⟩

theorem loads_obj_error {pairs : List (String × Json)} {e : String × Json} (he : e ∈ pairs)
    (h : loads c e.2 = .error failure) : ∃ failure, loads c (.obj pairs) = .error failure := by
  rw [loads]
  cases hpairs : loadsPairs c pairs with
  | error failure => exact ⟨failure, rfl⟩
  | ok items =>
      rw [loadsPairs_eq_traverse] at hpairs
      obtain ⟨x, hx⟩ := Assoc.traverse_mem hpairs he
      rw [h] at hx
      cases hx

/-- The text of an entry of a dictionary. -/
theorem exists_of_dumpsDict {items : List (String × Value)} {pairs : List (String × Json)}
    (h : dumpsDict c items = .ok pairs) {item : String × Value} (hitem : item ∈ items) :
    ∃ e ∈ pairs, dumps c item.2 = .ok e.2 := by
  rw [dumpsDict_eq_traverse, Assoc.traverse_eq_ok] at h
  obtain ⟨e, he, -, hdumps⟩ := h.flip.mem_right hitem
  exact ⟨e, he, hdumps⟩

theorem dumps_dict_eq_ok {items : List (String × Value)} (h : dumps c (.dict items) = .ok a) :
    ∃ pairs, dumpsDict c items = .ok pairs ∧ a = .obj pairs := by
  rw [dumps] at h
  cases hitems : dumpsDict c items with
  | error failure =>
      rw [hitems] at h
      cases h
  | ok pairs =>
      rw [hitems] at h
      cases h
      exact ⟨pairs, rfl, rfl⟩

theorem dumps_model_eq_ok {fields : List (String × Value)} (h : dumps c (.model path fields) = .ok a) :
    ∃ pairs, dumpsDict c fields = .ok pairs ∧ a = record path (.obj pairs) := by
  rw [dumps] at h
  split_ifs at h
  cases hfields : dumpsDict c fields with
  | error failure =>
      rw [hfields] at h
      cases h
  | ok pairs =>
      rw [hfields] at h
      cases h
      exact ⟨pairs, rfl, rfl⟩

theorem dumps_list_eq_ok {items : List Value} (h : dumps c (.list items) = .ok a) :
    ∃ encoded, List.Forall₂ (fun v a => dumps c v = .ok a) items encoded ∧ a = .list encoded := by
  rw [dumps] at h
  cases hitems : dumpsItems c items with
  | error failure =>
      rw [hitems] at h
      cases h
  | ok encoded =>
      rw [hitems] at h
      cases h
      exact ⟨encoded, dumpsItems_eq_ok.mp hitems, rfl⟩

/-- The fields of such an instance are decoded as a value of their own, and then the record has no
fields any more. -/
theorem loads_error (h : ReservedInside v) (hv : Encodable c v) (hdumps : dumps c v = .ok a) :
    ∃ failure, loads c a = .error failure := by
  induction h generalizing a with
  | @here path fields hreserved =>
      obtain ⟨pairs, hpairs, rfl⟩ := dumps_model_eq_ok hdumps
      cases hloads : loads c (.obj pairs) with
      | error failure => exact ⟨failure, loads_record_error hloads⟩
      | ok w =>
          rw [loads_record hloads]
          apply untag_record_error
          rintro items rfl
          rw [loads] at hloads
          cases hitems : loadsPairs c pairs with
          | error failure =>
              rw [hitems] at hloads
              cases hloads
          | ok decoded =>
              cases hv with
              | model himportable hconstruct hnodup hfields =>
                  rw [dumpsDict_eq_traverse, Assoc.traverse_eq_ok] at hpairs
                  rw [hitems] at hloads
                  rw [loadsPairs_eq_traverse, Assoc.traverse_eq_ok] at hitems
                  have hnodup' : (decoded.map Prod.fst).Nodup := by
                    rw [← hitems.keys, ← hpairs.keys]
                    exact hnodup
                  dsimp only at hloads
                  rw [Assoc.ofPairs_of_nodup hnodup', jsonObjectHook_eq_dict, reserved,
                    ← hasNames_of_related hitems, ← hasNames_of_related hpairs] at hloads
                  rw [reserved, hloads.1] at hreserved
                  cases hreserved
  | item hitem _ ih =>
      obtain ⟨encoded, hencoded, rfl⟩ := dumps_list_eq_ok hdumps
      obtain ⟨b, hb, hdumps'⟩ := exists_of_forall₂ hencoded hitem
      cases hv with
      | list hitems =>
          obtain ⟨failure, hfailure⟩ := ih (hitems _ hitem) hdumps'
          rw [loads]
          cases hloads : loadsItems c encoded with
          | error failure => exact ⟨failure, rfl⟩
          | ok values =>
              obtain ⟨w, hw⟩ := loadsItems_mem hloads hb
              rw [hfailure] at hw
              cases hw
  | value hitem _ ih =>
      obtain ⟨pairs, hpairs, rfl⟩ := dumps_dict_eq_ok hdumps
      obtain ⟨e, he, hdumps'⟩ := exists_of_dumpsDict hpairs hitem
      cases hv with
      | dict hnodup hreserved hitems =>
          obtain ⟨failure, hfailure⟩ := ih (hitems _ hitem) hdumps'
          exact loads_obj_error he hfailure
  | field hfield _ ih =>
      obtain ⟨pairs, hpairs, rfl⟩ := dumps_model_eq_ok hdumps
      obtain ⟨e, he, hdumps'⟩ := exists_of_dumpsDict hpairs hfield
      cases hv with
      | model himportable hconstruct hnodup hfields =>
          obtain ⟨failure, hfailure⟩ := ih (hfields _ hfield) hdumps'
          obtain ⟨failure', hfailure'⟩ := loads_obj_error he hfailure
          exact ⟨failure', loads_record_error hfailure'⟩

theorem Encodable.roundTrips_iff (h : Encodable c v) : RoundTrips c v ↔ ¬ ReservedInside v := by
  constructor
  · rintro ⟨a, hdumps, hloads⟩ hreserved
    obtain ⟨failure, hfailure⟩ := loads_error hreserved h hdumps
    rw [hloads] at hfailure
    cases hfailure
  · exact h.roundTrips

theorem plainItems_eq_self {items : List Json} (h : ∀ a ∈ items, plain a = a) :
    plainItems items = items := by
  induction items with
  | nil => rfl
  | cons a items ih =>
      rw [plainItems, h a List.mem_cons_self, ih fun b hb => h b (List.mem_cons_of_mem a hb)]

theorem plain_obj_eq_self {pairs : List (String × Json)} (h : ∀ e ∈ pairs, plain e.2 = e.2)
    (hnodup : (pairs.map Prod.fst).Nodup) : plain (.obj pairs) = .obj pairs := by
  have hpairs : plainPairs pairs = pairs := by
    clear hnodup
    induction pairs with
    | nil => rfl
    | cons e pairs ih =>
        rw [plainPairs, h e List.mem_cons_self, ih fun f hf => h f (List.mem_cons_of_mem e hf)]
  rw [plain, hpairs, Assoc.ofPairs_of_nodup hnodup]

theorem plain_dumpsDict {items : List (String × Value)} {pairs : List (String × Json)}
    (h : ∀ item ∈ items, ∀ {a}, dumps c item.2 = .ok a → plain a = a)
    (hnodup : (items.map Prod.fst).Nodup) (hdumps : dumpsDict c items = .ok pairs) :
    plain (.obj pairs) = .obj pairs := by
  rw [dumpsDict_eq_traverse, Assoc.traverse_eq_ok] at hdumps
  rw [hdumps.keys] at hnodup
  refine plain_obj_eq_self ?_ hnodup
  intro e he
  obtain ⟨item, hitem, -, hencoded⟩ := hdumps.mem_right he
  exact h item hitem hencoded

/-- The objects of an encoded value have each name once. -/
theorem Encodable.plain_dumps (h : Encodable c v) (hdumps : dumps c v = .ok a) : plain a = a := by
  induction h generalizing a with
  | none =>
      cases hdumps
      rfl
  | bool b =>
      cases hdumps
      rfl
  | int n =>
      cases hdumps
      rfl
  | float q =>
      cases hdumps
      rfl
  | str s =>
      cases hdumps
      rfl
  | list hitems ih =>
      obtain ⟨encoded, hencoded, rfl⟩ := dumps_list_eq_ok hdumps
      rw [plain, plainItems_eq_self]
      intro b hb
      obtain ⟨item, hitem, hb'⟩ := exists_of_forall₂ hencoded.flip hb
      exact ih item hitem hb'
  | dict hnodup hreserved hitems ih =>
      obtain ⟨pairs, hpairs, rfl⟩ := dumps_dict_eq_ok hdumps
      exact plain_dumpsDict ih hnodup hpairs
  | bytes content =>
      cases hdumps
      rfl
  | @model path fields himportable hconstruct hnodup hfields ih =>
      obtain ⟨pairs, hpairs, rfl⟩ := dumps_model_eq_ok hdumps
      have hrecord : plain (record path (.obj pairs)) = record path (plain (.obj pairs)) := rfl
      rw [hrecord, plain_dumpsDict ih hnodup hpairs]

end Codec

/-! ## Dataclasses as dictionaries -/

/-- `__name__` of a class, from its path. -/
def className (path : String) : String :=
  String.ofList (path.toList.reverse.takeWhile fun c => c ≠ '.' && c ≠ ':').reverse

mutual

/-- `json.dumps` of a value without `json_default`. -/
def dumpsPlain : Value → Except Failure Json
  | .none => .ok .null
  | .bool b => .ok (.bool b)
  | .int n => .ok (.int n)
  | .float (.finite q) => .ok (.float (.finite q))
  | .float _ => .error (.value "Out of range float values are not JSON compliant")
  | .str s => .ok (.str s)
  | .list items => (dumpsPlainItems items).map .list
  | .dict items => (dumpsPlainDict items).map .obj
  | .bytes _ => .error (.type "Object of type bytes is not JSON serializable")
  | .model path _ => .error (.type s!"Object of type {className path} is not JSON serializable")
  | .object type => .error (.type s!"Object of type {className type} is not JSON serializable")

def dumpsPlainItems : List Value → Except Failure (List Json)
  | [] => .ok []
  | v :: items =>
      match dumpsPlain v with
      | .ok a => (dumpsPlainItems items).map (a :: ·)
      | .error failure => .error failure

def dumpsPlainDict : List (String × Value) → Except Failure (List (String × Json))
  | [] => .ok []
  | (name, v) :: items =>
      match dumpsPlain v with
      | .ok a => (dumpsPlainDict items).map ((name, a) :: ·)
      | .error failure => .error failure

end

/-- A class that a caller expects: its name, and the classes whose instances it accepts. -/
structure Expected where
  qualname : String
  isInstance : String → Bool

def dumpDataclass (c : Classes) : Value → Except Failure Value
  | .model path fields => (dumps c (.model path fields)).map fun a => asValue (plain a)
  | _ => .error (.value "Expected a dataclass instance")

def loadDataclass (c : Classes) (value : Value) (expected : Option Expected) :
    Except Failure Value := do
  let payload ← dumpsPlain value
  match ← loads c payload with
  | .model path fields =>
      match expected with
      | some cls =>
          if cls.isInstance path then return .model path fields
          else .error (.value s!"Expected {cls.qualname}")
      | none => return .model path fields
  | _ => .error (.value "Expected a dataclass record")

section Dataclasses

variable {c : Classes}

mutual

/-- Plain containers need no default. -/
theorem dumpsPlain_asValue : ∀ {a b : Json}, dumps c (asValue a) = .ok b →
    dumpsPlain (asValue a) = .ok b
  | .null, _, h | .bool _, _, h | .int _, _, h | .str _, _, h | .float (.finite _), _, h => h
  | .float (.infinite _), _, h | .float .nan, _, h => by cases h
  | .list items, b, h => by
      obtain ⟨encoded, hencoded, rfl⟩ := dumps_list_eq_ok h
      rw [asValue, dumpsPlain, dumpsPlainItems_asValues (dumpsItems_eq_ok.mpr hencoded)]
      rfl
  | .obj items, b, h => by
      obtain ⟨pairs, hpairs, rfl⟩ := dumps_dict_eq_ok h
      rw [asValue, dumpsPlain, dumpsPlainDict_asDict hpairs]
      rfl

theorem dumpsPlainItems_asValues : ∀ {items encoded : List Json},
    dumpsItems c (asValues items) = .ok encoded → dumpsPlainItems (asValues items) = .ok encoded
  | [], _, h => h
  | a :: items, encoded, h => by
      rw [asValues, dumpsItems_eq_ok, List.forall₂_cons_left_iff] at h
      obtain ⟨b, rest, hb, hrest, rfl⟩ := h
      rw [asValues, dumpsPlainItems, dumpsPlain_asValue hb,
        dumpsPlainItems_asValues (dumpsItems_eq_ok.mpr hrest)]
      rfl

theorem dumpsPlainDict_asDict : ∀ {items pairs : List (String × Json)},
    dumpsDict c (asDict items) = .ok pairs → dumpsPlainDict (asDict items) = .ok pairs
  | [], _, h => h
  | (name, a) :: items, pairs, h => by
      rw [asDict, dumpsDict_eq_traverse, Assoc.traverse_eq_ok, Assoc.Related,
        List.forall₂_cons_left_iff] at h
      obtain ⟨e, rest, ⟨rfl, he⟩, hrest, rfl⟩ := h
      have hrest' : dumpsDict c (asDict items) = .ok rest := by
        rw [dumpsDict_eq_traverse, Assoc.traverse_eq_ok]
        exact hrest
      rw [asDict, dumpsPlainDict, dumpsPlain_asValue he, dumpsPlainDict_asDict hrest']
      rfl

end

variable {v : Value} {a : Json} {path : String} {fields : List (String × Value)}

/-- The caller accepts instances of the class. -/
def Accepted (expected : Option Expected) (path : String) : Prop :=
  ∀ cls, expected = some cls → cls.isInstance path = true

/-- `load_dataclass` decodes the text that `dump_dataclass` read without models. -/
theorem loadDataclass_of_dumps (hdumps : dumps c v = .ok a) {expected : Option Expected}
    (haccepted : Accepted expected path) :
    loadDataclass c (asValue (plain a)) expected = .ok (.model path fields) ↔
      loads c (plain a) = .ok (.model path fields) := by
  unfold loadDataclass
  rw [dumpsPlain_asValue (dumps_asValue hdumps)]
  change (loads c (plain a) >>= _) = _ ↔ _
  cases hloads : loads c (plain a) with
  | error failure => exact iff_of_false nofun nofun
  | ok w =>
      cases w with
      | model path' fields' =>
          constructor
          · intro h
            cases expected with
            | none => exact h
            | some cls =>
                change (if cls.isInstance path' = true then _ else _) = _ at h
                split_ifs at h
                exact h
          · intro h
            cases h
            cases expected with
            | none => rfl
            | some cls =>
                change (if cls.isInstance path = true then _ else _) = _
                rw [if_pos (haccepted cls rfl)]
                rfl
      | none => exact iff_of_false nofun nofun
      | bool b => exact iff_of_false nofun nofun
      | int n => exact iff_of_false nofun nofun
      | float x => exact iff_of_false nofun nofun
      | str s => exact iff_of_false nofun nofun
      | list items => exact iff_of_false nofun nofun
      | dict items => exact iff_of_false nofun nofun
      | bytes content => exact iff_of_false nofun nofun
      | object type => exact iff_of_false nofun nofun

/-- The two helpers do what the text does. -/
theorem dataclass_roundTrips_iff (h : Encodable c (.model path fields)) {expected : Option Expected}
    (haccepted : Accepted expected path) :
    (∃ r, dumpDataclass c (.model path fields) = .ok r ∧
      loadDataclass c r expected = .ok (.model path fields)) ↔ RoundTrips c (.model path fields) := by
  have hloads : ∀ a, dumps c (.model path fields) = .ok a →
      (loadDataclass c (asValue (plain a)) expected = .ok (.model path fields) ↔
        loads c a = .ok (.model path fields)) := by
    intro a hdumps
    rw [loadDataclass_of_dumps hdumps haccepted, h.plain_dumps hdumps]
  have hdump : dumpDataclass c (.model path fields) =
      (dumps c (.model path fields)).map fun a => asValue (plain a) := rfl
  rw [hdump, RoundTrips]
  constructor
  · rintro ⟨r, hr, hload⟩
    cases hdumps : dumps c (.model path fields) with
    | error failure =>
        rw [hdumps] at hr
        cases hr
    | ok a =>
        rw [hdumps] at hr
        cases hr
        exact ⟨a, rfl, (hloads a hdumps).mp hload⟩
  · rintro ⟨a, hdumps, hload⟩
    refine ⟨asValue (plain a), ?_, (hloads a hdumps).mpr hload⟩
    rw [hdumps]
    rfl

end Dataclasses

/-! ## Entries -/

section Entries

open JSONEntryCodec

variable {c : Classes} {entry : CacheEntry} {a : Json}

theorem loads_envelope_error {data : Json} {failure : Failure} (h : Cache.loads c data = .error failure) :
    Cache.loads c (envelope entry data) = .error failure := by
  rw [envelope, Cache.loads, loadsPairs, h]

/-- An entry comes back if its data does. -/
theorem entry_roundTrips_iff (hvalidate : validate entry = .ok ()) :
    (∃ payload, JSONEntryCodec.dumps c entry = .ok payload ∧
      JSONEntryCodec.loads c payload = .ok entry) ↔ RoundTrips c entry.data := by
  have hvalid := valid_of_validate hvalidate
  unfold JSONEntryCodec.dumps JSONEntryCodec.loads
  rw [encode_of_validate hvalidate]
  change (∃ payload, Cache.dumps c (.dict (fieldsOf entry)) = .ok payload ∧ _) ↔ _
  constructor
  · rintro ⟨payload, hdumps, hloads⟩
    cases hdata : Cache.dumps c entry.data with
    | error failure =>
        obtain ⟨pairs, hpairs, -⟩ := dumps_dict_eq_ok hdumps
        rw [fieldsOf, dumpsDict, hdata] at hpairs
        cases hpairs
    | ok data =>
        have hpayload := dumps_fieldsOf hvalid hdata
        rw [hdumps] at hpayload
        cases hpayload
        cases hback : Cache.loads c data with
        | error failure =>
            rw [loads_envelope_error hback] at hloads
            cases hloads
        | ok w =>
            have hentry : ({ entry with data := w } : CacheEntry) = entry := by
              have hvalidate' : validate { entry with data := w } = .ok () := hvalidate
              have henvelope : envelope entry data = envelope { entry with data := w } data := rfl
              rw [henvelope, @loads_envelope c { entry with data := w } data hvalid hback] at hloads
              exact Except.ok.inj ((decode_of_validate hvalidate').symm.trans hloads)
            refine ⟨data, hdata, hback.trans ?_⟩
            rw [← hentry]
  · rintro ⟨data, hdata, hback⟩
    refine ⟨envelope entry data, dumps_fieldsOf hvalid hdata, ?_⟩
    rw [loads_envelope hvalid hback]
    exact decode_of_validate hvalidate

end Entries

section Codec

variable {c : Classes} {v : Value}

/-- A value of the codec comes back from the text, as a dictionary of `dump_dataclass` and in a cache
entry, exactly if no class with the two reserved fields is in it. -/
theorem codec_roundTrips_iff (h : Encodable c v) :
    (RoundTrips c v ↔ ¬ ReservedInside v) ∧
    (∀ path fields, v = .model path fields → ∀ expected, Accepted expected path →
      ((∃ r, dumpDataclass c v = .ok r ∧ loadDataclass c r expected = .ok v) ↔ ¬ ReservedInside v)) ∧
    ∀ entry : CacheEntry, entry.data = v → JSONEntryCodec.validate entry = .ok () →
      ((∃ payload, JSONEntryCodec.dumps c entry = .ok payload ∧
        JSONEntryCodec.loads c payload = .ok entry) ↔ ¬ ReservedInside v) := by
  refine ⟨h.roundTrips_iff, ?_, ?_⟩
  · rintro path fields rfl expected haccepted
    rw [dataclass_roundTrips_iff h haccepted, h.roundTrips_iff]
  · rintro entry rfl hvalidate
    rw [entry_roundTrips_iff hvalidate, h.roundTrips_iff]

/-- A record with bytes in it. -/
def payloadRecord : Value :=
  .model "models:Payload" [("values", .dict [("output", .bytes [0, 255]), ("_type", .str "bytes")])]

theorem payloadRecord_roundTrips : RoundTrips JSONCacheDir.anyClass payloadRecord := by
  have hencodable : Encodable JSONCacheDir.anyClass payloadRecord := by
    refine .model rfl rfl (by decide) ?_
    intro field hfield
    obtain rfl := List.mem_singleton.mp hfield
    refine .dict (by decide) (by decide) ?_
    intro item hitem
    simp only [List.mem_cons, List.not_mem_nil, or_false] at hitem
    rcases hitem with rfl | rfl
    · exact .bytes _
    · exact .str _
  refine (codec_roundTrips_iff hencodable).1.mpr ?_
  intro h
  cases h with
  | here hreserved => cases hreserved
  | field hfield h =>
      obtain rfl := List.mem_singleton.mp hfield
      cases h with
      | value hitem h =>
          simp only [List.mem_cons, List.not_mem_nil, or_false] at hitem
          rcases hitem with rfl | rfl
          · cases h
          · cases h

/-- An instance of a class with the two reserved names. -/
def reservedRecord : Value := .model "models:Tagged" [("_type", .str "a"), ("_value", .str "b")]

theorem reservedRecord_lost : Encodable JSONCacheDir.anyClass reservedRecord ∧
    ¬ RoundTrips JSONCacheDir.anyClass reservedRecord ∧
    ¬ (∃ r, dumpDataclass JSONCacheDir.anyClass reservedRecord = .ok r ∧
      loadDataclass JSONCacheDir.anyClass r none = .ok reservedRecord) ∧
    ¬ ∃ payload, JSONEntryCodec.dumps JSONCacheDir.anyClass
        ⟨reservedRecord, .float (.finite 1), .int 1⟩ = .ok payload ∧
      JSONEntryCodec.loads JSONCacheDir.anyClass payload =
        .ok ⟨reservedRecord, .float (.finite 1), .int 1⟩ := by
  have hlost : ¬ RoundTrips JSONCacheDir.anyClass reservedRecord := by
    rintro ⟨a, hdumps, hloads⟩
    cases hdumps
    cases hloads
  refine ⟨?_, hlost, ?_, ?_⟩
  · refine .model rfl rfl (by decide) ?_
    intro field hfield
    simp only [List.mem_cons, List.not_mem_nil, or_false] at hfield
    rcases hfield with rfl | rfl
    · exact .str _
    · exact .str _
  · rintro ⟨r, hdumps, hloads⟩
    cases hdumps
    cases hloads
  · rw [entry_roundTrips_iff (validate_of_valid (by decide) fun _ h => Value.noConfusion h)]
    exact hlost

end Codec

end Cache

end Rmote
