import Mathlib.Data.Rat.Defs
import Mathlib.Algebra.Order.Ring.Unbundled.Rat
import Rmote.Library.Assoc

/-!
# JSON with tagged values

`Json` is the tree of a JSON text as the scanner sees it, so a name may come twice in an object.
`Value` is what Python code has: the plain containers, and the bytes and dataclasses that stand in
a text as objects with the two names `_type` and `_value`. Such an object is decoded as soon as
what is inside it is decoded. The import of a class and its constructor are parameters.
-/

namespace Rmote

namespace Cache

/-- A Python `float`. -/
inductive Real where
  | finite (q : ℚ)
  | infinite (negative : Bool)
  | nan
  deriving DecidableEq

/-- The tree of a JSON text. -/
inductive Json where
  | null
  | bool (b : Bool)
  | int (n : ℤ)
  | float (x : Real)
  | str (s : String)
  | list (items : List Json)
  | obj (pairs : List (String × Json))

/-- A Python value. -/
inductive Value where
  | none
  | bool (b : Bool)
  | int (n : ℤ)
  | float (x : Real)
  | str (s : String)
  | list (items : List Value)
  | dict (items : List (String × Value))
  | bytes (content : List UInt8)
  /-- An instance of a dataclass, with the class path and the fields of its constructor. -/
  | model (path : String) (fields : List (String × Value))
  /-- Anything that JSON does not know. -/
  | object (type : String)

inductive Failure where
  | value (text : String)
  | type (text : String)
  | overflow
  /-- What a class raises in its constructor, or its module while it is imported. -/
  | other (text : String)
  deriving DecidableEq

/-- The classes that can be imported. -/
structure Classes where
  /-- `resolve_class` and the call of the class with the fields. -/
  construct : String → List (String × Value) → Except Failure (List (String × Value))
  /-- `dataclass_path` finds the class under its path. -/
  importable : String → Bool

/-! ## Bytes -/

/-- The digits of base 64. -/
def digits : List Char :=
  "ABCDEFGHIJKLMNOPQRSTUVWXYZabcdefghijklmnopqrstuvwxyz0123456789+/".toList

def digit (n : ℕ) : Char := digits.getD (n % 64) 'A'

/-- Three bytes at a time. -/
def b64encode : List UInt8 → List Char
  | [] => []
  | [a] => [digit (a.toNat / 4), digit (a.toNat % 4 * 16), '=', '=']
  | [a, b] =>
      [digit (a.toNat / 4), digit (a.toNat % 4 * 16 + b.toNat / 16), digit (b.toNat % 16 * 4), '=']
  | a :: b :: c :: rest =>
      digit (a.toNat / 4) :: digit (a.toNat % 4 * 16 + b.toNat / 16) ::
        digit (b.toNat % 16 * 4 + c.toNat / 64) :: digit (c.toNat % 64) :: b64encode rest

def digitValue (c : Char) : Option ℕ :=
  if c ∈ digits then some (digits.idxOf c) else none

/-- Four digits at a time, with nothing but digits and the padding at the end. -/
def b64decode : List Char → Option (List UInt8)
  | [] => some []
  | [a, b, '=', '='] => do
      let a ← digitValue a
      let b ← digitValue b
      return [UInt8.ofNat (a * 4 + b / 16)]
  | [a, b, c, '='] => do
      let a ← digitValue a
      let b ← digitValue b
      let c ← digitValue c
      return [UInt8.ofNat (a * 4 + b / 16), UInt8.ofNat (b % 16 * 16 + c / 4)]
  | a :: b :: c :: d :: rest => do
      let a ← digitValue a
      let b ← digitValue b
      let c ← digitValue c
      let d ← digitValue d
      let rest ← b64decode rest
      return UInt8.ofNat (a * 4 + b / 16) :: UInt8.ofNat (b % 16 * 16 + c / 4) ::
        UInt8.ofNat (c % 4 * 64 + d) :: rest
  | _ => none

/-! ## The hooks -/

/-- The names of a dictionary are exactly these two. -/
def hasNames {α : Type} (a b : String) (items : List (String × α)) : Bool :=
  (items.all fun e => e.1 = a || e.1 = b) && (items.lookup a).isSome && (items.lookup b).isSome

/-- The shape that is reserved for encoded values. -/
def reserved {α : Type} (items : List (String × α)) : Bool := hasNames "_type" "_value" items

/-- Decode a reserved record. -/
def untag (c : Classes) : Option Value → Option Value → Except Failure Value
  | some (.str "bytes"), some (.str payload) =>
      match b64decode payload.toList with
      | some content => .ok (.bytes content)
      | none => .error (.value "Only base64 data is allowed")
  | some (.str "dataclass"), some (.dict model) =>
      match model.lookup "class", model.lookup "fields" with
      | some (.str path), some (.dict values) =>
          if hasNames "class" "fields" model then
            match c.construct path values with
            | .ok fields => .ok (.model path fields)
            | .error (.type _) => .error (.value s!"Invalid fields for {path}")
            | .error failure => .error failure
          else .error (.value "Invalid dataclass record")
      | _, _ => .error (.value "Unknown or invalid tagged JSON value")
  | _, _ => .error (.value "Unknown or invalid tagged JSON value")

/-- Decode reserved records; leave ordinary dictionaries unchanged. -/
def jsonObjectHook (c : Classes) (items : List (String × Value)) : Except Failure Value :=
  if reserved items then untag c (items.lookup "_type") (items.lookup "_value")
  else .ok (.dict items)

mutual

/-- `json.loads` of a text with the hook. -/
def loads (c : Classes) : Json → Except Failure Value
  | .null => .ok .none
  | .bool b => .ok (.bool b)
  | .int n => .ok (.int n)
  | .float x => .ok (.float x)
  | .str s => .ok (.str s)
  | .list items => (loadsItems c items).map .list
  | .obj pairs =>
      match loadsPairs c pairs with
      | .ok items => jsonObjectHook c (Assoc.ofPairs items)
      | .error failure => .error failure

def loadsItems (c : Classes) : List Json → Except Failure (List Value)
  | [] => .ok []
  | a :: items =>
      match loads c a with
      | .ok v => (loadsItems c items).map (v :: ·)
      | .error failure => .error failure

def loadsPairs (c : Classes) : List (String × Json) → Except Failure (List (String × Value))
  | [] => .ok []
  | (name, a) :: pairs =>
      match loads c a with
      | .ok v => (loadsPairs c pairs).map ((name, v) :: ·)
      | .error failure => .error failure

end

mutual

/-- `json.loads` of a text without a hook: the containers have each name once. -/
def plain : Json → Json
  | .list items => .list (plainItems items)
  | .obj pairs => .obj (Assoc.ofPairs (plainPairs pairs))
  | a => a

def plainItems : List Json → List Json
  | [] => []
  | a :: items => plain a :: plainItems items

def plainPairs : List (String × Json) → List (String × Json)
  | [] => []
  | (name, a) :: pairs => (name, plain a) :: plainPairs pairs

end

mutual

/-- Rebuild the models of one branch that was read without them. -/
def revive (c : Classes) : Json → Except Failure Value
  | .null => .ok .none
  | .bool b => .ok (.bool b)
  | .int n => .ok (.int n)
  | .float x => .ok (.float x)
  | .str s => .ok (.str s)
  | .list items => (reviveItems c items).map .list
  | .obj items =>
      match reviveDict c items with
      | .ok items => jsonObjectHook c items
      | .error failure => .error failure

def reviveItems (c : Classes) : List Json → Except Failure (List Value)
  | [] => .ok []
  | a :: items =>
      match revive c a with
      | .ok v => (reviveItems c items).map (v :: ·)
      | .error failure => .error failure

def reviveDict (c : Classes) : List (String × Json) → Except Failure (List (String × Value))
  | [] => .ok []
  | (name, a) :: items =>
      match revive c a with
      | .ok v => (reviveDict c items).map ((name, v) :: ·)
      | .error failure => .error failure

end

mutual

/-- `json.dumps` of a value with `json_default`, without the special floats. -/
def dumps (c : Classes) : Value → Except Failure Json
  | .none => .ok .null
  | .bool b => .ok (.bool b)
  | .int n => .ok (.int n)
  | .float (.finite q) => .ok (.float (.finite q))
  | .float _ => .error (.value "Out of range float values are not JSON compliant")
  | .str s => .ok (.str s)
  | .list items => (dumpsItems c items).map .list
  | .dict items => (dumpsDict c items).map .obj
  | .bytes content =>
      .ok (.obj [("_type", .str "bytes"), ("_value", .str (String.ofList (b64encode content)))])
  | .model path fields =>
      if c.importable path then
        (dumpsDict c fields).map fun fields => .obj [("_type", .str "dataclass"),
          ("_value", .obj [("class", .str path), ("fields", .obj fields)])]
      else .error (.value s!"Cannot resolve dataclass: {path}")
  | .object type => .error (.type s!"Object of type {type} is not JSON serializable")

def dumpsItems (c : Classes) : List Value → Except Failure (List Json)
  | [] => .ok []
  | v :: items =>
      match dumps c v with
      | .ok a => (dumpsItems c items).map (a :: ·)
      | .error failure => .error failure

def dumpsDict (c : Classes) : List (String × Value) → Except Failure (List (String × Json))
  | [] => .ok []
  | (name, v) :: items =>
      match dumps c v with
      | .ok a => (dumpsDict c items).map ((name, a) :: ·)
      | .error failure => .error failure

end

mutual

/-- The plain containers as Python has them. -/
def asValue : Json → Value
  | .null => .none
  | .bool b => .bool b
  | .int n => .int n
  | .float x => .float x
  | .str s => .str s
  | .list items => .list (asValues items)
  | .obj items => .dict (asDict items)

def asValues : List Json → List Value
  | [] => []
  | a :: items => asValue a :: asValues items

def asDict : List (String × Json) → List (String × Value)
  | [] => []
  | (name, a) :: items => (name, asValue a) :: asDict items

end

/-! ## What the two ways to decode have in common -/

section Decoding

variable {c : Classes} {v : Value} {a : Json} {pairs : List (String × Json)}
  {items : List (String × Value)}

theorem loadsPairs_eq_traverse (pairs : List (String × Json)) :
    loadsPairs c pairs = Assoc.traverse (loads c) pairs := by
  induction pairs with
  | nil => rw [loadsPairs, Assoc.traverse]
  | cons e pairs ih =>
      rw [loadsPairs, Assoc.traverse, ih]
      cases loads c e.2 <;> rfl

theorem reviveDict_eq_traverse (items : List (String × Json)) :
    reviveDict c items = Assoc.traverse (revive c) items := by
  induction items with
  | nil => rw [reviveDict, Assoc.traverse]
  | cons e items ih =>
      rw [reviveDict, Assoc.traverse, ih]
      cases revive c e.2 <;> rfl

mutual

/-- What the parser decodes in one go, `revive` decodes from the plain containers. -/
theorem revive_plain : ∀ {a : Json} {v : Value}, loads c a = .ok v → revive c (plain a) = .ok v
  | .null, _, h => h
  | .bool _, _, h => h
  | .int _, _, h => h
  | .float _, _, h => h
  | .str _, _, h => h
  | .list items, v, h => by
      rw [loads] at h
      cases hitems : loadsItems c items with
      | error failure =>
          rw [hitems] at h
          cases h
      | ok values =>
          rw [hitems] at h
          rw [plain, revive, reviveItems_plain hitems]
          exact h
  | .obj pairs, v, h => by
      rw [loads] at h
      split at h
      · rename_i items hpairs
        rw [plain, revive, reviveDict_eq_traverse,
          Assoc.traverse_eq_ok.mpr (revive_plainPairs hpairs).ofPairs]
        exact h
      · cases h

theorem reviveItems_plain : ∀ {items : List Json} {values : List Value},
    loadsItems c items = .ok values → reviveItems c (plainItems items) = .ok values
  | [], _, h => h
  | a :: items, values, h => by
      rw [loadsItems] at h
      split at h
      · rename_i v hv
        cases hrest : loadsItems c items with
        | error failure =>
            rw [hrest] at h
            cases h
        | ok rest =>
            rw [hrest] at h
            rw [plainItems, reviveItems, revive_plain hv, reviveItems_plain hrest]
            exact h
      · cases h

theorem revive_plainPairs : ∀ {pairs : List (String × Json)} {items : List (String × Value)},
    loadsPairs c pairs = .ok items →
      Assoc.Related (fun a v => revive c a = .ok v) (plainPairs pairs) items
  | [], _, h => by
      cases h
      exact .nil
  | (name, a) :: pairs, items, h => by
      rw [loadsPairs] at h
      split at h
      · rename_i v hv
        cases hrest : loadsPairs c pairs with
        | error failure =>
            rw [hrest] at h
            cases h
        | ok rest =>
            rw [hrest] at h
            cases h
            rw [plainPairs]
            exact .cons ⟨rfl, revive_plain hv⟩ (revive_plainPairs hrest)
      · cases h

end

/-- The shape is told by the names. -/
theorem hasNames_of_related {α β : Type} {R : α → β → Prop} {l : List (String × α)}
    {m : List (String × β)} (h : Assoc.Related R l m) (x y : String) :
    hasNames x y l = hasNames x y m := by
  have hall : (l.all fun e => e.1 = x || e.1 = y) = m.all fun e => e.1 = x || e.1 = y := by
    induction h with
    | nil => rfl
    | cons hhead _ ih => rw [List.all_cons, List.all_cons, hhead.1, ih]
  have hlookup : ∀ z, (l.lookup z).isSome = (m.lookup z).isSome := by
    intro z
    rw [Bool.eq_iff_iff, Assoc.lookup_isSome, Assoc.lookup_isSome, h.keys]
  rw [hasNames, hasNames, hall, hlookup, hlookup]

/-- A reserved record is no dictionary any more. -/
theorem untag_ne_dict (c : Classes) (type value : Option Value) (items : List (String × Value)) :
    untag c type value ≠ .ok (.dict items) := by
  intro h
  unfold untag at h
  split at h
  · split at h <;> cases h
  · split at h
    · split_ifs at h
      split at h <;> cases h
    · cases h
  · cases h

theorem jsonObjectHook_eq_dict {items items' : List (String × Value)} :
    jsonObjectHook c items = .ok (.dict items') ↔ reserved items = false ∧ items = items' := by
  unfold jsonObjectHook
  split_ifs with hreserved
  · simp [hreserved, untag_ne_dict]
  · simp [hreserved]

mutual

/-- On plain containers the parser and `revive` do the same. -/
theorem loads_plain_eq_revive : ∀ a : Json, loads c (plain a) = revive c (plain a)
  | .null | .bool _ | .int _ | .float _ | .str _ => by rw [plain, loads, revive] <;> simp
  | .list items => by rw [plain, loads, revive, loadsItems_plain_eq_revive items]
  | .obj pairs => by
      have hsame : loadsPairs c (Assoc.ofPairs (plainPairs pairs)) =
          reviveDict c (Assoc.ofPairs (plainPairs pairs)) := by
        rw [loadsPairs_eq_traverse, reviveDict_eq_traverse]
        exact Assoc.traverse_congr fun e he =>
          loadsPairs_plain_eq_revive pairs e (Assoc.mem_of_mem_ofPairs he)
      rw [plain, loads, revive, hsame]
      cases hitems : reviveDict c (Assoc.ofPairs (plainPairs pairs)) with
      | error failure => rfl
      | ok items =>
          rw [reviveDict_eq_traverse] at hitems
          have hnodup := Assoc.nodup_ofPairs (plainPairs pairs)
          rw [(Assoc.traverse_eq_ok.mp hitems).keys] at hnodup
          dsimp only
          rw [Assoc.ofPairs_of_nodup hnodup]

theorem loadsItems_plain_eq_revive : ∀ items : List Json,
    loadsItems c (plainItems items) = reviveItems c (plainItems items)
  | [] => rfl
  | a :: items => by
      rw [plainItems, loadsItems, reviveItems, loads_plain_eq_revive a,
        loadsItems_plain_eq_revive items]

theorem loadsPairs_plain_eq_revive : ∀ pairs : List (String × Json),
    ∀ e ∈ plainPairs pairs, loads c e.2 = revive c e.2
  | [] => nofun
  | (name, a) :: pairs => by
      intro e he
      rw [plainPairs] at he
      rcases List.mem_cons.mp he with rfl | he
      · exact loads_plain_eq_revive a
      · exact loadsPairs_plain_eq_revive pairs e he

end

/-- What was decoded once is decoded again from the plain containers. -/
theorem loads_plain (h : loads c a = .ok v) : loads c (plain a) = .ok v :=
  (loads_plain_eq_revive a).trans (revive_plain h)

theorem dumpsDict_eq_traverse (items : List (String × Value)) :
    dumpsDict c items = Assoc.traverse (dumps c) items := by
  induction items with
  | nil => rw [dumpsDict, Assoc.traverse]
  | cons e items ih =>
      rw [dumpsDict, Assoc.traverse, ih]
      cases dumps c e.2 <;> rfl

theorem dumpsDict_asDict (h : ∀ e ∈ pairs, dumps c (asValue e.2) = .ok e.2) :
    dumpsDict c (asDict pairs) = .ok pairs := by
  induction pairs with
  | nil => rfl
  | cons e pairs ih =>
      rw [asDict, dumpsDict, h e List.mem_cons_self,
        ih fun e' he' => h e' (List.mem_cons_of_mem e he')]
      rfl

theorem dumps_asValue_obj (h : ∀ e ∈ plainPairs pairs, dumps c (asValue e.2) = .ok e.2) :
    dumps c (asValue (plain (.obj pairs))) = .ok (plain (.obj pairs)) := by
  rw [plain, asValue, dumps, dumpsDict_asDict fun e he => h e (Assoc.mem_of_mem_ofPairs he)]
  rfl

mutual

/-- What was encoded once is read without models and encoded again unchanged. -/
theorem dumps_asValue : ∀ {v : Value} {a : Json}, dumps c v = .ok a →
    dumps c (asValue (plain a)) = .ok (plain a)
  | .none, _, h | .bool _, _, h | .int _, _, h | .str _, _, h | .float (.finite _), _, h => by
      cases h
      rfl
  | .float (.infinite _), _, h | .float .nan, _, h | .object _, _, h => by cases h
  | .list items, a, h => by
      rw [dumps] at h
      cases hitems : dumpsItems c items with
      | error failure =>
          rw [hitems] at h
          cases h
      | ok encoded =>
          rw [hitems] at h
          cases h
          rw [plain, asValue, dumps, dumpsItems_asValues hitems]
          rfl
  | .dict items, a, h => by
      rw [dumps] at h
      cases hitems : dumpsDict c items with
      | error failure =>
          rw [hitems] at h
          cases h
      | ok encoded =>
          rw [hitems] at h
          cases h
          exact dumps_asValue_obj (dumpsPairs_asValue hitems)
  | .bytes content, a, h => by
      cases h
      exact dumps_asValue_obj (by simp [plainPairs, plain, asValue, dumps])
  | .model path fields, a, h => by
      rw [dumps] at h
      split_ifs at h
      cases hfields : dumpsDict c fields with
      | error failure =>
          rw [hfields] at h
          cases h
      | ok encoded =>
          rw [hfields] at h
          cases h
          have hencoded := dumps_asValue_obj (dumpsPairs_asValue hfields)
          refine dumps_asValue_obj fun e he => ?_
          simp only [plainPairs, List.mem_cons, List.not_mem_nil, or_false] at he
          rcases he with rfl | rfl
          · rfl
          · refine dumps_asValue_obj fun e he => ?_
            simp only [plainPairs, List.mem_cons, List.not_mem_nil, or_false] at he
            rcases he with rfl | rfl
            · rfl
            · exact hencoded

theorem dumpsItems_asValues : ∀ {items : List Value} {encoded : List Json},
    dumpsItems c items = .ok encoded →
      dumpsItems c (asValues (plainItems encoded)) = .ok (plainItems encoded)
  | [], _, h => by
      cases h
      rfl
  | v :: items, encoded, h => by
      rw [dumpsItems] at h
      split at h
      · rename_i a ha
        cases hrest : dumpsItems c items with
        | error failure =>
            rw [hrest] at h
            cases h
        | ok rest =>
            rw [hrest] at h
            cases h
            rw [plainItems, asValues, dumpsItems, dumps_asValue ha, dumpsItems_asValues hrest]
            rfl
      · cases h

theorem dumpsPairs_asValue : ∀ {items : List (String × Value)} {encoded : List (String × Json)},
    dumpsDict c items = .ok encoded →
      ∀ e ∈ plainPairs encoded, dumps c (asValue e.2) = .ok e.2
  | [], _, h => by
      cases h
      nofun
  | (name, v) :: items, encoded, h => by
      rw [dumpsDict] at h
      split at h
      · rename_i a ha
        cases hrest : dumpsDict c items with
        | error failure =>
            rw [hrest] at h
            cases h
        | ok rest =>
            rw [hrest] at h
            cases h
            intro e he
            rw [plainPairs] at he
            rcases List.mem_cons.mp he with rfl | he
            · exact dumps_asValue ha
            · exact dumpsPairs_asValue hrest e he
      · cases h

end

end Decoding

end Cache

end Rmote
