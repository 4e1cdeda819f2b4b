import Rmote.Library.Assoc

/-!
# Frozen values

What `freeze` makes of plain data: scalars, `DeepMappingProxy` objects, tuples and frozensets. The
keys of a mapping are hashable values, taken up to Python's equality; equal frozensets among them
list their members in the same order. A frozenset of values is a list of its members, and `Same` is
Python's `==`, which looks neither at their order nor at the order of a mapping.
-/

namespace Rmote

namespace Immutable

/-- What `_immutable_key` tells apart: a builtin scalar, a tuple or a frozenset with its members, or
any other object, with the name of its type. -/
inductive Key (A : Type) where
  | scalar (value : A)
  | group (type : String) (members : List (Key A))
  | other (type : String) (value : A)

section Keys

variable {A : Type}

mutual

/-- `_immutable_key`. -/
def Key.immutable : Key A → Bool
  | .scalar _ => true
  | .group _ members => allImmutable members
  | .other _ _ => false

def allImmutable : List (Key A) → Bool
  | [] => true
  | key :: rest => key.immutable && allImmutable rest

end

/-- `type(key).__qualname__` of a key that is refused. -/
def Key.qualname : Key A → String
  | .scalar _ => "scalar"
  | .group type _ => type
  | .other type _ => type

variable [DecidableEq A]

mutual

def Key.decEq : (key other : Key A) → Decidable (key = other)
  | .scalar a, .scalar b => decidable_of_iff (a = b) ⟨congrArg _, Key.scalar.inj⟩
  | .group type members, .group type' members' =>
      match decEqAll members members' with
      | .isTrue h => decidable_of_iff (type = type')
          ⟨fun htype => by rw [htype, h], fun heq => (Key.group.inj heq).1⟩
      | .isFalse h => .isFalse fun heq => h (Key.group.inj heq).2
  | .other type a, .other type' b => decidable_of_iff (type = type' ∧ a = b)
      ⟨fun h => by rw [h.1, h.2], Key.other.inj⟩
  | .scalar _, .group _ _ => .isFalse nofun
  | .scalar _, .other _ _ => .isFalse nofun
  | .group _ _, .scalar _ => .isFalse nofun
  | .group _ _, .other _ _ => .isFalse nofun
  | .other _ _, .scalar _ => .isFalse nofun
  | .other _ _, .group _ _ => .isFalse nofun

def decEqAll : (keys others : List (Key A)) → Decidable (keys = others)
  | [], [] => .isTrue rfl
  | key :: rest, other :: others =>
      match Key.decEq key other with
      | .isTrue h =>
          match decEqAll rest others with
          | .isTrue h' => .isTrue (by rw [h, h'])
          | .isFalse h' => .isFalse fun heq => h' (List.cons.inj heq).2
      | .isFalse h => .isFalse fun heq => h (List.cons.inj heq).1
  | [], _ :: _ => .isFalse nofun
  | _ :: _, [] => .isFalse nofun

end

instance : DecidableEq (Key A) := Key.decEq

end Keys

/-- `FrozenValue`. -/
inductive Frozen (A : Type) where
  | scalar (value : A)
  | proxy (entries : List (Key A × Frozen A))
  | tuple (items : List (Frozen A))
  | frozenset (members : List (Frozen A))

section Frozen

variable {A : Type}

mutual

/-- Whether Python hashes a frozen value: a mapping has no hash, and a tuple needs those of its
items. -/
def Frozen.hashable : Frozen A → Bool
  | .scalar _ => true
  | .proxy _ => false
  | .tuple items => allHashable items
  | .frozenset _ => true

def allHashable : List (Frozen A) → Bool
  | [] => true
  | item :: rest => item.hashable && allHashable rest

end

theorem allHashable_iff {items : List (Frozen A)} :
    allHashable items = true ↔ ∀ item ∈ items, item.hashable = true := by
  induction items with
  | nil => simp [allHashable]
  | cons item rest ih => simp [allHashable, ih]

/-- Induction over a frozen value, with a hypothesis for every part. -/
theorem Frozen.induction {P : Frozen A → Prop} (scalar : ∀ value, P (.scalar value))
    (proxy : ∀ entries, (∀ entry ∈ entries, P entry.2) → P (.proxy entries))
    (tuple : ∀ items, (∀ item ∈ items, P item) → P (.tuple items))
    (frozenset : ∀ members, (∀ member ∈ members, P member) → P (.frozenset members)) :
    ∀ value, P value := by
  apply @Frozen.rec A P (fun entries => ∀ entry ∈ entries, P entry.2)
    (fun items => ∀ item ∈ items, P item) (fun entry => P entry.2) scalar proxy tuple frozenset
  · intro entry hentry
    exact absurd hentry List.not_mem_nil
  · intro entry entries hhead hrest e he
    rcases List.mem_cons.mp he with rfl | he
    · exact hhead
    · exact hrest e he
  · intro item hitem
    exact absurd hitem List.not_mem_nil
  · intro item items hhead hrest i hi
    rcases List.mem_cons.mp hi with rfl | hi
    · exact hhead
    · exact hrest i hi
  · intro key value hvalue
    exact hvalue

variable [DecidableEq A]

/-- `==` of frozen values. -/
inductive Same : Frozen A → Frozen A → Prop
  | scalar (value : A) : Same (.scalar value) (.scalar value)
  | proxy {entries entries' : List (Key A × Frozen A)}
      (hkeys : ∀ key, (entries.lookup key).isSome = (entries'.lookup key).isSome)
      (hvalues : ∀ key value value', entries.lookup key = some value →
        entries'.lookup key = some value' → Same value value') :
      Same (.proxy entries) (.proxy entries')
  | tuple {items items' : List (Frozen A)} (hlength : items.length = items'.length)
      (hitems : ∀ (i : Nat) item item', items[i]? = some item → items'[i]? = some item' →
        Same item item') :
      Same (.tuple items) (.tuple items')
  | frozenset {members members' : List (Frozen A)} (image preimage : Frozen A → Frozen A)
      (himage : ∀ member ∈ members, image member ∈ members')
      (hpreimage : ∀ member ∈ members', preimage member ∈ members)
      (hsame : ∀ member ∈ members, Same member (image member))
      (hsame' : ∀ member ∈ members', Same (preimage member) member) :
      Same (.frozenset members) (.frozenset members')

/-- Every member of one frozenset equals one of the other. -/
theorem same_frozenset {members members' : List (Frozen A)}
    (hleft : ∀ member ∈ members, ∃ member' ∈ members', Same member member')
    (hright : ∀ member' ∈ members', ∃ member ∈ members, Same member member') :
    Same (.frozenset members) (.frozenset members') := by
  have himage : ∀ member, ∃ member',
      member ∈ members → member' ∈ members' ∧ Same member member' := by
    intro member
    by_cases hmember : member ∈ members
    · obtain ⟨member', h⟩ := hleft member hmember
      exact ⟨member', fun _ => h⟩
    · exact ⟨member, fun h => absurd h hmember⟩
  have hpreimage : ∀ member', ∃ member,
      member' ∈ members' → member ∈ members ∧ Same member member' := by
    intro member'
    by_cases hmember' : member' ∈ members'
    · obtain ⟨member, h⟩ := hright member' hmember'
      exact ⟨member, fun _ => h⟩
    · exact ⟨member', fun h => absurd h hmember'⟩
  choose image himage using himage
  choose preimage hpreimage using hpreimage
  exact .frozenset image preimage (fun m hm => (himage m hm).1) (fun m hm => (hpreimage m hm).1)
    (fun m hm => (himage m hm).2) fun m hm => (hpreimage m hm).2

theorem Same.refl (value : Frozen A) : Same value value := by
  induction value using Frozen.induction with
  | scalar value => exact .scalar value
  | proxy entries ih =>
      refine .proxy (fun _ => rfl) ?_
      intro key value value' hvalue hvalue'
      obtain rfl := Option.some.inj (hvalue.symm.trans hvalue')
      exact ih _ (Assoc.mem_of_lookup hvalue)
  | tuple items ih =>
      refine .tuple rfl ?_
      intro i item item' hitem hitem'
      obtain rfl := Option.some.inj (hitem.symm.trans hitem')
      exact ih item (List.mem_of_getElem? hitem)
  | frozenset members ih => exact .frozenset id id (fun _ => id) (fun _ => id) ih ih

omit [DecidableEq A] in
theorem getElem?_of_length {items items' : List (Frozen A)} (h : items.length = items'.length)
    {i : Nat} {item : Frozen A} (hitem : items[i]? = some item) : ∃ item', items'[i]? = some item' := by
  obtain ⟨hi, -⟩ := List.getElem?_eq_some_iff.mp hitem
  exact ⟨_, List.getElem?_eq_getElem (h ▸ hi)⟩

/-- Equal values are hashable alike. -/
theorem Same.hashable {value value' : Frozen A} (h : Same value value') :
    value.hashable = value'.hashable := by
  induction h with
  | scalar value => rfl
  | proxy _ _ _ => rfl
  | @tuple items items' hlength hitems ih =>
      rw [Frozen.hashable, Frozen.hashable, Bool.eq_iff_iff, allHashable_iff, allHashable_iff]
      constructor
      · intro h item' hitem'
        obtain ⟨i, hi⟩ := List.mem_iff_getElem?.mp hitem'
        obtain ⟨item, hitem⟩ := getElem?_of_length hlength.symm hi
        rw [← ih i item item' hitem hi]
        exact h item (List.mem_of_getElem? hitem)
      · intro h item hitem
        obtain ⟨i, hi⟩ := List.mem_iff_getElem?.mp hitem
        obtain ⟨item', hitem'⟩ := getElem?_of_length hlength hi
        rw [ih i item item' hi hitem']
        exact h item' (List.mem_of_getElem? hitem')
  | frozenset _ _ _ _ _ _ _ _ => rfl

end Frozen

end Immutable

end Rmote
