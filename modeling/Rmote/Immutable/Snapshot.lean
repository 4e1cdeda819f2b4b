import Rmote.Immutable.Freeze

/-!
# Snapshots

`Represents` says which objects are a given frozen value: freezing one of them again gives an
equal value. `updated` is the one method that makes a snapshot out of another one without a walk
over it. It works on dictionaries in a heap, and only on ones of its own.
-/

namespace Rmote

namespace Immutable

open Assoc Relation

variable {V A : Type} [DecidableEq A] {cell : V → Cell V A}

/-- The object is the frozen value: a scalar or a snapshot, a tuple of objects that are its items, or
a frozenset, which has members with a hash only. -/
inductive Represents (cell : V → Cell V A) : V → Frozen A → Prop
  | scalar {r : V} {value : A} (hcell : cell r = .scalar value) : Represents cell r (.scalar value)
  | proxy {r : V} {entries : List (Key A × Frozen A)} (hcell : cell r = .proxy entries) :
      Represents cell r (.proxy entries)
  | tuple {r : V} {items : List V} (value : V → Frozen A) (hcell : cell r = .sequence items)
      (hitems : ∀ item ∈ items, Represents cell item (value item)) :
      Represents cell r (.tuple (items.map value))
  | frozenset {r : V} {items : List V} {members : List (Frozen A)} (value : V → Frozen A)
      (hcell : cell r = .set items) (hitems : ∀ item ∈ items, Represents cell item (value item))
      (hhashable : ∀ item ∈ items, (value item).hashable = true)
      (hmembers : ∀ member, member ∈ members ↔ member ∈ items.map value) :
      Represents cell r (.frozenset members)

/-- What the parts of an object unfold to, by a function. -/
theorem exists_same {items : List V} {value : V → Frozen A}
    (h : ∀ item ∈ items, ∃ value', Unfolds cell item value' ∧ Same (value item) value') :
    ∃ value' : V → Frozen A, (∀ item ∈ items, Unfolds cell item (value' item)) ∧
      ∀ item ∈ items, Same (value item) (value' item) := by
  obtain ⟨value', hvalue'⟩ := exists_value fun item hitem =>
    (h item hitem).imp fun _ hunfolds => hunfolds.1
  refine ⟨value', hvalue', ?_⟩
  intro item hitem
  obtain ⟨value'', hunfolds, hsame⟩ := h item hitem
  rw [(hvalue' item hitem).unique hunfolds]
  exact hsame

/-- A frozen value unfolds to an equal one. -/
theorem Represents.unfolds {r : V} {value : Frozen A} (h : Represents cell r value) :
    ∃ value', Unfolds cell r value' ∧ Same value value' := by
  induction h with
  | scalar hcell => exact ⟨_, .scalar hcell, .refl _⟩
  | proxy hcell => exact ⟨_, .proxy hcell, .refl _⟩
  | @tuple r items value hcell hitems ih =>
      obtain ⟨value', hvalue', hsame⟩ := exists_same ih
      refine ⟨_, .sequence value' hcell hvalue', .tuple (by simp) ?_⟩
      intro i item item' hitem hitem'
      rw [List.getElem?_map, Option.map_eq_some_iff] at hitem hitem'
      obtain ⟨u, hu, rfl⟩ := hitem
      obtain ⟨u', hu', rfl⟩ := hitem'
      obtain rfl := Option.some.inj (hu.symm.trans hu')
      exact hsame u (List.mem_of_getElem? hu)
  | @frozenset r items members value hcell hitems hhashable hmembers ih =>
      obtain ⟨value', hvalue', hsame⟩ := exists_same ih
      refine ⟨_, .set value' hcell hvalue' ?_, ?_⟩
      · intro item hitem
        rw [← (hsame item hitem).hashable]
        exact hhashable item hitem
      · apply same_frozenset
        · intro member hmember
          obtain ⟨item, hitem, rfl⟩ := List.mem_map.mp ((hmembers member).mp hmember)
          exact ⟨_, List.mem_map_of_mem hitem, hsame item hitem⟩
        · intro member' hmember'
          obtain ⟨item, hitem, rfl⟩ := List.mem_map.mp hmember'
          exact ⟨_, (hmembers _).mpr (List.mem_map_of_mem hitem), hsame item hitem⟩

section Updated

/-- The dictionaries of the interpreter, by their addresses. A snapshot is one of them. -/
abbrev Dicts (A : Type) := List (List (Key A × Frozen A))

def Dicts.content (dicts : Dicts A) (address : Nat) : List (Key A × Frozen A) := dicts.getD address []

/-- Make a new dictionary with a content. -/
def Dicts.allocate (dicts : Dicts A) (entries : List (Key A × Frozen A)) : Nat × Dicts A :=
  (dicts.length, dicts ++ [entries])

/-- `bool` of a mapping. -/
def Cell.isEmpty : Cell V A → Bool
  | .mapping items => items.isEmpty
  | .proxy entries => entries.isEmpty
  | _ => false

/-- The content of what `freeze` makes of a mapping, which is a snapshot. -/
def Frozen.entries : Frozen A → List (Key A × Frozen A)
  | .proxy entries => entries
  | _ => []

/-- `DeepMappingProxy.updated` of the snapshot at an address. -/
def updated [DecidableEq V] (cell : V → Cell V A) (depth : Nat) (dicts : Dicts A) (self : Nat)
    (values : V) : Except FreezeError Nat × Dicts A :=
  if (cell values).isEmpty then
    (.ok self, dicts)
  else
    -- `merged = dict(self)`
    let (merged, dicts) := dicts.allocate (dicts.content self)
    match freeze cell depth values with
    | .error e => (.error e, dicts)
    | .ok frozen =>
        -- `merged.update(freeze(values))`
        let dicts : Dicts A := dicts.set merged (Assoc.update (dicts.content merged) frozen.entries)
        -- `_proxy(merged)`
        let (result, dicts) := dicts.allocate (dicts.content merged)
        (.ok result, dicts)

variable [DecidableEq V] {depth : Nat} {dicts : Dicts A} {self : Nat} {values : V}

/-- No dictionary that is there changes, the snapshot among them. -/
theorem updated_keeps {address : Nat} (h : address < dicts.length) :
    (updated cell depth dicts self values).2[address]? = dicts[address]? := by
  unfold updated Dicts.allocate
  split
  · rfl
  · cases freeze cell depth values with
    | error e => exact List.getElem?_append_left h
    | ok frozen =>
        dsimp only
        rw [List.getElem?_append_left (by simp; omega), List.getElem?_set_ne (by omega),
          List.getElem?_append_left h]

/-- The content of the result: that of the snapshot with the new branches. -/
theorem updated_ok (dicts : Dicts A) (self : Nat) {frozen : Frozen A} (hempty : (cell values).isEmpty = false)
    (hfreeze : freeze cell depth values = .ok frozen) :
    ∃ result, (updated cell depth dicts self values).1 = .ok result ∧
      (updated cell depth dicts self values).2.content result =
        Assoc.update (dicts.content self) frozen.entries := by
  have hallocate : ∀ (d : Dicts A) (entries : List (Key A × Frozen A)),
      Dicts.content (d ++ [entries]) d.length = entries := by
    intro d entries
    unfold Dicts.content
    rw [List.getD_eq_getElem?_getD, List.getElem?_concat_length, Option.getD_some]
  have hstore : ∀ (d : Dicts A) (address : Nat) (entries : List (Key A × Frozen A)),
      address < d.length → Dicts.content (d.set address entries) address = entries := by
    intro d address entries h
    unfold Dicts.content
    rw [List.getD_eq_getElem?_getD, List.getElem?_set_self h, Option.getD_some]
  refine ⟨((dicts ++ [dicts.content self]).set dicts.length (Assoc.update (dicts.content self)
    frozen.entries)).length, ?_, ?_⟩
  · unfold updated Dicts.allocate
    rw [hempty, if_neg Bool.false_ne_true, hfreeze]
    dsimp only
    rw [hallocate]
  · unfold updated Dicts.allocate
    rw [hempty, if_neg Bool.false_ne_true, hfreeze]
    dsimp only
    rw [hallocate, hallocate, hstore _ _ _ (by simp)]

theorem updated_error {e : FreezeError} (hempty : (cell values).isEmpty = false)
    (hfreeze : freeze cell depth values = .error e) :
    (updated cell depth dicts self values).1 = .error e := by
  unfold updated Dicts.allocate
  rw [hempty, if_neg Bool.false_ne_true, hfreeze]

/-- The keys and the objects that `items()` of a mapping gives. Those of a snapshot have passed the
test of their keys. -/
def ItemsOf (cell : V → Cell V A) (values : V) (items : List (Key A × V)) : Prop :=
  cell values = .mapping items ∨ ∃ entries, cell values = .proxy entries ∧
    Related (Represents cell) items entries ∧ ∀ item ∈ items, item.1.immutable = true

/-- An object is the mapping that merges the content of a snapshot with the items of another mapping,
whose keys are distinct. -/
structure Merges (cell : V → Cell V A) (old : List (Key A × Frozen A)) (values merged : V)
    (oldItems newItems : List (Key A × V)) : Prop where
  snapshot : Related (Represents cell) oldItems old
  snapshotKeys : ∀ item ∈ oldItems, item.1.immutable = true
  snapshotDistinct : (oldItems.map Prod.fst).Nodup
  values : ItemsOf cell values newItems
  valuesDistinct : (newItems.map Prod.fst).Nodup
  merged : cell merged = .mapping (Assoc.update oldItems newItems)

/-- An object unfolds to an equal value. -/
def UnfoldsLike (cell : V → Cell V A) (v : V) (value : Frozen A) : Prop :=
  ∃ value', Unfolds cell v value' ∧ Same value value'

/-- What `updated` leaves is like what `freeze` gives: equal contents, or refusals of both. -/
def SameSnapshot : Except FreezeError Nat × Dicts A → Except FreezeError (Frozen A) → Prop
  | (.ok result, dicts), .ok value => Same (.proxy (dicts.content result)) value
  | (.error e, _), .error e' => e.IsRefusal ∧ e'.IsRefusal
  | _, _ => False

section Merged

variable {old new : List (Key A × Frozen A)} {merged : V} {oldItems newItems : List (Key A × V)}

omit [DecidableEq V] in
/-- Freezing the new values gives their items. -/
theorem ItemsOf.unfolds (h : ItemsOf cell values newItems) (hdistinct : (newItems.map Prod.fst).Nodup)
    {value : Frozen A} (hvalue : Unfolds cell values value) :
    (∀ item ∈ newItems, item.1.immutable = true) ∧
      Related (UnfoldsLike cell) newItems value.entries := by
  rcases h with hcell | ⟨entries, hcell, hrelated, hkeys⟩
  · have hunfolds := hvalue.asCell
    rw [hcell] at hunfolds
    obtain ⟨hkeys, value', hvalue', rfl⟩ := hunfolds
    refine ⟨hkeys, ?_⟩
    have hnodup : ((newItems.map fun item => (item.1, value' item.2)).map Prod.fst).Nodup := by
      rw [List.map_map]
      exact hdistinct
    rw [Frozen.entries, ofPairs_of_nodup hnodup]
    exact related_map fun item hitem => ⟨_, hvalue' item hitem, .refl _⟩
  · have hunfolds := hvalue.asCell
    rw [hcell] at hunfolds
    obtain rfl := hunfolds
    exact ⟨hkeys, hrelated.imp_mem fun _ _ _ hrepresents => hrepresents.unfolds⟩

omit [DecidableEq V] in
theorem Merges.related (h : Merges cell old values merged oldItems newItems)
    (hnew : Related (UnfoldsLike cell) newItems new) :
    Related (UnfoldsLike cell) (Assoc.update oldItems newItems) (Assoc.update old new) :=
  Related.update (h.snapshot.imp_mem fun _ _ _ hrepresents => hrepresents.unfolds) hnew

omit [DecidableEq V] in
/-- Two proxies with the same keys, whose values are like those of the same objects. -/
theorem same_proxy {items : List (Key A × V)} {entries : List (Key A × Frozen A)}
    {value : V → Frozen A} (h : Related (UnfoldsLike cell) items entries)
    (hvalue : ∀ item ∈ items, Unfolds cell item.2 (value item.2)) :
    Same (.proxy entries) (.proxy (items.map fun item => (item.1, value item.2))) := by
  have hlookup : ∀ key, (items.map fun item => (item.1, value item.2)).lookup key =
      (items.lookup key).map value := by
    intro key
    exact lookup_map value items
  refine .proxy ?_ ?_
  · intro key
    have hrel := h.rel key
    rw [hlookup, Option.isSome_map]
    cases hentry : entries.lookup key with
    | none =>
        rw [hentry] at hrel
        cases hitem : items.lookup key with
        | none => rfl
        | some u =>
            rw [hitem] at hrel
            cases hrel
    | some x =>
        rw [hentry] at hrel
        cases hitem : items.lookup key with
        | none =>
            rw [hitem] at hrel
            cases hrel
        | some u => rfl
  · intro key x y hx hy
    rw [hlookup, Option.map_eq_some_iff] at hy
    obtain ⟨u, hu, rfl⟩ := hy
    have hrel := h.rel key
    rw [hx, hu] at hrel
    cases hrel with
    | some hlike =>
        obtain ⟨z, hz, hsame⟩ := hlike
        rw [(hvalue (key, u) (mem_of_lookup hu)).unique hz]
        exact hsame

omit [DecidableEq V] in
/-- The merged mapping unfolds to the updated content. -/
theorem Merges.unfolds (h : Merges cell old values merged oldItems newItems)
    (hkeys : ∀ item ∈ newItems, item.1.immutable = true)
    (hnew : Related (UnfoldsLike cell) newItems new) :
    UnfoldsLike cell merged (.proxy (Assoc.update old new)) := by
  have hrelated := h.related hnew
  have hchild : ∀ u ∈ (Assoc.update oldItems newItems).map Prod.snd, ∃ value,
      Unfolds cell u value := by
    intro u hu
    obtain ⟨item, hitem, rfl⟩ := List.mem_map.mp hu
    obtain ⟨i, hi, rfl⟩ := List.mem_iff_getElem.mp hitem
    obtain ⟨-, value, hvalue, -⟩ := List.Forall₂.get hrelated hi (hrelated.length_eq ▸ hi)
    exact ⟨value, hvalue⟩
  obtain ⟨value, hvalue⟩ := exists_value hchild
  have hnodup := nodup_update (l := newItems) h.snapshotDistinct
  have hnodup' : (((Assoc.update oldItems newItems).map fun item =>
      (item.1, value item.2)).map Prod.fst).Nodup := by
    rw [List.map_map]
    exact hnodup
  refine ⟨_, .mapping value h.merged ?_ fun item hitem => hvalue _ (List.mem_map_of_mem hitem), ?_⟩
  · intro item hitem
    rcases mem_of_mem_update hitem with hitem | hitem
    · exact h.snapshotKeys item hitem
    · exact hkeys item hitem
  · rw [ofPairs_of_nodup hnodup']
    exact same_proxy hrelated fun item hitem => hvalue _ (List.mem_map_of_mem hitem)

omit [DecidableEq V] in
/-- If the merged mapping unfolds, the new values do. -/
theorem Merges.values_unfolds (h : Merges cell old values merged oldItems newItems)
    {value : Frozen A} (hvalue : Unfolds cell merged value) : ∃ value, Unfolds cell values value := by
  have hmerged := hvalue.asCell
  rw [h.merged] at hmerged
  obtain ⟨hkeys, value', hvalue', -⟩ := hmerged
  rcases h.values with hcell | ⟨entries, hcell, -, -⟩
  · exact ⟨_, .mapping value' hcell
      (fun item hitem => hkeys item (mem_update h.valuesDistinct hitem))
      fun item hitem => hvalue' item (mem_update h.valuesDistinct hitem)⟩
  · exact ⟨_, .proxy hcell⟩

omit [DecidableEq A] [DecidableEq V] in
theorem ItemsOf.eq_nil (h : ItemsOf cell values newItems)
    (hempty : (cell values).isEmpty = true) : newItems = [] := by
  rcases h with hcell | ⟨entries, hcell, hrelated, -⟩
  · rw [hcell] at hempty
    exact List.isEmpty_iff.mp hempty
  · rw [hcell] at hempty
    rw [List.isEmpty_iff.mp hempty] at hrelated
    exact List.forall₂_nil_right_iff.mp hrelated

variable {objects : Finset V}

/-- `updated` makes what `freeze` makes of the merged mapping, and refuses where `freeze` does. -/
theorem updated_same (hclosed : ∀ v ∈ objects, ∀ u, Part cell v u → u ∈ objects)
    (hdepth : objects.card + 1 ≤ depth) (hvalues : values ∈ objects) (hmerged : merged ∈ objects)
    (h : Merges cell (dicts.content self) values merged oldItems newItems) :
    SameSnapshot (updated cell depth dicts self values) (freeze cell depth merged) := by
  have hlike : ∀ {result : Nat} {dicts' : Dicts A},
      UnfoldsLike cell merged (.proxy (dicts'.content result)) →
        SameSnapshot (.ok result, dicts') (freeze cell depth merged) := by
    rintro result dicts' ⟨value, hvalue, hsame⟩
    rw [(freeze_eq_ok_iff hclosed hdepth hmerged).mpr hvalue]
    exact hsame
  cases hempty : (cell values).isEmpty with
  | true =>
      -- the merged mapping has the items of the snapshot
      obtain rfl := h.values.eq_nil hempty
      unfold updated
      rw [hempty, if_pos rfl]
      exact hlike (h.unfolds (fun _ hitem => absurd hitem List.not_mem_nil) .nil)
  | false =>
      cases hfreeze : freeze cell depth values with
      | ok frozen =>
          have hfrozen := (freeze_eq_ok_iff hclosed hdepth hvalues).mp hfreeze
          obtain ⟨hkeys, hnew⟩ := h.values.unfolds h.valuesDistinct hfrozen
          obtain ⟨result, hresult, hcontent⟩ := updated_ok dicts self hempty hfreeze
          rw [← Prod.mk.eta (p := updated cell depth dicts self values), hresult]
          apply hlike
          rw [hcontent]
          exact h.unfolds hkeys hnew
      | error e =>
          have hrefuses := freeze_error hclosed hdepth hvalues hfreeze
          rw [← Prod.mk.eta (p := updated cell depth dicts self values), updated_error hempty hfreeze]
          cases hfreeze' : freeze cell depth merged with
          | ok value =>
              obtain ⟨value', hvalue'⟩ :=
                h.values_unfolds ((freeze_eq_ok_iff hclosed hdepth hmerged).mp hfreeze')
              exact absurd hrefuses.2 hvalue'.not_faulty
          | error e' => exact ⟨hrefuses.1, (freeze_error hclosed hdepth hmerged hfreeze').1⟩

end Merged

end Updated

section Projection

variable [DecidableEq V] {objects : Finset V} {depth : Nat}

/-- `freeze` returns the unfolded value of every object that reaches nothing faulty, and refuses the
others. Freezing a result again gives an equal value. `updated` makes what `freeze` makes of the merged
mapping, and leaves every snapshot as it is. -/
theorem freeze_projects (hclosed : ∀ v ∈ objects, ∀ u, Part cell v u → u ∈ objects)
    (hdepth : objects.card + 1 ≤ depth) :
    (∀ v ∈ objects, (∀ value, freeze cell depth v = .ok value ↔ Unfolds cell v value) ∧
      ((∃ value, freeze cell depth v = .ok value) ↔ ¬ Faulty cell v) ∧
      ∀ e, freeze cell depth v = .error e → e.IsRefusal) ∧
    (∀ v ∈ objects, ∀ value, freeze cell depth v = .ok value →
      ∀ r ∈ objects, Represents cell r value →
        ∃ value', freeze cell depth r = .ok value' ∧ Same value value') ∧
    (∀ (dicts : Dicts A) (self : Nat), ∀ values ∈ objects, ∀ merged ∈ objects,
      ∀ oldItems newItems, Merges cell (dicts.content self) values merged oldItems newItems →
        SameSnapshot (updated cell depth dicts self values) (freeze cell depth merged)) ∧
    ∀ (dicts : Dicts A) (self : Nat) (values : V) (address : Nat), address < dicts.length →
      (updated cell depth dicts self values).2[address]? = dicts[address]? := by
  refine ⟨?_, ?_, ?_, ?_⟩
  · intro v hv
    refine ⟨fun value => freeze_eq_ok_iff hclosed hdepth hv, exists_freeze_iff hclosed hdepth hv, ?_⟩
    exact fun e he => (freeze_error hclosed hdepth hv he).1
  · intro v _ value _ r hr hrepresents
    obtain ⟨value', hvalue', hsame⟩ := hrepresents.unfolds
    exact ⟨value', (freeze_eq_ok_iff hclosed hdepth hr).mpr hvalue', hsame⟩
  · intro dicts self values hvalues merged hmerged oldItems newItems h
    exact updated_same hclosed hdepth hvalues hmerged h
  · intro dicts self values address h
    exact updated_keeps h

/-- A mapping with a shared list, the tuple that the list becomes, an update and the merged mapping. -/
def sharedGraph : Nat → Cell Nat String
  | 0 => .mapping [(.scalar "a", 1), (.scalar "b", 1)]
  | 1 => .sequence [2]
  | 3 => .mapping [(.scalar "b", 2)]
  | 4 => .mapping [(.scalar "a", 1), (.scalar "b", 2)]
  | _ => .scalar "x"

theorem sharedGraph_projected :
    Unfolds sharedGraph 0
        (.proxy [(.scalar "a", .tuple [.scalar "x"]), (.scalar "b", .tuple [.scalar "x"])]) ∧
      SameSnapshot (updated sharedGraph 6 [[(.scalar "a", .tuple [.scalar "x"]),
        (.scalar "b", .tuple [.scalar "x"])]] 0 3) (freeze sharedGraph 6 4) := by
  have hclosed : ∀ v ∈ Finset.range 5, ∀ u, Part sharedGraph v u → u ∈ Finset.range 5 := by
    have hparts : ∀ v ∈ Finset.range 5, ∀ u ∈ (sharedGraph v).parts, u ∈ Finset.range 5 := by decide
    exact hparts
  obtain ⟨hfreeze, -, hupdated, -⟩ := freeze_projects hclosed (by decide : 5 + 1 ≤ 6)
  have hitem : Represents sharedGraph 1 (.tuple [.scalar "x"]) :=
    .tuple (fun _ => .scalar "x") (rfl : sharedGraph 1 = .sequence [2]) fun item hitem => by
      obtain rfl := List.mem_singleton.mp hitem
      exact .scalar rfl
  refine ⟨((hfreeze 0 (by decide)).1 _).mp rfl, hupdated _ 0 3 (by decide) 4 (by decide)
    [(.scalar "a", 1), (.scalar "b", 1)] [(.scalar "b", 2)] ?_⟩
  exact {
    snapshot := .cons ⟨rfl, hitem⟩ (.cons ⟨rfl, hitem⟩ .nil)
    snapshotKeys := by decide
    snapshotDistinct := by decide
    values := .inl rfl
    valuesDistinct := by decide
    merged := rfl }

/-- A set with a tuple that holds a record. -/
def tupleInSet : Nat → Cell Nat String
  | 0 => .set [1]
  | 1 => .sequence [2]
  | 2 => .record [("field", 3)]
  | _ => .scalar "x"

/-- The frozen tuple is no mapping, and yet it has no hash. -/
theorem tupleInSet_refused :
    (∃ message, freeze tupleInSet 5 0 = .error (.typeError message)) ∧
      ∀ u, Reaches tupleInSet 0 u → ¬ (TransGen (Part tupleInSet) u u ∨
        (∃ type, tupleInSet u = .unsupported type) ∨
        (∃ items, tupleInSet u = .mapping items ∧ ∃ item ∈ items, item.1.immutable = false) ∨
        ∃ members, tupleInSet u = .set members ∧ ∃ member ∈ members, ∃ entries,
          Unfolds tupleInSet member (.proxy entries)) := by
  have hpart : ∀ v u, Part tupleInSet v u → v < u ∧ u ≤ 3 := by
    intro v u hu
    unfold Part tupleInSet at hu
    split at hu
    · simp_all [Cell.parts]
    · simp_all [Cell.parts]
    · simp_all [Cell.parts]
    · simp [Cell.parts] at hu
  have hgrows : ∀ v u, TransGen (Part tupleInSet) v u → v < u := by
    intro v u h
    induction h with
    | single h => exact (hpart _ _ h).1
    | tail _ h ih => exact ih.trans (hpart _ _ h).1
  refine ⟨⟨_, rfl⟩, ?_⟩
  rintro u - (hcycle | ⟨type, hcell⟩ | ⟨items, hcell, -⟩ |
    ⟨members, hcell, member, hmember, entries, h⟩)
  · exact lt_irrefl u (hgrows u u hcycle)
  · unfold tupleInSet at hcell
    split at hcell <;> cases hcell
  · unfold tupleInSet at hcell
    split at hcell <;> cases hcell
  · unfold tupleInSet at hcell
    split at hcell
    · cases hcell
      obtain rfl := List.mem_singleton.mp hmember
      have hunfolds := h.asCell
      obtain ⟨value, -, hvalue⟩ := hunfolds
      cases hvalue
    · cases hcell
    · cases hcell
    · cases hcell

end Projection

end Immutable

end Rmote
