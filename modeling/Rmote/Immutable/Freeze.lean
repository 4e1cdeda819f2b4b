import Rmote.Immutable.Value
import Rmote.Library.Outcome
import Rmote.Library.Recorded
import Mathlib.Logic.Relation

/-!
# `freeze`

`freeze` walks an object graph with a memo by identity and the set of the containers that it is
in. `Unfolds` says what it computes, on the unfolded tree and without either of the two: the
sharing in the graph does not show in the value. A graph has no such value exactly if something
`Faulty` can be reached in it, and then `freeze` raises.
-/

namespace Rmote

namespace Immutable

open Outcome Relation Recorded

/-- What `visit` tells apart: a builtin scalar, a `DeepMappingProxy` with its content, a mapping with
its items, a list or a tuple, a set or a frozenset, an instance of a dataclass with its fields, whose
names are strings, and any other object with the name of its type. -/
inductive Cell (V A : Type) where
  | scalar (value : A)
  | proxy (entries : List (Key A × Frozen A))
  | mapping (items : List (Key A × V))
  | sequence (items : List V)
  | set (members : List V)
  | record (fields : List (A × V))
  | unsupported (type : String)

/-- The exceptions of `freeze`. -/
inductive FreezeError where
  | valueError (message : String)
  | typeError (message : String)
  | recursionError

/-- The memo and the active containers of one call. -/
structure Visit (V A : Type) where
  memo : List (V × Frozen A)
  active : List V

abbrev Freezing (V A : Type) := EStateM FreezeError (Visit V A)

section Definitions

variable {V A : Type} [DecidableEq V] [DecidableEq A] (cell : V → Cell V A)

/-- The loop over the items of a mapping, with the dictionary so far. -/
def visitItems (visit : V → Freezing V A (Frozen A)) (data : List (Key A × Frozen A)) :
    List (Key A × V) → Freezing V A (List (Key A × Frozen A))
  | [] => pure data
  | (key, child) :: rest => do
      if !key.immutable then
        throw (.typeError ("Unsupported mutable or custom mapping key: " ++ key.qualname))
      let value ← visit child
      visitItems visit (Assoc.put key value data) rest

def visitAll (visit : V → Freezing V A (Frozen A)) : List V → Freezing V A (List (Frozen A))
  | [] => pure []
  | child :: rest => do
      let value ← visit child
      let values ← visitAll visit rest
      pure (value :: values)

/-- `frozenset` of a generator, which hashes each member before it asks for the next one. -/
def visitMembers (visit : V → Freezing V A (Frozen A)) : List V → Freezing V A (List (Frozen A))
  | [] => pure []
  | child :: rest => do
      let value ← visit child
      if !value.hashable then
        throw (.typeError "unhashable type: 'DeepMappingProxy'")
      let values ← visitMembers visit rest
      pure (value :: values)

def visitFields (visit : V → Freezing V A (Frozen A)) (data : List (Key A × Frozen A)) :
    List (A × V) → Freezing V A (List (Key A × Frozen A))
  | [] => pure data
  | (name, child) :: rest => do
      let value ← visit child
      visitFields visit (Assoc.put (.scalar name) value data) rest

/-- The cases of `visit`. -/
def visitCell (visit : V → Freezing V A (Frozen A)) : Cell V A → Freezing V A (Frozen A)
  | .scalar value => pure (.scalar value)
  | .proxy entries => pure (.proxy entries)
  | .mapping items => do
      let data ← visitItems visit [] items
      pure (.proxy data)
  | .sequence items => do
      let values ← visitAll visit items
      pure (.tuple values)
  | .set members => do
      let values ← visitMembers visit members
      pure (.frozenset values)
  | .record fields => do
      let data ← visitFields visit [] fields
      pure (.proxy data)
  | .unsupported type => throw (.typeError ("Cannot freeze " ++ type))

/-- The `finally` clause of `visit`. -/
def leaving {α : Type} (item : V) (m : Freezing V A α) : Freezing V A α :=
  fun s => match m s with
    | .ok a s => .ok a { s with active := s.active.erase item }
    | .error e s => .error e { s with active := s.active.erase item }

/-- The body of the `try` statement of `visit`. -/
def visitActive (visit : V → Freezing V A (Frozen A)) (item : V) : Freezing V A (Frozen A) := do
  let result ← visitCell visit (cell item)
  modify fun s => { s with memo := (item, result) :: s.memo }
  pure result

/-- The rest of `visit`, for an object that is not in the memo. -/
def visitNew (visit : V → Freezing V A (Frozen A)) (item : V) : Freezing V A (Frozen A) := do
  modify fun s => { s with active := item :: s.active }
  leaving item (visitActive cell visit item)

/-- `visit`, with as many nested calls as the first number. -/
def visit : Nat → V → Freezing V A (Frozen A)
  | 0, _ => throw .recursionError
  | depth + 1, item =>
      match cell item with
      | .scalar value => pure (.scalar value)
      | .proxy entries => pure (.proxy entries)
      | _ => do
          let s ← get
          if item ∈ s.active then
            throw (.valueError "Cannot freeze cyclic data")
          match s.memo.lookup item with
          | some result => pure result
          | none => visitNew cell (visit depth) item

/-- `freeze`. -/
def freeze (depth : Nat) (value : V) : Except FreezeError (Frozen A) :=
  match (visit cell depth value).run ⟨[], []⟩ with
  | .ok result _ => .ok result
  | .error e _ => .error e

end Definitions

section Unfolded

variable {V A : Type} [DecidableEq A] (cell : V → Cell V A)

/-- The value of an object, bottom-up in the unfolded tree: a mapping or a record becomes a proxy, a
list or a tuple a tuple and a set a frozenset of the values of the parts. -/
inductive Unfolds : V → Frozen A → Prop
  | scalar {v : V} {value : A} (hcell : cell v = .scalar value) : Unfolds v (.scalar value)
  | proxy {v : V} {entries : List (Key A × Frozen A)} (hcell : cell v = .proxy entries) :
      Unfolds v (.proxy entries)
  | mapping {v : V} {items : List (Key A × V)} (value : V → Frozen A)
      (hcell : cell v = .mapping items) (hkeys : ∀ item ∈ items, item.1.immutable = true)
      (hitems : ∀ item ∈ items, Unfolds item.2 (value item.2)) :
      Unfolds v (.proxy (Assoc.ofPairs (items.map fun item => (item.1, value item.2))))
  | sequence {v : V} {items : List V} (value : V → Frozen A) (hcell : cell v = .sequence items)
      (hitems : ∀ item ∈ items, Unfolds item (value item)) : Unfolds v (.tuple (items.map value))
  | set {v : V} {members : List V} (value : V → Frozen A) (hcell : cell v = .set members)
      (hmembers : ∀ member ∈ members, Unfolds member (value member))
      (hhashable : ∀ member ∈ members, (value member).hashable = true) :
      Unfolds v (.frozenset (members.map value))
  | record {v : V} {fields : List (A × V)} (value : V → Frozen A)
      (hcell : cell v = .record fields) (hfields : ∀ field ∈ fields, Unfolds field.2 (value field.2)) :
      Unfolds v (.proxy (Assoc.ofPairs (fields.map fun field => (.scalar field.1, value field.2))))

/-- The parts of an object outside of frozen mappings. -/
def Cell.parts : Cell V A → List V
  | .scalar _ | .proxy _ | .unsupported _ => []
  | .mapping items => items.map Prod.snd
  | .sequence items => items
  | .set members => members
  | .record fields => fields.map Prod.snd

def Part (v u : V) : Prop := u ∈ (cell v).parts

abbrev Reaches : V → V → Prop := ReflTransGen (Part cell)

/-- An object that no frozen value can hold: one that reaches itself, one of an unsupported type, a
mapping with an unsupported key, or a set with a member whose frozen form has no hash. -/
def Fault (v : V) : Prop :=
  TransGen (Part cell) v v ∨ (∃ type, cell v = .unsupported type) ∨
    (∃ items, cell v = .mapping items ∧ ∃ item ∈ items, item.1.immutable = false) ∨
    ∃ members, cell v = .set members ∧ ∃ member ∈ members, ∃ value,
      Unfolds cell member value ∧ value.hashable = false

/-- Such an object is reached. -/
def Faulty (v : V) : Prop := ∃ u, Reaches cell v u ∧ Fault cell u

variable {cell} {v : V}

/-- What an object of each kind unfolds to. -/
def UnfoldsAs (cell : V → Cell V A) : Cell V A → Frozen A → Prop
  | .scalar a, value => value = .scalar a
  | .proxy entries, value => value = .proxy entries
  | .mapping items, result => (∀ item ∈ items, item.1.immutable = true) ∧ ∃ value : V → Frozen A,
      (∀ item ∈ items, Unfolds cell item.2 (value item.2)) ∧
      result = .proxy (Assoc.ofPairs (items.map fun item => (item.1, value item.2)))
  | .sequence items, result => ∃ value : V → Frozen A,
      (∀ item ∈ items, Unfolds cell item (value item)) ∧ result = .tuple (items.map value)
  | .set members, result => ∃ value : V → Frozen A,
      (∀ member ∈ members, Unfolds cell member (value member)) ∧
      (∀ member ∈ members, (value member).hashable = true) ∧ result = .frozenset (members.map value)
  | .record fields, result => ∃ value : V → Frozen A,
      (∀ field ∈ fields, Unfolds cell field.2 (value field.2)) ∧
      result = .proxy (Assoc.ofPairs (fields.map fun field => (.scalar field.1, value field.2)))
  | .unsupported _, _ => False

theorem Unfolds.asCell {value : Frozen A} (h : Unfolds cell v value) :
    UnfoldsAs cell (cell v) value := by
  cases h with
  | scalar hcell =>
      rw [hcell]
      exact rfl
  | proxy hcell =>
      rw [hcell]
      exact rfl
  | mapping value hcell hkeys hitems =>
      rw [hcell]
      exact ⟨hkeys, value, hitems, rfl⟩
  | sequence value hcell hitems =>
      rw [hcell]
      exact ⟨value, hitems, rfl⟩
  | set value hcell hmembers hhashable =>
      rw [hcell]
      exact ⟨value, hmembers, hhashable, rfl⟩
  | record value hcell hfields =>
      rw [hcell]
      exact ⟨value, hfields, rfl⟩

/-- An object has one value. -/
theorem Unfolds.unique {value value' : Frozen A} (h : Unfolds cell v value)
    (h' : Unfolds cell v value') : value = value' := by
  induction h generalizing value' with
  | scalar hcell =>
      have hvalue := h'.asCell
      rw [hcell] at hvalue
      exact hvalue.symm
  | proxy hcell =>
      have hvalue := h'.asCell
      rw [hcell] at hvalue
      exact hvalue.symm
  | mapping value hcell hkeys hitems ih =>
      have hvalue := h'.asCell
      rw [hcell] at hvalue
      obtain ⟨-, other, hother, rfl⟩ := hvalue
      rw [List.map_congr_left fun item hitem => by rw [ih item hitem (hother item hitem)]]
  | sequence value hcell hitems ih =>
      have hvalue := h'.asCell
      rw [hcell] at hvalue
      obtain ⟨other, hother, rfl⟩ := hvalue
      rw [List.map_congr_left fun item hitem => ih item hitem (hother item hitem)]
  | set value hcell hmembers hhashable ih =>
      have hvalue := h'.asCell
      rw [hcell] at hvalue
      obtain ⟨other, hother, -, rfl⟩ := hvalue
      rw [List.map_congr_left fun member hmember => ih member hmember (hother member hmember)]
  | record value hcell hfields ih =>
      have hvalue := h'.asCell
      rw [hcell] at hvalue
      obtain ⟨other, hother, rfl⟩ := hvalue
      rw [List.map_congr_left fun field hfield => by rw [ih field hfield (hother field hfield)]]

/-- The parts of an object that unfolds do so as well. -/
theorem Unfolds.part {u : V} {value : Frozen A} (h : Unfolds cell v value) (hu : Part cell v u) :
    ∃ value', Unfolds cell u value' := by
  unfold Part at hu
  cases h with
  | scalar hcell =>
      rw [hcell] at hu
      exact absurd hu List.not_mem_nil
  | proxy hcell =>
      rw [hcell] at hu
      exact absurd hu List.not_mem_nil
  | mapping value hcell hkeys hitems =>
      rw [hcell] at hu
      obtain ⟨item, hitem, rfl⟩ := List.mem_map.mp hu
      exact ⟨_, hitems item hitem⟩
  | sequence value hcell hitems =>
      rw [hcell] at hu
      exact ⟨_, hitems u hu⟩
  | set value hcell hmembers hhashable =>
      rw [hcell] at hu
      exact ⟨_, hmembers u hu⟩
  | record value hcell hfields =>
      rw [hcell] at hu
      obtain ⟨field, hfield, rfl⟩ := List.mem_map.mp hu
      exact ⟨_, hfields field hfield⟩

theorem Unfolds.reaches {u : V} {value : Frozen A} (h : Unfolds cell v value)
    (hu : Reaches cell v u) : ∃ value', Unfolds cell u value' := by
  induction hu with
  | refl => exact ⟨value, h⟩
  | tail _ hpart ih =>
      obtain ⟨value', h'⟩ := ih
      exact h'.part hpart

theorem irrefl_of_acc {r : V → V → Prop} {v : V} (h : Acc r v) : ¬ r v v := by
  induction h with
  | intro v _ ih => exact fun hv => ih v hv hv

/-- Unfolding ends on every path. -/
theorem Unfolds.acc {value : Frozen A} (h : Unfolds cell v value) :
    Acc (fun u v => Part cell v u) v := by
  induction h with
  | scalar hcell =>
      refine .intro _ fun u hu => ?_
      unfold Part at hu
      rw [hcell] at hu
      exact absurd hu List.not_mem_nil
  | proxy hcell =>
      refine .intro _ fun u hu => ?_
      unfold Part at hu
      rw [hcell] at hu
      exact absurd hu List.not_mem_nil
  | mapping value hcell hkeys hitems ih =>
      refine .intro _ fun u hu => ?_
      unfold Part at hu
      rw [hcell] at hu
      obtain ⟨item, hitem, rfl⟩ := List.mem_map.mp hu
      exact ih item hitem
  | sequence value hcell hitems ih =>
      refine .intro _ fun u hu => ?_
      unfold Part at hu
      rw [hcell] at hu
      exact ih u hu
  | set value hcell hmembers hhashable ih =>
      refine .intro _ fun u hu => ?_
      unfold Part at hu
      rw [hcell] at hu
      exact ih u hu
  | record value hcell hfields ih =>
      refine .intro _ fun u hu => ?_
      unfold Part at hu
      rw [hcell] at hu
      obtain ⟨field, hfield, rfl⟩ := List.mem_map.mp hu
      exact ih field hfield

/-- Nothing in an object that unfolds is at fault. -/
theorem Unfolds.not_faulty {value : Frozen A} (h : Unfolds cell v value) : ¬ Faulty cell v := by
  rintro ⟨u, hu, hfault⟩
  obtain ⟨result, hresult⟩ := h.reaches hu
  rcases hfault with hcycle | ⟨type, hcell⟩ | ⟨items, hcell, item, hitem, hkey⟩ |
    ⟨members, hcell, member, hmember, value', hvalue', hhash⟩
  · have hacc : Acc (TransGen fun u v => Part cell v u) u := hresult.acc.transGen
    exact irrefl_of_acc hacc (TransGen.swap _ _ hcycle)
  · have hresult' := hresult.asCell
    rw [hcell] at hresult'
    exact hresult'
  · have hresult' := hresult.asCell
    rw [hcell] at hresult'
    rw [hresult'.1 item hitem] at hkey
    cases hkey
  · have hresult' := hresult.asCell
    rw [hcell] at hresult'
    obtain ⟨other, hother, hhashable, -⟩ := hresult'
    rw [hvalue'.unique (hother member hmember), hhashable member hmember] at hhash
    cases hhash

theorem Faulty.part {u : V} (h : Faulty cell u) (hu : Part cell v u) : Faulty cell v := by
  obtain ⟨x, hx, hfault⟩ := h
  exact ⟨x, .head hu hx, hfault⟩

theorem Fault.faulty (h : Fault cell v) : Faulty cell v := ⟨v, .refl, h⟩

end Unfolded

section Run

variable {V A : Type} [DecidableEq A] {cell : V → Cell V A}

/-- `ValueError` or `TypeError`. -/
def FreezeError.IsRefusal : FreezeError → Prop
  | .valueError _ | .typeError _ => True
  | .recursionError => False

/-- The memo holds values of its objects. -/
def MemoSound (cell : V → Cell V A) (s : Visit V A) : Prop :=
  ∀ entry ∈ s.memo, Unfolds cell entry.1 entry.2

/-- The object leads back to one that is being visited. -/
def LeadsBack (cell : V → Cell V A) (active : List V) (v : V) : Prop :=
  ∃ u ∈ active, Reaches cell v u

/-- Code ends with a result that is right, or it refuses for a reason. -/
def Visits {α : Type} (cell : V → Cell V A) (m : Freezing V A α) (s : Visit V A) (Q : α → Prop)
    (reason deep : Prop) : Prop :=
  Ensures m s (fun a t => Q a ∧ MemoSound cell t ∧ t.active = s.active) fun e t =>
    t.active = s.active ∧ (deep → e.IsRefusal ∧ reason)

/-- What a call of `visit` does with an object. -/
abbrev VisitsObject (cell : V → Cell V A) (m : Freezing V A (Frozen A)) (s : Visit V A) (v : V)
    (deep : Prop) : Prop :=
  Visits cell m s (Unfolds cell v) (Faulty cell v ∨ LeadsBack cell s.active v) deep

section Rules

variable {α β : Type} {m : Freezing V A α} {s : Visit V A} {Q : α → Prop} {R : β → Prop}
  {reason reason' deep deep' : Prop}

theorem visits_pure {a : α} (hs : MemoSound cell s) (ha : Q a) :
    Visits cell (pure a) s Q reason deep :=
  ensures_pure ⟨ha, hs, rfl⟩

theorem visits_throw {e : FreezeError} (he : deep → e.IsRefusal ∧ reason) :
    Visits cell (throw e : Freezing V A α) s Q reason deep :=
  ensures_throw ⟨rfl, he⟩

/-- The rest of the code runs with the same active objects. -/
theorem Visits.bind {f : α → Freezing V A β} (hm : Visits cell m s Q reason' deep')
    (hdeep : deep → deep') (hreason : reason' → reason)
    (hf : ∀ a t, Q a → MemoSound cell t → t.active = s.active → Visits cell (f a) t R reason deep) :
    Visits cell (m >>= f) s R reason deep := by
  refine Ensures.bind (Q := fun a t => Q a ∧ MemoSound cell t ∧ t.active = s.active) ?_ ?_
  · refine Ensures.mono hm (fun _ _ h => h) ?_
    rintro e t ⟨ht, he⟩
    exact ⟨ht, fun h => ⟨(he (hdeep h)).1, hreason (he (hdeep h)).2⟩⟩
  · rintro a t ⟨ha, ht, hactive⟩
    refine Ensures.mono (hf a t ha ht hactive) ?_ ?_
    · rintro b u ⟨hb, hu, hactive'⟩
      exact ⟨hb, hu, hactive'.trans hactive⟩
    · rintro e u ⟨hactive', he⟩
      exact ⟨hactive'.trans hactive, he⟩

end Rules

/-- The parts of a container have values, which a function gives. -/
theorem exists_value {items : List V} (h : ∀ item ∈ items, ∃ value, Unfolds cell item value) :
    ∃ value : V → Frozen A, ∀ item ∈ items, Unfolds cell item (value item) := by
  have htotal : ∀ v, ∃ value : Frozen A, v ∈ items → Unfolds cell v value := by
    intro v
    by_cases hv : v ∈ items
    · obtain ⟨value, hvalue⟩ := h v hv
      exact ⟨value, fun _ => hvalue⟩
    · exact ⟨.tuple [], fun hmem => absurd hmem hv⟩
  choose value hvalue using htotal
  exact ⟨value, fun item => hvalue item⟩

theorem exists_value_of_forall₂ {items : List V} {values : List (Frozen A)}
    (h : List.Forall₂ (Unfolds cell) items values) :
    ∃ value : V → Frozen A, (∀ item ∈ items, Unfolds cell item (value item)) ∧
      values = items.map value := by
  have hexists : ∀ item ∈ items, ∃ value, Unfolds cell item value := by
    intro item hitem
    obtain ⟨i, hi, rfl⟩ := List.mem_iff_getElem.mp hitem
    exact ⟨_, h.get hi (h.length_eq ▸ hi)⟩
  obtain ⟨value, hvalue⟩ := exists_value hexists
  refine ⟨value, hvalue, ?_⟩
  clear hexists
  induction h with
  | nil => rfl
  | cons hhead _ ih =>
      rw [List.map_cons, hhead.unique (hvalue _ List.mem_cons_self),
        ← ih fun item hitem => hvalue item (List.mem_cons_of_mem _ hitem)]

theorem exists_value_of_related {items : List (Key A × V)} {pairs : List (Key A × Frozen A)}
    (h : Assoc.Related (Unfolds cell) items pairs) :
    ∃ value : V → Frozen A, (∀ item ∈ items, Unfolds cell item.2 (value item.2)) ∧
      pairs = items.map fun item => (item.1, value item.2) := by
  have hexists : ∀ v ∈ items.map Prod.snd, ∃ value, Unfolds cell v value := by
    intro v hv
    obtain ⟨item, hitem, rfl⟩ := List.mem_map.mp hv
    obtain ⟨i, hi, rfl⟩ := List.mem_iff_getElem.mp hitem
    exact ⟨_, (h.get hi (h.length_eq ▸ hi)).2⟩
  obtain ⟨value, hvalue⟩ := exists_value hexists
  have hvalue' : ∀ item ∈ items, Unfolds cell item.2 (value item.2) :=
    fun item hitem => hvalue item.2 (List.mem_map_of_mem hitem)
  refine ⟨value, hvalue', ?_⟩
  clear hexists hvalue
  induction h with
  | nil => rfl
  | @cons item pair items pairs hhead _ ih =>
      rw [List.map_cons, ← ih fun item hitem => hvalue' item (List.mem_cons_of_mem _ hitem),
        hhead.1, ← hhead.2.unique (hvalue' item List.mem_cons_self)]

section Loops

variable {visit : V → Freezing V A (Frozen A)} {s : Visit V A} {reason deep : Prop}
  {D : V → Prop}

theorem visits_visitAll {items : List V} (hs : MemoSound cell s)
    (hvisit : ∀ u t, MemoSound cell t → t.active = s.active →
      VisitsObject cell (visit u) t u (D u))
    (hdeep : deep → ∀ u ∈ items, D u)
    (hreason : ∀ u ∈ items, Faulty cell u ∨ LeadsBack cell s.active u → reason) :
    Visits cell (visitAll visit items) s (List.Forall₂ (Unfolds cell) items) reason deep := by
  induction items generalizing s with
  | nil => exact visits_pure hs .nil
  | cons item rest ih =>
      unfold visitAll
      refine (hvisit item s hs rfl).bind (fun h => hdeep h item List.mem_cons_self)
        (hreason item List.mem_cons_self) ?_
      intro value t hvalue ht hactive
      refine (ih ht ?_ ?_ ?_).bind id id ?_
      · exact fun u t' ht' hactive' => hvisit u t' ht' (hactive'.trans hactive)
      · exact fun h u hu => hdeep h u (List.mem_cons_of_mem _ hu)
      · rw [hactive]
        exact fun u hu => hreason u (List.mem_cons_of_mem _ hu)
      · intro values u hvalues hu _
        exact visits_pure hu (.cons hvalue hvalues)

/-- A member without a hash is reason enough. -/
theorem visits_visitMembers {items : List V} (hs : MemoSound cell s)
    (hvisit : ∀ u t, MemoSound cell t → t.active = s.active →
      VisitsObject cell (visit u) t u (D u))
    (hdeep : deep → ∀ u ∈ items, D u)
    (hreason : ∀ u ∈ items, Faulty cell u ∨ LeadsBack cell s.active u → reason)
    (hhash : ∀ u ∈ items, ∀ value, Unfolds cell u value → value.hashable = false → reason) :
    Visits cell (visitMembers visit items) s (fun values => List.Forall₂ (Unfolds cell) items values ∧
      ∀ value ∈ values, value.hashable = true) reason deep := by
  induction items generalizing s with
  | nil => exact visits_pure hs ⟨.nil, fun _ h => absurd h List.not_mem_nil⟩
  | cons item rest ih =>
      unfold visitMembers
      refine (hvisit item s hs rfl).bind (fun h => hdeep h item List.mem_cons_self)
        (hreason item List.mem_cons_self) ?_
      intro value t hvalue ht hactive
      cases hhashable : value.hashable with
      | false =>
          refine (visits_throw (Q := fun _ => False) ?_).bind id id nofun
          exact fun _ => ⟨trivial, hhash item List.mem_cons_self value hvalue hhashable⟩
      | true =>
          refine (ih ht ?_ ?_ ?_ ?_).bind id id ?_
          · exact fun u t' ht' hactive' => hvisit u t' ht' (hactive'.trans hactive)
          · exact fun h u hu => hdeep h u (List.mem_cons_of_mem _ hu)
          · rw [hactive]
            exact fun u hu => hreason u (List.mem_cons_of_mem _ hu)
          · exact fun u hu => hhash u (List.mem_cons_of_mem _ hu)
          · intro values u hvalues hu _
            refine visits_pure hu ⟨.cons hvalue hvalues.1, ?_⟩
            intro x hx
            rcases List.mem_cons.mp hx with rfl | hx
            · exact hhashable
            · exact hvalues.2 x hx

/-- So is an unsupported key. -/
theorem visits_visitItems {data : List (Key A × Frozen A)} {items : List (Key A × V)}
    (hs : MemoSound cell s)
    (hvisit : ∀ u t, MemoSound cell t → t.active = s.active →
      VisitsObject cell (visit u) t u (D u))
    (hdeep : deep → ∀ item ∈ items, D item.2)
    (hreason : ∀ item ∈ items, Faulty cell item.2 ∨ LeadsBack cell s.active item.2 → reason)
    (hkey : ∀ item ∈ items, item.1.immutable = false → reason) :
    Visits cell (visitItems visit data items) s (fun result =>
      (∀ item ∈ items, item.1.immutable = true) ∧ ∃ pairs,
        Assoc.Related (Unfolds cell) items pairs ∧
        result = pairs.foldl (fun d e => Assoc.put e.1 e.2 d) data) reason deep := by
  induction items generalizing s data with
  | nil => exact visits_pure hs ⟨fun _ h => absurd h List.not_mem_nil, [], .nil, rfl⟩
  | cons item rest ih =>
      obtain ⟨key, child⟩ := item
      unfold visitItems
      cases himmutable : key.immutable with
      | false =>
          refine (visits_throw (Q := fun _ => False) ?_).bind id id nofun
          exact fun _ => ⟨trivial, hkey _ List.mem_cons_self himmutable⟩
      | true =>
          refine (hvisit child s hs rfl).bind (fun h => hdeep h _ List.mem_cons_self)
            (hreason _ List.mem_cons_self) ?_
          intro value t hvalue ht hactive
          refine Ensures.mono (ih ht ?_ ?_ ?_ ?_) ?_ ?_
          · exact fun u t' ht' hactive' => hvisit u t' ht' (hactive'.trans hactive)
          · exact fun h u hu => hdeep h u (List.mem_cons_of_mem _ hu)
          · rw [hactive]
            exact fun u hu => hreason u (List.mem_cons_of_mem _ hu)
          · exact fun u hu => hkey u (List.mem_cons_of_mem _ hu)
          · rintro result u ⟨⟨hkeys, pairs, hpairs, rfl⟩, hu, hactive'⟩
            refine ⟨⟨?_, (key, value) :: pairs, .cons ⟨rfl, hvalue⟩ hpairs, rfl⟩, hu, hactive'⟩
            intro x hx
            rcases List.mem_cons.mp hx with rfl | hx
            · exact himmutable
            · exact hkeys x hx
          · rintro e u ⟨hactive', he⟩
            exact ⟨hactive', he⟩

/-- The fields of a record are items with strings for their keys. -/
theorem visitFields_eq (data : List (Key A × Frozen A)) (fields : List (A × V)) :
    visitFields visit data fields =
      visitItems visit data (fields.map fun field => (.scalar field.1, field.2)) := by
  induction fields generalizing data with
  | nil => rfl
  | cons field rest ih =>
      rw [visitFields, List.map_cons, visitItems]
      simp only [ih]
      rfl

end Loops

/-- What is wrong with a part is wrong with the whole, and a part that leads back to the whole makes
a cycle. -/
theorem reason_of_part {v u : V} {active : List V} (hu : Part cell v u)
    (h : Faulty cell u ∨ LeadsBack cell (v :: active) u) :
    Faulty cell v ∨ LeadsBack cell active v := by
  rcases h with hfaulty | ⟨x, hx, hreaches⟩
  · exact .inl (hfaulty.part hu)
  · rcases List.mem_cons.mp hx with rfl | hx
    · exact .inl (Fault.faulty (.inl (TransGen.head' hu hreaches)))
    · exact .inr ⟨x, hx, .head hu hreaches⟩

section Visit

variable {visit : V → Freezing V A (Frozen A)} {s : Visit V A} {deep : Prop} {D : V → Prop}
  {v : V} {active : List V}

theorem visits_visitCell (hs : MemoSound cell s) (hactive : s.active = v :: active)
    (hvisit : ∀ u t, MemoSound cell t → t.active = s.active →
      VisitsObject cell (visit u) t u (D u))
    (hdeep : deep → ∀ u, Part cell v u → D u) :
    Visits cell (visitCell visit (cell v)) s (Unfolds cell v)
      (Faulty cell v ∨ LeadsBack cell active v) deep := by
  have hreason : ∀ u, Part cell v u → Faulty cell u ∨ LeadsBack cell s.active u →
      Faulty cell v ∨ LeadsBack cell active v := by
    intro u hu h
    rw [hactive] at h
    exact reason_of_part hu h
  have hpart : ∀ u, u ∈ (cell v).parts → Part cell v u := fun u hu => hu
  cases hcell : cell v with
  | scalar a => exact visits_pure hs (.scalar hcell)
  | proxy entries => exact visits_pure hs (.proxy hcell)
  | unsupported type =>
      exact visits_throw fun _ => ⟨trivial, .inl (Fault.faulty (.inr (.inl ⟨type, hcell⟩)))⟩
  | sequence items =>
      rw [hcell] at hpart
      refine (visits_visitAll hs hvisit (fun h u hu => hdeep h u (hpart u hu))
        fun u hu => hreason u (hpart u hu)).bind id id ?_
      intro values t hvalues ht _
      obtain ⟨value, hvalue, rfl⟩ := exists_value_of_forall₂ hvalues
      exact visits_pure ht (.sequence value hcell hvalue)
  | set members =>
      rw [hcell] at hpart
      refine (visits_visitMembers hs hvisit (fun h u hu => hdeep h u (hpart u hu))
        (fun u hu => hreason u (hpart u hu)) ?_).bind id id ?_
      · intro u hu value hvalue hhash
        exact .inl (Fault.faulty (.inr (.inr (.inr ⟨members, hcell, u, hu, value, hvalue, hhash⟩))))
      · intro values t hvalues ht _
        obtain ⟨value, hvalue, rfl⟩ := exists_value_of_forall₂ hvalues.1
        refine visits_pure ht (.set value hcell hvalue ?_)
        exact fun member hmember => hvalues.2 _ (List.mem_map_of_mem hmember)
  | mapping items =>
      rw [hcell] at hpart
      have hitem : ∀ item ∈ items, Part cell v item.2 :=
        fun item hitem => hpart _ (List.mem_map_of_mem hitem)
      refine (visits_visitItems hs hvisit (fun h item hmem => hdeep h _ (hitem item hmem))
        (fun item hmem => hreason _ (hitem item hmem)) ?_).bind id id ?_
      · intro item hmem hkey
        exact .inl (Fault.faulty (.inr (.inr (.inl ⟨items, hcell, item, hmem, hkey⟩))))
      · rintro data t ⟨hkeys, pairs, hpairs, rfl⟩ ht _
        obtain ⟨value, hvalue, rfl⟩ := exists_value_of_related hpairs
        exact visits_pure ht (.mapping value hcell hkeys hvalue)
  | record fields =>
      rw [hcell] at hpart
      have hfield : ∀ item ∈ fields.map (fun field => (Key.scalar field.1, field.2)),
          Part cell v item.2 := by
        intro item hmem
        obtain ⟨field, hfield, rfl⟩ := List.mem_map.mp hmem
        exact hpart _ (List.mem_map_of_mem hfield)
      rw [visitCell, visitFields_eq]
      refine (visits_visitItems hs hvisit (fun h item hmem => hdeep h _ (hfield item hmem))
        (fun item hmem => hreason _ (hfield item hmem)) ?_).bind id id ?_
      · intro item hmem hkey
        obtain ⟨field, -, rfl⟩ := List.mem_map.mp hmem
        cases hkey
      · rintro data t ⟨-, pairs, hpairs, rfl⟩ ht _
        obtain ⟨value, hvalue, rfl⟩ := exists_value_of_related hpairs
        rw [List.map_map]
        refine visits_pure ht (.record value hcell ?_)
        exact fun field hmem => hvalue _ (List.mem_map_of_mem hmem)

variable [DecidableEq V]

/-- A container is active while its parts are visited, and then stands in the memo. -/
theorem visits_visitNew (hs : MemoSound cell s)
    (hvisit : ∀ u t, MemoSound cell t → t.active = v :: s.active →
      VisitsObject cell (visit u) t u (D u))
    (hdeep : deep → ∀ u, Part cell v u → D u) :
    VisitsObject cell (visitNew cell visit v) s v deep := by
  have hinner : Visits cell (visitActive cell visit v) { s with active := v :: s.active }
      (Unfolds cell v) (Faulty cell v ∨ LeadsBack cell s.active v) deep := by
    refine (visits_visitCell (s := { s with active := v :: s.active }) hs rfl hvisit hdeep).bind
      id id ?_
    intro result t hresult ht hactive
    refine ⟨hresult, ?_, rfl⟩
    intro entry hentry
    rcases List.mem_cons.mp hentry with rfl | hentry
    · exact hresult
    · exact ht entry hentry
  have hrun : (visitNew cell visit v).run s =
      match (visitActive cell visit v).run { s with active := v :: s.active } with
      | .ok a t => .ok a { t with active := t.active.erase v }
      | .error e t => .error e { t with active := t.active.erase v } := by
    change leaving v (visitActive cell visit v) { s with active := v :: s.active } = _
    unfold leaving EStateM.run
    cases visitActive cell visit v { s with active := v :: s.active } <;> rfl
  unfold VisitsObject Visits Ensures at *
  rw [hrun]
  cases hresult : (visitActive cell visit v).run { s with active := v :: s.active } with
  | ok a t =>
      rw [hresult] at hinner
      obtain ⟨ha, ht, hactive⟩ := hinner
      refine ⟨ha, ht, ?_⟩
      change t.active.erase v = s.active
      rw [hactive, List.erase_cons_head]
  | error e t =>
      rw [hresult] at hinner
      obtain ⟨hactive, he⟩ := hinner
      refine ⟨?_, he⟩
      change t.active.erase v = s.active
      rw [hactive, List.erase_cons_head]

variable {objects : Finset V}

/-- Enough nested calls for an object. -/
def Deep (objects : Finset V) (active : List V) (depth : Nat) (v : V) : Prop :=
  v ∈ objects ∧ unrecorded objects active + 1 ≤ depth

theorem Deep.part {depth : Nat} {u : V} (h : Deep objects active (depth + 1) v) (hv : v ∉ active)
    (hu : u ∈ objects) : Deep objects (v :: active) depth u := by
  have hrecorded := unrecorded_cons h.1 hv
  have hbound := h.2
  exact ⟨hu, by omega⟩

/-- `visit` finds the value of an object, or the reason why there is none. -/
theorem visits_visit (hclosed : ∀ v ∈ objects, ∀ u, Part cell v u → u ∈ objects) (depth : Nat)
    (s : Visit V A) (hs : MemoSound cell s) (v : V) :
    VisitsObject cell (Immutable.visit cell depth v) s v (Deep objects s.active depth v) := by
  induction depth generalizing s v with
  | zero =>
      refine visits_throw ?_
      rintro ⟨-, hbound⟩
      exact absurd hbound (Nat.not_succ_le_zero _)
  | succ depth ih =>
      have hcontainer : Visits cell (do
          let s ← get
          if v ∈ s.active then
            throw (.valueError "Cannot freeze cyclic data")
          match s.memo.lookup v with
          | some result => pure result
          | none => visitNew cell (Immutable.visit cell depth) v) s (Unfolds cell v)
          (Faulty cell v ∨ LeadsBack cell s.active v) (Deep objects s.active (depth + 1) v) := by
        apply ensures_get_bind
        dsimp only
        by_cases hv : v ∈ s.active
        · rw [if_pos hv]
          refine Ensures.bind (Q := fun _ _ => False) (ensures_throw ⟨rfl, ?_⟩) nofun
          exact fun _ => ⟨trivial, .inr ⟨v, hv, .refl⟩⟩
        · rw [if_neg hv]
          cases hmemo : s.memo.lookup v with
          | some result =>
              exact visits_pure hs (hs (v, result) (Assoc.mem_of_lookup hmemo))
          | none =>
              refine visits_visitNew (D := fun u => Deep objects (v :: s.active) depth u) hs ?_ ?_
              · intro u t ht hactive
                have hu := ih t ht u
                rw [hactive] at hu
                exact hu
              · exact fun h u hu => h.part hv (hclosed v h.1 u hu)
      unfold Immutable.visit
      cases hcell : cell v with
      | scalar a => exact visits_pure hs (.scalar hcell)
      | proxy entries => exact visits_pure hs (.proxy hcell)
      | mapping items => exact hcontainer
      | sequence items => exact hcontainer
      | set members => exact hcontainer
      | record fields => exact hcontainer
      | unsupported type => exact hcontainer

end Visit

section Freeze

variable [DecidableEq V] {objects : Finset V} {depth : Nat} {v : V}

/-- What `freeze` returns is the value of the object, and what it raises has a reason. -/
theorem freeze_spec (hclosed : ∀ v ∈ objects, ∀ u, Part cell v u → u ∈ objects)
    (hdepth : objects.card + 1 ≤ depth) (hv : v ∈ objects) :
    match freeze cell depth v with
    | .ok value => Unfolds cell v value
    | .error e => e.IsRefusal ∧ Faulty cell v := by
  have hempty : MemoSound cell (⟨[], []⟩ : Visit V A) := fun _ h => absurd h List.not_mem_nil
  have hvisits := visits_visit hclosed depth ⟨[], []⟩ hempty v
  have hdeep : Deep objects [] depth v := by
    have hcard := unrecorded_le objects []
    exact ⟨hv, by omega⟩
  unfold freeze
  cases hrun : (visit cell depth v).run ⟨[], []⟩ with
  | ok value t => exact (hvisits.ok hrun).1
  | error e t =>
      obtain ⟨he, hreason⟩ := (hvisits.error hrun).2 hdeep
      rcases hreason with hfaulty | ⟨u, hu, -⟩
      · exact ⟨he, hfaulty⟩
      · exact absurd hu List.not_mem_nil

theorem freeze_eq_ok_iff (hclosed : ∀ v ∈ objects, ∀ u, Part cell v u → u ∈ objects)
    (hdepth : objects.card + 1 ≤ depth) (hv : v ∈ objects) {value : Frozen A} :
    freeze cell depth v = .ok value ↔ Unfolds cell v value := by
  have hspec := freeze_spec hclosed hdepth hv
  constructor
  · intro h
    rw [h] at hspec
    exact hspec
  · intro h
    cases hfreeze : freeze cell depth v with
    | ok value' =>
        rw [hfreeze] at hspec
        rw [h.unique hspec]
    | error e =>
        rw [hfreeze] at hspec
        exact absurd hspec.2 h.not_faulty

theorem freeze_error (hclosed : ∀ v ∈ objects, ∀ u, Part cell v u → u ∈ objects)
    (hdepth : objects.card + 1 ≤ depth) (hv : v ∈ objects) {e : FreezeError}
    (h : freeze cell depth v = .error e) : e.IsRefusal ∧ Faulty cell v := by
  have hspec := freeze_spec hclosed hdepth hv
  rw [h] at hspec
  exact hspec

/-- `freeze` returns exactly where nothing faulty is reached. -/
theorem exists_freeze_iff (hclosed : ∀ v ∈ objects, ∀ u, Part cell v u → u ∈ objects)
    (hdepth : objects.card + 1 ≤ depth) (hv : v ∈ objects) :
    (∃ value, freeze cell depth v = .ok value) ↔ ¬ Faulty cell v := by
  constructor
  · rintro ⟨value, h⟩
    exact ((freeze_eq_ok_iff hclosed hdepth hv).mp h).not_faulty
  · intro h
    cases hfreeze : freeze cell depth v with
    | ok value => exact ⟨value, rfl⟩
    | error e => exact absurd (freeze_error hclosed hdepth hv hfreeze).2 h

end Freeze

end Run

end Immutable

end Rmote
