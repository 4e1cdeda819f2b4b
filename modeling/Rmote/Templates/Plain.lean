import Rmote.Library.Outcome
import Rmote.Library.Recorded
import Rmote.Templates.Lenient
import Mathlib.Logic.Relation

/-!
# Plain data

`validate` walks an object graph and accepts it if it is plain: every object that can be reached
has an allowed type, and no container reaches itself. It records a container only in front of the
first child that is no scalar, which is enough: a cycle leads through such a child again and again.
-/

namespace Rmote

namespace Templates

open Outcome Relation Recorded

section Graph

variable {V C F W E : Type} (py : Python V C F W E) (w : W)

/-- A direct part of a container. -/
def Part (v u : V) : Prop :=
  match py.cell w v with
  | .dict entries => ∃ entry ∈ entries, u = entry.1 ∨ u = entry.2
  | .sequence items => u ∈ items
  | _ => False

/-- The object is reached through containers. -/
abbrev Reaches : V → V → Prop := ReflTransGen (Part py w)

/-- Everything that the object reaches has an allowed type, and nothing reaches itself. -/
def PlainData (v : V) : Prop :=
  ∀ u, Reaches py w v u → py.cell w u ≠ .foreign ∧ ¬ TransGen (Part py w) u u

/-- Nothing that the object reaches is recorded. -/
def Fresh (seen : List V) (v : V) : Prop := ∀ u, Reaches py w v u → u ∉ seen

variable {py w} {v u : V}

theorem PlainData.part (h : PlainData py w v) (hu : Part py w v u) : PlainData py w u :=
  fun x hx => h x (.head hu hx)

/-- A part of a fresh object that is in no cycle stays fresh when the object is recorded. -/
theorem Fresh.part {seen : List V} (h : Fresh py w seen v) (hplain : PlainData py w v)
    (hu : Part py w v u) : Fresh py w (v :: seen) u := by
  intro x hx hmem
  rcases List.mem_cons.mp hmem with rfl | hmem
  · exact (hplain x .refl).2 (TransGen.head' hu hx)
  · exact h x (.head hu hx) hmem

theorem Fresh.of_cons {seen : List V} (h : Fresh py w (v :: seen) u) : Fresh py w seen u :=
  fun x hx hmem => h x hx (List.mem_cons_of_mem _ hmem)

/-- A container is plain if its parts are. -/
theorem plainData_of_parts (hcell : py.cell w v ≠ .foreign)
    (h : ∀ u, Part py w v u → PlainData py w u) : PlainData py w v := by
  intro x hx
  rcases ReflTransGen.cases_head hx with rfl | ⟨u, hu, hux⟩
  · refine ⟨hcell, ?_⟩
    intro hcycle
    obtain ⟨u, hu, huv⟩ := TransGen.head'_iff.mp hcycle
    exact (h u hu _ huv).2 hcycle
  · exact h u hu x hux

theorem plainData_of_leaf (hcell : py.cell w v ≠ .foreign) (h : ∀ u, ¬ Part py w v u) :
    PlainData py w v :=
  plainData_of_parts hcell fun u hu => absurd hu (h u)

theorem plainData_of_isScalar (h : (py.cell w v).isScalar = true) : PlainData py w v := by
  have hcell : py.cell w v = .text ∨ py.cell w v = .scalar := by
    cases hv : py.cell w v with
    | text => exact .inl rfl
    | scalar => exact .inr rfl
    | proxy => rw [hv] at h; cases h
    | dict entries => rw [hv] at h; cases h
    | sequence items => rw [hv] at h; cases h
    | foreign => rw [hv] at h; cases h
  apply plainData_of_leaf
  · rcases hcell with hcell | hcell <;> rw [hcell] <;> exact nofun
  · intro u hu
    unfold Part at hu
    rcases hcell with hcell | hcell <;> rw [hcell] at hu <;> exact hu

end Graph

section Walk

variable {V C F W E : Type} {py : Python V C F W E} {w : W}

/-- The two errors of `validate`. -/
def Refusal (py : Python V C F W E) (e : E) : Prop :=
  e = py.typeError notPlain ∨ e = py.valueError cyclic

def Cell.isDict : Cell V → Bool
  | .dict _ => true
  | _ => false

/-- A call returns for plain data and otherwise refuses, and leaves the recorded objects alone. It
may also refuse an object that leads back to a recorded one. -/
def Judges (py : Python V C F W E) (w : W) (m : EStateM E (List V) Unit) (seen : List V) (v : V)
    (deep : Prop) : Prop :=
  Ensures m seen (fun _ t => t = seen ∧ PlainData py w v) fun e t =>
    t = seen ∧ (deep → Refusal py e ∧ ¬ (PlainData py w v ∧ Fresh py w seen v))

/-- The objects of a list of children: each key that has to be validated, and each item. -/
def parts : List (Option V × V) → List V
  | [] => []
  | (none, item) :: rest => item :: parts rest
  | (some key, item) :: rest => key :: item :: parts rest

/-- A loop returns if its objects are plain, and otherwise refuses one of them. -/
def JudgesAll (py : Python V C F W E) (w : W) (m : EStateM E (List V) Unit) (seen : List V)
    (objects : List V) (good deep : Prop) : Prop :=
  Ensures m seen (fun _ t => t = seen ∧ ∀ u ∈ objects, PlainData py w u) fun e t =>
    t = seen ∧ (deep → Refusal py e ∧ ¬ good)

section Rules

variable {m n : EStateM E (List V) Unit} {seen l : List V} {v : V} {good good' deep deep' : Prop}

theorem judgesAll_nil : JudgesAll py w (pure ()) seen [] good deep :=
  ensures_pure ⟨rfl, fun _ h => absurd h List.not_mem_nil⟩

/-- A scalar needs no call. -/
theorem JudgesAll.skip (h : JudgesAll py w n seen l good deep)
    (hscalar : (py.cell w v).isScalar = true) (hgood : good' → good) :
    JudgesAll py w n seen (v :: l) good' deep := by
  refine Ensures.mono h ?_ ?_
  · rintro _ t ⟨ht, hplain⟩
    refine ⟨ht, ?_⟩
    intro u hu
    rcases List.mem_cons.mp hu with rfl | hu
    · exact plainData_of_isScalar hscalar
    · exact hplain u hu
  · rintro e t ⟨ht, herror⟩
    exact ⟨ht, fun hdeep => ⟨(herror hdeep).1, fun h => (herror hdeep).2 (hgood h)⟩⟩

theorem Judges.next (hm : Judges py w m seen v deep') (hn : JudgesAll py w n seen l good deep)
    (hdeep : deep → deep') (hv : good' → PlainData py w v ∧ Fresh py w seen v)
    (hgood : good' → good) :
    JudgesAll py w (m >>= fun _ => n) seen (v :: l) good' deep := by
  refine Ensures.bind (Q := fun _ t => t = seen ∧ PlainData py w v) ?_ ?_
  · refine Ensures.mono hm (fun _ _ h => h) ?_
    rintro e t ⟨ht, herror⟩
    exact ⟨ht, fun h => ⟨(herror (hdeep h)).1, fun hgood' => (herror (hdeep h)).2 (hv hgood')⟩⟩
  · rintro _ t ⟨rfl, hplain⟩
    refine Ensures.mono hn ?_ ?_
    · rintro _ u ⟨hu, hrest⟩
      refine ⟨hu, ?_⟩
      intro x hx
      rcases List.mem_cons.mp hx with rfl | hx
      · exact hplain
      · exact hrest x hx
    · rintro e u ⟨hu, herror⟩
      exact ⟨hu, fun h => ⟨(herror h).1, fun hgood' => (herror h).2 (hgood hgood')⟩⟩

end Rules

variable {v : V} {seen : List V}

/-- The objects are plain, and none of them leads to a recorded one. -/
def Good (py : Python V C F W E) (w : W) (seen l : List V) : Prop :=
  ∀ u ∈ l, PlainData py w u ∧ Fresh py w seen u

theorem Good.head {l : List V} (h : Good py w seen (v :: l)) :
    PlainData py w v ∧ Fresh py w seen v :=
  h v List.mem_cons_self

theorem Good.tail {l : List V} (h : Good py w seen (v :: l)) : Good py w seen l :=
  fun u hu => h u (List.mem_cons_of_mem _ hu)

variable [DecidableEq V] {objects : Finset V}

/-- Enough nested calls for an object. A `dict` does not record itself before it validates its keys,
but a key is no `dict`: of two nested calls at least one records an object. -/
def Deep (py : Python V C F W E) (w : W) (objects : Finset V) (seen : List V) (depth : Nat) (v : V) :
    Prop :=
  v ∈ objects ∧ 2 * unrecorded objects seen + (if (py.cell w v).isDict then 2 else 1) ≤ depth

/-- The `finally` clause takes the object out again. -/
theorem JudgesAll.recorded {m : EStateM E (List V) Unit} {l : List V} {good deep : Prop}
    (h : JudgesAll py w m (v :: seen) l good deep) :
    JudgesAll py w (do
      modify (v :: ·)
      forgetting v m) seen l good deep := by
  have hrun : (do
      modify (v :: ·)
      forgetting v m : EStateM E (List V) Unit).run seen = (forgetting v m).run (v :: seen) :=
    rfl
  unfold JudgesAll Ensures at *
  rw [hrun]
  cases hm : m.run (v :: seen) with
  | ok a t =>
      rw [forgetting_ok hm]
      rw [hm] at h
      obtain ⟨rfl, hplain⟩ := h
      exact ⟨List.erase_cons_head _ _, hplain⟩
  | error e t =>
      rw [forgetting_error hm]
      rw [hm] at h
      obtain ⟨rfl, herror⟩ := h
      exact ⟨List.erase_cons_head _ _, herror⟩

variable {validate : V → EStateM E (List V) Unit} {depth : Nat}

section Loops

variable (hvalidate : ∀ seen v, Judges py w (validate v) seen v (Deep py w objects seen depth v))
include hvalidate

theorem judgesAll_walkRecorded {children : List (Option V × V)} {deep : Prop}
    (hdeep : deep → ∀ u ∈ parts children, Deep py w objects seen depth u) :
    JudgesAll py w (walkRecorded py validate w children) seen (parts children)
      (Good py w seen (parts children)) deep := by
  induction children with
  | nil => exact judgesAll_nil
  | cons child rest ih =>
      obtain ⟨key, item⟩ := child
      -- the item, behind its key
      have hitem : (deep → Deep py w objects seen depth item) →
          (deep → ∀ u ∈ parts rest, Deep py w objects seen depth u) →
          JudgesAll py w (if !(py.cell w item).isScalar then do
              validate item
              walkRecorded py validate w rest
            else walkRecorded py validate w rest) seen (item :: parts rest)
            (Good py w seen (item :: parts rest)) deep := by
        intro hdeepItem hdeepRest
        by_cases hscalar : (py.cell w item).isScalar
        · rw [hscalar]
          exact (ih hdeepRest).skip hscalar Good.tail
        · rw [Bool.not_eq_true] at hscalar
          rw [hscalar]
          exact (hvalidate seen item).next (ih hdeepRest) hdeepItem Good.head Good.tail
      unfold walkRecorded
      cases key with
      | none =>
          apply hitem
          · exact fun h => hdeep h item List.mem_cons_self
          · exact fun h u hu => hdeep h u (List.mem_cons_of_mem _ hu)
      | some key =>
          refine (hvalidate seen key).next (hitem ?_ ?_) ?_ Good.head Good.tail
          · exact fun h => hdeep h item (List.mem_cons_of_mem _ List.mem_cons_self)
          · exact fun h u hu =>
              hdeep h u (List.mem_cons_of_mem _ (List.mem_cons_of_mem _ hu))
          · exact fun h => hdeep h key List.mem_cons_self

theorem judgesAll_walk {children : List (Option V × V)} {deep : Prop}
    (hkeys : deep → ∀ child ∈ children, ∀ key ∈ child.1, Deep py w objects seen depth key)
    (hdeep : deep → v ∉ seen → ∀ u ∈ parts children, Deep py w objects (v :: seen) depth u) :
    JudgesAll py w (walk py validate w v children) seen (parts children)
      (v ∉ seen ∧ Good py w (v :: seen) (parts children)) deep := by
  induction children with
  | nil => exact judgesAll_nil
  | cons child rest ih =>
      obtain ⟨key, item⟩ := child
      have hkeysRest : deep → ∀ child ∈ rest, ∀ key ∈ child.1, Deep py w objects seen depth key :=
        fun h child hchild => hkeys h child (List.mem_cons_of_mem _ hchild)
      -- the item, behind its key
      have hitem : (deep → v ∉ seen → ∀ u ∈ item :: parts rest, Deep py w objects (v :: seen) depth u) →
          JudgesAll py w (if (py.cell w item).isScalar then walk py validate w v rest
            else do
              if v ∈ (← get) then
                throw (py.valueError cyclic)
              modify (v :: ·)
              forgetting v do
                validate item
                walkRecorded py validate w rest) seen (item :: parts rest)
            (v ∉ seen ∧ Good py w (v :: seen) (item :: parts rest)) deep := by
        intro hdeepItem
        by_cases hscalar : (py.cell w item).isScalar
        · rw [if_pos hscalar]
          refine (ih hkeysRest ?_).skip hscalar fun h => ⟨h.1, h.2.tail⟩
          exact fun h hv u hu => hdeepItem h hv u (List.mem_cons_of_mem _ hu)
        · rw [if_neg hscalar]
          apply ensures_get_bind
          by_cases hv : v ∈ seen
          · rw [if_pos hv]
            refine Ensures.bind (Q := fun _ _ => False) (ensures_throw ⟨rfl, ?_⟩) nofun
            exact fun _ => ⟨.inr rfl, fun h => h.1 hv⟩
          · rw [if_neg hv]
            apply JudgesAll.recorded
            refine (hvalidate (v :: seen) item).next (judgesAll_walkRecorded hvalidate ?_) ?_ ?_ ?_
            · exact fun h u hu => hdeepItem h hv u (List.mem_cons_of_mem _ hu)
            · exact fun h => hdeepItem h hv item List.mem_cons_self
            · exact fun h => h.2.head
            · exact fun h => h.2.tail
      unfold walk
      cases key with
      | none => exact hitem hdeep
      | some key =>
          refine (hvalidate seen key).next (hitem ?_) ?_ ?_ ?_
          · exact fun h hv u hu => hdeep h hv u (List.mem_cons_of_mem _ hu)
          · exact fun h => hkeys h _ List.mem_cons_self key rfl
          · exact fun h => ⟨h.2.head.1, h.2.head.2.of_cons⟩
          · exact fun h => ⟨h.1, h.2.tail⟩

end Loops

omit [DecidableEq V] in
/-- A container is judged by its parts. -/
theorem JudgesAll.judges {m : EStateM E (List V) Unit} {l : List V} {deep : Prop}
    (h : JudgesAll py w m seen l (v ∉ seen ∧ Good py w (v :: seen) l) deep)
    (hcell : py.cell w v ≠ .foreign) (hpart : ∀ u ∈ l, Part py w v u)
    (hall : ∀ u, Part py w v u → u ∈ l ∨ (py.cell w u).isScalar = true) :
    Judges py w m seen v deep := by
  refine Ensures.mono h ?_ ?_
  · rintro _ t ⟨ht, hplain⟩
    refine ⟨ht, plainData_of_parts hcell ?_⟩
    intro u hu
    rcases hall u hu with hmem | hscalar
    · exact hplain u hmem
    · exact plainData_of_isScalar hscalar
  · rintro e t ⟨ht, herror⟩
    refine ⟨ht, fun hdeep => ⟨(herror hdeep).1, ?_⟩⟩
    rintro ⟨hplain, hfresh⟩
    refine (herror hdeep).2 ⟨hfresh v .refl, ?_⟩
    intro u hu
    exact ⟨hplain.part (hpart u hu), hfresh.part hplain (hpart u hu)⟩

omit [DecidableEq V] in
theorem mem_parts {children : List (Option V × V)} {u : V} :
    u ∈ parts children ↔ ∃ child ∈ children, u ∈ child.1 ∨ u = child.2 := by
  induction children with
  | nil => simp [parts]
  | cons child rest ih =>
      obtain ⟨key, item⟩ := child
      cases key with
      | none => simp [parts, ih]
      | some key => simp [parts, ih, or_assoc, eq_comm]

/-- A recorded container leaves enough calls for its parts. -/
theorem Deep.part {u : V} (h : Deep py w objects seen (depth + 1) v) (hv : v ∉ seen)
    (hu : u ∈ objects) : Deep py w objects (v :: seen) depth u := by
  have hrecorded := unrecorded_cons h.1 hv
  have hbound := h.2
  refine ⟨hu, ?_⟩
  split at hbound <;> split <;> omega

/-- A `dict` that is not recorded leaves enough calls for its keys. -/
theorem Deep.key {entries : List (V × V)} {key : V} (h : Deep py w objects seen (depth + 1) v)
    (hdict : py.cell w v = .dict entries) (hkey : (py.cell w key).isDict = false)
    (hmem : key ∈ objects) : Deep py w objects seen depth key := by
  have hbound := h.2
  rw [hdict, show (Cell.dict entries).isDict = true from rfl, if_pos rfl] at hbound
  refine ⟨hmem, ?_⟩
  rw [hkey, if_neg Bool.false_ne_true]
  omega

omit [DecidableEq V] in
/-- Every key is validated but a `str`. -/
theorem mem_keyToValidate {key u : V} (h : u ∈ keyToValidate py w key) : u = key := by
  unfold keyToValidate at h
  split at h
  · cases h
  · cases h
    rfl

omit [DecidableEq V] in
theorem key_or_isScalar (key : V) :
    key ∈ keyToValidate py w key ∨ (py.cell w key).isScalar = true := by
  unfold keyToValidate
  split
  · rename_i hcell
    right
    rw [hcell]
    rfl
  · exact .inl rfl

/-- `validate` judges every object of a closed set of objects. -/
theorem judges_validate (hclosed : ∀ v ∈ objects, ∀ u, Part py w v u → u ∈ objects)
    (hkeys : ∀ v entries, py.cell w v = .dict entries → ∀ entry ∈ entries,
      (py.cell w entry.1).isDict = false) (depth : Nat) (seen : List V) (v : V) :
    Judges py w (Templates.validate py w depth v) seen v (Deep py w objects seen depth v) := by
  induction depth generalizing seen v with
  | zero =>
      refine ensures_throw ⟨rfl, ?_⟩
      rintro ⟨-, hbound⟩
      split at hbound <;> omega
  | succ depth ih =>
      unfold Templates.validate
      cases hcell : py.cell w v with
      | text => exact ensures_pure ⟨rfl, plainData_of_isScalar (by rw [hcell]; rfl)⟩
      | scalar => exact ensures_pure ⟨rfl, plainData_of_isScalar (by rw [hcell]; rfl)⟩
      | proxy =>
          refine ensures_pure ⟨rfl, plainData_of_leaf (by rw [hcell]; nofun) ?_⟩
          intro u hu
          unfold Part at hu
          rw [hcell] at hu
          exact hu
      | foreign => exact ensures_throw ⟨rfl, fun _ => ⟨.inl rfl, fun h => (h.1 v .refl).1 hcell⟩⟩
      | dict entries =>
          have hpart : ∀ u, Part py w v u ↔ ∃ entry ∈ entries, u = entry.1 ∨ u = entry.2 := by
            intro u
            unfold Part
            rw [hcell]
          have hmem : ∀ u, u ∈ parts (entries.map fun entry =>
              (keyToValidate py w entry.1, entry.2)) ↔
              ∃ entry ∈ entries, u ∈ keyToValidate py w entry.1 ∨ u = entry.2 := by
            intro u
            simp only [mem_parts, List.mem_map, exists_exists_and_eq_and]
          have hpart' : ∀ u, u ∈ parts (entries.map fun entry =>
              (keyToValidate py w entry.1, entry.2)) → Part py w v u := by
            intro u hu
            obtain ⟨entry, hentry, hu⟩ := (hmem u).mp hu
            exact (hpart u).mpr ⟨entry, hentry, hu.imp_left mem_keyToValidate⟩
          dsimp only
          refine (judgesAll_walk ih ?_ ?_).judges (by rw [hcell]; nofun) hpart' ?_
          · intro hdeep child hchild key hkey
            obtain ⟨entry, hentry, rfl⟩ := List.mem_map.mp hchild
            obtain rfl := mem_keyToValidate hkey
            exact hdeep.key hcell (hkeys v entries hcell entry hentry)
              (hclosed v hdeep.1 _ ((hpart _).mpr ⟨entry, hentry, .inl rfl⟩))
          · intro hdeep hv u hu
            exact hdeep.part hv (hclosed v hdeep.1 u (hpart' u hu))
          · intro u hu
            obtain ⟨entry, hentry, hu⟩ := (hpart u).mp hu
            rcases hu with rfl | rfl
            · rcases key_or_isScalar entry.1 with hkey | hscalar
              · exact .inl ((hmem _).mpr ⟨entry, hentry, .inl hkey⟩)
              · exact .inr hscalar
            · exact .inl ((hmem _).mpr ⟨entry, hentry, .inr rfl⟩)
      | sequence items =>
          have hpart : ∀ u, Part py w v u ↔ u ∈ items := by
            intro u
            unfold Part
            rw [hcell]
          have hmem : ∀ u, u ∈ parts (items.map (none, ·)) ↔ u ∈ items := by
            intro u
            simp [mem_parts]
          dsimp only
          refine (judgesAll_walk ih ?_ ?_).judges (by rw [hcell]; nofun) ?_ ?_
          · intro _ child hchild key hkey
            obtain ⟨item, -, rfl⟩ := List.mem_map.mp hchild
            cases hkey
          · intro hdeep hv u hu
            exact hdeep.part hv (hclosed v hdeep.1 u ((hpart u).mpr ((hmem u).mp hu)))
          · exact fun u hu => (hpart u).mpr ((hmem u).mp hu)
          · exact fun u hu => .inl ((hmem u).mpr ((hpart u).mp hu))

/-- `validate` accepts plain data and nothing else. On every graph of finitely many objects, in
which no key of a `dict` is a `dict`, it ends when two nested calls for each object are there. It
returns if and only if the object is plain, it raises `TypeError` or `ValueError` otherwise, and it
leaves the recorded objects as they were. -/
theorem validate_returns_iff (hclosed : ∀ v ∈ objects, ∀ u, Part py w v u → u ∈ objects)
    (hkeys : ∀ v entries, py.cell w v = .dict entries → ∀ entry ∈ entries,
      (py.cell w entry.1).isDict = false) {depth : Nat} (hdepth : 2 * objects.card + 2 ≤ depth)
    {v : V} (hv : v ∈ objects) :
    ((∃ t, (Templates.validate py w depth v).run [] = .ok () t) ↔ PlainData py w v) ∧
    (∀ e t, (Templates.validate py w depth v).run [] = .error e t →
      e = py.typeError notPlain ∨ e = py.valueError cyclic) ∧
    ∀ depth seen, (∀ a t, (Templates.validate py w depth v).run seen = .ok a t → t = seen) ∧
      ∀ e t, (Templates.validate py w depth v).run seen = .error e t → t = seen := by
  have hjudges : ∀ depth seen v, Judges py w (Templates.validate py w depth v) seen v
      (Deep py w objects seen depth v) := judges_validate hclosed hkeys
  have hdeep : Deep py w objects [] depth v := by
    refine ⟨hv, ?_⟩
    have hcard := unrecorded_le objects []
    split <;> omega
  refine ⟨⟨?_, ?_⟩, ?_, ?_⟩
  · rintro ⟨t, hrun⟩
    exact ((hjudges depth [] v).ok hrun).2
  · intro hplain
    cases hrun : (Templates.validate py w depth v).run [] with
    | ok a t => exact ⟨t, rfl⟩
    | error e t =>
        have hfresh : Fresh py w [] v := fun u _ => List.not_mem_nil
        exact absurd ⟨hplain, hfresh⟩ (((hjudges depth [] v).error hrun).2 hdeep).2
  · intro e t hrun
    exact (((hjudges depth [] v).error hrun).2 hdeep).1
  · intro depth seen
    constructor
    · intro a t hrun
      exact ((hjudges depth seen v).ok hrun).1
    · intro e t hrun
      exact ((hjudges depth seen v).error hrun).1

end Walk

section Sample

/-- A `dict` and a list that hold each other, the list under a string. -/
def cyclicPython : Python Found Unit Unit Unit String :=
  { foundPython with
    cell := fun _ value => match value with
      | .number => .dict [(.missing "key", .object)]
      | .object => .sequence [.number]
      | .missing _ => .text }

theorem cyclicPython_closed : ∀ v ∈ ({.number, .object, .missing "key"} : Finset Found),
    ∀ u, Part cyclicPython () v u → u ∈ ({.number, .object, .missing "key"} : Finset Found) := by
  intro v hv u hu
  simp only [Finset.mem_insert, Finset.mem_singleton] at hv ⊢
  unfold Part at hu
  rcases hv with rfl | rfl | rfl
  · obtain ⟨entry, hentry, hu⟩ := hu
    obtain rfl := List.mem_singleton.mp hentry
    exact hu.elim (fun h => .inr (.inr h)) fun h => .inr (.inl h)
  · exact .inl (List.mem_singleton.mp hu)
  · exact hu.elim

theorem cyclicPython_keys : ∀ v entries, cyclicPython.cell () v = .dict entries →
    ∀ entry ∈ entries, (cyclicPython.cell () entry.1).isDict = false := by
  intro v entries h entry hentry
  cases v with
  | number =>
      cases h
      obtain rfl := List.mem_singleton.mp hentry
      rfl
  | object => cases h
  | missing e => cases h

/-- The two containers are refused, and the recorded objects are restored. -/
theorem cyclicPython_refused :
    ((∃ t, (validate cyclicPython () 8 .number).run [] = .ok () t) ↔
      PlainData cyclicPython () .number) ∧
    ∀ e t, (validate cyclicPython () 8 .number).run [] = .error e t →
      e = cyclicPython.typeError notPlain ∨ e = cyclicPython.valueError cyclic := by
  have hdepth : 2 * ({.number, .object, .missing "key"} : Finset Found).card + 2 ≤ 8 := by decide
  have h := validate_returns_iff cyclicPython_closed cyclicPython_keys hdepth (v := .number)
    (by decide)
  exact ⟨h.1, h.2.1⟩

end Sample

end Templates

end Rmote
