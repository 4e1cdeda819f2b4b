import Rmote.Templates.Program
import Mathlib.Logic.Function.Basic

/-!
# The context of a render

A render works on Python objects. `Python` lists the operations of the interpreter that the
engine calls, over an arbitrary type `V` of objects and a state `W` of the interpreter;
filters are trusted code, so each of them may do anything to that state. What the engine
itself computes is defined here: the check of context values (`validate`), the
materialization of filter results (`normalise`), and the names of a render.

`accesses` is a history variable. It records which names were assigned and read, in order,
and no operation looks at it.
-/

namespace Rmote

namespace Templates

/-- What `type(value)` tells the engine: a `str`, another type of `SCALAR_TYPES`, a
`DeepMappingProxy`, a `dict`, one of `SEQUENCE_TYPES`, or any other object. -/
inductive Cell (V : Type) where
  | text
  | scalar
  | proxy
  | dict (entries : List (V × V))
  | sequence (items : List V)
  | foreign

/-- The test of `validate` and `normalise` on the type of a child. -/
def Cell.isScalar {V : Type} : Cell V → Bool
  | .text | .scalar => true
  | _ => false

/-- An exception of Python, one of the two internal signals, or no more fuel for a loop of
the model. -/
inductive Signal (E : Type) where
  | raised (exception : E)
  | templateBreak
  | templateContinue
  | exhausted
  deriving DecidableEq

/-- The operations of Python that a render uses. `V` are objects, `C` filter classes, `F`
filter instances, `W` states of the interpreter and `E` exceptions. -/
structure Python (V C F W E : Type) where
  cell : W → V → Cell V
  /-- The number of nested calls before `RecursionError`. -/
  recursionLimit : Nat
  constant : Constant → V
  collect : CollectionKind → List V → EStateM E W V
  newDict : EStateM E W V
  setItem : V → V → V → EStateM E W Unit
  /-- `kind(values)` for the exact type of a sequence. -/
  rebuild : V → List V → EStateM E W V
  unary : UnaryOperator → V → EStateM E W V
  arithmetic : Arithmetic → V → V → EStateM E W V
  compare : ComparisonOperator → V → V → EStateM E W V
  truth : V → EStateM E W Bool
  getItem : V → V → EStateM E W V
  getAttr : V → String → EStateM E W V
  slice : Option V → Option V → Option V → EStateM E W V
  str : V → EStateM E W String
  toTuple : V → EStateM E W (List V)
  iter : V → EStateM E W V
  next : V → EStateM E W (Option V)
  /-- An iterator over the items of a `dict`, and its next pair. -/
  iterItems : V → EStateM E W V
  nextItem : V → EStateM E W (Option (V × V))
  isIterator : V → EStateM E W Bool
  construct : C → EStateM E W F
  handlesUndefined : F → EStateM E W Bool
  call : F → V → List V → List (String × V) → EStateM E W V
  undefined : E → EStateM E W V
  /-- The error that a `TemplateUndefined` holds. -/
  undefinedError : W → V → Option E
  nameError : String → E
  typeError : String → E
  valueError : String → E
  keyError : String → E
  recursionError : E
  isTypeError : E → Bool
  /-- Whether `except (KeyError, IndexError, AttributeError)` catches it. -/
  isLookupError : E → Bool

section Validate

variable {V C F W E : Type} [DecidableEq V] (py : Python V C F W E)

def notPlain : String :=
  "Template values must be plain data; objects and callable values are not allowed"

def cyclic : String :=
  "Cyclic template data is not supported"

/-- The `finally` clause of `validate`. -/
def forgetting (value : V) (m : EStateM E (List V) Unit) : EStateM E (List V) Unit :=
  fun seen => match m seen with
    | .ok a seen => .ok a (seen.erase value)
    | .error e seen => .error e (seen.erase value)

theorem forgetting_ok {value : V} {m : EStateM E (List V) Unit} {a : Unit} {seen seen' : List V}
    (h : m.run seen = .ok a seen') : (forgetting value m).run seen = .ok a (seen'.erase value) := by
  unfold EStateM.run at h ⊢
  simp only [forgetting, h]

theorem forgetting_error {value : V} {m : EStateM E (List V) Unit} {e : E} {seen seen' : List V}
    (h : m.run seen = .error e seen') :
    (forgetting value m).run seen = .error e (seen'.erase value) := by
  unfold EStateM.run at h ⊢
  simp only [forgetting, h]

/-- The loop of `validate` over the children of a container whose identity is recorded. A
child comes with the key that has to be validated before it, if there is one. -/
def walkRecorded (validate : V → EStateM E (List V) Unit) (w : W) :
    List (Option V × V) → EStateM E (List V) Unit
  | [] => pure ()
  | (key, item) :: rest => do
      if let some key := key then
        validate key
      if !(py.cell w item).isScalar then
        validate item
      walkRecorded validate w rest

/-- The same loop before the first child that is not a scalar: only there the identity of
the container is looked up and recorded. -/
def walk (validate : V → EStateM E (List V) Unit) (w : W) (value : V) :
    List (Option V × V) → EStateM E (List V) Unit
  | [] => pure ()
  | (key, item) :: rest => do
      if let some key := key then
        validate key
      if (py.cell w item).isScalar then
        walk validate w value rest
      else
        if value ∈ (← get) then
          throw (py.valueError cyclic)
        modify (value :: ·)
        forgetting value do
          validate item
          walkRecorded py validate w rest

/-- A key of exact type `str` needs no call. -/
def keyToValidate (w : W) (key : V) : Option V :=
  match py.cell w key with
  | .text => none
  | _ => some key

/-- `RenderContext.validate`, with the set `seen` as the state and as many nested calls as
the first argument. -/
def validate (w : W) : Nat → V → EStateM E (List V) Unit
  | 0, _ => throw py.recursionError
  | depth + 1, value =>
      match py.cell w value with
      | .text | .scalar | .proxy => pure ()
      | .foreign => throw (py.typeError notPlain)
      | .dict entries =>
          walk py (validate w depth) w value
            (entries.map fun entry => (keyToValidate py w entry.1, entry.2))
      | .sequence items => walk py (validate w depth) w value (items.map (none, ·))

/-- `RenderContext.normalise` of a context value, which is not trusted. -/
def normaliseContext (w : W) (value : V) : Except E Unit :=
  if (py.cell w value).isScalar then
    .ok ()
  else
    match (validate py w py.recursionLimit value).run [] with
    | .ok _ _ => .ok ()
    | .error e _ => .error e

end Validate

section Normalise

variable {V C F W E : Type}

/-- An operation of Python, which can only raise exceptions. -/
def operation {α : Type} (m : EStateM E W α) : EStateM (Signal E) W α :=
  fun w => match m w with
    | .ok a w => .ok a w
    | .error e w => .error (.raised e) w

theorem operation_ok {α : Type} {m : EStateM E W α} {a : α} {w w' : W} (h : m.run w = .ok a w') :
    (operation m).run w = .ok a w' := by
  unfold EStateM.run at h ⊢
  simp only [operation, h]

theorem operation_error {α : Type} {m : EStateM E W α} {e : E} {w w' : W} (h : m.run w = .error e w') :
    (operation m).run w = .error (.raised e) w' := by
  unfold EStateM.run at h ⊢
  simp only [operation, h]

variable [DecidableEq V] (py : Python V C F W E)

/-- The items of an iterator, each materialized before the next one is asked for. -/
def materialize (normalise : V → EStateM (Signal E) W V) (iterator : V) :
    Nat → EStateM (Signal E) W (List V)
  | 0 => throw .exhausted
  | fuel + 1 => do
      match ← operation (py.next iterator) with
      | none => pure []
      | some item =>
          let item ← normalise item
          let rest ← materialize normalise iterator fuel
          pure (item :: rest)

/-- The same for the pairs of a `dict`, which go into a new one. -/
def materializeItems (normalise : V → EStateM (Signal E) W V) (result iterator : V) :
    Nat → EStateM (Signal E) W Unit
  | 0 => throw .exhausted
  | fuel + 1 => do
      match ← operation (py.nextItem iterator) with
      | none => pure ()
      | some (key, item) =>
          let key ← normalise key
          let item ← normalise item
          operation (py.setItem result key item)
          materializeItems normalise result iterator fuel

/-- `RenderContext.normalise` of a trusted value. The second number bounds the nested
calls; `fuel` bounds the length of an iteration. -/
def normalise (fuel : Nat) : Nat → List V → V → EStateM (Signal E) W V
  | 0, _, _ => throw (.raised py.recursionError)
  | depth + 1, seen, value => do
      let cell := py.cell (← get) value
      if cell.isScalar then
        return value
      if value ∈ seen then
        throw (.raised (py.valueError cyclic))
      match cell with
      | .dict _ =>
          let result ← operation py.newDict
          let iterator ← operation (py.iterItems value)
          materializeItems py (normalise fuel depth (value :: seen)) result iterator fuel
          pure result
      | .sequence _ =>
          let iterator ← operation (py.iter value)
          let items ← materialize py (normalise fuel depth (value :: seen)) iterator fuel
          operation (py.rebuild value items)
      | _ =>
          if ← operation (py.isIterator value) then
            let items ← materialize py (normalise fuel depth (value :: seen)) value fuel
            operation (py.collect .tuple items)
          else
            pure value

end Normalise

/-- What happened to a name. -/
inductive Access (V W : Type) where
  | assigned (name : String) (value : V)
  | read (name : String) (value : Option V) (world : W)
  | refused (name : String)

def Access.name {V W : Type} : Access V W → String
  | .assigned name _ | .read name _ _ | .refused name => name

/-- `RenderContext`. -/
structure RenderContext (V F W : Type) where
  values : String → Option V
  unchecked : String → Bool
  filters : String → Option F
  output : List String
  world : W
  accesses : List (Access V W)

namespace RenderContext

variable {V C F W E : Type} [DecidableEq V] (py : Python V C F W E)

/-- Code of the engine that does not look at the context. -/
def lift {α : Type} (m : EStateM (Signal E) W α) :
    EStateM (Signal E) (RenderContext V F W) α :=
  fun s => match m s.world with
    | .ok a w => .ok a { s with world := w }
    | .error e w => .error e { s with world := w }

omit [DecidableEq V] in
theorem lift_ok {α : Type} {m : EStateM (Signal E) W α} {s : RenderContext V F W} {a : α} {w : W}
    (h : m.run s.world = .ok a w) : (lift m).run s = .ok a { s with world := w } := by
  unfold EStateM.run at h ⊢
  simp only [lift, h]

omit [DecidableEq V] in
theorem lift_error {α : Type} {m : EStateM (Signal E) W α} {s : RenderContext V F W}
    {e : Signal E} {w : W} (h : m.run s.world = .error e w) :
    (lift m).run s = .error e { s with world := w } := by
  unfold EStateM.run at h ⊢
  simp only [lift, h]

def record (access : Access V W) : EStateM (Signal E) (RenderContext V F W) PUnit :=
  modify fun s => { s with accesses := s.accesses ++ [access] }

/-- Append to the output. -/
def write (text : String) : EStateM (Signal E) (RenderContext V F W) PUnit :=
  modify fun s => { s with output := s.output ++ [text] }

/-- `RenderContext.check`, with the value that it looks up. -/
def check (name : String) (value : V) : EStateM (Signal E) (RenderContext V F W) PUnit := do
  modify fun s => { s with unchecked := Function.update s.unchecked name false }
  match normaliseContext py (← get).world value with
  | .ok () => pure ()
  | .error e =>
      record (.refused name)
      throw (.raised e)

/-- `VariableExpression.resolve`. -/
def resolveVariable (name : String) : EStateM (Signal E) (RenderContext V F W) V := do
  let s ← get
  record (.read name (s.values name) s.world)
  match s.values name with
  | none => lift (operation (py.undefined (py.nameError ("Unknown template variable: " ++ name))))
  | some value =>
      if s.unchecked name then
        check py name value
      pure value

section Read

variable {py} {name : String} {value : V} {s : RenderContext V F W}

/-- The context after a read was recorded. -/
def reading (s : RenderContext V F W) (name : String) : RenderContext V F W :=
  { s with accesses := s.accesses ++ [.read name (s.values name) s.world] }

/-- The context after the name was taken out of the unchecked ones. -/
def checked (s : RenderContext V F W) (name : String) : RenderContext V F W :=
  { s with unchecked := Function.update s.unchecked name false }

theorem run_check : (check py name value : EStateM (Signal E) (RenderContext V F W) PUnit).run s =
    match normaliseContext py s.world value with
    | .ok () => .ok ⟨⟩ (s.checked name)
    | .error e => .error (.raised e)
        { s.checked name with accesses := s.accesses ++ [.refused name] } := by
  change EStateM.run (match normaliseContext py s.world value with
    | .ok () => pure PUnit.unit
    | .error e => do
        record (.refused name)
        throw (.raised e)) (s.checked name) = _
  cases normaliseContext py s.world value with
  | ok _ => rfl
  | error e => rfl

theorem run_resolveVariable : (resolveVariable py name).run s =
    EStateM.run (match s.values name with
      | none => lift (operation (py.undefined
          (py.nameError ("Unknown template variable: " ++ name))))
      | some value => do
          if s.unchecked name then
            check py name value
          pure value) (s.reading name) :=
  rfl

theorem run_resolveVariable_missing (hvalue : s.values name = none) :
    (resolveVariable py name).run s = (lift (operation (py.undefined
      (py.nameError ("Unknown template variable: " ++ name))))).run (s.reading name) := by
  rw [run_resolveVariable, hvalue]

theorem run_resolveVariable_known (hvalue : s.values name = some value)
    (hunchecked : s.unchecked name = false) :
    (resolveVariable py name).run s = .ok value (s.reading name) := by
  rw [run_resolveVariable, hvalue, hunchecked]
  rfl

theorem run_resolveVariable_plain (hvalue : s.values name = some value)
    (hunchecked : s.unchecked name = true)
    (hplain : normaliseContext py s.world value = .ok ()) :
    (resolveVariable py name).run s = .ok value ((s.reading name).checked name) := by
  have hworld : normaliseContext py (s.reading name).world value = .ok () := hplain
  rw [run_resolveVariable, hvalue, hunchecked]
  simp only [if_true]
  rw [EStateM.run_bind, run_check, hworld]
  rfl

theorem run_resolveVariable_refused {e : E} (hvalue : s.values name = some value)
    (hunchecked : s.unchecked name = true)
    (hrefused : normaliseContext py s.world value = .error e) :
    (resolveVariable py name).run s = .error (.raised e)
      { (s.reading name).checked name with
        accesses := (s.reading name).accesses ++ [.refused name] } := by
  have hworld : normaliseContext py (s.reading name).world value = .error e := hrefused
  rw [run_resolveVariable, hvalue, hunchecked]
  simp only [if_true]
  rw [EStateM.run_bind, run_check, hworld]

end Read

/-- `context.values[name] = value`. -/
def setValue (name : String) (value : V) : EStateM (Signal E) (RenderContext V F W) PUnit := do
  modify fun s => { s with values := Function.update s.values name (some value) }
  record (.assigned name value)

/-- `context.values.update` with pairs. -/
def setValues : List (String × V) → EStateM (Signal E) (RenderContext V F W) PUnit
  | [] => pure ⟨⟩
  | (name, value) :: rest => do
      setValue name value
      setValues rest

/-- `AssignmentTarget.assign`. -/
def assign (target : AssignmentTarget) (value : V) :
    EStateM (Signal E) (RenderContext V F W) PUnit := do
  if target.unpack then
    let values ← lift (operation (py.toTuple value))
    if values.length ≠ target.names.length then
      throw (.raised (py.valueError "Wrong number of values to unpack"))
    setValues (target.names.zip values)
  else
    setValue target.first value

/-- `context.filters[name]`. -/
def getFilter (name : String) : EStateM (Signal E) (RenderContext V F W) F := do
  match (← get).filters name with
  | some function => pure function
  | none => throw (.raised (py.keyError name))

/-- The comprehension that builds the filters of a context. -/
def constructFilters :
    List (String × C) → EStateM (Signal E) (RenderContext V F W) PUnit
  | [] => pure ⟨⟩
  | (name, cls) :: rest => do
      let function ← lift (operation (py.construct cls))
      modify fun s => { s with filters := Function.update s.filters name (some function) }
      constructFilters rest

end RenderContext

end Templates

end Rmote
