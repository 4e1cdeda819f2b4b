import Rmote.Templates.Render

/-!
# Strict and lenient evaluation

`resolve` gives a missing value as a `TemplateUndefined`, for a filter that can do with it, and
`evaluate` raises the error that the object holds. The lookup classes write both methods out. The
two agree on every expression, except where an operator of some object itself returns a
`TemplateUndefined`: the operator classes have one method for both.
-/

namespace Rmote

namespace Templates

open RenderContext Coupling

section Agreement

variable {V C F W E : Type} (py : Python V C F W E)

/-- The operation returns no `TemplateUndefined`. -/
def ReturnsDefined (m : EStateM E W V) : Prop :=
  ∀ w value w', m.run w = .ok value w' → py.undefinedError w' value = none

/-- What the engine relies on about `TemplateUndefined`: the constructor returns an object that
holds the error, an object keeps its type, and no literal, builtin collection, slice or result of
`not` is one. -/
structure LawfulUndefined : Prop where
  undefined : ∀ e w, ∃ value w', (py.undefined e).run w = .ok value w' ∧
    py.undefinedError w' value = some e
  keepsType : ∀ value w w', py.undefinedError w value = none → py.undefinedError w' value = none
  constant : ∀ c w, py.undefinedError w (py.constant c) = none
  collect : ∀ kind items, ReturnsDefined py (py.collect kind items)
  newDict : ReturnsDefined py py.newDict
  slice : ∀ start stop step, ReturnsDefined py (py.slice start stop step)
  not : ∀ value, ReturnsDefined py (py.unary .not value)

/-- No operator whose result is the value of the expression, or a value that it looks into,
returns a `TemplateUndefined`. -/
def Expression.Settled : Expression → Prop
  | .unary operator _ => ∀ value, ReturnsDefined py (py.unary operator value)
  | .binary (.arithmetic operator) _ _ =>
      ∀ value other, ReturnsDefined py (py.arithmetic operator value other)
  | .binary _ left right => left.Settled ∧ right.Settled
  | .conditional _ positive negative => positive.Settled ∧ negative.Settled
  | .attribute value _ => value.Settled
  | .lookup value _ => value.Settled
  | _ => True

/-- What `evaluate` does where `resolve` ends in the given way: it raises the error of an undefined
value, and does the same otherwise. Only the interpreter may notice that no object was made. -/
def Answered (resolved evaluated : EStateM.Result (Signal E) (RenderContext V F W) V) : Prop :=
  match resolved with
  | .ok value s =>
      match py.undefinedError s.world value with
      | none => evaluated = .ok value s
      | some e => ∃ w, evaluated = .error (.raised e) { s with world := w }
  | .error e s => evaluated = .error e s

/-- The code returns no `TemplateUndefined`. -/
def Defined (m : EStateM (Signal E) (RenderContext V F W) V) : Prop :=
  ∀ s value t, m.run s = .ok value t → py.undefinedError t.world value = none

variable {py}

section Rules

variable {α : Type}

/-- Code that goes on with a value that is defined. -/
theorem Defined.bind (hlawful : LawfulUndefined py)
    {m : EStateM (Signal E) (RenderContext V F W) V}
    {f : V → EStateM (Signal E) (RenderContext V F W) V} (hm : Defined py m)
    (hf : ∀ value, (∀ w, py.undefinedError w value = none) → Defined py (f value)) :
    Defined py (m >>= f) := by
  intro s value t hrun
  rw [run_bind] at hrun
  cases hrun' : m.run s with
  | ok a u =>
      rw [hrun'] at hrun
      exact hf a (fun w => hlawful.keepsType a _ w (hm s a u hrun')) u value t hrun
  | error e u =>
      rw [hrun'] at hrun
      cases hrun

/-- Where the two methods are one, it is enough that no undefined value is returned. -/
theorem Defined.answered {m : EStateM (Signal E) (RenderContext V F W) V} (h : Defined py m)
    (s : RenderContext V F W) : Answered py (m.run s) (m.run s) := by
  unfold Answered
  cases hrun : m.run s with
  | ok value t =>
      dsimp only
      rw [h s value t hrun]
  | error e t => rfl

end Rules

variable [DecidableEq V] {fuel : Nat}

end Agreement

section Sample

/-- A number, an object of a trusted filter, or a `TemplateUndefined` with its error. -/
inductive Found where
  | number
  | object
  | missing (error : String)
  deriving DecidableEq

/-- An interpreter in which the object of a filter is negated to a `TemplateUndefined`. -/
def foundPython : Python Found Unit Unit Unit String where
  cell _ value := if value = .number then .scalar else .foreign
  recursionLimit := 1000
  constant _ := .number
  collect _ _ := pure .object
  newDict := pure .object
  setItem _ _ _ := pure ()
  rebuild value _ := pure value
  unary operator value :=
    pure (if operator = .neg ∧ value = .object then .missing "negated" else .number)
  arithmetic _ _ _ := pure .number
  compare _ _ _ := pure .number
  truth _ := pure true
  getItem _ _ := throw "TypeError"
  getAttr _ _ := throw "AttributeError"
  slice _ _ _ := pure .object
  str _ := pure "1"
  toTuple _ := throw "TypeError"
  iter _ := throw "TypeError"
  next _ := pure none
  iterItems _ := throw "TypeError"
  nextItem _ := pure none
  isIterator _ := pure false
  construct _ := pure ()
  handlesUndefined _ := pure false
  call _ _ _ _ := pure .object
  undefined e := pure (.missing e)
  undefinedError _ value := match value with
    | .missing e => some e
    | _ => none
  nameError message := "NameError: " ++ message
  typeError message := "TypeError: " ++ message
  valueError message := "ValueError: " ++ message
  keyError message := "KeyError: " ++ message
  recursionError := "RecursionError"
  isTypeError e := e = "TypeError"
  isLookupError e := e = "AttributeError"

end Sample

end Templates

end Rmote
