import Rmote.Library.Coupling
import Rmote.Templates.Context

/-!
# Rendering

The evaluation of expressions and the invocation of nodes. Every expression class has two
methods, `evaluate` and `resolve`; `run` is both, told apart by its mode, because most
classes inherit one from the other. A `for` statement runs its iterator with fuel, and
`break` and `continue` are the two signals that the loop catches.

`Primitives` collects what a comparison of two renders has to know: how it is kept by the
few operations that touch the context. Everything else follows for every program.
-/

namespace Rmote

namespace Templates

open RenderContext

/-- Which of the two methods of an expression is called. -/
inductive Mode where
  | evaluate
  | resolve
  deriving DecidableEq

section Definitions

variable {V C F W E : Type} [DecidableEq V] (py : Python V C F W E)

/-- The test of `evaluate` on what `resolve` gave. -/
def strict (value : V) : EStateM (Signal E) (RenderContext V F W) V := do
  match py.undefinedError (← get).world value with
  | some e => throw (.raised e)
  | none => pure value

/-- `ResolvableExpression.evaluate` over the code of `resolve`. -/
def Mode.settle (mode : Mode) (resolve : EStateM (Signal E) (RenderContext V F W) V) :
    EStateM (Signal E) (RenderContext V F W) V :=
  match mode with
  | .evaluate => resolve >>= strict py
  | .resolve => resolve

/-- `value[name]`, or the attribute where the value refuses the subscript. -/
def field (value : V) (name : String) : EStateM (Signal E) (RenderContext V F W) V :=
  tryCatch (lift (operation (py.getItem value (py.constant (.str name))))) fun signal =>
    match signal with
    | .raised e =>
        if py.isTypeError e then lift (operation (py.getAttr value name)) else throw (.raised e)
    | signal => throw signal

/-- The `except` clause of a lookup that keeps a missing value. -/
def orUndefined (m : EStateM (Signal E) (RenderContext V F W) V) :
    EStateM (Signal E) (RenderContext V F W) V :=
  tryCatch m fun signal =>
    match signal with
    | .raised e =>
        if py.isLookupError e then lift (operation (py.undefined e)) else throw (.raised e)
    | signal => throw signal

/-- `FilterExpression.resolve` over the code of its parts. -/
def resolveFilter (fuel : Nat) (name : String)
    (value : Mode → EStateM (Signal E) (RenderContext V F W) V)
    (arguments : EStateM (Signal E) (RenderContext V F W) (List V))
    (keywords : EStateM (Signal E) (RenderContext V F W) (List (String × V))) :
    EStateM (Signal E) (RenderContext V F W) V := do
  let function ← getFilter py name
  let lenient ← lift (operation (py.handlesUndefined function))
  let value ← value (if lenient then .resolve else .evaluate)
  let arguments ← arguments
  let keywords ← keywords
  let result ← lift (operation (py.call function value arguments keywords))
  lift (normalise py fuel py.recursionLimit [] result)

/-- The lookup classes under either method: `evaluate` raises where `resolve` goes on with
an undefined value. -/
def lookupIn (mode : Mode) (value : EStateM (Signal E) (RenderContext V F W) V)
    (found : V → EStateM (Signal E) (RenderContext V F W) V) :
    EStateM (Signal E) (RenderContext V F W) V := do
  let value ← value
  match mode with
  | .evaluate =>
      let result ← found value
      strict py result
  | .resolve =>
      match py.undefinedError (← get).world value with
      | some _ => pure value
      | none => found value

mutual

/-- `evaluate` and `resolve` of every expression class. -/
def Expression.run (fuel : Nat) (mode : Mode) :
    Expression → EStateM (Signal E) (RenderContext V F W) V
  | .literal value => pure (py.constant value)
  | .variable name => mode.settle py (resolveVariable py name)
  | .collection kind items => do
      let values ← runAll fuel items
      lift (operation (py.collect kind values))
  | .dictionary items => do
      let result ← lift (operation py.newDict)
      runItems fuel result items
      pure result
  | .unary operator value => do
      let value ← value.run fuel .evaluate
      lift (operation (py.unary operator value))
  | .binary operator left right => do
      let value ← left.run fuel .evaluate
      match operator with
      | .and =>
          if ← lift (operation (py.truth value)) then right.run fuel .evaluate else pure value
      | .or =>
          if ← lift (operation (py.truth value)) then pure value else right.run fuel .evaluate
      | .arithmetic operator =>
          let other ← right.run fuel .evaluate
          lift (operation (py.arithmetic operator value other))
  | .comparison first rest => do
      let left ← first.run fuel .evaluate
      runChain fuel left rest
  | .conditional condition positive negative => do
      let value ← condition.run fuel .evaluate
      if ← lift (operation (py.truth value)) then
        positive.run fuel .evaluate
      else
        negative.run fuel .evaluate
  | .attribute value name =>
      match mode with
      | .evaluate => lookupIn py mode (value.run fuel .evaluate) fun value => field py value name
      | .resolve => lookupIn py mode (value.run fuel .resolve) fun value =>
          orUndefined py (field py value name)
  | .lookup value key =>
      match mode with
      | .evaluate => lookupIn py mode (value.run fuel .evaluate) fun value => do
          let key ← key.run fuel .evaluate
          lift (operation (py.getItem value key))
      | .resolve => lookupIn py mode (value.run fuel .resolve) fun value => do
          let key ← key.run fuel .evaluate
          orUndefined py (lift (operation (py.getItem value key)))
  | .slice start stop step => do
      let start ← runPart fuel start
      let stop ← runPart fuel stop
      let step ← runPart fuel step
      lift (operation (py.slice start stop step))
  | .filter name value arguments keywords =>
      mode.settle py (resolveFilter py fuel name (fun mode => value.run fuel mode)
        (runAll fuel arguments) (runKeywords fuel keywords))

/-- A list of expressions, from left to right. -/
def runAll (fuel : Nat) : List Expression → EStateM (Signal E) (RenderContext V F W) (List V)
  | [] => pure []
  | item :: rest => do
      let value ← item.run fuel .evaluate
      let values ← runAll fuel rest
      pure (value :: values)

/-- The comprehension of a dictionary, which adds a pair before the next one is evaluated. -/
def runItems (fuel : Nat) (result : V) :
    List (Expression × Expression) → EStateM (Signal E) (RenderContext V F W) Unit
  | [] => pure ()
  | (key, value) :: rest => do
      let key ← key.run fuel .evaluate
      let value ← value.run fuel .evaluate
      lift (operation (py.setItem result key value))
      runItems fuel result rest

/-- The loop of `ComparisonExpression.evaluate`. -/
def runChain (fuel : Nat) (left : V) :
    List (ComparisonOperator × Expression) → EStateM (Signal E) (RenderContext V F W) V
  | [] => pure (py.constant (.bool true))
  | (operator, expression) :: rest => do
      let right ← expression.run fuel .evaluate
      let answer ← lift (operation (py.compare operator left right))
      if ← lift (operation (py.truth answer)) then
        runChain fuel right rest
      else
        pure (py.constant (.bool false))

def runKeywords (fuel : Nat) :
    List (String × Expression) → EStateM (Signal E) (RenderContext V F W) (List (String × V))
  | [] => pure []
  | (name, argument) :: rest => do
      let value ← argument.run fuel .evaluate
      let values ← runKeywords fuel rest
      pure ((name, value) :: values)

def runPart (fuel : Nat) :
    Option Expression → EStateM (Signal E) (RenderContext V F W) (Option V)
  | none => pure none
  | some part => do
      let value ← part.run fuel .evaluate
      pure (some value)

end

/-- One iteration of `ForNode.invoke`: whether the loop goes on. -/
def iteration (target : AssignmentTarget) (body : EStateM (Signal E) (RenderContext V F W) Unit)
    (value : V) : EStateM (Signal E) (RenderContext V F W) Bool := do
  assign py target value
  tryCatch (body *> pure true) fun signal =>
    match signal with
    | .templateBreak => pure false
    | .templateContinue => pure true
    | signal => throw signal

/-- The loop of `ForNode.invoke`. The `else` part runs when the iterator ends. -/
def forLoop (iterator : V) (target : AssignmentTarget)
    (body otherwise : EStateM (Signal E) (RenderContext V F W) Unit) :
    Nat → EStateM (Signal E) (RenderContext V F W) Unit
  | 0 => throw .exhausted
  | fuel + 1 => do
      match ← lift (operation (py.next iterator)) with
      | none => otherwise
      | some value =>
          if ← iteration py target body value then
            forLoop iterator target body otherwise fuel

mutual

/-- `TemplateNode.invoke` of every node class. -/
def Node.invoke (fuel : Nat) : Node → EStateM (Signal E) (RenderContext V F W) Unit
  | .text _ text => write text
  | .output _ expression => do
      let value ← expression.run py fuel .evaluate
      let text ← lift (operation (py.str value))
      write text
  | .assignment _ target expression => do
      let value ← expression.run py fuel .evaluate
      assign py target value
  | .condition _ branches => invokeBranches fuel branches
  | .loop _ target iterable body otherwise => do
      let value ← iterable.run py fuel .evaluate
      let iterator ← lift (operation (py.iter value))
      forLoop py iterator target (invokeAll fuel body) (invokeAll fuel otherwise) fuel
  | .break _ => throw .templateBreak
  | .continue _ => throw .templateContinue

/-- `RenderContext.invoke`. -/
def invokeAll (fuel : Nat) : List Node → EStateM (Signal E) (RenderContext V F W) Unit
  | [] => pure ()
  | node :: rest => do
      node.invoke fuel
      invokeAll fuel rest

/-- The loop of `IfNode.invoke`. -/
def invokeBranches (fuel : Nat) :
    List (Option Expression × List Node) → EStateM (Signal E) (RenderContext V F W) Unit
  | [] => pure ()
  | (none, body) :: _ => invokeAll fuel body
  | (some condition, body) :: rest => do
      let value ← condition.run py fuel .evaluate
      if ← lift (operation (py.truth value)) then
        invokeAll fuel body
      else
        invokeBranches fuel rest

end

/-- What a render gets as its context: a mapping, and whether it is a frozen snapshot. -/
structure Mapping (V : Type) where
  frozen : Bool
  get : String → Option V

/-- The values and the unchecked names with which `RenderContext` starts. -/
def Mapping.start (mapping : Mapping V) (world : W) : RenderContext V F W where
  values := mapping.get
  unchecked name := !mapping.frozen && (mapping.get name).isSome
  filters _ := none
  output := []
  world := world
  accesses := []

/-- `RenderContext.add`. -/
def RenderContext.add (s : RenderContext V F W) (values : String → Option V) :
    RenderContext V F W :=
  { s with
    values := fun name => (values name).or (s.values name)
    unchecked := fun name => (values name).isSome || s.unchecked name }

/-- The context that `TemplateProgram.__call__` builds, before its filters. -/
def callContext (context : Option (Mapping V)) (values : String → Option V) (world : W) :
    RenderContext V F W :=
  match context with
  | none => Mapping.start ⟨false, values⟩ world
  | some mapping => (mapping.start world).add values

/-- `TemplateProgram.__call__` on a context. -/
def TemplateProgram.render (fuel : Nat) (program : TemplateProgram C) :
    EStateM (Signal E) (RenderContext V F W) String := do
  constructFilters py program.active
  invokeAll py fuel program.nodes
  return String.join (← get).output

end Definitions

section Couplings

open Coupling

variable {V C F W E : Type} [DecidableEq V] {py : Python V C F W E}
  {c : Comparison (RenderContext V F W)}

/-- What a comparison of renders has to know about the context. -/
structure Primitives (py : Python V C F W E) (c : Comparison (RenderContext V F W)) : Prop where
  world : ∀ s t, c.near s t → s.world = t.world
  filters : ∀ s t, c.near s t → s.filters = t.filters
  output : ∀ s t, c.near s t → s.output = t.output
  lift : ∀ {α : Type} (m : EStateM (Signal E) W α), Coupled c (lift m)
  write : ∀ text, Coupled c (write text : EStateM (Signal E) _ _)
  install : ∀ name function, Coupled c (modify fun s =>
    { s with filters := Function.update s.filters name (some function) } : EStateM (Signal E) _ _)
  setValue : ∀ name value, Coupled c (setValue name value : EStateM (Signal E) _ _)
  resolveVariable : ∀ name, Coupled c (resolveVariable py name)

section Parts

variable {fuel : Nat}

theorem coupled_runAll {items : List Expression}
    (hitems : ∀ e ∈ items, ∀ mode, Coupled c (e.run py fuel mode)) :
    Coupled c (runAll py fuel items) := by
  induction items with
  | nil => exact coupled_pure _
  | cons item rest ih =>
      rw [Templates.runAll]
      apply (hitems item List.mem_cons_self .evaluate).bind
      intro value
      apply (ih fun e he => hitems e (List.mem_cons_of_mem _ he)).bind
      intro values
      exact coupled_pure _

theorem coupled_runKeywords {keywords : List (String × Expression)}
    (hkeywords : ∀ p ∈ keywords, ∀ mode, Coupled c (p.2.run py fuel mode)) :
    Coupled c (runKeywords py fuel keywords) := by
  induction keywords with
  | nil => exact coupled_pure _
  | cons item rest ih =>
      rw [Templates.runKeywords]
      apply (hkeywords item List.mem_cons_self .evaluate).bind
      intro value
      apply (ih fun p hp => hkeywords p (List.mem_cons_of_mem _ hp)).bind
      intro values
      exact coupled_pure _

theorem coupled_runPart {part : Option Expression}
    (hpart : ∀ e ∈ part, ∀ mode, Coupled c (e.run py fuel mode)) :
    Coupled c (runPart py fuel part) := by
  cases part with
  | none => exact coupled_pure _
  | some e =>
      rw [Templates.runPart]
      apply (hpart e rfl .evaluate).bind
      intro value
      exact coupled_pure _

end Parts

namespace Primitives

variable (h : Primitives py c)
include h

theorem strict (value : V) : Coupled c (strict py value) := by
  apply coupled_get (g := RenderContext.world)
    (k := fun world => match py.undefinedError world value with
      | some e => throw (.raised e)
      | none => pure value)
  · intro s
    rfl
  · exact h.world
  · intro world
    cases py.undefinedError world value with
    | none => exact coupled_pure value
    | some e => exact coupled_throw _

theorem settle {resolve : EStateM (Signal E) (RenderContext V F W) V} (hresolve : Coupled c resolve)
    (mode : Mode) : Coupled c (mode.settle py resolve) := by
  cases mode with
  | evaluate => exact hresolve.bind h.strict
  | resolve => exact hresolve

theorem field (value : V) (name : String) : Coupled c (field py value name) := by
  apply (h.lift _).tryCatch
  intro signal
  cases signal with
  | raised e =>
      by_cases he : py.isTypeError e
      · simp only [he, if_true]
        exact h.lift _
      · simp only [he]
        exact coupled_throw _
  | templateBreak => exact coupled_throw _
  | templateContinue => exact coupled_throw _
  | exhausted => exact coupled_throw _

theorem orUndefined {m : EStateM (Signal E) (RenderContext V F W) V} (hm : Coupled c m) :
    Coupled c (orUndefined py m) := by
  apply hm.tryCatch
  intro signal
  cases signal with
  | raised e =>
      by_cases he : py.isLookupError e
      · simp only [he, if_true]
        exact h.lift _
      · simp only [he]
        exact coupled_throw _
  | templateBreak => exact coupled_throw _
  | templateContinue => exact coupled_throw _
  | exhausted => exact coupled_throw _

theorem getFilter (name : String) : Coupled c (getFilter py name) := by
  apply coupled_get (g := RenderContext.filters) (k := fun filters => match filters name with
      | some function => pure function
      | none => throw (.raised (py.keyError name)))
  · intro s
    rfl
  · exact h.filters
  · intro filters
    cases filters name with
    | none => exact coupled_throw _
    | some function => exact coupled_pure function

theorem resolveFilter {fuel : Nat} {name : String}
    {value : Mode → EStateM (Signal E) (RenderContext V F W) V}
    {arguments : EStateM (Signal E) (RenderContext V F W) (List V)}
    {keywords : EStateM (Signal E) (RenderContext V F W) (List (String × V))}
    (hvalue : ∀ mode, Coupled c (value mode)) (harguments : Coupled c arguments)
    (hkeywords : Coupled c keywords) :
    Coupled c (resolveFilter py fuel name value arguments keywords) := by
  apply (h.getFilter name).bind
  intro function
  apply (h.lift _).bind
  intro lenient
  apply (hvalue _).bind
  intro value
  apply harguments.bind
  intro arguments
  apply hkeywords.bind
  intro keywords
  apply (h.lift _).bind
  intro result
  exact h.lift _

theorem lookupIn (mode : Mode) {value : EStateM (Signal E) (RenderContext V F W) V}
    {found : V → EStateM (Signal E) (RenderContext V F W) V} (hvalue : Coupled c value)
    (hfound : ∀ value, Coupled c (found value)) : Coupled c (lookupIn py mode value found) := by
  apply hvalue.bind
  intro value
  cases mode with
  | evaluate => exact (hfound value).bind h.strict
  | resolve =>
      apply coupled_get (g := RenderContext.world)
        (k := fun world => match py.undefinedError world value with
          | some _ => pure value
          | none => found value)
      · intro s
        rfl
      · exact h.world
      · intro world
        cases py.undefinedError world value with
        | none => exact hfound value
        | some e => exact coupled_pure value

/-- Branching on the truth of a value. -/
theorem truth {α : Type} (value : V) {yes no : EStateM (Signal E) (RenderContext V F W) α}
    (hyes : Coupled c yes) (hno : Coupled c no) :
    Coupled c (do if ← RenderContext.lift (operation (py.truth value)) then yes else no) := by
  apply (h.lift _).bind
  intro answer
  cases answer with
  | false => exact hno
  | true => exact hyes

variable {fuel : Nat}

theorem runItems {items : List (Expression × Expression)} (result : V)
    (hitems : ∀ p ∈ items, (∀ mode, Coupled c (p.1.run py fuel mode)) ∧
      ∀ mode, Coupled c (p.2.run py fuel mode)) :
    Coupled c (runItems py fuel result items) := by
  induction items with
  | nil => exact coupled_pure _
  | cons item rest ih =>
      rw [Templates.runItems]
      apply ((hitems item List.mem_cons_self).1 .evaluate).bind
      intro key
      apply ((hitems item List.mem_cons_self).2 .evaluate).bind
      intro value
      apply (h.lift _).bind
      intro _
      exact ih fun p hp => hitems p (List.mem_cons_of_mem _ hp)

theorem runChain {rest : List (ComparisonOperator × Expression)} (left : V)
    (hrest : ∀ p ∈ rest, ∀ mode, Coupled c (p.2.run py fuel mode)) :
    Coupled c (runChain py fuel left rest) := by
  induction rest generalizing left with
  | nil => exact coupled_pure _
  | cons item rest ih =>
      rw [Templates.runChain]
      apply (hrest item List.mem_cons_self .evaluate).bind
      intro right
      apply (h.lift _).bind
      intro answer
      exact h.truth answer (ih right fun p hp => hrest p (List.mem_cons_of_mem _ hp))
        (coupled_pure _)

theorem run (e : Expression) (mode : Mode) : Coupled c (e.run py fuel mode) := by
  induction e using Expression.induction generalizing mode with
  | literal value => exact coupled_pure _
  | var name => exact h.settle (h.resolveVariable name) mode
  | collection kind items hitems =>
      rw [Expression.run]
      apply (coupled_runAll hitems).bind
      intro values
      exact h.lift _
  | dictionary items hitems =>
      rw [Expression.run]
      apply (h.lift _).bind
      intro result
      apply (h.runItems result hitems).bind
      intro _
      exact coupled_pure _
  | unary operator value hvalue =>
      rw [Expression.run]
      apply (hvalue .evaluate).bind
      intro value
      exact h.lift _
  | binary operator left right hleft hright =>
      rw [Expression.run]
      apply (hleft .evaluate).bind
      intro value
      cases operator with
      | or => exact h.truth value (coupled_pure _) (hright .evaluate)
      | and => exact h.truth value (hright .evaluate) (coupled_pure _)
      | arithmetic operator =>
          apply (hright .evaluate).bind
          intro other
          exact h.lift _
  | comparison first rest hfirst hrest =>
      rw [Expression.run]
      apply (hfirst .evaluate).bind
      intro left
      exact h.runChain left hrest
  | conditional condition positive negative hcondition hpositive hnegative =>
      rw [Expression.run]
      apply (hcondition .evaluate).bind
      intro value
      exact h.truth value (hpositive .evaluate) (hnegative .evaluate)
  | attr value name hvalue =>
      cases mode with
      | evaluate => exact h.lookupIn .evaluate (hvalue .evaluate) fun value => h.field value name
      | resolve =>
          exact h.lookupIn .resolve (hvalue .resolve) fun value => h.orUndefined (h.field value name)
  | lookup value key hvalue hkey =>
      cases mode with
      | evaluate =>
          apply h.lookupIn .evaluate (hvalue .evaluate)
          intro value
          exact (hkey .evaluate).bind fun key => h.lift _
      | resolve =>
          apply h.lookupIn .resolve (hvalue .resolve)
          intro value
          exact (hkey .evaluate).bind fun key => h.orUndefined (h.lift _)
  | slice start stop step hstart hstop hstep =>
      rw [Expression.run]
      apply (coupled_runPart hstart).bind
      intro start
      apply (coupled_runPart hstop).bind
      intro stop
      apply (coupled_runPart hstep).bind
      intro step
      exact h.lift _
  | filter name value arguments keywords hvalue harguments hkeywords =>
      exact h.settle (h.resolveFilter hvalue (coupled_runAll harguments)
        (coupled_runKeywords hkeywords)) mode

theorem setValues (pairs : List (String × V)) :
    Coupled c (setValues pairs : EStateM (Signal E) _ _) := by
  induction pairs with
  | nil => exact coupled_pure _
  | cons pair rest ih => exact (h.setValue pair.1 pair.2).bind fun _ => ih

theorem assign (target : AssignmentTarget) (value : V) : Coupled c (assign py target value) := by
  unfold RenderContext.assign
  by_cases hunpack : target.unpack
  · simp only [hunpack, if_true]
    apply (h.lift _).bind
    intro values
    by_cases hlength : values.length ≠ target.names.length
    · rw [if_pos hlength]
      exact (coupled_throw _).bind fun _ => h.setValues _
    · rw [if_neg hlength]
      exact h.setValues _
  · simp only [hunpack]
    exact h.setValue _ _

theorem iteration (target : AssignmentTarget)
    {body : EStateM (Signal E) (RenderContext V F W) Unit} (hbody : Coupled c body) (value : V) :
    Coupled c (iteration py target body value) := by
  apply (h.assign target value).bind
  intro _
  apply Coupled.tryCatch
  · exact hbody.bind fun _ => coupled_pure true
  · intro signal
    cases signal with
    | raised e => exact coupled_throw _
    | templateBreak => exact coupled_pure false
    | templateContinue => exact coupled_pure true
    | exhausted => exact coupled_throw _

theorem forLoop (iterator : V) (target : AssignmentTarget)
    {body otherwise : EStateM (Signal E) (RenderContext V F W) Unit} (hbody : Coupled c body)
    (hotherwise : Coupled c otherwise) (n : Nat) :
    Coupled c (forLoop py iterator target body otherwise n) := by
  induction n with
  | zero => exact coupled_throw _
  | succ n ih =>
      apply (h.lift _).bind
      intro item
      cases item with
      | none => exact hotherwise
      | some value =>
          apply (h.iteration target hbody value).bind
          intro goesOn
          cases goesOn with
          | false => exact coupled_pure _
          | true => exact ih

omit h

mutual

theorem invoke (h : Primitives py c) (node : Node) : Coupled c (node.invoke py fuel) := by
  cases node with
  | text position text => exact h.write text
  | output position expression =>
      apply (h.run expression .evaluate).bind
      intro value
      apply (h.lift _).bind
      intro text
      exact h.write text
  | assignment position target expression =>
      apply (h.run expression .evaluate).bind
      intro value
      exact h.assign target value
  | condition position branches => exact h.invokeBranches branches
  | loop position target iterable body otherwise =>
      apply (h.run iterable .evaluate).bind
      intro value
      apply (h.lift _).bind
      intro iterator
      exact h.forLoop iterator target (h.invokeAll body) (h.invokeAll otherwise) fuel
  | «break» position => exact coupled_throw _
  | «continue» position => exact coupled_throw _

theorem invokeAll (h : Primitives py c) (nodes : List Node) : Coupled c (invokeAll py fuel nodes) := by
  cases nodes with
  | nil => exact coupled_pure _
  | cons node rest =>
      apply (h.invoke node).bind
      intro _
      exact h.invokeAll rest

theorem invokeBranches (h : Primitives py c) (branches : List (Option Expression × List Node)) :
    Coupled c (invokeBranches py fuel branches) := by
  match branches with
  | [] => exact coupled_pure _
  | (none, body) :: _ => exact h.invokeAll body
  | (some condition, body) :: rest =>
      apply (h.run condition .evaluate).bind
      intro value
      exact h.truth value (h.invokeAll body) (h.invokeBranches rest)

end

include h

theorem constructFilters (active : List (String × C)) :
    Coupled c (constructFilters py active) := by
  induction active with
  | nil => exact coupled_pure _
  | cons item rest ih =>
      apply (h.lift _).bind
      intro function
      exact (h.install item.1 function).bind fun _ => ih

theorem render (program : TemplateProgram C) : Coupled c (program.render py fuel) := by
  apply (h.constructFilters program.active).bind
  intro _
  apply (h.invokeAll program.nodes).bind
  intro _
  apply coupled_get (g := RenderContext.output) (k := fun output => pure (String.join output))
  · intro s
    rfl
  · exact h.output
  · intro output
    exact coupled_pure _

end Primitives

end Couplings

end Templates

end Rmote
