import Rmote.Templates.Grammar
import Rmote.Templates.Shadow

/-!
# Loop control

`break` and `continue` are exceptions that the innermost `for` statement catches, and the parser
keeps them out of the places where no loop would. `invokeAllAt` renders with exceptions that carry
the level of the loop that they are meant for, and a loop that catches no others. Every program
that compiles renders the same both ways: each `break` and each `continue` reaches the innermost
loop whose body it stands in, and no signal leaves a program.
-/

namespace Rmote

namespace Templates

open RenderContext Coupling

section Closed

mutual

/-- Every `break` and every `continue` stands in the body of a loop. -/
def Node.closed (inLoop : Bool) : Node → Prop
  | .text _ _ | .output _ _ | .assignment _ _ _ => True
  | .condition _ branches => closedBranches inLoop branches
  | .loop _ _ _ body otherwise => closed true body ∧ closed inLoop otherwise
  | .break _ | .continue _ => inLoop = true

def closed (inLoop : Bool) : List Node → Prop
  | [] => True
  | node :: rest => node.closed inLoop ∧ closed inLoop rest

def closedBranches (inLoop : Bool) : List (Option Expression × List Node) → Prop
  | [] => True
  | (_, body) :: rest => closed inLoop body ∧ closedBranches inLoop rest

end

variable {language : Language} {limit : Nat}

/-- The grammar keeps loop control inside of loops. -/
theorem Block.closed {inLoop : Bool} {tokens : List TemplateToken} {nodes : List Node}
    (h : Block language limit inLoop tokens nodes) : Templates.closed inLoop nodes := by
  apply @Block.rec language limit (fun inLoop _ nodes _ => Templates.closed inLoop nodes)
    (fun inLoop _ branches _ => closedBranches inLoop branches)
    (fun inLoop _ nodes _ => Templates.closed inLoop nodes) _ _ _ _ _ _ _ _ _ _ _ _ _ _ _ _ _ h
  -- the body of a block
  · intro _
    exact trivial
  · intro _ _ _ _ _ _ ih
    exact ⟨trivial, ih⟩
  · intro _ _ _ _ _ _ _ _ _ ih
    exact ⟨trivial, ih⟩
  · intro _ _ _ _ _ _ ih
    exact ih
  · intro _ _ _ _ _ _ _ _ _ _ ih
    exact ⟨trivial, ih⟩
  · intro _ _ _ _ _ ih
    exact ⟨rfl, ih⟩
  · intro _ _ _ _ _ ih
    exact ⟨rfl, ih⟩
  · intro _ _ _ _ _ _ _ _ _ _ _ _ _ _ _ _ _ _ _ ihbody ihothers ih
    exact ⟨⟨ihbody, ihothers⟩, ih⟩
  · intro _ _ _ _ _ _ _ _ _ _ _ _ _ _ _ _ _ _ _ _ ihbody ihothers ih
    exact ⟨⟨ihbody, ihothers⟩, ih⟩
  -- the branches of an `if`
  · intro _
    exact trivial
  · intro _ _ _ _ _ _ _ _ _ _ _ _ ihbody ihothers
    exact ⟨ihbody, ihothers⟩
  · intro _ _ _ _ _ _ ih
    exact ⟨ih, trivial⟩
  -- the `else` part of a loop
  · intro _
    exact trivial
  · intro _ _ _ _ _ _ ih
    exact ih

/-- What compiles is closed. -/
theorem closed_of_compile {tokenizer : Tokenizer} {source : List Char} {nodes : List Node}
    {t : BlockCursor} (h : compile tokenizer language limit source = .ok nodes t) :
    closed false nodes := by
  unfold compile at h
  cases htokens : tokenize tokenizer source with
  | error e =>
      rw [htokens] at h
      cases h
  | ok tokens =>
      rw [htokens] at h
      exact (block_of_body h).closed

end Closed

/-! ## Exceptions with the level of their loop -/

section Levels

variable {E σ α β : Type}

/-- The two signals that a loop catches. -/
def Signal.isControl (e : Signal E) : Prop := e = .templateBreak ∨ e = .templateContinue

/-- Code that never raises one of them. -/
def NoControl (m : EStateM (Signal E) σ α) : Prop :=
  ∀ s e t, m.run s = .error e t → ¬ e.isControl

theorem noControl_pure (a : α) : NoControl (pure a : EStateM (Signal E) σ α) := nofun

theorem noControl_modify (f : σ → σ) : NoControl (modify f : EStateM (Signal E) σ PUnit) := nofun

theorem noControl_throw {e : Signal E} (he : ¬ e.isControl) :
    NoControl (throw e : EStateM (Signal E) σ α) := by
  intro s e' t h
  cases h
  exact he

theorem not_isControl_raised (e : E) : ¬ (Signal.raised e).isControl := nofun

theorem not_isControl_exhausted : ¬ (.exhausted : Signal E).isControl := nofun

theorem noControl_raise (e : E) : NoControl (throw (.raised e) : EStateM (Signal E) σ α) :=
  noControl_throw (not_isControl_raised e)

theorem noControl_raise_bind (e : E) (f : α → EStateM (Signal E) σ β) :
    NoControl (throw (Signal.raised e) >>= f) := by
  intro s e' t h
  cases h
  exact not_isControl_raised e

theorem noControl_get_bind {f : σ → EStateM (Signal E) σ α} (h : ∀ s, NoControl (f s)) :
    NoControl (get >>= f) := by
  intro s e t
  exact h s s e t

theorem NoControl.bind {m : EStateM (Signal E) σ α} {f : α → EStateM (Signal E) σ β}
    (hm : NoControl m) (hf : ∀ a, NoControl (f a)) : NoControl (m >>= f) := by
  intro s e t h
  rw [run_bind] at h
  cases hrun : m.run s with
  | ok a u =>
      rw [hrun] at h
      exact hf a u e t h
  | error e' u =>
      rw [hrun] at h
      cases h
      exact hm s _ _ hrun

theorem NoControl.tryCatch {m : EStateM (Signal E) σ α}
    {handle : Signal E → EStateM (Signal E) σ α} (hm : NoControl m)
    (hhandle : ∀ e, ¬ e.isControl → NoControl (handle e)) :
    NoControl (MonadExcept.tryCatch m handle) := by
  intro s e t h
  rw [run_tryCatch] at h
  cases hrun : m.run s with
  | ok a u =>
      rw [hrun] at h
      cases h
  | error e' u =>
      rw [hrun] at h
      exact hhandle e' (hm s e' u hrun) u e t h

/-- Exceptions that carry a level. -/
def atLevel (level : Nat) (m : EStateM (Signal E) σ α) : EStateM (Signal E × Nat) σ α :=
  fun s => match m s with
    | .ok a t => .ok a t
    | .error e t => .error (e, level) t

theorem run_atLevel (level : Nat) (m : EStateM (Signal E) σ α) (s : σ) :
    (atLevel level m).run s = match m.run s with
      | .ok a t => .ok a t
      | .error e t => .error (e, level) t :=
  rfl

/-- Code with levels does what code without them does, and what it raises to control a loop is
meant for the loop of the level. There is none at the level zero. -/
def Follows (level : Nat) (m : EStateM (Signal E × Nat) σ α) (m' : EStateM (Signal E) σ α) : Prop :=
  ∀ s, match m.run s with
    | .ok a t => m'.run s = .ok a t
    | .error (e, l) t => m'.run s = .error e t ∧ (e.isControl → l = level ∧ level ≠ 0)

variable {level : Nat}

theorem follows_pure (a : α) : Follows level (pure a) (pure a : EStateM (Signal E) σ α) :=
  fun _ => rfl

theorem follows_throw {e : Signal E} (hlevel : level ≠ 0) :
    Follows level (throw (e, level)) (throw e : EStateM (Signal E) σ α) :=
  fun _ => ⟨rfl, fun _ => ⟨rfl, hlevel⟩⟩

theorem NoControl.follows {m : EStateM (Signal E) σ α} (h : NoControl m) :
    Follows level (atLevel level m) m := by
  intro s
  rw [run_atLevel]
  cases hrun : m.run s with
  | ok a t => rfl
  | error e t => exact ⟨rfl, fun he => absurd he (h s e t hrun)⟩

theorem Follows.bind {m : EStateM (Signal E × Nat) σ α} {m' : EStateM (Signal E) σ α}
    {f : α → EStateM (Signal E × Nat) σ β} {f' : α → EStateM (Signal E) σ β}
    (hm : Follows level m m') (hf : ∀ a, Follows level (f a) (f' a)) :
    Follows level (m >>= f) (m' >>= f') := by
  intro s
  have hs := hm s
  rw [run_bind, run_bind]
  cases hrun : m.run s with
  | ok a t =>
      rw [hrun] at hs
      rw [show m'.run s = .ok a t from hs]
      exact hf a t
  | error e t =>
      rw [hrun] at hs
      rw [hs.1]
      exact ⟨rfl, hs.2⟩

/-- Nothing is meant for a loop where there is none. -/
theorem Follows.noControl {m : EStateM (Signal E × Nat) σ α} {m' : EStateM (Signal E) σ α}
    (h : Follows 0 m m') : NoControl m' := by
  intro s e t hrun
  have hs := h s
  cases hrun' : m.run s with
  | ok a u =>
      rw [hrun'] at hs
      rw [show m'.run s = .ok a u from hs] at hrun
      cases hrun
  | error e' u =>
      rw [hrun'] at hs
      rw [hs.1] at hrun
      cases hrun
      exact fun he => (hs.2 he).2 rfl

end Levels

/-! ## Code that is no statement -/

section Silent

variable {V C F W E : Type} {py : Python V C F W E} {fuel : Nat}

theorem noControl_operation {α : Type} (m : EStateM E W α) : NoControl (operation m) := by
  intro w e w' h
  cases hrun : m.run w with
  | ok a u =>
      rw [operation_ok hrun] at h
      cases h
  | error e' u =>
      rw [operation_error hrun] at h
      cases h
      exact not_isControl_raised _

theorem noControl_materialize {normalise : V → EStateM (Signal E) W V}
    (h : ∀ value, NoControl (normalise value)) (iterator : V) (n : Nat) :
    NoControl (materialize py normalise iterator n) := by
  induction n with
  | zero => exact noControl_throw not_isControl_exhausted
  | succ n ih =>
      apply (noControl_operation _).bind
      intro item
      cases item with
      | none => exact noControl_pure _
      | some item => exact (h item).bind fun _ => ih.bind fun _ => noControl_pure _

theorem noControl_materializeItems {normalise : V → EStateM (Signal E) W V}
    (h : ∀ value, NoControl (normalise value)) (result iterator : V) (n : Nat) :
    NoControl (materializeItems py normalise result iterator n) := by
  induction n with
  | zero => exact noControl_throw not_isControl_exhausted
  | succ n ih =>
      apply (noControl_operation _).bind
      intro item
      cases item with
      | none => exact noControl_pure _
      | some item =>
          exact (h item.1).bind fun _ => (h item.2).bind fun _ =>
            (noControl_operation _).bind fun _ => ih

theorem noControl_lift {α : Type} {m : EStateM (Signal E) W α} (hm : NoControl m) :
    NoControl (lift m : EStateM (Signal E) (RenderContext V F W) α) := by
  intro s e t h
  cases hrun : m.run s.world with
  | ok a w =>
      rw [lift_ok hrun] at h
      cases h
  | error e' w =>
      rw [lift_error hrun] at h
      cases h
      exact hm _ _ _ hrun

/-- What Python does. -/
theorem noControl_call {α : Type} (m : EStateM E W α) :
    NoControl (lift (operation m) : EStateM (Signal E) (RenderContext V F W) α) :=
  noControl_lift (noControl_operation m)

theorem noControl_truth {α : Type} (value : V)
    {yes no : EStateM (Signal E) (RenderContext V F W) α} (hyes : NoControl yes)
    (hno : NoControl no) :
    NoControl (do if ← lift (operation (py.truth value)) then yes else no) := by
  apply (noControl_call _).bind
  intro answer
  cases answer with
  | false => exact hno
  | true => exact hyes

theorem noControl_strict (value : V) :
    NoControl (strict py value : EStateM (Signal E) (RenderContext V F W) V) := by
  apply noControl_get_bind
  intro s
  cases py.undefinedError s.world value with
  | none => exact noControl_pure _
  | some e => exact noControl_raise e

theorem noControl_settle {resolve : EStateM (Signal E) (RenderContext V F W) V}
    (h : NoControl resolve) (mode : Mode) : NoControl (mode.settle py resolve) := by
  cases mode with
  | evaluate => exact h.bind noControl_strict
  | resolve => exact h

theorem noControl_field (value : V) (name : String) :
    NoControl (field py value name : EStateM (Signal E) (RenderContext V F W) V) := by
  apply (noControl_call _).tryCatch
  intro e he
  cases e with
  | raised e =>
      dsimp only
      split
      · exact noControl_call _
      · exact noControl_raise e
  | templateBreak => exact noControl_throw he
  | templateContinue => exact noControl_throw he
  | exhausted => exact noControl_throw he

theorem noControl_orUndefined {m : EStateM (Signal E) (RenderContext V F W) V} (h : NoControl m) :
    NoControl (orUndefined py m) := by
  apply h.tryCatch
  intro e he
  cases e with
  | raised e =>
      dsimp only
      split
      · exact noControl_call _
      · exact noControl_raise e
  | templateBreak => exact noControl_throw he
  | templateContinue => exact noControl_throw he
  | exhausted => exact noControl_throw he

theorem noControl_lookupIn (mode : Mode) {value : EStateM (Signal E) (RenderContext V F W) V}
    {found : V → EStateM (Signal E) (RenderContext V F W) V} (hvalue : NoControl value)
    (hfound : ∀ value, NoControl (found value)) : NoControl (lookupIn py mode value found) := by
  apply hvalue.bind
  intro value
  cases mode with
  | evaluate => exact (hfound value).bind noControl_strict
  | resolve =>
      apply noControl_get_bind
      intro s
      cases py.undefinedError s.world value with
      | none => exact hfound value
      | some e => exact noControl_pure value

variable [DecidableEq V]

theorem noControl_normalise (depth : Nat) (seen : List V) (value : V) :
    NoControl (normalise py fuel depth seen value) := by
  induction depth generalizing seen value with
  | zero => exact noControl_raise _
  | succ depth ih =>
      apply noControl_get_bind
      intro w
      dsimp only
      split
      · exact noControl_pure _
      split
      · exact noControl_raise_bind _ _
      split
      · apply (noControl_operation _).bind
        intro result
        apply (noControl_operation _).bind
        intro iterator
        apply (noControl_materializeItems (ih _) result iterator fuel).bind
        intro _
        exact noControl_pure _
      · apply (noControl_operation _).bind
        intro iterator
        apply (noControl_materialize (ih _) iterator fuel).bind
        intro items
        exact noControl_operation _
      · apply (noControl_operation _).bind
        intro iterates
        cases iterates with
        | false => exact noControl_pure _
        | true => exact (noControl_materialize (ih _) value fuel).bind fun _ => noControl_operation _

theorem noControl_resolveVariable (name : String) :
    NoControl (resolveVariable py name : EStateM (Signal E) (RenderContext V F W) V) := by
  apply noControl_get_bind
  intro s
  apply (noControl_modify _).bind
  intro _
  cases s.values name with
  | none => exact noControl_call _
  | some value =>
      dsimp only
      split
      · refine NoControl.bind ?_ fun _ => noControl_pure _
        apply (noControl_modify _).bind
        intro _
        apply noControl_get_bind
        intro t
        cases normaliseContext py t.world value with
        | ok _ => exact noControl_pure _
        | error e => exact (noControl_modify _).bind fun _ => noControl_raise _
      · exact noControl_pure _

theorem noControl_resolveFilter {name : String}
    {value : Mode → EStateM (Signal E) (RenderContext V F W) V}
    {arguments : EStateM (Signal E) (RenderContext V F W) (List V)}
    {keywords : EStateM (Signal E) (RenderContext V F W) (List (String × V))}
    (hvalue : ∀ mode, NoControl (value mode)) (harguments : NoControl arguments)
    (hkeywords : NoControl keywords) :
    NoControl (resolveFilter py fuel name value arguments keywords) := by
  have hfilter : NoControl (getFilter py name : EStateM (Signal E) (RenderContext V F W) F) := by
    apply noControl_get_bind
    intro s
    cases s.filters name with
    | none => exact noControl_raise _
    | some function => exact noControl_pure _
  apply hfilter.bind
  intro function
  apply (noControl_call _).bind
  intro lenient
  apply (hvalue _).bind
  intro value
  apply harguments.bind
  intro arguments
  apply hkeywords.bind
  intro keywords
  apply (noControl_call _).bind
  intro result
  exact noControl_lift (noControl_normalise _ _ _)

/-- Code for every item of a list, one after another. -/
theorem noControl_runAll {items : List Expression}
    (h : ∀ e ∈ items, ∀ mode, NoControl (e.run (F := F) py fuel mode)) :
    NoControl (runAll (F := F) py fuel items) := by
  induction items with
  | nil => exact noControl_pure _
  | cons item rest ih =>
      rw [Templates.runAll]
      apply (h item List.mem_cons_self .evaluate).bind
      intro value
      apply (ih fun e he => h e (List.mem_cons_of_mem _ he)).bind
      intro values
      exact noControl_pure _

theorem noControl_runItems {items : List (Expression × Expression)} (result : V)
    (h : ∀ p ∈ items, (∀ mode, NoControl (p.1.run (F := F) py fuel mode)) ∧
      ∀ mode, NoControl (p.2.run (F := F) py fuel mode)) :
    NoControl (runItems (F := F) py fuel result items) := by
  induction items with
  | nil => exact noControl_pure _
  | cons item rest ih =>
      rw [Templates.runItems]
      apply ((h item List.mem_cons_self).1 .evaluate).bind
      intro key
      apply ((h item List.mem_cons_self).2 .evaluate).bind
      intro value
      apply (noControl_call _).bind
      intro _
      exact ih fun p hp => h p (List.mem_cons_of_mem _ hp)

theorem noControl_runChain {rest : List (ComparisonOperator × Expression)} (left : V)
    (h : ∀ p ∈ rest, ∀ mode, NoControl (p.2.run (F := F) py fuel mode)) :
    NoControl (runChain (F := F) py fuel left rest) := by
  induction rest generalizing left with
  | nil => exact noControl_pure _
  | cons item rest ih =>
      rw [Templates.runChain]
      apply (h item List.mem_cons_self .evaluate).bind
      intro right
      apply (noControl_call _).bind
      intro answer
      exact noControl_truth answer (ih right fun p hp => h p (List.mem_cons_of_mem _ hp))
        (noControl_pure _)

theorem noControl_runKeywords {keywords : List (String × Expression)}
    (h : ∀ p ∈ keywords, ∀ mode, NoControl (p.2.run (F := F) py fuel mode)) :
    NoControl (runKeywords (F := F) py fuel keywords) := by
  induction keywords with
  | nil => exact noControl_pure _
  | cons item rest ih =>
      rw [Templates.runKeywords]
      apply (h item List.mem_cons_self .evaluate).bind
      intro value
      apply (ih fun p hp => h p (List.mem_cons_of_mem _ hp)).bind
      intro values
      exact noControl_pure _

theorem noControl_runPart {part : Option Expression}
    (h : ∀ e ∈ part, ∀ mode, NoControl (e.run (F := F) py fuel mode)) :
    NoControl (runPart (F := F) py fuel part) := by
  cases part with
  | none => exact noControl_pure _
  | some e =>
      rw [Templates.runPart]
      apply (h e rfl .evaluate).bind
      intro value
      exact noControl_pure _

/-- An expression never raises a signal of a loop. -/
theorem noControl_run (e : Expression) (mode : Mode) : NoControl (e.run (F := F) py fuel mode) := by
  induction e using Expression.induction generalizing mode with
  | literal value => exact noControl_pure _
  | var name => exact noControl_settle (noControl_resolveVariable name) mode
  | collection kind items hitems =>
      rw [Expression.run]
      exact (noControl_runAll hitems).bind fun _ => noControl_call _
  | dictionary items hitems =>
      rw [Expression.run]
      apply (noControl_call _).bind
      intro result
      exact (noControl_runItems result hitems).bind fun _ => noControl_pure _
  | unary operator value hvalue =>
      rw [Expression.run]
      exact (hvalue .evaluate).bind fun _ => noControl_call _
  | binary operator left right hleft hright =>
      rw [Expression.run]
      apply (hleft .evaluate).bind
      intro value
      cases operator with
      | or => exact noControl_truth value (noControl_pure _) (hright .evaluate)
      | and => exact noControl_truth value (hright .evaluate) (noControl_pure _)
      | arithmetic operator => exact (hright .evaluate).bind fun _ => noControl_call _
  | comparison first rest hfirst hrest =>
      rw [Expression.run]
      exact (hfirst .evaluate).bind fun left => noControl_runChain left hrest
  | conditional condition positive negative hcondition hpositive hnegative =>
      rw [Expression.run]
      apply (hcondition .evaluate).bind
      intro value
      exact noControl_truth value (hpositive .evaluate) (hnegative .evaluate)
  | attr value name hvalue =>
      cases mode with
      | evaluate =>
          exact noControl_lookupIn .evaluate (hvalue .evaluate) fun value => noControl_field value name
      | resolve =>
          exact noControl_lookupIn .resolve (hvalue .resolve) fun value =>
            noControl_orUndefined (noControl_field value name)
  | lookup value key hvalue hkey =>
      cases mode with
      | evaluate =>
          apply noControl_lookupIn .evaluate (hvalue .evaluate)
          intro value
          exact (hkey .evaluate).bind fun _ => noControl_call _
      | resolve =>
          apply noControl_lookupIn .resolve (hvalue .resolve)
          intro value
          exact (hkey .evaluate).bind fun _ => noControl_orUndefined (noControl_call _)
  | slice start stop step hstart hstop hstep =>
      rw [Expression.run]
      apply (noControl_runPart hstart).bind
      intro start
      apply (noControl_runPart hstop).bind
      intro stop
      apply (noControl_runPart hstep).bind
      intro step
      exact noControl_call _
  | filter name value arguments keywords hvalue harguments hkeywords =>
      exact noControl_settle (noControl_resolveFilter hvalue (noControl_runAll harguments)
        (noControl_runKeywords hkeywords)) mode

omit [DecidableEq V] in
theorem noControl_setValues (pairs : List (String × V)) :
    NoControl (setValues pairs : EStateM (Signal E) (RenderContext V F W) PUnit) := by
  induction pairs with
  | nil => exact noControl_pure _
  | cons pair rest ih =>
      exact ((noControl_modify _).bind fun _ => noControl_modify _).bind fun _ => ih

omit [DecidableEq V] in
theorem noControl_assign (target : AssignmentTarget) (value : V) :
    NoControl (assign py target value : EStateM (Signal E) (RenderContext V F W) PUnit) := by
  unfold RenderContext.assign
  split
  · apply (noControl_call _).bind
    intro values
    split
    · exact noControl_raise_bind _ _
    · exact noControl_setValues _
  · exact (noControl_modify _).bind fun _ => noControl_modify _

omit [DecidableEq V] in
theorem noControl_constructFilters (active : List (String × C)) :
    NoControl (constructFilters py active : EStateM (Signal E) (RenderContext V F W) PUnit) := by
  induction active with
  | nil => exact noControl_pure _
  | cons item rest ih =>
      apply (noControl_call _).bind
      intro function
      exact (noControl_modify _).bind fun _ => ih

end Silent

/-! ## Rendering with levels -/

section Leveled

variable {V C F W E : Type} [DecidableEq V] (py : Python V C F W E)

/-- One iteration of a loop at a level, whose body is one level deeper: whether the loop goes on. -/
def iterationAt (level : Nat) (target : AssignmentTarget)
    (body : EStateM (Signal E × Nat) (RenderContext V F W) Unit) (value : V) :
    EStateM (Signal E × Nat) (RenderContext V F W) Bool := do
  atLevel level (assign py target value)
  tryCatch (body *> pure true) fun signal =>
    if signal.2 = level + 1 then
      match signal.1 with
      | .templateBreak => pure false
      | .templateContinue => pure true
      | _ => throw signal
    else
      throw signal

def forLoopAt (level : Nat) (iterator : V) (target : AssignmentTarget)
    (body otherwise : EStateM (Signal E × Nat) (RenderContext V F W) Unit) :
    Nat → EStateM (Signal E × Nat) (RenderContext V F W) Unit
  | 0 => throw (.exhausted, level)
  | fuel + 1 => do
      match ← atLevel level (lift (operation (py.next iterator))) with
      | none => otherwise
      | some value =>
          if ← iterationAt py level target body value then
            forLoopAt level iterator target body otherwise fuel

mutual

/-- A node inside of as many bodies of loops as the level. What it raises to control a loop is
meant for the innermost one. -/
def Node.invokeAt (fuel level : Nat) : Node → EStateM (Signal E × Nat) (RenderContext V F W) Unit
  | .text position text => atLevel level ((Node.text position text).invoke py fuel)
  | .output position expression => atLevel level ((Node.output position expression).invoke py fuel)
  | .assignment position target expression =>
      atLevel level ((Node.assignment position target expression).invoke py fuel)
  | .condition _ branches => invokeBranchesAt fuel level branches
  | .loop _ target iterable body otherwise => do
      let value ← atLevel level (iterable.run py fuel .evaluate)
      let iterator ← atLevel level (lift (operation (py.iter value)))
      forLoopAt py level iterator target (invokeAllAt fuel (level + 1) body)
        (invokeAllAt fuel level otherwise) fuel
  | .break _ => throw (.templateBreak, level)
  | .continue _ => throw (.templateContinue, level)

def invokeAllAt (fuel level : Nat) :
    List Node → EStateM (Signal E × Nat) (RenderContext V F W) Unit
  | [] => pure ()
  | node :: rest => do
      node.invokeAt fuel level
      invokeAllAt fuel level rest

def invokeBranchesAt (fuel level : Nat) :
    List (Option Expression × List Node) → EStateM (Signal E × Nat) (RenderContext V F W) Unit
  | [] => pure ()
  | (none, body) :: _ => invokeAllAt fuel level body
  | (some condition, body) :: rest => do
      let value ← atLevel level (condition.run py fuel .evaluate)
      if ← atLevel level (lift (operation (py.truth value))) then
        invokeAllAt fuel level body
      else
        invokeBranchesAt fuel level rest

end

variable {py} {level fuel : Nat}

omit [DecidableEq V] in
theorem follows_iterationAt (target : AssignmentTarget)
    {body : EStateM (Signal E × Nat) (RenderContext V F W) Unit}
    {body' : EStateM (Signal E) (RenderContext V F W) Unit} (hbody : Follows (level + 1) body body')
    (value : V) :
    Follows level (iterationAt py level target body value) (iteration py target body' value) := by
  apply (noControl_assign target value).follows.bind
  intro _ s
  have hs : Follows (level + 1) (body *> pure true) (body' *> pure true) :=
    hbody.bind fun _ => follows_pure true
  specialize hs s
  rw [run_tryCatch, run_tryCatch]
  cases hrun : (body *> pure true : EStateM _ _ Bool).run s with
  | ok a t =>
      rw [hrun] at hs
      rw [show (body' *> pure true : EStateM _ _ Bool).run s = .ok a t from hs]
      rfl
  | error signal t =>
      obtain ⟨e, l⟩ := signal
      rw [hrun] at hs
      obtain ⟨hrun', hcontrol⟩ := hs
      rw [hrun']
      cases e with
      | templateBreak =>
          -- the signal is meant for this loop
          obtain ⟨rfl, -⟩ := hcontrol (.inl rfl)
          simp only [rescued, if_true]
          rfl
      | templateContinue =>
          obtain ⟨rfl, -⟩ := hcontrol (.inr rfl)
          simp only [rescued, if_true]
          rfl
      | raised e =>
          simp only [rescued, ite_self]
          exact ⟨rfl, fun he => absurd he (not_isControl_raised e)⟩
      | exhausted =>
          simp only [rescued, ite_self]
          exact ⟨rfl, fun he => absurd he not_isControl_exhausted⟩

omit [DecidableEq V] in
/-- A loop catches what its body means for it, and its `else` part stands outside of it. -/
theorem follows_forLoopAt (iterator : V) (target : AssignmentTarget)
    {body otherwise : EStateM (Signal E × Nat) (RenderContext V F W) Unit}
    {body' otherwise' : EStateM (Signal E) (RenderContext V F W) Unit}
    (hbody : Follows (level + 1) body body') (hotherwise : Follows level otherwise otherwise')
    (n : Nat) :
    Follows level (forLoopAt py level iterator target body otherwise n)
      (forLoop py iterator target body' otherwise' n) := by
  induction n with
  | zero => exact fun _ => ⟨rfl, fun he => absurd he not_isControl_exhausted⟩
  | succ n ih =>
      apply (noControl_call _).follows.bind
      intro item
      cases item with
      | none => exact hotherwise
      | some value =>
          apply (follows_iterationAt target hbody value).bind
          intro goesOn
          cases goesOn with
          | false => exact follows_pure _
          | true => exact ih

omit [DecidableEq V] in
theorem follows_truth (value : V)
    {yes no : EStateM (Signal E × Nat) (RenderContext V F W) Unit}
    {yes' no' : EStateM (Signal E) (RenderContext V F W) Unit} (hyes : Follows level yes yes')
    (hno : Follows level no no') :
    Follows level (do if ← atLevel level (lift (operation (py.truth value))) then yes else no)
      (do if ← lift (operation (py.truth value)) then yes' else no') := by
  apply (noControl_call _).follows.bind
  intro answer
  cases answer with
  | false => exact hno
  | true => exact hyes

mutual

/-- A closed node renders the same with levels as without. -/
theorem follows_invokeAt (level : Nat) (node : Node) (h : node.closed (decide (level ≠ 0))) :
    Follows level (node.invokeAt py fuel level) (node.invoke py fuel) := by
  cases node with
  | text position text => exact (noControl_modify _).follows
  | output position expression =>
      apply NoControl.follows
      apply (noControl_run expression .evaluate).bind
      intro value
      exact (noControl_call _).bind fun _ => noControl_modify _
  | assignment position target expression =>
      apply NoControl.follows
      exact (noControl_run expression .evaluate).bind fun value => noControl_assign target value
  | condition position branches => exact follows_invokeBranchesAt level branches h
  | loop position target iterable body otherwise =>
      apply (noControl_run iterable .evaluate).follows.bind
      intro value
      apply (noControl_call _).follows.bind
      intro iterator
      exact follows_forLoopAt iterator target (follows_invokeAllAt (level + 1) body h.1)
        (follows_invokeAllAt level otherwise h.2) fuel
  | «break» position => exact follows_throw (of_decide_eq_true h)
  | «continue» position => exact follows_throw (of_decide_eq_true h)

theorem follows_invokeAllAt (level : Nat) (nodes : List Node)
    (h : closed (decide (level ≠ 0)) nodes) :
    Follows level (invokeAllAt py fuel level nodes) (invokeAll py fuel nodes) := by
  cases nodes with
  | nil => exact follows_pure _
  | cons node rest =>
      apply (follows_invokeAt level node h.1).bind
      intro _
      exact follows_invokeAllAt level rest h.2

theorem follows_invokeBranchesAt (level : Nat) (branches : List (Option Expression × List Node))
    (h : closedBranches (decide (level ≠ 0)) branches) :
    Follows level (invokeBranchesAt py fuel level branches) (invokeBranches py fuel branches) := by
  cases branches with
  | nil => exact follows_pure _
  | cons branch rest =>
      obtain ⟨condition, body⟩ := branch
      cases condition with
      | none => exact follows_invokeAllAt level body h.1
      | some condition =>
          apply (noControl_run condition .evaluate).follows.bind
          intro value
          exact follows_truth value (follows_invokeAllAt level body h.1)
            (follows_invokeBranchesAt level rest h.2)

end

section Loops

/-- An iteration begins: the iterator gives a value, and the target takes it. -/
def Begins (py : Python V C F W E) (iterator : V) (target : AssignmentTarget) (s t : RenderContext V F W) : Prop :=
  ∃ value u, (lift (operation (py.next iterator))).run s =
      (.ok (some value) u : EStateM.Result (Signal E) _ _) ∧
    (assign py target value).run u = (.ok ⟨⟩ t : EStateM.Result (Signal E) _ _)

/-- How a loop at a level answers what its body does in an iteration: a `break` for the loop ends
it in the state that the body left, without the rest of the values and without the `else` part; a
`continue` for the loop goes on with the next value, just as the end of the body does; what is meant
for another loop passes. -/
structure Answers (level : Nat) (loop : Nat → EStateM (Signal E × Nat) (RenderContext V F W) Unit)
    (body : EStateM (Signal E × Nat) (RenderContext V F W) Unit) (s t : RenderContext V F W) :
    Prop where
  ends : ∀ n u, body.run t = .error (.templateBreak, level + 1) u →
    (loop (n + 1)).run s = .ok () u
  skips : ∀ n u, body.run t = .error (.templateContinue, level + 1) u →
    (loop (n + 1)).run s = (loop n).run u
  goes : ∀ n u, body.run t = .ok () u → (loop (n + 1)).run s = (loop n).run u
  passes : ∀ n e l u, body.run t = .error (e, l) u → l ≠ level + 1 →
    (loop (n + 1)).run s = .error (e, l) u

omit [DecidableEq V] in
theorem run_atLevel_ok {α : Type} {m : EStateM (Signal E) (RenderContext V F W) α} {a : α}
    {s t : RenderContext V F W} (h : m.run s = .ok a t) : (atLevel level m).run s = .ok a t := by
  rw [run_atLevel, h]

omit [DecidableEq V] in
/-- The loop decides by what the iteration returns. -/
theorem run_forLoopAt {iterator : V} {target : AssignmentTarget}
    {body otherwise : EStateM (Signal E × Nat) (RenderContext V F W) Unit}
    {s t : RenderContext V F W} (h : Begins py iterator target s t) (n : Nat) :
    (forLoopAt py level iterator target body otherwise (n + 1)).run s =
      continued (fun goesOn => if goesOn = true
          then forLoopAt py level iterator target body otherwise n else pure ())
        (rescued (fun signal => if signal.2 = level + 1 then
            match signal.1 with
            | .templateBreak => pure false
            | .templateContinue => pure true
            | _ => throw signal
          else throw signal) ((body *> pure true).run t)) := by
  obtain ⟨value, u, hnext, hassign⟩ := h
  have hiteration := run_bind (atLevel level (assign py target value)) (fun _ =>
    tryCatch (body *> pure true) fun signal => if signal.2 = level + 1 then
      match signal.1 with
      | .templateBreak => pure false
      | .templateContinue => pure true
      | _ => throw signal
    else throw signal) u
  rw [run_atLevel_ok hassign] at hiteration
  rw [forLoopAt, run_bind, run_atLevel_ok hnext]
  change (iterationAt py level target body value >>= fun goesOn => if goesOn = true
    then forLoopAt py level iterator target body otherwise n else pure ()).run u = _
  rw [run_bind]
  unfold iterationAt
  rw [hiteration]
  exact congrArg _ (run_tryCatch _ _ t)

omit [DecidableEq V] in
theorem forLoopAt_answers {iterator : V} {target : AssignmentTarget}
    {body otherwise : EStateM (Signal E × Nat) (RenderContext V F W) Unit}
    {s t : RenderContext V F W} (h : Begins py iterator target s t) :
    Answers level (forLoopAt py level iterator target body otherwise) body s t := by
  have hbody : (body *> pure true : EStateM _ _ Bool).run t =
      continued (fun _ => pure true) (body.run t) :=
    run_bind body (fun _ => pure true) t
  constructor
  · intro n u hrun
    rw [run_forLoopAt h, hbody, hrun]
    simp only [continued, rescued, if_true]
    rfl
  · intro n u hrun
    rw [run_forLoopAt h, hbody, hrun]
    simp only [continued, rescued, if_true]
    rfl
  · intro n u hrun
    rw [run_forLoopAt h, hbody, hrun]
    rfl
  · intro n e l u hrun hl
    rw [run_forLoopAt h, hbody, hrun]
    simp only [continued, rescued, if_neg hl]
    rfl

end Loops

omit [DecidableEq V] in
theorem left_lift {α : Type} (m : EStateM (Signal E) W α) (s : RenderContext V F W) :
    left ((lift m).run s) = { s with world := left (m.run s.world) } := by
  cases hrun : m.run s.world with
  | ok a w =>
      rw [lift_ok hrun]
      rfl
  | error e w =>
      rw [lift_error hrun]
      rfl

/-- What a render wrote stays written. -/
theorem primitives_output (initial : List String) :
    Primitives py (.invariant fun s : RenderContext V F W => initial <+: s.output) where
  world s t h := by rw [h.1]
  filters s t h := by rw [h.1]
  output s t h := by rw [h.1]
  lift m := by
    apply coupled_invariant
    intro s hs
    rw [left_lift]
    exact hs
  write text := coupled_invariant fun s hs => hs.trans (List.prefix_append _ _)
  install name function := coupled_invariant fun s hs => hs
  setValue name value := coupled_invariant fun s hs => hs
  resolveVariable name := by
    apply coupled_invariant
    intro s hs
    cases hvalue : s.values name with
    | none =>
        rw [run_resolveVariable_missing hvalue, left_lift]
        exact hs
    | some value =>
        cases hunchecked : s.unchecked name with
        | false =>
            rw [run_resolveVariable_known hvalue hunchecked]
            exact hs
        | true =>
            cases hplain : normaliseContext py s.world value with
            | ok _ =>
                rw [run_resolveVariable_plain hvalue hunchecked hplain]
                exact hs
            | error e =>
                rw [run_resolveVariable_refused hvalue hunchecked hplain]
                exact hs

/-- Loop control never leaves a program that compiles. Its render raises neither of the two signals,
and is the render in which each signal is meant for the innermost loop whose body it was raised in.
Every loop answers the signals that are meant for it and no others, and nothing that was written is
taken back. -/
theorem compile_controls {tokenizer : Tokenizer} {language : Language} {limit : Nat}
    {source : List Char} {nodes : List Node} {cursor : BlockCursor}
    (h : compile tokenizer language limit source = .ok nodes cursor) (py : Python V C F W E)
    (filters : List (String × C)) (fuel : Nat) :
    (∀ s e t, (TemplateProgram.render py fuel ⟨nodes, filters⟩).run s = .error e t →
      e ≠ .templateBreak ∧ e ≠ .templateContinue) ∧
    Follows 0 (invokeAllAt py fuel 0 nodes) (invokeAll py fuel nodes) ∧
    (∀ level iterator target body otherwise s t, Begins py iterator target s t →
      Answers level (forLoopAt py level iterator target body otherwise) body s t) ∧
    ∀ inner s, s.output <+: (left ((invokeAll py fuel inner).run s)).output := by
  have hfollows : Follows 0 (invokeAllAt py fuel 0 nodes) (invokeAll py fuel nodes) :=
    follows_invokeAllAt 0 nodes (closed_of_compile h)
  refine ⟨?_, hfollows, ?_, ?_⟩
  · intro s e t hrun
    have hrender : NoControl (TemplateProgram.render py fuel ⟨nodes, filters⟩) := by
      apply (noControl_constructFilters _).bind
      intro _
      apply hfollows.noControl.bind
      intro _
      exact noControl_get_bind fun _ => noControl_pure _
    have he := hrender s e t hrun
    exact ⟨fun heq => he (.inl heq), fun heq => he (.inr heq)⟩
  · intro level iterator target body otherwise s t hbegins
    exact forLoopAt_answers hbegins
  · intro inner s
    exact ((primitives_output s.output).invokeAll inner).holds (List.prefix_refl _)

/-- A source with a `break` behind an expression, in the body of a loop. -/
def breakSource : List Char :=
  "{% for x in y %}{{ x }}{% break %}{% end %}".toList

theorem compile_breakSource :
    ∃ nodes cursor, compile wordTokenizer wordLanguage 4 breakSource = .ok nodes cursor := by
  have h : positions (compile wordTokenizer wordLanguage 4 breakSource) =
      some [some 0, some 16, some 23] := by
    decide +kernel
  cases hcompile : compile wordTokenizer wordLanguage 4 breakSource with
  | ok nodes cursor => exact ⟨nodes, cursor, rfl⟩
  | error e cursor =>
      rw [hcompile] at h
      cases h

theorem breakSource_controlled : ∃ nodes cursor,
    compile wordTokenizer wordLanguage 4 breakSource = .ok nodes cursor ∧
      Follows 0 (invokeAllAt samplePython 2 0 nodes) (invokeAll samplePython 2 nodes) := by
  obtain ⟨nodes, cursor, hcompile⟩ := compile_breakSource
  exact ⟨nodes, cursor, hcompile, (compile_controls hcompile samplePython [] 2).2.1⟩

end Leveled

end Templates

end Rmote
