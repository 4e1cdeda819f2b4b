import Mathlib.Data.List.Nodup
import Rmote.Library.Outcome
import Rmote.Templates.ExpressionParser

/-!
# What the expression parser accepts and how it fails

`Takes n P m` describes a piece of the parser: it returns a value with `P` after at least
`n` tokens, or it raises an exception that `location` catches. The only other way out is a
`TypeError`, and then the parser had applied `+=` to a text and to bytes. The trees that it
returns are `Wellformed`.
-/

namespace Rmote

namespace Templates

open Outcome

/-- The two literals are both texts or both bytes, so that `+` takes them. -/
def SameKind (pair : Constant × Constant) : Prop :=
  (pair.1.add pair.2).isSome

/-- Every pair of literals that was joined is of one kind. -/
def AllSameKind (joins : List (Constant × Constant)) : Prop :=
  ∀ pair ∈ joins, SameKind pair

section Wellformed

variable (language : Language)

/-- The constants of literals: the named ones, texts and bytes, and the numbers that some
token stands for. -/
def IsLiteral : Constant → Prop
  | .none | .bool _ | .str _ | .bytes _ => True
  | .complex _ => False
  | value => ∃ text, language.literalEval text = .ok value

/-- The trees that the parser builds. A slice stands only in a subscript. -/
inductive Wellformed : Expression → Prop
  | literal {value : Constant} (hvalue : IsLiteral language value) : Wellformed (.literal value)
  | variable {name : String} (hname : language.isPublic name = true)
      (hliteral : literalName name = none) : Wellformed (.variable name)
  | collection {kind : CollectionKind} {items : List Expression}
      (hitems : ∀ e ∈ items, Wellformed e) (hset : kind = .set → items ≠ []) :
      Wellformed (.collection kind items)
  | dictionary {items : List (Expression × Expression)} (hkeys : ∀ p ∈ items, Wellformed p.1)
      (hvalues : ∀ p ∈ items, Wellformed p.2) : Wellformed (.dictionary items)
  | unary {operator : UnaryOperator} {value : Expression} (hvalue : Wellformed value) :
      Wellformed (.unary operator value)
  | binary {operator : BinaryOperator} {left right : Expression} (hleft : Wellformed left)
      (hright : Wellformed right) : Wellformed (.binary operator left right)
  | comparison {first : Expression} {rest : List (ComparisonOperator × Expression)}
      (hfirst : Wellformed first) (hrest : ∀ p ∈ rest, Wellformed p.2) (hnil : rest ≠ []) :
      Wellformed (.comparison first rest)
  | conditional {condition positive negative : Expression} (hcondition : Wellformed condition)
      (hpositive : Wellformed positive) (hnegative : Wellformed negative) :
      Wellformed (.conditional condition positive negative)
  | attribute {value : Expression} {name : String} (hvalue : Wellformed value)
      (hname : language.isPublic name = true) : Wellformed (.attribute value name)
  | lookup {value key : Expression} (hvalue : Wellformed value) (hkey : Wellformed key) :
      Wellformed (.lookup value key)
  | slice {value : Expression} {start stop step : Option Expression} (hvalue : Wellformed value)
      (hstart : ∀ e ∈ start, Wellformed e) (hstop : ∀ e ∈ stop, Wellformed e)
      (hstep : ∀ e ∈ step, Wellformed e) : Wellformed (.lookup value (.slice start stop step))
  | filter {name : String} {value : Expression} {arguments : List Expression}
      {keywords : List (String × Expression)} (hname : language.isPublic name = true)
      (hfilter : language.filters name = true) (hvalue : Wellformed value)
      (harguments : ∀ e ∈ arguments, Wellformed e) (hnames : ∀ p ∈ keywords,
        language.isPublic p.1 = true) (hkeywords : ∀ p ∈ keywords, Wellformed p.2)
      (hnodup : (keywords.map (·.1)).Nodup) : Wellformed (.filter name value arguments keywords)

end Wellformed

section Takes

variable {α β : Type} {P : α → Prop} {Q : β → Prop} {m : Parser α} {a b n : Nat}

/-- How the parser may fail. -/
def Fails (e : PythonError) (s : Cursor) : Prop :=
  (e = .typeError ∧ ¬ AllSameKind s.joins) ∨ (e.isCaught = true ∧ AllSameKind s.joins)

/-- A piece of the parser that returns a value with `P` after at least `n` tokens. -/
def Takes (n : Nat) (P : α → Prop) (m : Parser α) : Prop :=
  ∀ s, AllSameKind s.joins → Ensures m s
    (fun a t => P a ∧ AllSameKind t.joins ∧ t.rest.length + n ≤ s.rest.length) Fails

theorem takes_pure {x : α} (h : P x) : Takes 0 P (pure x) := by
  intro s hs
  exact ensures_pure ⟨h, hs, Nat.le_refl _⟩

theorem takes_throw {e : PythonError} (h : e.isCaught = true) : Takes n P (throw e) := by
  intro s hs
  exact ensures_throw (.inr ⟨h, hs⟩)

theorem Takes.weaken {P' : α → Prop} (h : Takes a P m) (hle : b ≤ a) (hP : ∀ x, P x → P' x) :
    Takes b P' m := by
  intro s hs
  apply (h s hs).mono
  · intro x t hx
    refine ⟨hP x hx.1, hx.2.1, ?_⟩
    have := hx.2.2
    omega
  · exact fun e t => id

theorem Takes.bind {f : α → Parser β} (h : Takes a P m) (hf : ∀ x, P x → Takes b Q (f x)) :
    Takes (a + b) Q (m >>= f) := by
  intro s hs
  apply (h s hs).bind
  intro x t hx
  apply (hf x hx.1 t hx.2.1).mono
  · intro y u hy
    refine ⟨hy.1, hy.2.1, ?_⟩
    have := hx.2.2
    have := hy.2.2
    omega
  · exact fun e t => id

/-- The first part may take tokens that do not count. -/
theorem Takes.andThen {f : α → Parser β} (h : Takes a P m) (hf : ∀ x, P x → Takes b Q (f x)) :
    Takes b Q (m >>= f) :=
  (h.bind hf).weaken (Nat.le_add_left b a) fun _ => id

theorem takes_take : Takes 1 (fun _ => True) Parser.take := by
  intro s hs
  unfold Parser.take
  apply ensures_get_bind
  cases hrest : s.rest with
  | nil => exact ensures_throw (.inr ⟨rfl, hs⟩)
  | cons token rest =>
      exact ⟨trivial, hs, Nat.le_refl _⟩

variable {language : Language}

theorem takes_expect (expected : String) : Takes 1 (fun _ => True)
    (Parser.expect language expected) := by
  intro s hs
  unfold Parser.expect
  apply ensures_get_bind
  cases hrest : s.rest with
  | nil => exact ensures_throw (.inr ⟨rfl, hs⟩)
  | cons token rest =>
      simp only
      split
      · exact ensures_throw (.inr ⟨rfl, hs⟩)
      · exact ⟨trivial, hs, Nat.le_refl _⟩

theorem takes_templateIdentifier (value : String) :
    Takes 0 (fun name => name = value ∧ language.isPublic name = true)
      (Parser.templateIdentifier language value) := by
  unfold Parser.templateIdentifier
  split
  · rename_i h
    exact takes_pure ⟨rfl, h⟩
  · exact takes_throw rfl

theorem takes_takeName :
    Takes 1 (fun name => language.isPublic name = true) (Parser.takeName language) :=
  takes_take.bind fun token _ =>
    (takes_templateIdentifier token.string).weaken (Nat.le_refl _) fun _ h => h.2

theorem takes_literalEval (text : String) :
    Takes 0 (fun value => language.literalEval text = .ok value)
      (Parser.literalEval language text) := by
  unfold Parser.literalEval
  cases h : language.literalEval text with
  | ok value => exact takes_pure rfl
  | error e =>
      cases e with
      | syntaxError message => exact takes_throw rfl
      | valueError message => exact takes_throw rfl

/-- A string that is there belongs to a token. -/
theorem length_pos_of_stringAt {tokens : List CodeToken} {text : String}
    (h : stringAt tokens 0 = text) (htext : text ≠ "") : 0 < tokens.length := by
  cases tokens with
  | nil => exact absurd h.symm htext
  | cons token rest => exact Nat.succ_pos _

theorem length_pos_of_operationAt {tokens : List CodeToken} {operation : Operation}
    (h : operationAt tokens = some operation) : 0 < tokens.length := by
  cases tokens with
  | nil => cases h
  | cons token rest => exact Nat.succ_pos _

theorem ensures_peek_bind {distance : Nat} {f : String → Parser α} {s : Cursor}
    {R : α → Cursor → Prop} {E : PythonError → Cursor → Prop}
    (h : Ensures (f (stringAt s.rest distance)) s R E) :
    Ensures (Parser.peek distance >>= f) s R E := h

/-- A piece that looks ahead first. -/
theorem takes_peek_bind {distance : Nat} {f : String → Parser α}
    (h : ∀ text, Takes n P (f text)) : Takes n P (Parser.peek distance >>= f) := by
  intro s hs
  exact ensures_peek_bind (h _ s hs)

/-- What a loop ensures that started from `s`. -/
abbrev Since (s : Cursor) (P : α → Prop) (x : α) (t : Cursor) : Prop :=
  P x ∧ AllSameKind t.joins ∧ t.rest.length ≤ s.rest.length

theorem Takes.since {s t : Cursor} (h : Takes 0 P m) (ht : AllSameKind t.joins)
    (hle : t.rest.length ≤ s.rest.length) : Ensures m t (Since s P) Fails := by
  apply (h t ht).mono
  · intro x u hx
    exact ⟨hx.1, hx.2.1, Nat.le_trans hx.2.2 hle⟩
  · exact fun e u => id

/-- The loop of `sequence` has enough fuel for the tokens that are left. -/
theorem ensures_items {closing : String} {item : List α → Parser α} {R : List α → Prop}
    (hitem : ∀ done, R done → Takes 0 (fun x => R (done ++ [x])) (item done)) (fuel : Nat)
    (done : List α) (hdone : R done) (s : Cursor) (hs : AllSameKind s.joins)
    (hfuel : s.rest.length ≤ fuel) :
    Ensures (Parser.items closing item fuel done) s (Since s R) Fails := by
  induction fuel generalizing done s with
  | zero =>
      unfold Parser.items
      apply ensures_peek_bind
      split
      · rename_i hcomma
        have := length_pos_of_stringAt hcomma (by decide)
        omega
      · exact ensures_pure ⟨hdone, hs, Nat.le_refl _⟩
  | succ fuel ih =>
      unfold Parser.items
      apply ensures_peek_bind
      split
      · apply (takes_take s hs).bind
        intro _ t ht
        apply ensures_peek_bind
        split
        · exact ensures_pure ⟨hdone, ht.2.1, by omega⟩
        · apply (hitem done hdone t ht.2.1).bind
          intro next u hu
          apply (ih (done ++ [next]) hu.1 u hu.2.1 (by omega)).mono
          · intro x v hv
            exact ⟨hv.1, hv.2.1, by omega⟩
          · exact fun e v => id
      · exact ensures_pure ⟨hdone, hs, Nat.le_refl _⟩

theorem takes_firstItems {closing : String} {item : List α → Parser α} {R : List α → Prop}
    (hitem : ∀ done, R done → Takes 0 (fun x => R (done ++ [x])) (item done)) {first : List α}
    (hfirst : R first) : Takes 0 R (Parser.firstItems closing item first) := by
  unfold Parser.firstItems
  split
  · rename_i hempty
    rw [List.isEmpty_iff.mp hempty] at hfirst ⊢
    apply takes_peek_bind
    intro text
    split
    · exact (hitem [] hfirst).andThen fun x hx => takes_pure hx
    · exact takes_pure hfirst
  · exact takes_pure hfirst

theorem takes_sequence {closing : String} {item : List α → Parser α} {R : List α → Prop}
    (hitem : ∀ done, R done → Takes 0 (fun x => R (done ++ [x])) (item done)) {first : List α}
    (hfirst : R first) : Takes 0 R (Parser.sequence language closing item first) := by
  unfold Parser.sequence
  apply (takes_firstItems hitem hfirst).andThen
  intro done hdone s hs
  apply ensures_get_bind
  apply (ensures_items hitem _ done hdone s hs (Nat.le_refl _)).bind
  intro result t ht
  have hrest : Takes 0 R (do
      if closing ≠ "" then
        Parser.expect language closing
      return result) := by
    split
    · exact (takes_expect closing).andThen fun _ _ => takes_pure ht.1
    · exact takes_pure ht.1
  exact hrest.since ht.2.1 ht.2.2

theorem isLiteral_of_add {value other result : Constant} (h : value.add other = some result) :
    IsLiteral language result := by
  unfold Constant.add at h
  split at h
  · cases h
    trivial
  · cases h
    trivial
  · cases h

theorem takes_join (value other : Constant) :
    Takes 0 (IsLiteral language) (Parser.join value other) := by
  intro s hs
  unfold Parser.join
  cases hadd : value.add other with
  | some result =>
      refine ⟨isLiteral_of_add hadd, ?_, Nat.le_refl _⟩
      intro pair hpair
      rcases List.mem_append.mp hpair with hpair | hpair
      · exact hs pair hpair
      · rw [List.mem_singleton.mp hpair]
        unfold SameKind
        rw [hadd]
        rfl
  | none =>
      refine .inl ⟨rfl, ?_⟩
      intro h
      have hlast := h (value, other) (List.mem_append_right _ (List.mem_singleton.mpr rfl))
      unfold SameKind at hlast
      rw [hadd] at hlast
      cases hlast

/-- The loop over adjacent strings has enough fuel for the tokens that are left. -/
theorem ensures_strings (fuel : Nat) (value : Constant) (hvalue : IsLiteral language value)
    (s : Cursor) (hs : AllSameKind s.joins) (hfuel : s.rest.length ≤ fuel) :
    Ensures (Parser.strings language fuel value) s (Since s (IsLiteral language)) Fails := by
  induction fuel generalizing value s with
  | zero =>
      unfold Parser.strings
      apply ensures_get_bind
      rw [List.length_eq_zero_iff.mp (Nat.le_zero.mp hfuel)]
      exact ensures_pure ⟨hvalue, hs, Nat.le_refl _⟩
  | succ fuel ih =>
      unfold Parser.strings
      apply ensures_get_bind
      cases hrest : s.rest with
      | nil => exact ensures_pure ⟨hvalue, hs, Nat.le_refl _⟩
      | cons token rest =>
          simp only
          split
          · exact ensures_pure ⟨hvalue, hs, Nat.le_refl _⟩
          · apply (takes_take s hs).bind
            intro token t ht
            apply (takes_literalEval token.string t ht.2.1).bind
            intro other u hu
            apply (takes_join value other u hu.2.1).bind
            intro result v hv
            apply (ih result hv.1 v hv.2.1 (by omega)).mono
            · intro x w hw
              exact ⟨hw.1, hw.2.1, by omega⟩
            · exact fun e w => id

theorem isLiteral_of_supported {value : Constant} {text : String}
    (heval : language.literalEval text = .ok value) (h : Parser.supported value = true) :
    IsLiteral language value := by
  cases value with
  | none => cases h
  | bool _ => cases h
  | complex _ => cases h
  | int _ => exact ⟨text, heval⟩
  | float _ => exact ⟨text, heval⟩
  | str _ => trivial
  | bytes _ => trivial

theorem takes_literal (token : CodeToken) :
    Takes 0 (Wellformed language) (Parser.literal language token) := by
  unfold Parser.literal
  apply (takes_literalEval token.string).andThen
  intro value heval
  by_cases hsupported : Parser.supported value = true
  · rw [if_pos hsupported]
    have hvalue := isLiteral_of_supported heval hsupported
    by_cases htype : token.type = .string
    · rw [if_pos htype]
      intro s hs
      apply ensures_get_bind
      apply (ensures_strings _ value hvalue s hs (Nat.le_refl _)).bind
      intro value t ht
      exact ensures_pure ⟨.literal ht.1, ht.2⟩
    · rw [if_neg htype]
      exact takes_pure (.literal hvalue)
  · rw [if_neg hsupported]
    exact takes_throw rfl

theorem takes_takeOperation (operation : Operation) :
    Takes 1 (fun _ => True) (Parser.takeOperation language operation) := by
  have hwords : ∀ words : List String,
      Takes 0 (fun _ => True) (words.forM (Parser.expect language)) := by
    intro words
    induction words with
    | nil => exact takes_pure trivial
    | cons word words ih => exact (takes_expect word).andThen fun _ _ => ih
  have hcons : ∀ (word : String) (words : List String),
      Takes 1 (fun _ => True) ((word :: words).forM (Parser.expect language)) :=
    fun word words => (takes_expect word).bind fun _ _ => hwords words
  unfold Parser.takeOperation
  cases hsplit : operation.words with
  | nil =>
      unfold Operation.words at hsplit
      split at hsplit <;> cases hsplit
  | cons word words => exact hcons word words

/-- What the items of a filter call are like, so far. -/
structure ArgumentsOk (language : Language) (done : List Parser.Argument) : Prop where
  values : ∀ e ∈ done.filterMap Parser.Argument.value?, Wellformed language e
  names : ∀ p ∈ done.filterMap Parser.Argument.keyword?, language.isPublic p.1 = true
  keywords : ∀ p ∈ done.filterMap Parser.Argument.keyword?, Wellformed language p.2
  nodup : ((done.filterMap Parser.Argument.keyword?).map (·.1)).Nodup

theorem ArgumentsOk.nil : ArgumentsOk language [] where
  values _ he := absurd he List.not_mem_nil
  names _ hp := absurd hp List.not_mem_nil
  keywords _ hp := absurd hp List.not_mem_nil
  nodup := List.nodup_nil

theorem ArgumentsOk.positional {done : List Parser.Argument} (h : ArgumentsOk language done)
    {value : Expression} (hvalue : Wellformed language value) :
    ArgumentsOk language (done ++ [.positional value]) := by
  have hkeywords : (done ++ [Parser.Argument.positional value]).filterMap Parser.Argument.keyword? =
      done.filterMap Parser.Argument.keyword? := by
    simp [Parser.Argument.keyword?]
  constructor
  · intro e he
    rw [List.filterMap_append, List.mem_append] at he
    rcases he with he | he
    · exact h.values e he
    · rw [List.mem_singleton.mp he]
      exact hvalue
  · rw [hkeywords]
    exact h.names
  · rw [hkeywords]
    exact h.keywords
  · rw [hkeywords]
    exact h.nodup

theorem ArgumentsOk.keyword {done : List Parser.Argument} (h : ArgumentsOk language done)
    {name : String} {value : Expression} (hname : language.isPublic name = true)
    (hnew : name ∉ (done.filterMap Parser.Argument.keyword?).map (·.1))
    (hvalue : Wellformed language value) :
    ArgumentsOk language (done ++ [.keyword name value]) := by
  have hkeywords : (done ++ [Parser.Argument.keyword name value]).filterMap Parser.Argument.keyword? =
      done.filterMap Parser.Argument.keyword? ++ [(name, value)] := by
    rw [List.filterMap_append]
    rfl
  constructor
  · intro e he
    apply h.values e
    simpa [Parser.Argument.value?] using he
  · rw [hkeywords]
    intro p hp
    rcases List.mem_append.mp hp with hp | hp
    · exact h.names p hp
    · rw [List.mem_singleton.mp hp]
      exact hname
  · rw [hkeywords]
    intro p hp
    rcases List.mem_append.mp hp with hp | hp
    · exact h.keywords p hp
    · rw [List.mem_singleton.mp hp]
      exact hvalue
  · rw [hkeywords, List.map_append]
    apply List.Nodup.append h.nodup (List.nodup_singleton _)
    intro other hother hlast
    rw [List.mem_singleton.mp hlast] at hother
    exact hnew hother

section Methods

variable {self : Nat → Parser Expression} (hself : ∀ minimum, Takes 0 (Wellformed language)
  (self minimum))
include hself

theorem takes_items {closing : String} (first : List Expression)
    (hfirst : ∀ e ∈ first, Wellformed language e) :
    Takes 0 (fun items => (∀ e ∈ items, Wellformed language e) ∧ first <+: items)
      (Parser.sequence language closing (fun _ => self 0) first) := by
  apply takes_sequence (R := fun items => (∀ e ∈ items, Wellformed language e) ∧ first <+: items)
  · intro done hdone
    apply (hself 0).weaken (Nat.le_refl _)
    intro e he
    refine ⟨?_, hdone.2.trans (List.prefix_append _ _)⟩
    intro e' he'
    rcases List.mem_append.mp he' with he' | he'
    · exact hdone.1 e' he'
    · rw [List.mem_singleton.mp he']
      exact he
  · exact ⟨hfirst, List.prefix_rfl⟩

theorem takes_pair : Takes 0 (fun p => Wellformed language p.1 ∧ Wellformed language p.2)
    (Parser.pair language self) := by
  apply (hself 0).andThen
  intro key hkey
  apply (takes_expect ":").andThen
  intro _ _
  apply (hself 0).andThen
  intro value hvalue
  exact takes_pure ⟨hkey, hvalue⟩

theorem takes_dictionaryOrSet :
    Takes 0 (Wellformed language) (Parser.dictionaryOrSet language self) := by
  apply takes_peek_bind
  intro text
  split
  · apply takes_take.andThen
    intro _ _
    exact takes_pure (.dictionary (fun p hp => absurd hp List.not_mem_nil)
      fun p hp => absurd hp List.not_mem_nil)
  · apply (hself 0).andThen
    intro first hfirst
    apply takes_peek_bind
    intro text
    split
    · apply (takes_items hself [first] (by simpa using hfirst)).andThen
      rintro items ⟨hitems, hinitial⟩
      apply takes_pure
      apply Wellformed.collection hitems
      rintro - rfl
      exact absurd (List.prefix_nil.mp hinitial) (List.cons_ne_nil _ _)
    · apply (takes_expect ":").andThen
      intro _ _
      apply (hself 0).andThen
      intro value hvalue
      have hpairs : Takes 0 (fun items => ∀ p ∈ items, Wellformed language p.1 ∧
          Wellformed language p.2) (Parser.sequence language "\x7d"
            (fun _ => Parser.pair language self) [(first, value)]) := by
        apply takes_sequence (R := fun items : List (Expression × Expression) =>
          ∀ p ∈ items, Wellformed language p.1 ∧ Wellformed language p.2)
        · intro done hdone
          apply (takes_pair hself).weaken (Nat.le_refl _)
          intro p hp p' hp'
          rcases List.mem_append.mp hp' with hp' | hp'
          · exact hdone p' hp'
          · rw [List.mem_singleton.mp hp']
            exact hp
        · intro p hp
          rw [List.mem_singleton.mp hp]
          exact ⟨hfirst, hvalue⟩
      apply hpairs.andThen
      intro items hitems
      exact takes_pure (.dictionary (fun p hp => (hitems p hp).1) fun p hp => (hitems p hp).2)

theorem takes_parenthesis : Takes 0 (Wellformed language) (Parser.parenthesis language self) := by
  apply takes_peek_bind
  intro text
  split
  · apply takes_take.andThen
    intro _ _
    exact takes_pure (.collection (fun e he => absurd he List.not_mem_nil) nofun)
  · apply (hself 0).andThen
    intro first hfirst
    apply takes_peek_bind
    intro text
    split
    · apply (takes_items hself [first] (by simpa using hfirst)).andThen
      intro items hitems
      exact takes_pure (.collection hitems.1 nofun)
    · apply (takes_expect ")").andThen
      intro _ _
      exact takes_pure hfirst

theorem takes_primary : Takes 1 (Wellformed language) (Parser.primary language self) := by
  refine takes_take.bind (b := 0) ?_
  intro token _
  split
  · apply (hself _).andThen
    intro value hvalue
    exact takes_pure (.unary hvalue)
  · split
    · exact takes_literal token
    · split
      · rename_i value hvalue
        apply takes_pure
        apply Wellformed.literal
        unfold literalName at hvalue
        split at hvalue <;> cases hvalue <;> trivial
      · rename_i hliteral
        split
        · exact takes_parenthesis hself
        · split
          · apply (takes_items hself [] (fun e he => absurd he List.not_mem_nil)).andThen
            intro items hitems
            exact takes_pure (.collection hitems.1 nofun)
          · split
            · exact takes_dictionaryOrSet hself
            · split
              · apply (takes_templateIdentifier token.string).andThen
                rintro name ⟨rfl, hname⟩
                exact takes_pure (.variable hname hliteral)
              · exact takes_throw rfl

theorem takes_part (absent : List String) :
    Takes 0 (fun part => ∀ e ∈ part, Wellformed language e) (Parser.part self absent) := by
  apply takes_peek_bind
  intro text
  split
  · exact takes_pure nofun
  · apply (hself 0).andThen
    intro value hvalue
    apply takes_pure
    intro e he
    cases he
    exact hvalue

theorem takes_subscript {left : Expression} (hleft : Wellformed language left) :
    Takes 0 (Wellformed language) (Parser.subscript language self left) := by
  apply (takes_part hself _).andThen
  intro start hstart
  apply takes_peek_bind
  intro text
  split
  · apply takes_take.andThen
    intro _ _
    apply (takes_part hself _).andThen
    intro stop hstop
    apply takes_peek_bind
    intro text
    split
    · apply takes_take.andThen
      intro _ _
      apply (takes_part hself _).andThen
      intro step hstep
      apply (takes_expect "]").andThen
      intro _ _
      exact takes_pure (.slice hleft hstart hstop hstep)
    · apply (takes_expect "]").andThen
      intro _ _
      exact takes_pure (.slice hleft hstart hstop nofun)
  · cases start with
    | none => exact takes_throw rfl
    | some key =>
        apply (takes_expect "]").andThen
        intro _ _
        exact takes_pure (.lookup hleft (hstart key rfl))

theorem takes_argument {done : List Parser.Argument} (hdone : ArgumentsOk language done) :
    Takes 0 (fun x => ArgumentsOk language (done ++ [x]))
      (Parser.argument language self done) := by
  apply takes_peek_bind
  intro text
  split
  · apply takes_takeName.andThen
    intro key hkey
    split
    · exact takes_throw rfl
    · rename_i hnew
      apply (takes_expect "=").andThen
      intro _ _
      apply (hself 0).andThen
      intro value hvalue
      exact takes_pure (hdone.keyword hkey hnew hvalue)
  · split
    · apply (hself 0).andThen
      intro value hvalue
      exact takes_pure (hdone.positional hvalue)
    · exact takes_throw rfl

theorem takes_filterCall {left : Expression} (hleft : Wellformed language left) :
    Takes 0 (Wellformed language) (Parser.filterCall language self left) := by
  apply takes_takeName.andThen
  intro name hname
  split
  · rename_i hfilter
    apply takes_peek_bind
    intro text
    split
    · apply takes_take.andThen
      intro _ _
      apply (takes_sequence (R := ArgumentsOk language)
        (fun done hdone => takes_argument hself hdone) ArgumentsOk.nil).andThen
      intro arguments harguments
      exact takes_pure (.filter hname hfilter hleft harguments.values harguments.names
        harguments.keywords harguments.nodup)
    · exact takes_pure (.filter hname hfilter hleft (fun e he => absurd he List.not_mem_nil)
        (fun p hp => absurd hp List.not_mem_nil) (fun p hp => absurd hp List.not_mem_nil)
        List.nodup_nil)
  · exact takes_throw rfl

/-- What the loop over a chain of comparisons returns. -/
abbrev ChainOk (language : Language) (rest : List (ComparisonOperator × Expression)) : Prop :=
  (∀ p ∈ rest, Wellformed language p.2) ∧ rest ≠ []

/-- The loop over a chain of comparisons has enough fuel for the tokens that are left. -/
theorem ensures_chain (fuel : Nat) (operator : ComparisonOperator) (s : Cursor)
    (hs : AllSameKind s.joins) (hfuel : s.rest.length ≤ fuel) :
    Ensures (Parser.chain language self fuel operator) s (Since s (ChainOk language)) Fails := by
  have hone : ∀ {operator : ComparisonOperator} {operand : Expression},
      Wellformed language operand → ChainOk language [(operator, operand)] := by
    intro operator operand hoperand
    refine ⟨?_, List.cons_ne_nil _ _⟩
    intro p hp
    rw [List.mem_singleton.mp hp]
    exact hoperand
  induction fuel generalizing operator s with
  | zero =>
      unfold Parser.chain
      apply (hself 41 s hs).bind
      intro operand t ht
      apply ensures_get_bind
      split
      · rename_i next hnext
        have := length_pos_of_operationAt hnext
        omega
      · exact ensures_pure ⟨hone ht.1, ht.2⟩
  | succ fuel ih =>
      unfold Parser.chain
      apply (hself 41 s hs).bind
      intro operand t ht
      apply ensures_get_bind
      split
      · rename_i next hnext
        apply (takes_takeOperation (.comparison next) t ht.2.1).bind
        intro _ u hu
        apply (ih next u hu.2.1 (by omega)).bind
        intro rest v hv
        refine ensures_pure ⟨⟨?_, List.cons_ne_nil _ _⟩, hv.2.1, by omega⟩
        intro p hp
        rcases List.mem_cons.mp hp with hp | hp
        · rw [hp]
          exact ht.1
        · exact hv.1.1 p hp
      · exact ensures_pure ⟨hone ht.1, ht.2⟩

theorem takes_infixed {left : Expression} (hleft : Wellformed language left)
    (operation : Operation) :
    Takes 0 (Wellformed language) (Parser.infixed language self left operation) := by
  cases operation with
  | «attribute» => exact takes_takeName.andThen fun name hname => takes_pure (.attribute hleft hname)
  | subscript => exact takes_subscript hself hleft
  | filter => exact takes_filterCall hself hleft
  | conditional =>
      apply (hself 6).andThen
      intro condition hcondition
      apply (takes_expect "else").andThen
      intro _ _
      apply (hself 5).andThen
      intro negative hnegative
      exact takes_pure (.conditional hcondition hleft hnegative)
  | comparison operator =>
      intro s hs
      unfold Parser.infixed
      apply ensures_get_bind
      apply (ensures_chain hself _ operator s hs (Nat.le_refl _)).bind
      intro rest t ht
      exact ensures_pure ⟨.comparison hleft ht.1.1 ht.1.2, ht.2⟩
  | binary operator =>
      apply (hself _).andThen
      intro right hright
      exact takes_pure (.binary hleft hright)

/-- The loop of `expression` has enough fuel for the tokens that are left. -/
theorem ensures_climb (minimum fuel : Nat) {left : Expression} (hleft : Wellformed language left)
    (s : Cursor) (hs : AllSameKind s.joins) (hfuel : s.rest.length ≤ fuel) :
    Ensures (Parser.climb language self minimum fuel left) s (Since s (Wellformed language))
      Fails := by
  induction fuel generalizing left s with
  | zero =>
      unfold Parser.climb
      apply ensures_get_bind
      split
      · exact ensures_pure ⟨hleft, hs, Nat.le_refl _⟩
      · rename_i operation hoperation
        have := length_pos_of_operationAt hoperation
        omega
  | succ fuel ih =>
      unfold Parser.climb
      apply ensures_get_bind
      split
      · exact ensures_pure ⟨hleft, hs, Nat.le_refl _⟩
      · rename_i operation hoperation
        split
        · exact ensures_pure ⟨hleft, hs, Nat.le_refl _⟩
        · apply (takes_takeOperation operation s hs).bind
          intro _ t ht
          apply (takes_infixed hself hleft operation t ht.2.1).bind
          intro left u hu
          apply (ih hu.1 u hu.2.1 (by omega)).mono
          · intro value v hv
            exact ⟨hv.1, hv.2.1, by omega⟩
          · exact fun e v => id

theorem takes_expressionStep (minimum : Nat) :
    Takes 0 (Wellformed language) (Parser.expressionStep language self minimum) := by
  unfold Parser.expressionStep
  apply (takes_primary hself).andThen
  intro left hleft s hs
  apply ensures_get_bind
  exact ensures_climb hself minimum _ hleft s hs (Nat.le_refl _)

end Methods

/-! ## The methods that the block parser calls -/

theorem takes_expression (limit minimum : Nat) :
    Takes 0 (Wellformed language) (Parser.expression language limit minimum) := by
  induction limit generalizing minimum with
  | zero => exact takes_throw rfl
  | succ limit ih => exact takes_expressionStep ih minimum

theorem takes_finish : Takes 0 (fun _ => True) (Parser.finish language) := by
  apply takes_peek_bind
  intro text
  split
  · exact takes_throw rfl
  · split
    · exact takes_throw rfl
    · exact takes_pure trivial

theorem takes_parse (limit : Nat) (started : Bool) :
    Takes 0 (Wellformed language) (Parser.parse language limit started) := by
  apply takes_peek_bind
  intro text
  split
  · exact takes_throw rfl
  · apply (takes_expression limit 0).andThen
    intro first hfirst
    apply takes_peek_bind
    intro text
    split
    · apply (takes_items (takes_expression limit) [first] (by simpa using hfirst)).andThen
      intro items hitems
      apply takes_finish.andThen
      intro _ _
      exact takes_pure (.collection hitems.1 nofun)
    · apply takes_finish.andThen
      intro _ _
      exact takes_pure hfirst

/-- The names of a target can be read by a template. -/
abbrev TargetOk (language : Language) (target : AssignmentTarget) : Prop :=
  ∀ name ∈ target.names, language.isPublic name = true

theorem takes_targetNames (closing : String) :
    Takes 0 (TargetOk language) (Parser.targetNames language closing) := by
  apply takes_takeName.andThen
  intro name hname
  apply takes_peek_bind
  intro text
  have hnames : Takes 0 (fun names : List String => (∀ n ∈ names, language.isPublic n = true) ∧
      [name] <+: names) (Parser.sequence language closing (fun _ => Parser.takeName language) [name]) := by
    apply takes_sequence
      (R := fun names : List String => (∀ n ∈ names, language.isPublic n = true) ∧ [name] <+: names)
    · intro done hdone
      apply takes_takeName.weaken (Nat.zero_le _)
      intro next hnext
      refine ⟨?_, hdone.2.trans (List.prefix_append _ _)⟩
      intro n hn
      rcases List.mem_append.mp hn with hn | hn
      · exact hdone.1 n hn
      · rw [List.mem_singleton.mp hn]
        exact hnext
    · exact ⟨by simpa using hname, List.prefix_rfl⟩
  apply hnames.andThen
  rintro names ⟨hpublic, others, hothers⟩
  apply takes_pure
  rw [← hothers] at hpublic ⊢
  exact hpublic

theorem takes_target (stop : String) :
    Takes 0 (TargetOk language) (Parser.target language stop) := by
  apply takes_peek_bind
  intro text
  split
  · apply takes_take.andThen
    intro _ _
    apply (takes_targetNames ")").andThen
    intro result hresult
    apply (takes_expect stop).andThen
    intro _ _
    exact takes_pure hresult
  · exact takes_targetNames stop

theorem takes_header (limit : Nat) (stop : String) :
    Takes 0 (fun header : AssignmentTarget × Expression =>
      TargetOk language header.1 ∧ Wellformed language header.2)
      (Parser.header language limit stop) := by
  apply (takes_target stop).andThen
  intro target htarget
  apply (takes_parse limit true).andThen
  intro value hvalue
  exact takes_pure ⟨htarget, hvalue⟩

end Takes

end Templates

end Rmote
