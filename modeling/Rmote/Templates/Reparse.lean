import Rmote.Templates.Print

/-!
# Printed expressions are read back

`Parses m tokens a rest` describes a piece of the parser that reads `a` and leaves `rest`. A tree
leads the parser on (`Leads`): where its tokens stand in front of a tail that does not bind to
its last operand, the parser goes on behind them as if it had read the tree in one step. This
holds for every tree that the parser builds, by induction over the tree.
-/

namespace Rmote

namespace Templates

open Rmote.Templates.Parser

/-- The operators and delimiters that are no words, and the end of the tokens. -/
def symbols : List String :=
  ["", "(", ")", "[", "]", "\x7b", "\x7d", ",", ":", "=", ".", "|", "==", "!=", "<", "<=", ">",
    ">=", "+", "-", "*", "/", "//", "%", "**"]

/-- What stands between operands. -/
def reserved : List String := symbols ++ ["if", "else", "or", "and", "not", "in", "is"]

/-- The literals of a language have tokens of their own, and no identifier is a symbol. -/
structure Printable (language : Language) (spelling : Constant → String) : Prop where
  eval : ∀ value, IsLiteral language value → supported value = true →
    language.literalEval (spelling value) = .ok value
  spelled : ∀ value, supported value = true → spelling value ∉ reserved
  named : ∀ name, language.isIdentifier name = true → name ∉ symbols

/-- The piece reads a value and leaves the rest of the tokens. -/
def Parses {α : Type} (m : Parser α) (tokens : List CodeToken) (a : α) (rest : List CodeToken) :
    Prop :=
  ∀ joins, m.run ⟨tokens, joins⟩ = .ok a ⟨rest, joins⟩

section Parses

variable {α β : Type} {language : Language} {m : Parser α} {a : α} {b : β}
  {tokens mid rest : List CodeToken} {token : CodeToken}

theorem parses_pure (a : α) (tokens : List CodeToken) : Parses (pure a) tokens a tokens :=
  fun _ => rfl

theorem Parses.bind {f : α → Parser β} (h : Parses m tokens a mid)
    (hf : Parses (f a) mid b rest) : Parses (m >>= f) tokens b rest := by
  intro joins
  rw [EStateM.run_bind, h joins]
  exact hf joins

theorem parses_get_bind {f : Cursor → Parser α}
    (h : ∀ joins, Parses (f ⟨tokens, joins⟩) tokens a rest) : Parses (get >>= f) tokens a rest :=
  fun joins => h joins joins

theorem parses_peek_bind {distance : Nat} {f : String → Parser α}
    (h : Parses (f (stringAt tokens distance)) tokens a rest) :
    Parses (peek distance >>= f) tokens a rest := h

theorem parses_take : Parses take (token :: rest) token rest := fun _ => rfl

theorem parses_expect {expected : String} (h : token.string = expected) :
    Parses (expect language expected) (token :: rest) ⟨⟩ rest := by
  intro joins
  unfold expect
  change (if token.string ≠ expected then _ else _ : Parser PUnit) _ = _
  rw [if_neg (not_not.mpr h)]
  rfl

theorem parses_templateIdentifier {name : String} (h : language.isPublic name = true) :
    Parses (templateIdentifier language name) rest name rest := by
  unfold templateIdentifier
  rw [if_pos h]
  exact parses_pure name rest

theorem parses_name {name : String} (h : language.isPublic name = true) :
    Parses (takeName language) (nameToken name :: rest) name rest :=
  parses_take.bind (parses_templateIdentifier h)

theorem parses_words (words : List String) :
    Parses (words.forM (expect language)) (words.map lexeme ++ rest) ⟨⟩ rest := by
  induction words with
  | nil => exact parses_pure _ _
  | cons word words ih => exact (parses_expect rfl).bind ih

theorem parses_takeOperation (operation : Operation) :
    Parses (takeOperation language operation) (operation.tokens ++ rest) ⟨⟩ rest :=
  parses_words operation.words

end Parses

section Tails

variable {tokens tail rest : List CodeToken} {operation : Operation} {bound bound' : Nat}

@[simp] theorem stringAt_cons_zero (token : CodeToken) (rest : List CodeToken) :
    stringAt (token :: rest) 0 = token.string := rfl

@[simp] theorem stringAt_cons_one (token : CodeToken) (rest : List CodeToken) :
    stringAt (token :: rest) 1 = stringAt rest 0 := by
  cases rest <;> rfl

@[simp] theorem string_lexeme (text : String) : (lexeme text).string = text := rfl

theorem type_lexeme (text : String) : (lexeme text).type ≠ .string := by
  unfold lexeme
  split_ifs
  · simp
  · simp

theorem words_cons (operation : Operation) :
    ∃ word words, operation.words = word :: words ∧ word ≠ "(" ∧ word ≠ "=" := by
  cases operation with
  | comparison operator => cases operator <;> exact ⟨_, _, rfl, by decide, by decide⟩
  | binary operator =>
      cases operator with
      | arithmetic operator => cases operator <;> exact ⟨_, _, rfl, by decide, by decide⟩
      | _ => exact ⟨_, _, rfl, by decide, by decide⟩
  | _ => exact ⟨_, _, rfl, by decide, by decide⟩

/-- The words of an operation are taken for it. Only `is` needs a look at the token behind it. -/
theorem operationAt_tokens (h : operation = .comparison .is → stringAt rest 0 ≠ "not") :
    operationAt (operation.tokens ++ rest) = some operation := by
  cases operation with
  | comparison operator =>
      cases operator with
      | is =>
          have hwords : (Operation.comparison .is).tokens ++ rest = lexeme "is" :: rest := rfl
          rw [hwords]
          unfold operationAt
          rw [stringAt_cons_zero, stringAt_cons_one, string_lexeme]
          split
          next heq _ => exact absurd heq (by decide)
          next heq => exact absurd heq (h rfl)
          · rfl
      | _ => rfl
  | binary operator =>
      cases operator with
      | arithmetic operator => cases operator <;> rfl
      | _ => rfl
  | _ => rfl

/-- What may stand behind the tokens of a tree whose last operand takes operations of a precedence
from `bound` on. -/
structure Behind (bound : Nat) (tail : List CodeToken) : Prop where
  type : ∀ token ∈ tail.head?, token.type ≠ .string
  call : stringAt tail 0 ≠ "("
  keyword : stringAt tail 0 ≠ "="
  operation : ∀ operation, operationAt tail = some operation → operation.precedence < bound

theorem behind_nil : Behind bound [] where
  type _ h := by cases h
  call := by decide
  keyword := by decide
  operation _ h := by cases h

theorem Behind.mono (h : Behind bound tail) (hle : bound ≤ bound') : Behind bound' tail :=
  { h with operation := fun operation hop => (h.operation operation hop).trans_le hle }

/-- The delimiters that end an operand. -/
def closers : List String := [")", "]", "\x7d", ",", ":", "else"]

theorem behind_closer {text : String} (h : text ∈ closers) :
    Behind bound (lexeme text :: rest) := by
  simp only [closers, List.mem_cons, List.not_mem_nil, or_false] at h
  rcases h with rfl | rfl | rfl | rfl | rfl | rfl
  all_goals
    refine ⟨fun token htoken => ?_, by simp, by simp, fun operation hop => ?_⟩
    · cases htoken
      decide
    · cases hop

theorem behind_operation (h : operation.precedence < bound)
    (hnot : operation = .comparison .is → stringAt rest 0 ≠ "not") :
    Behind bound (operation.tokens ++ rest) := by
  have hat := operationAt_tokens hnot
  obtain ⟨word, words, hwords, hcall, hkeyword⟩ := words_cons operation
  rw [Operation.tokens, hwords, List.map_cons, List.cons_append] at hat ⊢
  refine ⟨fun token htoken => ?_, hcall, hkeyword, fun operation' hop => ?_⟩
  · cases htoken
    exact type_lexeme word
  · rw [hat] at hop
    cases hop
    exact h

end Tails

/-- The precedence from which on the last operand of a tree takes the operations behind it. -/
def Expression.bound : Expression → Nat
  | .unary operator _ => operator.precedence
  | .binary operator _ _ => rightMinimum operator
  | .comparison _ _ => 40
  | .conditional _ _ _ => 5
  | .filter _ _ _ _ | .attribute _ _ | .lookup _ _ | .literal _ | .variable _ | .collection _ _
  | .dictionary _ | .slice _ _ _ => 101

section Levels

variable {e : Expression} {operation : Operation}

theorem precedence_le_rightMinimum (operator : BinaryOperator) :
    (Operation.binary operator).precedence ≤ rightMinimum operator := by
  unfold rightMinimum
  split_ifs
  · exact Nat.le_refl _
  · exact Nat.le_succ _

theorem level_le_bound (e : Expression) : e.level ≤ e.bound := by
  cases e with
  | binary operator left right => exact precedence_le_rightMinimum operator
  | unary operator value => exact Nat.le_refl _
  | _ => simp [Expression.level, Expression.bound]

theorem precedence_le_leftMinimum (operation : Operation) :
    operation.precedence ≤ operation.leftMinimum := by
  cases operation with
  | binary operator =>
      cases operator with
      | arithmetic operator => cases operator <;> decide
      | _ => decide
  | _ => simp [Operation.precedence, Operation.leftMinimum]

/-- Where an operation is as strong as its left operand may be, it associates to the left. -/
theorem precedence_spec (operation : Operation) :
    operation.precedence ≤ 100 ∧ operation.precedence ≠ 35 ∧ operation.precedence ≠ 95 ∧
      (operation.precedence = 5 ∨ operation.precedence = 40 ∨ operation.precedence = 80 →
        operation.precedence < operation.leftMinimum) := by
  cases operation with
  | binary operator =>
      cases operator with
      | arithmetic operator => cases operator <;> decide
      | _ => decide
  | _ => simp [Operation.precedence, Operation.leftMinimum]

/-- A left operand without parentheses ends where its operation begins. -/
theorem lt_bound (h : operation.leftMinimum ≤ e.level) : operation.precedence < e.bound := by
  obtain ⟨hle, h35, h95, hright⟩ := precedence_spec operation
  have hlevel := (precedence_le_leftMinimum operation).trans h
  rcases hlevel.lt_or_eq with hlt | heq
  · exact hlt.trans_le (level_le_bound e)
  · rw [← heq] at h
    cases e with
    | unary operator value =>
        cases operator with
        | not => exact absurd heq h35
        | pos => exact absurd heq h95
        | neg => exact absurd heq h95
    | binary operator left right =>
        by_cases hpow : operator = .arithmetic .pow
        · rw [hpow] at heq
          exact absurd (hright (.inr (.inr heq))) (not_lt.mpr h)
        · rw [Expression.bound, rightMinimum, if_neg hpow, heq]
          exact Nat.lt_succ_self _
    | comparison first rest => exact absurd (hright (.inr (.inl heq))) (not_lt.mpr h)
    | conditional condition positive negative =>
        exact absurd (hright (.inl heq)) (not_lt.mpr h)
    | _ => exact Nat.lt_succ_of_le hle

end Levels

section Printed

variable {language : Language} {spelling : Constant → String} {wraps : Nat → Expression → Bool}

theorem printItems_eq (items : List Expression) :
    printItems spelling wraps items = items.map (operand spelling wraps 0) := by
  induction items with
  | nil => rw [printItems, List.map_nil]
  | cons item rest ih => rw [printItems, ih, List.map_cons, operand]

/-- A pair of a dictionary as tokens. -/
def pairTokens (spelling : Constant → String) (wraps : Nat → Expression → Bool)
    (p : Expression × Expression) : List CodeToken :=
  operand spelling wraps 0 p.1 ++ (lexeme ":" :: operand spelling wraps 0 p.2)

theorem printPairs_eq (items : List (Expression × Expression)) :
    printPairs spelling wraps items = items.map (pairTokens spelling wraps) := by
  induction items with
  | nil => rw [printPairs, List.map_nil]
  | cons item rest ih => rw [printPairs, ih, List.map_cons, pairTokens, operand, operand]

/-- A keyword argument as tokens. -/
def keywordTokens (spelling : Constant → String) (wraps : Nat → Expression → Bool)
    (p : String × Expression) : List CodeToken :=
  nameToken p.1 :: lexeme "=" :: operand spelling wraps 0 p.2

theorem printKeywords_eq (items : List (String × Expression)) :
    printKeywords spelling wraps items = items.map (keywordTokens spelling wraps) := by
  induction items with
  | nil => rw [printKeywords, List.map_nil]
  | cons item rest ih => rw [printKeywords, ih, List.map_cons, keywordTokens, operand]

theorem printChain_cons (operator : ComparisonOperator) (x : Expression)
    (rest : List (ComparisonOperator × Expression)) :
    printChain spelling wraps ((operator, x) :: rest) =
      (Operation.comparison operator).tokens ++
        (operand spelling wraps 41 x ++ printChain spelling wraps rest) := by
  rw [printChain, operand]

theorem length_le_printChain (spelling : Constant → String) (wraps : Nat → Expression → Bool)
    (rest : List (ComparisonOperator × Expression)) :
    rest.length ≤ (printChain spelling wraps rest).length := by
  induction rest with
  | nil => exact Nat.zero_le _
  | cons p rest ih =>
      obtain ⟨word, words, hwords, -, -⟩ := words_cons (.comparison p.1)
      rw [printChain_cons, Operation.tokens, hwords, List.map_cons, List.cons_append,
        List.length_cons, List.length_cons, List.length_append, List.length_append]
      omega

/-- What no operand starts with. -/
def stops : List String := "" :: "=" :: closers

/-- The tokens start like an operand of a position with a minimum, and no keyword argument. -/
structure Heads (minimum : Nat) (tokens : List CodeToken) : Prop where
  stop : stringAt tokens 0 ∉ stops
  not : 35 < minimum → stringAt tokens 0 ≠ "not"
  keyword : ∀ tail, stringAt tail 0 ≠ "=" → stringAt (tokens ++ tail) 1 ≠ "="

theorem Heads.ne_nil {minimum : Nat} {tokens : List CodeToken} (h : Heads minimum tokens) :
    tokens ≠ [] := by
  rintro rfl
  exact h.stop (by decide)

theorem Heads.ne {minimum : Nat} {tokens tail : List CodeToken} (h : Heads minimum tokens)
    {text : String} (htext : text ∈ stops) : stringAt (tokens ++ tail) 0 ≠ text := by
  obtain ⟨token, rest, rfl⟩ := List.exists_cons_of_ne_nil h.ne_nil
  rintro rfl
  exact h.stop htext

theorem Heads.append {minimum minimum' : Nat} {tokens tail : List CodeToken}
    (h : Heads minimum tokens) (hle : minimum' ≤ minimum) (htail : stringAt tail 0 ≠ "=") :
    Heads minimum' (tokens ++ tail) := by
  obtain ⟨token, rest, rfl⟩ := List.exists_cons_of_ne_nil h.ne_nil
  refine ⟨h.stop, fun hminimum => h.not (hminimum.trans_le hle), fun tail' htail' => ?_⟩
  rw [List.append_assoc]
  refine h.keyword (tail ++ tail') ?_
  cases tail with
  | nil => exact htail'
  | cons token tail => exact htail

/-- A token in front of something that is no keyword argument. -/
theorem heads_cons {minimum : Nat} {token : CodeToken} {rest : List CodeToken}
    (hstop : token.string ∉ stops) (hnot : 35 < minimum → token.string ≠ "not")
    (hrest : stringAt rest 0 ≠ "=") : Heads minimum (token :: rest) where
  stop := hstop
  not := hnot
  keyword tail htail := by
    rw [List.cons_append, stringAt_cons_one]
    cases rest with
    | nil => exact htail
    | cons token rest => exact hrest

variable (hwraps : ∀ minimum (e : Expression), e.level < minimum → wraps minimum e = true)
include hwraps

theorem le_level_of_bare {minimum : Nat} {e : Expression} (h : wraps minimum e = false) :
    minimum ≤ e.level := by
  by_contra hlt
  rw [hwraps minimum e (not_le.mp hlt)] at h
  cases h

theorem heads_operand {e : Expression} (h : Heads e.level (e.tokens spelling wraps))
    (minimum : Nat) : Heads minimum (operand spelling wraps minimum e) := by
  unfold operand parenthesized
  cases hwrap : wraps minimum e with
  | true => exact heads_cons (by decide) (fun _ => by decide) (h.ne (by decide))
  | false =>
      have hle := le_level_of_bare hwraps hwrap
      exact { h with not := fun hminimum => h.not (hminimum.trans_le hle) }

omit hwraps in
theorem separated_ne (items : List (List CodeToken)) {closing text : String} {rest : List CodeToken}
    (hitems : ∀ item ∈ items, Heads 0 item) (htext : text ∈ stops) (hclosing : closing ≠ text) :
    stringAt (separated items ++ lexeme closing :: rest) 0 ≠ text := by
  cases items with
  | nil => exact hclosing
  | cons item items =>
      rw [separated, List.append_assoc]
      exact (hitems item (by simp)).ne htext

omit hwraps in
theorem operation_ne (operation : Operation) (rest : List CodeToken) :
    stringAt (operation.tokens ++ rest) 0 ≠ "=" := by
  obtain ⟨word, words, hwords, -, hkeyword⟩ := words_cons operation
  rw [Operation.tokens, hwords]
  exact hkeyword

variable (hp : Printable language spelling)
include hp

omit hwraps in
theorem notMem_reserved_of_isPublic {name : String} (h : language.isPublic name = true) :
    name ∉ reserved := by
  unfold Language.isPublic at h
  rw [Bool.and_eq_true, Bool.and_eq_true] at h
  intro hmem
  rcases List.mem_append.mp hmem with hmem | hmem
  · exact hp.named name h.1.1 hmem
  · have hkeyword : keywords.contains name = true := by
      simp only [List.mem_cons, List.not_mem_nil, or_false] at hmem
      rcases hmem with rfl | rfl | rfl | rfl | rfl | rfl | rfl <;> decide
    rw [hkeyword] at h
    exact absurd h.1.2 (by decide)

omit hwraps hp in
theorem mem_reserved_of_mem_stops {text : String} (h : text ∈ stops) : text ∈ reserved := by
  have hall : ∀ text ∈ stops, text ∈ reserved := by decide
  exact hall text h

omit hwraps in
theorem literalToken_notMem {value : Constant} (h : IsLiteral language value) :
    (literalToken spelling value).string ∉ reserved := by
  have hspelled (value : Constant) (h : supported value = true) : spelling value ∉ reserved :=
    hp.spelled value h
  cases value with
  | none => exact (by decide : "None" ∉ reserved)
  | bool b =>
      cases b with
      | true => exact (by decide : "True" ∉ reserved)
      | false => exact (by decide : "False" ∉ reserved)
  | complex _ => cases h
  | int _ => exact hspelled _ rfl
  | float _ => exact hspelled _ rfl
  | str _ => exact hspelled _ rfl
  | bytes _ => exact hspelled _ rfl

omit hwraps hp in
theorem heads_of_notMem {minimum : Nat} {token : CodeToken} (h : token.string ∉ reserved) :
    Heads minimum [token] :=
  heads_cons (fun hstop => h (mem_reserved_of_mem_stops hstop))
    (fun _ hnot => h (by rw [hnot]; decide)) (by decide)

/-- The tokens of a tree start like an operand of its level. -/
theorem heads {e : Expression} (h : Wellformed language e) :
    Heads e.level (e.tokens spelling wraps) := by
  induction h with
  | literal hvalue =>
      rw [Expression.tokens]
      exact heads_of_notMem (literalToken_notMem hp hvalue)
  | «variable» hname hliteral =>
      rw [Expression.tokens]
      exact heads_of_notMem (notMem_reserved_of_isPublic hp hname)
  | @collection kind items hitems hset ih =>
      have hitem : ∀ item ∈ printItems spelling wraps items, Heads 0 item := by
        rw [printItems_eq]
        intro item hitem
        obtain ⟨x, hx, rfl⟩ := List.mem_map.mp hitem
        exact heads_operand hwraps (ih x hx) 0
      cases kind with
      | list =>
          rw [Expression.tokens]
          exact heads_cons (by decide) (fun _ => by decide)
            (separated_ne _ hitem (by decide) (by decide))
      | set =>
          rw [Expression.tokens]
          exact heads_cons (by decide) (fun _ => by decide)
            (separated_ne _ hitem (by decide) (by decide))
      | tuple =>
          rw [Expression.tokens]
          refine heads_cons (by decide) (fun _ => by decide) ?_
          split_ifs
          · exact separated_ne _ hitem (by decide) (by decide)
          · exact separated_ne _ hitem (by decide) (by decide)
  | @dictionary items hkeys hvalues ihkeys ihvalues =>
      have hitem : ∀ item ∈ printPairs spelling wraps items, Heads 0 item := by
        rw [printPairs_eq]
        intro item hitem
        obtain ⟨x, hx, rfl⟩ := List.mem_map.mp hitem
        exact (heads_operand hwraps (ihkeys x hx) 0).append (Nat.le_refl _) (by simp)
      rw [Expression.tokens]
      exact heads_cons (by decide) (fun _ => by decide)
        (separated_ne _ hitem (by decide) (by decide))
  | @unary operator value hvalue ih =>
      rw [Expression.tokens, ← operand]
      have hvalue := heads_operand hwraps ih operator.precedence
      have hne : stringAt (operand spelling wraps operator.precedence value) 0 ≠ "=" := by
        have hne : stringAt (operand spelling wraps operator.precedence value ++ []) 0 ≠ "=" :=
          hvalue.ne (by decide)
        rwa [List.append_nil] at hne
      cases operator with
      | not =>
          have hlevel : ¬35 < (Expression.unary .not value).level := Nat.lt_irrefl 35
          exact heads_cons (by decide) (fun h => absurd h hlevel) hne
      | pos => exact heads_cons (by decide) (fun _ => by decide) hne
      | neg => exact heads_cons (by decide) (fun _ => by decide) hne
  | @binary operator left right hleft hright ihleft ihright =>
      rw [Expression.tokens, ← operand]
      exact (heads_operand hwraps ihleft _).append (precedence_le_leftMinimum (.binary operator))
        (operation_ne _ _)
  | @comparison first rest hfirst hrest hnil ihfirst ihrest =>
      rw [Expression.tokens, ← operand]
      refine (heads_operand hwraps ihfirst 41).append (by simp [Expression.level]) ?_
      obtain ⟨⟨operator, x⟩, rest, rfl⟩ := List.exists_cons_of_ne_nil hnil
      rw [printChain]
      exact operation_ne _ _
  | @conditional condition positive negative _ _ _ _ ihpositive _ =>
      rw [Expression.tokens, ← operand]
      exact (heads_operand hwraps ihpositive 6).append (by simp [Expression.level])
        (operation_ne _ _)
  | @«attribute» value name hvalue hname ih =>
      rw [Expression.tokens, ← operand]
      exact (heads_operand hwraps ih 100).append (Nat.le_refl _) (operation_ne _ _)
  | @lookup value key hvalue hkey ih ihkey =>
      rw [Expression.tokens, ← operand]
      exact (heads_operand hwraps ih 100).append (Nat.le_refl _) (operation_ne _ _)
  | @slice value start stop step hvalue _ _ _ ih _ _ _ =>
      rw [Expression.tokens, ← operand]
      exact (heads_operand hwraps ih 100).append (Nat.le_refl _) (operation_ne _ _)
  | @filter name value arguments keywords _ _ hvalue _ _ _ _ ih _ _ =>
      rw [Expression.tokens, ← operand]
      exact (heads_operand hwraps ih 90).append (Nat.le_refl _) (operation_ne _ _)

end Printed

theorem Wellformed.isSlice {language : Language} {e : Expression} (h : Wellformed language e) :
    e.isSlice = false := by
  cases h <;> rfl

section Climb

variable {language : Language} {self : Nat → Parser Expression} {minimum fuel : Nat}
  {left left' result : Expression} {operation : Operation} {tokens mid tail rest : List CodeToken}

/-- The loop ends in front of an operation that is too weak. -/
theorem climb_stop (h : Behind minimum tail) (fuel : Nat) (left : Expression) :
    Parses (climb language self minimum fuel left) tail left tail := by
  unfold climb
  refine parses_get_bind fun joins => ?_
  cases hat : operationAt tail with
  | none => exact parses_pure _ _
  | some operation =>
      dsimp only
      rw [if_pos (h.operation operation hat)]
      exact parses_pure _ _

/-- One turn of the loop. -/
theorem climb_step (hat : operationAt (operation.tokens ++ mid) = some operation)
    (hle : minimum ≤ operation.precedence)
    (hright : Parses (infixed language self left operation) mid left' tail)
    (hnext : Parses (climb language self minimum fuel left') tail result rest) :
    Parses (climb language self minimum (fuel + 1) left) (operation.tokens ++ mid) result rest := by
  rw [climb.eq_def]
  refine parses_get_bind fun joins => ?_
  dsimp only
  rw [hat]
  dsimp only
  rw [if_neg (not_lt.mpr hle)]
  exact (parses_takeOperation operation).bind (hright.bind hnext)

end Climb

/-- In front of a tail that does not bind to its last operand, the tokens lead the parser on to
its loop with the tree as the left operand. -/
def Leads (language : Language) (limit : Nat) (e : Expression) (tokens : List CodeToken) : Prop :=
  ∀ ⦃minimum tail result rest⦄, minimum ≤ e.level → Behind e.bound tail →
    (∀ fuel, tail.length ≤ fuel →
      Parses (climb language (expression language limit) minimum fuel e) tail result rest) →
    Parses (expressionStep language (expression language limit) minimum) (tokens ++ tail) result
      rest

section Leads

variable {language : Language} {spelling : Constant → String} {wraps : Nat → Expression → Bool}
  {limit minimum bound : Nat} {e left : Expression} {tokens tail rest : List CodeToken}

theorem leads_of_primary (h : ∀ tail, Behind e.bound tail →
    Parses (primary language (expression language limit)) (tokens ++ tail) e tail) :
    Leads language limit e tokens := by
  intro minimum tail result rest _ hbehind hnext
  refine (h tail hbehind).bind (parses_get_bind fun joins => ?_)
  exact hnext tail.length (Nat.le_refl _)

/-- The parser leads on behind a tree with its tokens, with as many nested calls as tokens. -/
def Readable (language : Language) (spelling : Constant → String) (wraps : Nat → Expression → Bool)
    (e : Expression) : Prop :=
  ∀ limit, (e.tokens spelling wraps).length ≤ limit →
    Leads language limit e (e.tokens spelling wraps)

theorem Readable.parses (h : Readable language spelling wraps e)
    (hlimit : (e.tokens spelling wraps).length ≤ limit) (hle : minimum ≤ e.level)
    (hbound : Behind e.bound tail) (hbehind : Behind minimum tail) :
    Parses (expression language (limit + 1) minimum) (e.tokens spelling wraps ++ tail) e tail :=
  h limit hlimit hle hbound fun fuel _ => climb_stop hbehind fuel e

/-- Parentheses are read as what they hold. -/
theorem parses_parenthesis (h : Readable language spelling wraps e)
    (hheads : Heads e.level (e.tokens spelling wraps))
    (hlimit : (e.tokens spelling wraps).length + 1 ≤ limit) :
    Parses (primary language (expression language limit))
      (lexeme "(" :: (e.tokens spelling wraps ++ [lexeme ")"]) ++ tail) e tail := by
  obtain ⟨limit, rfl⟩ : ∃ n, limit = n + 1 := ⟨limit - 1, by omega⟩
  have hinner : Parses (expression language (limit + 1) 0)
      (e.tokens spelling wraps ++ lexeme ")" :: tail) e (lexeme ")" :: tail) :=
    h.parses (by omega) (Nat.zero_le _) (behind_closer (by decide)) (behind_closer (by decide))
  rw [List.cons_append, List.append_assoc, List.singleton_append]
  refine parses_take.bind ?_
  change Parses (parenthesis language (expression language (limit + 1))) _ _ _
  unfold parenthesis
  refine parses_peek_bind ?_
  rw [if_neg (hheads.ne (by decide))]
  refine hinner.bind (parses_peek_bind ?_)
  rw [if_neg (by simp)]
  exact (parses_expect (string_lexeme ")")).bind (parses_pure e tail)

variable (hwraps : ∀ minimum (e : Expression), e.level < minimum → wraps minimum e = true)
include hwraps

/-- An operand leads on like its tree, whether it has parentheses or not. -/
theorem operand_leads {position : Nat} {result : Expression}
    (h : Readable language spelling wraps e)
    (hheads : Heads e.level (e.tokens spelling wraps))
    (hlimit : (operand spelling wraps position e).length ≤ limit) (hle : minimum ≤ position)
    (hbehind : wraps position e = false → Behind e.bound tail)
    (hnext : ∀ fuel, tail.length ≤ fuel →
      Parses (climb language (expression language limit) minimum fuel e) tail result rest) :
    Parses (expressionStep language (expression language limit) minimum)
      (operand spelling wraps position e ++ tail) result rest := by
  unfold operand parenthesized at hlimit ⊢
  cases hwrap : wraps position e with
  | true =>
      rw [hwrap, if_pos rfl, List.length_cons, List.length_append, List.length_singleton] at hlimit
      rw [if_pos rfl]
      refine (parses_parenthesis h hheads (by omega)).bind (parses_get_bind fun joins => ?_)
      exact hnext tail.length (Nat.le_refl _)
  | false =>
      rw [hwrap, if_neg (by decide)] at hlimit
      rw [if_neg (by decide)]
      exact h limit hlimit (hle.trans (le_level_of_bare hwraps hwrap)) (hbehind hwrap) hnext

/-- An operand is read in front of a tail that is too weak for its position. -/
theorem operand_parses {position : Nat} (h : Readable language spelling wraps e)
    (hheads : Heads e.level (e.tokens spelling wraps))
    (hlimit : (operand spelling wraps position e).length < limit)
    (hbehind : Behind position tail) :
    Parses (expression language limit position) (operand spelling wraps position e ++ tail) e
      tail := by
  obtain ⟨limit, rfl⟩ : ∃ n, limit = n + 1 := ⟨limit - 1, by omega⟩
  refine operand_leads hwraps h hheads (by omega) (Nat.le_refl _) (fun hwrap => ?_)
    fun fuel _ => climb_stop hbehind fuel e
  exact hbehind.mono ((le_level_of_bare hwraps hwrap).trans (level_le_bound e))

/-- A tree that is an operation behind its left operand. -/
theorem leads_of_infixed (operation : Operation) {right : List CodeToken}
    (h : Readable language spelling wraps left)
    (hheads : Heads left.level (left.tokens spelling wraps))
    (hlevel : e.level = operation.precedence)
    (hlimit : (operand spelling wraps operation.leftMinimum left ++
      (operation.tokens ++ right)).length ≤ limit)
    (hnot : operation = .comparison .is → ∀ tail, stringAt (right ++ tail) 0 ≠ "not")
    (hright : ∀ tail, Behind e.bound tail →
      Parses (infixed language (expression language limit) left operation) (right ++ tail) e tail) :
    Leads language limit e
      (operand spelling wraps operation.leftMinimum left ++ (operation.tokens ++ right)) := by
  intro minimum tail result rest hminimum hbehind hnext
  rw [hlevel] at hminimum
  have hat : operationAt (operation.tokens ++ (right ++ tail)) = some operation :=
    operationAt_tokens fun his => hnot his tail
  rw [List.append_assoc, List.append_assoc]
  rw [List.length_append] at hlimit
  refine operand_leads hwraps h hheads (by omega)
    (hminimum.trans (precedence_le_leftMinimum operation)) (fun hwrap => ?_) fun fuel hfuel => ?_
  · exact behind_operation (lt_bound (le_level_of_bare hwraps hwrap)) fun his => hnot his tail
  · obtain ⟨word, words, hwords, -, -⟩ := words_cons operation
    have hlength : tail.length + 1 ≤ fuel := by
      refine le_trans ?_ hfuel
      rw [Operation.tokens, hwords, List.length_append, List.length_append, List.length_map,
        List.length_cons]
      omega
    obtain ⟨fuel, rfl⟩ : ∃ n, fuel = n + 1 := ⟨fuel - 1, by omega⟩
    exact climb_step hat hminimum (hright tail hbehind) (hnext fuel (by omega))

end Leads

section Sequences

variable {α : Type} {language : Language} {closing : String} {item : List α → Parser α}
  {print : α → List CodeToken} {tail : List CodeToken}

/-- Each item is read where it stands, and none of them looks like the end. -/
def Each (closing : String) (item : List α → Parser α) (print : α → List CodeToken) :
    List α → List α → Prop
  | _, [] => True
  | done, x :: xs =>
      (∀ tail, stringAt (print x ++ tail) 0 ≠ closing) ∧
        (∀ text ∈ closers, ∀ rest, Parses (item done) (print x ++ lexeme text :: rest) x
          (lexeme text :: rest)) ∧
        Each closing item print (done ++ [x]) xs

theorem each_of_forall {item : Parser α} {xs : List α}
    (hfirst : ∀ x ∈ xs, ∀ tail, stringAt (print x ++ tail) 0 ≠ closing)
    (hitem : ∀ x ∈ xs, ∀ text ∈ closers, ∀ rest,
      Parses item (print x ++ lexeme text :: rest) x (lexeme text :: rest)) (done : List α) :
    Each closing (fun _ => item) print done xs := by
  induction xs generalizing done with
  | nil => trivial
  | cons x xs ih =>
      rw [List.forall_mem_cons] at hfirst hitem
      exact ⟨hfirst.1, hitem.1, ih hfirst.2 hitem.2 _⟩

/-- An item is read in front of the other items. -/
theorem parses_item {β : Type} (hclosing : closing ∈ closers) {m : Parser β} {x : β}
    {tokens : List CodeToken}
    (h : ∀ text ∈ closers, ∀ rest,
      Parses m (tokens ++ lexeme text :: rest) x (lexeme text :: rest)) (xs : List α) :
    Parses m (tokens ++ (xs.flatMap (fun x => lexeme "," :: print x) ++ lexeme closing :: tail)) x
      (xs.flatMap (fun x => lexeme "," :: print x) ++ lexeme closing :: tail) := by
  cases xs with
  | nil => exact h closing hclosing tail
  | cons y ys =>
      rw [List.flatMap_cons, List.cons_append, List.cons_append]
      exact h "," (by decide) _

/-- The loop of `sequence` reads the items behind commas. -/
theorem parses_items (hclosing : closing ∈ closers) (hcomma : closing ≠ ",") (xs done : List α)
    (h : Each closing item print done xs) (fuel : Nat) (hfuel : xs.length ≤ fuel) :
    Parses (items closing item fuel done)
      (xs.flatMap (fun x => lexeme "," :: print x) ++ lexeme closing :: tail) (done ++ xs)
      (lexeme closing :: tail) := by
  induction xs generalizing done fuel with
  | nil =>
      rw [items.eq_def, List.append_nil]
      refine parses_peek_bind ?_
      rw [if_neg (by simpa using hcomma)]
      exact parses_pure _ _
  | cons x xs ih =>
      obtain ⟨hfirst, hitem, hrest⟩ := h
      obtain ⟨fuel, rfl⟩ : ∃ n, fuel = n + 1 := ⟨fuel - 1, by simp at hfuel; omega⟩
      rw [items.eq_def, List.flatMap_cons, List.cons_append, List.cons_append, List.append_assoc]
      refine parses_peek_bind ?_
      rw [stringAt_cons_zero, string_lexeme, if_pos rfl]
      refine parses_take.bind (parses_peek_bind ?_)
      rw [if_neg (hfirst _)]
      refine (parses_item hclosing hitem xs).bind ?_
      have hloop := ih (done ++ [x]) hrest fuel (by simpa using hfuel)
      rwa [List.append_assoc] at hloop

theorem length_le_flatMap (xs : List α) (rest : List CodeToken) :
    xs.length ≤ (xs.flatMap (fun x => lexeme "," :: print x) ++ rest).length := by
  induction xs with
  | nil => exact Nat.zero_le _
  | cons x xs ih =>
      rw [List.flatMap_cons, List.append_assoc, List.length_append, List.length_cons,
        List.length_cons]
      omega

theorem length_le_separated {items : List (List CodeToken)} {item : List CodeToken}
    (h : item ∈ items) : item.length ≤ (separated items).length := by
  cases items with
  | nil => cases h
  | cons first items =>
      rw [separated, List.length_append]
      rcases List.mem_cons.mp h with rfl | hmem
      · exact Nat.le_add_right _ _
      · have hsplit := List.append_of_mem hmem
        obtain ⟨before, after, rfl⟩ := hsplit
        rw [List.flatMap_append, List.flatMap_cons, List.length_append, List.length_append,
          List.length_cons]
        omega

theorem ne_empty_of_closer (hclosing : closing ∈ closers) : closing ≠ "" := by
  rintro rfl
  exact absurd hclosing (by decide)

/-- `sequence` behind its first items. -/
theorem parses_sequence (hclosing : closing ∈ closers) (hcomma : closing ≠ ",") {first : List α}
    (hne : first ≠ []) (xs : List α) (h : Each closing item print first xs) :
    Parses (sequence language closing item first)
      (xs.flatMap (fun x => lexeme "," :: print x) ++ lexeme closing :: tail) (first ++ xs)
      tail := by
  have hfirst (tokens : List CodeToken) :
      Parses (firstItems closing item first) tokens first tokens := by
    unfold firstItems
    rw [if_neg (by simpa using hne)]
    exact parses_pure _ _
  unfold Parser.sequence
  refine (hfirst _).bind (parses_get_bind fun joins => ?_)
  refine (parses_items hclosing hcomma xs first h _ (length_le_flatMap xs _)).bind ?_
  rw [if_pos (ne_empty_of_closer hclosing)]
  exact (parses_expect (string_lexeme closing)).bind (parses_pure _ _)

/-- `sequence` with a comma behind its first items and nothing else. -/
theorem parses_sequence_comma (hclosing : closing ∈ closers) {first : List α} (hne : first ≠ []) :
    Parses (sequence language closing item first) (lexeme "," :: lexeme closing :: tail) first
      tail := by
  have hfirst (tokens : List CodeToken) :
      Parses (firstItems closing item first) tokens first tokens := by
    unfold firstItems
    rw [if_neg (by simpa using hne)]
    exact parses_pure _ _
  have hitems (fuel : Nat) : Parses (items closing item (fuel + 1) first)
      (lexeme "," :: lexeme closing :: tail) first (lexeme closing :: tail) := by
    rw [items.eq_def]
    refine parses_peek_bind ?_
    rw [stringAt_cons_zero, string_lexeme, if_pos rfl]
    refine parses_take.bind (parses_peek_bind ?_)
    rw [stringAt_cons_zero, string_lexeme, if_pos rfl]
    exact parses_pure _ _
  unfold Parser.sequence
  refine (hfirst _).bind (parses_get_bind fun joins => (hitems _).bind ?_)
  rw [if_pos (ne_empty_of_closer hclosing)]
  exact (parses_expect (string_lexeme closing)).bind (parses_pure _ _)

theorem firstItems_nil (item : List α → Parser α) :
    firstItems closing item [] = (do
      if (← peek 0) ≠ closing then
        let next ← item []
        return [next]
      else
        return []) := rfl

/-- `sequence` from its start. -/
theorem parses_sequence_nil (hclosing : closing ∈ closers) (hcomma : closing ≠ ",") (xs : List α)
    (h : Each closing item print [] xs) :
    Parses (sequence language closing item []) (separated (xs.map print) ++ lexeme closing :: tail)
      xs tail := by
  unfold Parser.sequence
  cases xs with
  | nil =>
      have hfirst : Parses (firstItems closing item []) (lexeme closing :: tail) []
          (lexeme closing :: tail) := by
        rw [firstItems_nil]
        refine parses_peek_bind ?_
        rw [if_neg (by simp)]
        exact parses_pure _ _
      refine hfirst.bind (parses_get_bind fun joins => ?_)
      refine (parses_items hclosing hcomma [] [] h _ (Nat.zero_le _)).bind ?_
      rw [if_pos (ne_empty_of_closer hclosing)]
      exact (parses_expect (string_lexeme closing)).bind (parses_pure _ _)
  | cons x xs =>
      obtain ⟨hstart, hitem, hrest⟩ := h
      rw [List.map_cons, separated, List.flatMap_map, List.append_assoc]
      have hfirst : Parses (firstItems closing item [])
          (print x ++ (xs.flatMap (fun x => lexeme "," :: print x) ++ lexeme closing :: tail)) [x]
          (xs.flatMap (fun x => lexeme "," :: print x) ++ lexeme closing :: tail) := by
        rw [firstItems_nil]
        refine parses_peek_bind ?_
        rw [if_pos (hstart _)]
        exact (parses_item hclosing hitem xs).bind (parses_pure _ _)
      refine hfirst.bind (parses_get_bind fun joins => ?_)
      refine (parses_items hclosing hcomma xs [x] hrest _ (length_le_flatMap xs _)).bind ?_
      rw [if_pos (ne_empty_of_closer hclosing)]
      exact (parses_expect (string_lexeme closing)).bind (parses_pure _ _)

end Sequences

section Atoms

variable {language : Language} {spelling : Constant → String} {wraps : Nat → Expression → Bool}
  {text : String} {limit : Nat} {tail : List CodeToken} {token : CodeToken}

theorem prefixOperator_of_notMem (h : text ∉ reserved) : prefixOperator text = none := by
  unfold prefixOperator
  split
  · exact absurd (by decide) h
  · exact absurd (by decide) h
  · exact absurd (by decide) h
  · rfl

/-- A token that is no operator is read by itself. -/
theorem parses_primary (h : token.string ∉ reserved) {e : Expression}
    (hatom : Parses (if token.type = .number ∨ token.type = .string then literal language token
      else match literalName token.string with
        | some value => pure (.literal value)
        | none => do
            let name ← templateIdentifier language token.string
            return .variable name) tail e tail)
    (htype : token.type = .number ∨ token.type = .string ∨ token.type = .name) :
    Parses (primary language (expression language limit)) (token :: tail) e tail := by
  have hne (text : String) (hmem : text ∈ reserved) : token.string ≠ text :=
    fun heq => h (heq ▸ hmem)
  refine parses_take.bind ?_
  rw [prefixOperator_of_notMem h]
  dsimp only
  by_cases hliteral : token.type = .number ∨ token.type = .string
  · rw [if_pos hliteral] at hatom ⊢
    exact hatom
  · rw [if_neg hliteral] at hatom ⊢
    cases hname : literalName token.string with
    | some value =>
        rw [hname] at hatom
        exact hatom
    | none =>
        rw [hname] at hatom
        dsimp only at hatom ⊢
        rw [if_neg (hne _ (by decide)), if_neg (hne _ (by decide)), if_neg (hne _ (by decide)),
          if_pos ((htype.resolve_left fun h => hliteral (.inl h)).resolve_left fun h =>
            hliteral (.inr h))]
        exact hatom

theorem parses_strings {value : Constant} (h : ∀ token ∈ tail.head?, token.type ≠ .string)
    (fuel : Nat) : Parses (strings language fuel value) tail value tail := by
  rw [strings.eq_def]
  refine parses_get_bind fun joins => ?_
  cases tail with
  | nil => exact parses_pure _ _
  | cons token tail =>
      dsimp only
      rw [if_pos (h token rfl)]
      exact parses_pure _ _

/-- The token of a literal is read as the literal. -/
theorem parses_literal {value : Constant}
    (heval : language.literalEval token.string = .ok value) (hsupported : supported value = true)
    (h : ∀ token ∈ tail.head?, token.type ≠ .string) :
    Parses (literal language token) tail (.literal value) tail := by
  have hvalue : Parses (literalEval language token.string) tail value tail := by
    unfold literalEval
    rw [heval]
    exact parses_pure _ _
  unfold literal
  refine hvalue.bind ?_
  rw [if_pos hsupported]
  by_cases htype : token.type = .string
  · rw [if_pos htype]
    refine parses_get_bind fun joins => ?_
    exact (parses_strings h _).bind (parses_pure _ _)
  · rw [if_neg htype]
    exact parses_pure _ _

end Atoms

/-- A tree that the parser leads on behind, and that starts like an operand. -/
structure Fine (language : Language) (spelling : Constant → String)
    (wraps : Nat → Expression → Bool) (e : Expression) : Prop where
  readable : Readable language spelling wraps e
  heads : Heads e.level (e.tokens spelling wraps)

section Trees

variable {language : Language} {spelling : Constant → String} {wraps : Nat → Expression → Bool}
  {limit : Nat} {tail rest : List CodeToken} {e left right : Expression}
  (hp : Printable language spelling)
  (hwraps : ∀ minimum (e : Expression), e.level < minimum → wraps minimum e = true)

include hp in
theorem readable_literal {value : Constant} (h : IsLiteral language value) :
    Readable language spelling wraps (.literal value) := by
  intro limit _
  rw [Expression.tokens]
  refine leads_of_primary fun tail hbehind => ?_
  have hfresh := literalToken_notMem hp h
  have hspelled (value : Constant) (hvalue : IsLiteral language value)
      (hsupported : supported value = true) (token : CodeToken)
      (htype : token.type = .number ∨ token.type = .string)
      (hstring : token.string = spelling value) :
      Parses (primary language (expression language limit)) (token :: tail) (.literal value)
        tail := by
    have hnew : token.string ∉ reserved := hstring ▸ hp.spelled value hsupported
    refine parses_primary hnew ?_ (htype.imp id .inl)
    rw [if_pos htype]
    exact parses_literal (hstring ▸ hp.eval value hvalue hsupported) hsupported hbehind.type
  cases value with
  | none => exact parses_primary hfresh (parses_pure _ _) (.inr (.inr rfl))
  | bool b =>
      cases b with
      | true => exact parses_primary hfresh (parses_pure _ _) (.inr (.inr rfl))
      | false => exact parses_primary hfresh (parses_pure _ _) (.inr (.inr rfl))
  | complex _ => cases h
  | int _ => exact hspelled _ h rfl _ (.inl rfl) rfl
  | float _ => exact hspelled _ h rfl _ (.inl rfl) rfl
  | str _ => exact hspelled _ h rfl _ (.inr rfl) rfl
  | bytes _ => exact hspelled _ h rfl _ (.inr rfl) rfl

include hp in
theorem readable_variable {name : String} (hname : language.isPublic name = true)
    (hliteral : literalName name = none) :
    Readable language spelling wraps (.variable name) := by
  intro limit _
  rw [Expression.tokens]
  refine leads_of_primary fun tail _ => ?_
  refine parses_primary (notMem_reserved_of_isPublic hp hname) ?_ (.inr (.inr rfl))
  rw [if_neg (by simp [nameToken])]
  change Parses (match literalName name with
    | some value => pure (Expression.literal value)
    | none => do
        let name ← templateIdentifier language name
        return Expression.variable name) tail (Expression.variable name) tail
  rw [hliteral]
  exact (parses_templateIdentifier hname).bind (parses_pure _ _)

include hwraps

/-- An operand in front of a closing delimiter. -/
theorem Fine.closer (h : Fine language spelling wraps e) {position : Nat}
    (hlimit : (operand spelling wraps position e).length < limit) (text : String)
    (htext : text ∈ closers) (rest : List CodeToken) :
    Parses (expression language limit position)
      (operand spelling wraps position e ++ lexeme text :: rest) e (lexeme text :: rest) :=
  operand_parses hwraps h.readable h.heads hlimit (behind_closer htext)

theorem Fine.ne (h : Fine language spelling wraps e) (position : Nat) {text : String}
    (htext : text ∈ stops) (tail : List CodeToken) :
    stringAt (operand spelling wraps position e ++ tail) 0 ≠ text :=
  (heads_operand hwraps h.heads position).ne htext

theorem readable_unary {operator : UnaryOperator} (h : Fine language spelling wraps e) :
    Readable language spelling wraps (.unary operator e) := by
  intro limit hlimit
  rw [Expression.tokens, ← operand] at hlimit ⊢
  refine leads_of_primary fun tail hbehind => ?_
  have hunary : prefixOperator (lexeme operator.word).string = some operator := by
    cases operator <;> rfl
  refine parses_take.bind ?_
  rw [hunary]
  exact (operand_parses hwraps h.readable h.heads hlimit hbehind).bind (parses_pure _ _)

theorem readable_binary {operator : BinaryOperator} (hleft : Fine language spelling wraps left)
    (hright : Fine language spelling wraps right) :
    Readable language spelling wraps (.binary operator left right) := by
  intro limit hlimit
  rw [Expression.tokens, ← operand, ← operand] at hlimit ⊢
  have hlength : (operand spelling wraps (rightMinimum operator) right).length < limit := by
    obtain ⟨word, words, hwords, -, -⟩ := words_cons (.binary operator)
    rw [Operation.tokens, hwords, List.map_cons, List.cons_append, List.length_append,
      List.length_cons, List.length_append] at hlimit
    omega
  refine leads_of_infixed (e := .binary operator left right) hwraps (.binary operator)
    hleft.readable hleft.heads rfl hlimit (fun h => by cases h) fun tail hbehind => ?_
  exact (operand_parses hwraps hright.readable hright.heads hlength hbehind).bind
    (parses_pure _ _)

theorem readable_attribute {name : String} (h : Fine language spelling wraps e)
    (hname : language.isPublic name = true) :
    Readable language spelling wraps (.attribute e name) := by
  intro limit hlimit
  rw [Expression.tokens, ← operand] at hlimit ⊢
  refine leads_of_infixed (e := .attribute e name) hwraps .attribute h.readable h.heads rfl hlimit
    (fun h => by cases h) fun tail hbehind => ?_
  have htake : Parses (takeName language) (nameToken name :: tail) name tail :=
    parses_name hname
  exact htake.bind (parses_pure _ _)

theorem readable_conditional {condition positive negative : Expression}
    (hcondition : Fine language spelling wraps condition)
    (hpositive : Fine language spelling wraps positive)
    (hnegative : Fine language spelling wraps negative) :
    Readable language spelling wraps (.conditional condition positive negative) := by
  intro limit hlimit
  rw [Expression.tokens, ← operand, ← operand, ← operand] at hlimit ⊢
  have hlength : (operand spelling wraps 6 condition).length < limit ∧
      (operand spelling wraps 5 negative).length < limit := by
    rw [List.length_append, List.length_append, List.length_append, List.length_cons] at hlimit
    omega
  refine leads_of_infixed (e := .conditional condition positive negative) hwraps .conditional
    hpositive.readable hpositive.heads rfl hlimit (fun h => by cases h) fun tail hbehind => ?_
  rw [List.append_assoc]
  refine (hcondition.closer hwraps hlength.1 "else" (by decide) _).bind ?_
  refine (parses_expect (string_lexeme "else")).bind ?_
  exact (operand_parses hwraps hnegative.readable hnegative.heads hlength.2 hbehind).bind
    (parses_pure _ _)

/-- The operands of a chain are read up to an operation that is no comparison. -/
theorem parses_chain (operator : ComparisonOperator) (x : Expression)
    (rest : List (ComparisonOperator × Expression)) (hx : Fine language spelling wraps x)
    (hrest : ∀ p ∈ rest, Fine language spelling wraps p.2) (fuel : Nat)
    (hfuel : rest.length ≤ fuel)
    (hlimit : (operand spelling wraps 41 x ++ printChain spelling wraps rest).length < limit)
    (hbehind : Behind 40 tail) :
    Parses (chain language (expression language limit) fuel operator)
      (operand spelling wraps 41 x ++ (printChain spelling wraps rest ++ tail))
      ((operator, x) :: rest) tail := by
  rw [List.length_append] at hlimit
  induction rest generalizing operator x fuel with
  | nil =>
      rw [chain.eq_def, printChain, List.nil_append]
      refine (operand_parses hwraps hx.readable hx.heads (by omega) (hbehind.mono (by decide))).bind
        (parses_get_bind fun joins => ?_)
      cases hat : operationAt tail with
      | none => exact parses_pure _ _
      | some operation =>
          have hlt := hbehind.operation operation hat
          cases operation with
          | comparison next => exact absurd hlt (by simp [Operation.precedence])
          | _ => exact parses_pure _ _
  | cons p rest ih =>
      obtain ⟨next, y⟩ := p
      obtain ⟨fuel, rfl⟩ : ∃ n, fuel = n + 1 := ⟨fuel - 1, by simp at hfuel; omega⟩
      rw [List.forall_mem_cons] at hrest
      rw [printChain_cons] at hlimit ⊢
      rw [List.append_assoc, List.append_assoc, chain.eq_def]
      have hhead : stringAt (operand spelling wraps 41 y ++
          (printChain spelling wraps rest ++ tail)) 0 ≠ "not" := by
        have hheads := heads_operand hwraps hrest.1.heads 41
        obtain ⟨token, tokens, heq⟩ := List.exists_cons_of_ne_nil hheads.ne_nil
        rw [heq] at hheads ⊢
        exact hheads.not (by decide)
      have hat : operationAt ((Operation.comparison next).tokens ++
          (operand spelling wraps 41 y ++ (printChain spelling wraps rest ++ tail))) =
          some (.comparison next) := operationAt_tokens fun _ => hhead
      refine (operand_parses hwraps hx.readable hx.heads (by omega)
        (behind_operation (by simp [Operation.precedence]) fun _ => hhead)).bind
        (parses_get_bind fun joins => ?_)
      dsimp only
      rw [hat]
      dsimp only
      rw [List.length_append, List.length_append] at hlimit
      refine (parses_takeOperation (.comparison next)).bind ?_
      exact (ih next y hrest.1 hrest.2 fuel (by simpa using hfuel) (by omega)).bind
        (parses_pure _ _)

theorem readable_comparison {first : Expression} {rest : List (ComparisonOperator × Expression)}
    (hfirst : Fine language spelling wraps first)
    (hrest : ∀ p ∈ rest, Fine language spelling wraps p.2) (hnil : rest ≠ []) :
    Readable language spelling wraps (.comparison first rest) := by
  intro limit hlimit
  obtain ⟨⟨operator, x⟩, rest, rfl⟩ := List.exists_cons_of_ne_nil hnil
  rw [List.forall_mem_cons] at hrest
  rw [Expression.tokens, ← operand, printChain_cons] at hlimit ⊢
  have hlength :
      (operand spelling wraps 41 x ++ printChain spelling wraps rest).length < limit := by
    obtain ⟨word, words, hwords, -, -⟩ := words_cons (.comparison operator)
    rw [Operation.tokens, hwords, List.map_cons, List.cons_append, List.length_append,
      List.length_cons, List.length_append] at hlimit
    omega
  have hhead (tail : List CodeToken) :
      stringAt (operand spelling wraps 41 x ++ printChain spelling wraps rest ++ tail) 0 ≠
        "not" := by
    have hheads := heads_operand hwraps hrest.1.heads 41
    obtain ⟨token, tokens, heq⟩ := List.exists_cons_of_ne_nil hheads.ne_nil
    rw [heq] at hheads ⊢
    exact hheads.not (by decide)
  refine leads_of_infixed (e := .comparison first ((operator, x) :: rest)) hwraps
    (.comparison operator) hfirst.readable hfirst.heads rfl hlimit (fun _ => hhead)
    fun tail hbehind => ?_
  refine parses_get_bind fun joins => ?_
  have hfuel : rest.length ≤
      (operand spelling wraps 41 x ++ printChain spelling wraps rest ++ tail).length := by
    have hle := length_le_printChain spelling wraps rest
    rw [List.length_append, List.length_append]
    omega
  have hchain := parses_chain hwraps operator x rest hrest.1 hrest.2 _ hfuel hlength hbehind
  rw [← List.append_assoc] at hchain
  exact hchain.bind (parses_pure _ _)

omit hwraps in
theorem parses_part_none {self : Nat → Parser Expression} {absent : List String} {text : String}
    (habsent : text ∈ absent) :
    Parses (part self absent) (lexeme text :: rest) none (lexeme text :: rest) := by
  unfold part
  refine parses_peek_bind ?_
  rw [stringAt_cons_zero, string_lexeme, if_pos (List.contains_iff_mem.mpr habsent)]
  exact parses_pure _ _

/-- A part of a subscript that may be missing. -/
theorem parses_part {x : Option Expression} {absent : List String} {text : String}
    (hx : ∀ e ∈ x, Fine language spelling wraps e)
    (hlimit : (printPart spelling wraps x).length < limit) (hclosers : text ∈ closers)
    (habsent : text ∈ absent) (hstops : ∀ text ∈ absent, text ∈ stops) :
    Parses (part (expression language limit) absent)
      (printPart spelling wraps x ++ lexeme text :: rest) x (lexeme text :: rest) := by
  cases x with
  | none =>
      rw [printPart, List.nil_append]
      exact parses_part_none habsent
  | some e =>
      rw [printPart, ← operand] at hlimit ⊢
      have he := hx e rfl
      have hnot : ¬absent.contains
          (stringAt (operand spelling wraps 0 e ++ lexeme text :: rest) 0) = true := by
        rw [List.contains_iff_mem]
        exact fun hmem => he.ne hwraps 0 (hstops _ hmem) _ rfl
      unfold part
      refine parses_peek_bind ?_
      rw [if_neg hnot]
      exact (he.closer hwraps hlimit text hclosers rest).bind (parses_pure _ _)

theorem readable_lookup {value key : Expression} (hvalue : Fine language spelling wraps value)
    (hkey : Fine language spelling wraps key) (hslice : key.isSlice = false) :
    Readable language spelling wraps (.lookup value key) := by
  intro limit hlimit
  rw [Expression.tokens, hslice, Bool.not_false, Bool.and_true, ← operand, ← operand]
    at hlimit ⊢
  have hlength : (operand spelling wraps 0 key).length < limit := by
    rw [List.length_append, List.length_append, List.length_append, List.length_singleton]
      at hlimit
    omega
  refine leads_of_infixed (e := .lookup value key) hwraps .subscript hvalue.readable
    hvalue.heads rfl hlimit (fun h => by cases h) fun tail hbehind => ?_
  rw [List.append_assoc, List.singleton_append]
  have hpart : Parses (part (expression language limit) [":"])
      (operand spelling wraps 0 key ++ lexeme "]" :: tail) (some key) (lexeme "]" :: tail) := by
    unfold part
    refine parses_peek_bind ?_
    rw [if_neg (by simpa using hkey.ne hwraps 0 (by decide) _)]
    exact (hkey.closer hwraps hlength "]" (by decide) tail).bind (parses_pure _ _)
  change Parses (subscript language (expression language limit) value) _ _ _
  unfold subscript
  refine hpart.bind (parses_peek_bind ?_)
  rw [if_neg (by simp)]
  exact (parses_expect (string_lexeme "]")).bind (parses_pure _ _)

theorem readable_slice {value : Expression} {start stop step : Option Expression}
    (hvalue : Fine language spelling wraps value)
    (hstart : ∀ e ∈ start, Fine language spelling wraps e)
    (hstop : ∀ e ∈ stop, Fine language spelling wraps e)
    (hstep : ∀ e ∈ step, Fine language spelling wraps e) :
    Readable language spelling wraps (.lookup value (.slice start stop step)) := by
  intro limit hlimit
  have hkey : parenthesized (wraps 0 (.slice start stop step) && !(Expression.slice start stop
      step).isSlice) ((Expression.slice start stop step).tokens spelling wraps) =
      printPart spelling wraps start ++
        (lexeme ":" :: (printPart spelling wraps stop ++ printStep spelling wraps step)) := by
    rw [Expression.isSlice, Bool.not_true, Bool.and_false, parenthesized, if_neg (by decide),
      Expression.tokens]
  rw [Expression.tokens, hkey, ← operand] at hlimit ⊢
  have hlength : (printPart spelling wraps start).length < limit ∧
      (printPart spelling wraps stop).length < limit ∧
      (printStep spelling wraps step).length < limit := by
    simp only [List.length_append, List.length_cons, List.length_nil] at hlimit
    omega
  refine leads_of_infixed (e := .lookup value (.slice start stop step)) hwraps .subscript
    hvalue.readable hvalue.heads rfl hlimit (fun h => by cases h) fun tail hbehind => ?_
  rw [List.append_assoc, List.append_assoc, List.cons_append, List.append_assoc,
    List.singleton_append]
  change Parses (subscript language (expression language limit) value) _ _ _
  unfold subscript
  refine (parses_part hwraps hstart hlength.1 (by decide) (by decide) (by decide)).bind
    (parses_peek_bind ?_)
  rw [stringAt_cons_zero, string_lexeme, if_pos rfl]
  refine parses_take.bind ?_
  cases step with
  | none =>
      rw [printStep, List.nil_append]
      refine (parses_part hwraps hstop hlength.2.1 (by decide) (by decide) (by decide)).bind
        (parses_peek_bind ?_)
      rw [stringAt_cons_zero, string_lexeme, if_neg (by decide)]
      exact (parses_expect (string_lexeme "]")).bind (parses_pure _ _)
  | some e =>
      rw [printStep, List.length_cons, ← operand] at hlength
      rw [printStep, List.cons_append, ← operand]
      refine (parses_part hwraps hstop hlength.2.1 (by decide) (by decide) (by decide)).bind
        (parses_peek_bind ?_)
      rw [stringAt_cons_zero, string_lexeme, if_pos rfl]
      refine parses_take.bind ?_
      have hpart : Parses (part (expression language limit) ["]"])
          (operand spelling wraps 0 e ++ lexeme "]" :: tail) (some e) (lexeme "]" :: tail) := by
        have hprint : operand spelling wraps 0 e = printPart spelling wraps (some e) := by
          rw [printPart, operand]
        rw [hprint] at hlength ⊢
        exact parses_part hwraps hstep (by omega) (by decide) (by decide) (by decide)
      exact hpart.bind ((parses_expect (string_lexeme "]")).bind (parses_pure _ _))

/-- The operands of a collection are read one by one. -/
theorem each_operand {items : List Expression} (h : ∀ e ∈ items, Fine language spelling wraps e)
    (hlimit : (separated (items.map (operand spelling wraps 0))).length < limit)
    {closing : String} (hclosing : closing ∈ stops) {xs : List Expression}
    (hsub : ∀ x ∈ xs, x ∈ items) (done : List Expression) :
    Each closing (fun _ => expression language limit 0) (operand spelling wraps 0) done xs :=
  each_of_forall (fun x hx => (h x (hsub x hx)).ne hwraps 0 hclosing) (fun x hx text htext rest =>
    (h x (hsub x hx)).closer hwraps
      ((length_le_separated (List.mem_map_of_mem (hsub x hx))).trans_lt hlimit) text htext rest)
    done

theorem readable_list {items : List Expression} (h : ∀ e ∈ items, Fine language spelling wraps e) :
    Readable language spelling wraps (.collection .list items) := by
  intro limit hlimit
  rw [Expression.tokens, printItems_eq] at hlimit ⊢
  refine leads_of_primary fun tail _ => ?_
  have hlength : (separated (items.map (operand spelling wraps 0))).length < limit := by
    rw [List.length_cons, List.length_append] at hlimit
    omega
  rw [List.cons_append, List.append_assoc, List.singleton_append]
  refine parses_take.bind ?_
  change Parses (do
    let items ← sequence language "]" (fun _ => expression language limit 0) []
    return Expression.collection .list items) _ _ _
  exact (parses_sequence_nil (by decide) (by decide) items
    (each_operand hwraps h hlength (by decide) (fun _ => id) [])).bind (parses_pure _ _)

theorem readable_set {items : List Expression} (h : ∀ e ∈ items, Fine language spelling wraps e)
    (hne : items ≠ []) : Readable language spelling wraps (.collection .set items) := by
  intro limit hlimit
  obtain ⟨first, others, rfl⟩ := List.exists_cons_of_ne_nil hne
  rw [Expression.tokens, printItems_eq] at hlimit ⊢
  refine leads_of_primary fun tail _ => ?_
  have hlength : (separated ((first :: others).map (operand spelling wraps 0))).length < limit := by
    rw [List.length_cons, List.length_append] at hlimit
    omega
  have hfirst := h first (by simp)
  have hshort : (operand spelling wraps 0 first).length < limit :=
    (length_le_separated (by simp)).trans_lt hlength
  rw [List.map_cons, separated, List.flatMap_map, List.cons_append, List.append_assoc,
    List.append_assoc, List.singleton_append]
  refine parses_take.bind ?_
  change Parses (dictionaryOrSet language (expression language limit)) _ _ _
  unfold dictionaryOrSet
  refine parses_peek_bind ?_
  rw [if_neg (hfirst.ne hwraps 0 (by decide) _)]
  refine (parses_item (by decide) (hfirst.closer hwraps hshort) others).bind (parses_peek_bind ?_)
  have hcolon : stringAt (others.flatMap (fun e => lexeme "," :: operand spelling wraps 0 e) ++
      lexeme "\x7d" :: tail) 0 ≠ ":" := by
    cases others with
    | nil => exact (by decide : "\x7d" ≠ ":")
    | cons other others => exact (by decide : "," ≠ ":")
  rw [if_pos hcolon]
  exact (parses_sequence (by decide) (by decide) (by simp) others
    (each_operand hwraps h hlength (by decide) (fun x hx => List.mem_cons_of_mem _ hx)
      [first])).bind (parses_pure _ _)

theorem readable_tuple {items : List Expression} (h : ∀ e ∈ items, Fine language spelling wraps e) :
    Readable language spelling wraps (.collection .tuple items) := by
  intro limit hlimit
  rw [Expression.tokens, printItems_eq] at hlimit ⊢
  refine leads_of_primary fun tail _ => ?_
  have hlength : (separated (items.map (operand spelling wraps 0))).length < limit := by
    rw [List.length_cons, List.length_append] at hlimit
    omega
  rw [List.cons_append]
  refine parses_take.bind ?_
  change Parses (parenthesis language (expression language limit)) _ _ _
  unfold parenthesis
  cases items with
  | nil => exact parses_peek_bind (parses_take.bind (parses_pure _ _))
  | cons first others =>
      have hfirst := h first (by simp)
      have hshort : (operand spelling wraps 0 first).length < limit :=
        (length_le_separated (by simp)).trans_lt hlength
      rw [List.map_cons, separated, List.flatMap_map, List.append_assoc, List.append_assoc]
      refine parses_peek_bind ?_
      rw [if_neg (hfirst.ne hwraps 0 (by decide) _)]
      cases others with
      | nil =>
          refine (hfirst.closer hwraps hshort "," (by decide) _).bind (parses_peek_bind ?_)
          rw [stringAt_cons_zero, string_lexeme, if_pos rfl]
          exact (parses_sequence_comma (by decide) (by simp)).bind (parses_pure _ _)
      | cons other others =>
          have hcomma : stringAt ((other :: others).flatMap (fun e =>
              lexeme "," :: operand spelling wraps 0 e) ++ lexeme ")" :: tail) 0 = "," := rfl
          rw [if_neg (by simp), List.nil_append, List.singleton_append]
          refine (parses_item (by decide) (hfirst.closer hwraps hshort) (other :: others)).bind
            (parses_peek_bind ?_)
          rw [if_pos hcomma]
          exact (parses_sequence (by decide) (by decide) (by simp) (other :: others)
            (each_operand hwraps h hlength (by decide) (fun x hx => List.mem_cons_of_mem _ hx)
              [first])).bind (parses_pure _ _)

theorem readable_dictionary {items : List (Expression × Expression)}
    (hkeys : ∀ p ∈ items, Fine language spelling wraps p.1)
    (hvalues : ∀ p ∈ items, Fine language spelling wraps p.2) :
    Readable language spelling wraps (.dictionary items) := by
  intro limit hlimit
  rw [Expression.tokens, printPairs_eq] at hlimit ⊢
  refine leads_of_primary fun tail _ => ?_
  have hlength : (separated (items.map (pairTokens spelling wraps))).length < limit := by
    rw [List.length_cons, List.length_append] at hlimit
    omega
  have hshort (p : Expression × Expression) (hmem : p ∈ items) :
      (operand spelling wraps 0 p.1).length < limit ∧
        (operand spelling wraps 0 p.2).length < limit := by
    have hle := (length_le_separated (List.mem_map_of_mem hmem)).trans_lt hlength
    rw [pairTokens, List.length_append, List.length_cons] at hle
    omega
  have hpair (p : Expression × Expression) (hmem : p ∈ items) (text : String)
      (htext : text ∈ closers) (rest : List CodeToken) :
      Parses (pair language (expression language limit))
        (pairTokens spelling wraps p ++ lexeme text :: rest) p (lexeme text :: rest) := by
    rw [pairTokens, List.append_assoc, List.cons_append]
    refine ((hkeys p hmem).closer hwraps (hshort p hmem).1 ":" (by decide) _).bind ?_
    refine (parses_expect (string_lexeme ":")).bind ?_
    exact ((hvalues p hmem).closer hwraps (hshort p hmem).2 text htext rest).bind
      (parses_pure _ _)
  have heach (xs done : List (Expression × Expression)) (hsub : ∀ x ∈ xs, x ∈ items) :
      Each "\x7d" (fun _ => pair language (expression language limit)) (pairTokens spelling wraps)
        done xs := by
    refine each_of_forall (fun p hmem tail => ?_) (fun p hmem => hpair p (hsub p hmem)) done
    rw [pairTokens, List.append_assoc]
    exact (hkeys p (hsub p hmem)).ne hwraps 0 (by decide) _
  rw [List.cons_append]
  refine parses_take.bind ?_
  change Parses (dictionaryOrSet language (expression language limit)) _ _ _
  unfold dictionaryOrSet
  cases items with
  | nil => exact parses_peek_bind (parses_take.bind (parses_pure _ _))
  | cons first others =>
      have hfirst := hkeys first (by simp)
      rw [List.map_cons, separated, List.flatMap_map, List.append_assoc, List.append_assoc,
        pairTokens, List.append_assoc, List.cons_append, List.singleton_append]
      refine parses_peek_bind ?_
      rw [if_neg (hfirst.ne hwraps 0 (by decide) _)]
      refine (hfirst.closer hwraps (hshort first (by simp)).1 ":" (by decide) _).bind
        (parses_peek_bind ?_)
      rw [stringAt_cons_zero, string_lexeme, if_neg (by simp)]
      refine (parses_expect (string_lexeme ":")).bind ?_
      refine (parses_item (by decide) ((hvalues first (by simp)).closer hwraps
        (hshort first (by simp)).2) others).bind ?_
      exact (parses_sequence (by decide) (by decide) (by simp) others
        (heach others [first] fun x hx => List.mem_cons_of_mem _ hx)).bind (parses_pure _ _)

/-- An argument of a filter as tokens. -/
def argumentTokens (spelling : Constant → String) (wraps : Nat → Expression → Bool) :
    Argument → List CodeToken
  | .positional value => operand spelling wraps 0 value
  | .keyword name value => keywordTokens spelling wraps (name, value)

/-- The arguments of a filter as the parser reads them. -/
def callArguments (arguments : List Expression) (keywords : List (String × Expression)) :
    List Argument :=
  arguments.map Argument.positional ++ keywords.map fun p => Argument.keyword p.1 p.2

omit hwraps in
theorem callArguments_tokens (arguments : List Expression)
    (keywords : List (String × Expression)) :
    (callArguments arguments keywords).map (argumentTokens spelling wraps) =
      printItems spelling wraps arguments ++ printKeywords spelling wraps keywords := by
  rw [callArguments, List.map_append, List.map_map, List.map_map, printItems_eq, printKeywords_eq]
  rfl

omit hwraps in
theorem callArguments_value (arguments : List Expression)
    (keywords : List (String × Expression)) :
    (callArguments arguments keywords).filterMap Argument.value? = arguments := by
  rw [callArguments, List.filterMap_append, List.filterMap_map, List.filterMap_map]
  have hleft : arguments.filterMap (Argument.value? ∘ Argument.positional) = arguments :=
    List.filterMap_some
  have hright : keywords.filterMap (Argument.value? ∘ fun p => Argument.keyword p.1 p.2) = [] :=
    List.filterMap_eq_nil_iff.mpr fun p _ => rfl
  rw [hleft, hright, List.append_nil]

omit hwraps in
theorem callArguments_keyword (arguments : List Expression)
    (keywords : List (String × Expression)) :
    (callArguments arguments keywords).filterMap Argument.keyword? = keywords := by
  rw [callArguments, List.filterMap_append, List.filterMap_map, List.filterMap_map]
  have hleft : arguments.filterMap (Argument.keyword? ∘ Argument.positional) = [] :=
    List.filterMap_eq_nil_iff.mpr fun e _ => rfl
  have hright : keywords.filterMap (Argument.keyword? ∘ fun p => Argument.keyword p.1 p.2) =
      keywords := List.filterMap_some
  rw [hleft, hright, List.nil_append]

/-- The values come before the keywords, so each of them is read as a value. -/
theorem each_positional {xs : List Expression} (h : ∀ e ∈ xs, Fine language spelling wraps e)
    (hlimit : ∀ e ∈ xs, (operand spelling wraps 0 e).length < limit) (done : List Argument)
    (hdone : done.filterMap Argument.keyword? = []) :
    Each ")" (argument language (expression language limit)) (argumentTokens spelling wraps) done
      (xs.map Argument.positional) := by
  induction xs generalizing done with
  | nil => trivial
  | cons x xs ih =>
      rw [List.forall_mem_cons] at h hlimit
      refine ⟨h.1.ne hwraps 0 (by decide), fun text htext rest => ?_,
        ih h.2 hlimit.2 _ (by simpa [Argument.keyword?] using hdone)⟩
      have hkeyword : stringAt (operand spelling wraps 0 x ++ lexeme text :: rest) 1 ≠ "=" := by
        refine (heads_operand hwraps h.1.heads 0).keyword _ ?_
        rw [stringAt_cons_zero, string_lexeme]
        exact fun heq => absurd htext (heq ▸ by decide)
      refine parses_peek_bind ?_
      rw [argumentTokens, if_neg hkeyword, if_pos hdone]
      exact (h.1.closer hwraps hlimit.1 text htext rest).bind (parses_pure _ _)

/-- No name of a keyword argument occurs twice. -/
theorem each_keyword {xs : List (String × Expression)}
    (h : ∀ p ∈ xs, Fine language spelling wraps p.2)
    (hnames : ∀ p ∈ xs, language.isPublic p.1 = true) (hp : Printable language spelling)
    (hlimit : ∀ p ∈ xs, (operand spelling wraps 0 p.2).length < limit) (done : List Argument)
    (hnodup : ((done.filterMap Argument.keyword? ++ xs).map (·.1)).Nodup) :
    Each ")" (argument language (expression language limit)) (argumentTokens spelling wraps) done
      (xs.map fun p => Argument.keyword p.1 p.2) := by
  induction xs generalizing done with
  | nil => trivial
  | cons x xs ih =>
      rw [List.forall_mem_cons] at h hnames hlimit
      have hnext : ((done ++ [Argument.keyword x.1 x.2]).filterMap Argument.keyword? ++ xs) =
          done.filterMap Argument.keyword? ++ x :: xs := by
        simp [Argument.keyword?]
      have hfresh : x.1 ∉ (done.filterMap Argument.keyword?).map (·.1) := by
        rw [List.map_append, List.map_cons] at hnodup
        exact fun hmem => (List.nodup_append.mp hnodup).2.2 _ hmem _ List.mem_cons_self rfl
      refine ⟨fun tail heq => ?_, fun text htext rest => ?_,
        ih h.2 hnames.2 hlimit.2 _ (hnext ▸ hnodup)⟩
      · have hstring : x.1 = ")" := heq
        exact notMem_reserved_of_isPublic hp hnames.1 (by rw [hstring]; decide)
      · have hequal : stringAt (argumentTokens spelling wraps (.keyword x.1 x.2) ++
            lexeme text :: rest) 1 = "=" := rfl
        refine parses_peek_bind ?_
        rw [if_pos hequal]
        refine (parses_name hnames.1).bind ?_
        rw [if_neg hfresh]
        refine (parses_expect (string_lexeme "=")).bind ?_
        exact (h.1.closer hwraps hlimit.1 text htext rest).bind (parses_pure _ _)

omit hwraps in
theorem each_append {α : Type} {closing : String} {item : List α → Parser α}
    {print : α → List CodeToken} {done xs ys : List α} (h : Each closing item print done xs)
    (h' : Each closing item print (done ++ xs) ys) : Each closing item print done (xs ++ ys) := by
  induction xs generalizing done with
  | nil => rwa [List.append_nil] at h'
  | cons x xs ih =>
      obtain ⟨hfirst, hitem, hrest⟩ := h
      exact ⟨hfirst, hitem, ih hrest (by rwa [List.append_assoc])⟩

theorem readable_filter {name : String} {value : Expression} {arguments : List Expression}
    {keywords : List (String × Expression)} (hp : Printable language spelling)
    (hname : language.isPublic name = true) (hfilter : language.filters name = true)
    (hvalue : Fine language spelling wraps value)
    (harguments : ∀ e ∈ arguments, Fine language spelling wraps e)
    (hnames : ∀ p ∈ keywords, language.isPublic p.1 = true)
    (hkeywords : ∀ p ∈ keywords, Fine language spelling wraps p.2)
    (hnodup : (keywords.map (·.1)).Nodup) :
    Readable language spelling wraps (.filter name value arguments keywords) := by
  intro limit hlimit
  rw [Expression.tokens, ← callArguments_tokens, ← operand] at hlimit ⊢
  refine leads_of_infixed (e := .filter name value arguments keywords) hwraps .filter
    hvalue.readable hvalue.heads rfl hlimit (fun h => by cases h) fun tail hbehind => ?_
  change Parses (filterCall language (expression language limit) value) _ _ _
  unfold filterCall
  rw [List.cons_append]
  refine (parses_name hname).bind ?_
  rw [if_pos hfilter]
  refine parses_peek_bind ?_
  by_cases hempty : (arguments.isEmpty && keywords.isEmpty) = true
  · rw [if_pos hempty, List.nil_append, if_neg hbehind.call]
    rw [Bool.and_eq_true, List.isEmpty_iff, List.isEmpty_iff] at hempty
    obtain ⟨rfl, rfl⟩ := hempty
    exact parses_pure _ _
  · rw [if_neg hempty] at hlimit
    rw [if_neg hempty, List.cons_append, List.append_assoc, List.singleton_append,
      stringAt_cons_zero, string_lexeme, if_pos rfl]
    refine parses_take.bind ?_
    have hlength (x : Argument) (hx : x ∈ callArguments arguments keywords) :
        (argumentTokens spelling wraps x).length < limit := by
      have hle := length_le_separated
        (List.mem_map_of_mem (f := argumentTokens spelling wraps) hx)
      simp only [List.length_append, List.length_cons] at hlimit
      omega
    have heach : Each ")" (argument language (expression language limit))
        (argumentTokens spelling wraps) [] (callArguments arguments keywords) := by
      refine each_append (each_positional hwraps harguments (fun e he => ?_) [] rfl)
        (each_keyword hwraps hkeywords hnames hp (fun p hmem => ?_) _ ?_)
      · exact hlength (.positional e) (List.mem_append_left _ (List.mem_map_of_mem he))
      · have hle := hlength (.keyword p.1 p.2)
          (List.mem_append_right _
            (List.mem_map_of_mem (f := fun p => Argument.keyword p.1 p.2) hmem))
        rw [argumentTokens, keywordTokens, List.length_cons, List.length_cons] at hle
        dsimp only at hle
        omega
      · have hnone := callArguments_keyword arguments []
        rw [callArguments, List.map_nil, List.append_nil] at hnone
        rw [List.nil_append, hnone, List.nil_append]
        exact hnodup
    refine (parses_sequence_nil (by decide) (by decide) _ heach).bind ?_
    rw [callArguments_value, callArguments_keyword]
    exact parses_pure _ _

/-- Every tree that the parser builds is read back behind its tokens. -/
theorem fine {e : Expression} (hp : Printable language spelling) (h : Wellformed language e) :
    Fine language spelling wraps e := by
  refine ⟨?_, heads hwraps hp h⟩
  induction h with
  | literal hvalue => exact readable_literal hp hvalue
  | «variable» hname hliteral => exact readable_variable hp hname hliteral
  | @collection kind items hitems hset ih =>
      have hfine : ∀ e ∈ items, Fine language spelling wraps e :=
        fun e he => ⟨ih e he, heads hwraps hp (hitems e he)⟩
      cases kind with
      | list => exact readable_list hwraps hfine
      | set => exact readable_set hwraps hfine (hset rfl)
      | tuple => exact readable_tuple hwraps hfine
  | dictionary hkeys hvalues ihkeys ihvalues =>
      exact readable_dictionary hwraps
        (fun p hmem => ⟨ihkeys p hmem, heads hwraps hp (hkeys p hmem)⟩)
        (fun p hmem => ⟨ihvalues p hmem, heads hwraps hp (hvalues p hmem)⟩)
  | unary hvalue ih => exact readable_unary hwraps ⟨ih, heads hwraps hp hvalue⟩
  | binary hleft hright ihleft ihright =>
      exact readable_binary hwraps ⟨ihleft, heads hwraps hp hleft⟩
        ⟨ihright, heads hwraps hp hright⟩
  | comparison hfirst hrest hnil ihfirst ihrest =>
      exact readable_comparison hwraps ⟨ihfirst, heads hwraps hp hfirst⟩
        (fun p hmem => ⟨ihrest p hmem, heads hwraps hp (hrest p hmem)⟩) hnil
  | conditional hcondition hpositive hnegative ihcondition ihpositive ihnegative =>
      exact readable_conditional hwraps ⟨ihcondition, heads hwraps hp hcondition⟩
        ⟨ihpositive, heads hwraps hp hpositive⟩ ⟨ihnegative, heads hwraps hp hnegative⟩
  | «attribute» hvalue hname ih =>
      exact readable_attribute hwraps ⟨ih, heads hwraps hp hvalue⟩ hname
  | lookup hvalue hkey ih ihkey =>
      exact readable_lookup hwraps ⟨ih, heads hwraps hp hvalue⟩ ⟨ihkey, heads hwraps hp hkey⟩
        hkey.isSlice
  | slice hvalue hstart hstop hstep ih ihstart ihstop ihstep =>
      exact readable_slice hwraps ⟨ih, heads hwraps hp hvalue⟩
        (fun e he => ⟨ihstart e he, heads hwraps hp (hstart e he)⟩)
        (fun e he => ⟨ihstop e he, heads hwraps hp (hstop e he)⟩)
        (fun e he => ⟨ihstep e he, heads hwraps hp (hstep e he)⟩)
  | filter hname hfilter hvalue harguments hnames hkeywords hnodup ih iharguments ihkeywords =>
      exact readable_filter hwraps hp hname hfilter ⟨ih, heads hwraps hp hvalue⟩
        (fun e he => ⟨iharguments e he, heads hwraps hp (harguments e he)⟩) hnames
        (fun p hmem => ⟨ihkeywords p hmem, heads hwraps hp (hkeywords p hmem)⟩) hnodup

/-- A tag with nothing but the tokens of a tree is the tree. -/
theorem parses_parse {e : Expression} (hp : Printable language spelling)
    (h : Wellformed language e) (hlimit : (e.tokens spelling wraps).length < limit)
    (started : Bool) : Parses (parse language limit started) (e.tokens spelling wraps) e [] := by
  obtain ⟨limit, rfl⟩ : ∃ n, limit = n + 1 := ⟨limit - 1, by omega⟩
  have hfine := fine hwraps hp h
  have htree : Parses (expression language (limit + 1) 0) (e.tokens spelling wraps ++ []) e [] :=
    hfine.readable.parses (Nat.le_of_lt_succ hlimit) (Nat.zero_le _) behind_nil behind_nil
  have hstart : stringAt (e.tokens spelling wraps ++ []) 0 ≠ "" := hfine.heads.ne (by decide)
  rw [List.append_nil] at htree hstart
  have hfinish : Parses (finish language) [] PUnit.unit [] := by
    unfold finish
    refine parses_peek_bind ?_
    rw [if_neg (by decide), if_neg (by decide)]
    exact parses_pure _ _
  unfold parse
  refine parses_peek_bind ?_
  rw [if_neg hstart]
  refine htree.bind (parses_peek_bind ?_)
  rw [if_neg (by decide)]
  exact hfinish.bind (parses_pure _ _)

end Trees

/-- Parentheses around the operands that need them, or around all operands, make no difference.
Every tree that the parser returns is returned again for its printed tokens. -/
theorem parse_tokens {language : Language} {spelling : Constant → String} {e : Expression}
    (hp : Printable language spelling)
    (h : ∃ limit started tokens s, (parse language limit started).run ⟨tokens, []⟩ = .ok e s)
    (started : Bool) (limit : Nat) :
    ((e.tokens spelling needed).length < limit →
        (parse language limit started).run ⟨e.tokens spelling needed, []⟩ = .ok e ⟨[], []⟩) ∧
      ((e.tokens spelling every).length < limit →
        (parse language limit started).run ⟨e.tokens spelling every, []⟩ = .ok e ⟨[], []⟩) := by
  have hwell : Wellformed language e := by
    obtain ⟨limit, started, tokens, s, hrun⟩ := h
    have htakes : Takes 0 (Wellformed language) (parse language limit started) :=
      takes_parse limit started
    have hparse := htakes ⟨tokens, []⟩ fun _ hpair => absurd hpair List.not_mem_nil
    unfold Outcome.Ensures at hparse
    rw [hrun] at hparse
    exact hparse.1
  constructor
  · intro hlimit
    exact parses_parse (fun minimum e hlt => decide_eq_true hlt) hp hwell hlimit started []
  · intro hlimit
    exact parses_parse (fun _ _ _ => rfl) hp hwell hlimit started []

def quote : Char := '\x27'

/-- The value of a text, of bytes or of a number with one digit. -/
def quotedValue : List Char → Except LiteralError Constant
  | [] => .error (.syntaxError "invalid syntax")
  | c :: rest =>
      if c = quote then
        .ok (.str (String.ofList rest.dropLast))
      else if c = 'b' then
        .ok (.bytes (rest.tail.dropLast.map fun c => UInt8.ofNat c.toNat))
      else if c = '2' ∧ rest = [] then
        .ok (.int 2)
      else
        .error (.syntaxError "invalid syntax")

/-- A language with texts, bytes and one number, in which every word is an identifier. -/
def quotedLanguage : Language where
  isIdentifier word := !word.toList.isEmpty && word.toList.all Char.isAlpha
  repr word := word
  literalEval text := quotedValue text.toList
  filters word := word = "first"

def quotedSpelling : Constant → String
  | .str value => String.ofList (quote :: (value.toList ++ [quote]))
  | .bytes value =>
      String.ofList ('b' :: quote :: (value.map (fun b => Char.ofNat b.toNat) ++ [quote]))
  | _ => "2"

theorem toNat_byte (b : UInt8) : UInt8.ofNat (Char.ofNat b.toNat).toNat = b := by
  have hvalid : b.toNat.isValidChar := .inl (b.toNat_lt.trans (by decide))
  have hchar : (Char.ofNat b.toNat).toNat = b.toNat := by
    unfold Char.ofNat
    rw [dif_pos hvalid]
    rfl
  rw [hchar, UInt8.ofNat_toNat]

theorem quotedValue_str (value : List Char) :
    quotedValue (quote :: (value ++ [quote])) = .ok (.str (String.ofList value)) := by
  rw [quotedValue, if_pos rfl, List.dropLast_concat]

theorem quotedValue_bytes (value : List UInt8) :
    quotedValue ('b' :: quote :: (value.map (fun b => Char.ofNat b.toNat) ++ [quote])) =
      .ok (.bytes value) := by
  have hbytes : (value.map (fun b => Char.ofNat b.toNat)).map
      (fun c => UInt8.ofNat c.toNat) = value := by
    rw [List.map_map]
    exact List.map_id'' toNat_byte value
  rw [quotedValue, if_neg (by decide), if_pos rfl, List.tail_cons, List.dropLast_concat, hbytes]

/-- The only number is 2. -/
theorem quotedValue_number {chars : List Char} {value : Constant}
    (h : quotedValue chars = .ok value) :
    (∃ text, value = .str text) ∨ (∃ bytes, value = .bytes bytes) ∨ value = .int 2 := by
  unfold quotedValue at h
  split at h
  · cases h
  · split_ifs at h
    · cases h
      exact .inl ⟨_, rfl⟩
    · cases h
      exact .inr (.inl ⟨_, rfl⟩)
    · cases h
      exact .inr (.inr rfl)

theorem quoted_printable : Printable quotedLanguage quotedSpelling where
  eval value h hsupported := by
    cases value with
    | str value =>
        have hvalue := quotedValue_str value.toList
        rw [String.ofList_toList] at hvalue
        change quotedValue (String.ofList _).toList = _
        rw [String.toList_ofList]
        exact hvalue
    | bytes value =>
        change quotedValue (String.ofList _).toList = _
        rw [String.toList_ofList]
        exact quotedValue_bytes value
    | int value =>
        obtain ⟨text, htext⟩ := h
        rcases quotedValue_number htext with ⟨_, h⟩ | ⟨_, h⟩ | h
        · cases h
        · cases h
        · cases h
          rfl
    | float value =>
        obtain ⟨text, htext⟩ := h
        rcases quotedValue_number htext with ⟨_, h⟩ | ⟨_, h⟩ | h <;> cases h
    | none => cases hsupported
    | bool value => cases hsupported
    | complex value => cases hsupported
  spelled value _ hmem := by
    have hhead : ∀ text ∈ reserved, text.toList.head? ≠ some quote ∧
        text.toList.head? ≠ some 'b' := by
      decide
    have hfirst := hhead _ hmem
    cases value with
    | str value =>
        rw [quotedSpelling, String.toList_ofList] at hfirst
        exact hfirst.1 rfl
    | bytes value =>
        rw [quotedSpelling, String.toList_ofList] at hfirst
        exact hfirst.2 rfl
    | _ => exact absurd hmem (by change ¬"2" ∈ reserved; decide)
  named name hname hmem := by
    have hall : ∀ text ∈ symbols, quotedLanguage.isIdentifier text = false := by decide
    rw [hall name hmem] at hname
    cases hname

/-- `(x if not a < b else -c ** 2)|first('s', k=d[2:])`. -/
def quotedTree : Expression :=
  .filter "first"
    (.conditional (.unary .not (.comparison (.variable "a") [(.lt, .variable "b")])) (.variable "x")
      (.binary (.arithmetic .pow) (.unary .neg (.variable "c")) (.literal (.int 2))))
    [.literal (.str "s")]
    [("k", .lookup (.variable "d") (.slice (some (.literal (.int 2))) none none))]

theorem quotedTree_wellformed : Wellformed quotedLanguage quotedTree := by
  have hnumber : Wellformed quotedLanguage (.literal (.int 2)) := .literal ⟨"2", by decide⟩
  have hcondition : Wellformed quotedLanguage
      (.unary .not (.comparison (.variable "a") [(.lt, .variable "b")])) := by
    refine .unary (.comparison (.variable (by decide) rfl) (fun p hmem => ?_)
      (List.cons_ne_nil _ _))
    rw [List.mem_singleton.mp hmem]
    exact .variable (by decide) rfl
  have hslice : Wellformed quotedLanguage
      (.lookup (.variable "d") (.slice (some (.literal (.int 2))) none none)) := by
    refine .slice (.variable (by decide) rfl) (fun e he => ?_) (fun e he => ?_) (fun e he => ?_)
    · cases he
      exact hnumber
    · cases he
    · cases he
  refine .filter (by decide) (by decide) (.conditional hcondition (.variable (by decide) rfl)
    (.binary (.unary (.variable (by decide) rfl)) hnumber)) (fun e he => ?_) (fun p hmem => ?_)
    (fun p hmem => ?_) (by decide)
  · rw [List.mem_singleton.mp he]
    exact .literal trivial
  · rw [List.mem_singleton.mp hmem]
    decide
  · rw [List.mem_singleton.mp hmem]
    exact hslice

theorem parse_tokens_quoted :
    (parse quotedLanguage 70 false).run ⟨quotedTree.tokens quotedSpelling needed, []⟩ =
        .ok quotedTree ⟨[], []⟩ ∧
      (parse quotedLanguage 70 false).run ⟨quotedTree.tokens quotedSpelling every, []⟩ =
        .ok quotedTree ⟨[], []⟩ := by
  have hrun : Parses (parse quotedLanguage 70 false) (quotedTree.tokens quotedSpelling needed)
      quotedTree [] :=
    parses_parse (fun minimum e hlt => decide_eq_true hlt) quoted_printable quotedTree_wellformed
      (by decide) false
  have h := parse_tokens quoted_printable ⟨70, false, _, _, hrun []⟩ false 70
  exact ⟨h.1 (by decide), h.2 (by decide)⟩

end Templates

end Rmote
