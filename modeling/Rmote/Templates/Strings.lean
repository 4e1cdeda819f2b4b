import Rmote.Templates.Wellformed

/-!
# Adjacent string literals

The parser joins string literals that stand next to each other, with the `+=` of Python. A text
and bytes cannot be added. In a tag that has no text next to bytes the parser only adds literals
of one kind.
-/

namespace Rmote

namespace Templates

open Outcome

section Strings

variable {language : Language}

/-- No two adjacent string literals are a text and bytes. -/
def OneKind (language : Language) (tokens : List CodeToken) : Prop :=
  ∀ first second rest, first :: second :: rest <:+ tokens →
    first.type = .string → second.type = .string → ∀ value other,
      language.literalEval first.string = .ok value →
      language.literalEval second.string = .ok other → SameKind (value, other)

theorem OneKind.suffix {tokens rest : List CodeToken} (h : OneKind language tokens)
    (hrest : rest <:+ tokens) : OneKind language rest :=
  fun first second after hafter => h first second after (hafter.trans hrest)

/-- What is left of a tag has one kind of adjacent strings, and one kind was joined. -/
def Clean (language : Language) (s : Cursor) : Prop :=
  OneKind language s.rest ∧ AllSameKind s.joins

theorem sameKind_iff {value other : Constant} : SameKind (value, other) ↔
    (∃ a b, value = .str a ∧ other = .str b) ∨ ∃ a b, value = .bytes a ∧ other = .bytes b := by
  cases value <;> cases other <;> simp [SameKind, Constant.add]

theorem SameKind.symm {value other : Constant} (h : SameKind (value, other)) :
    SameKind (other, value) := by
  rw [sameKind_iff] at h ⊢
  rcases h with ⟨a, b, ha, hb⟩ | ⟨a, b, ha, hb⟩
  · exact .inl ⟨b, a, hb, ha⟩
  · exact .inr ⟨b, a, hb, ha⟩

theorem SameKind.trans {value other third : Constant} (h : SameKind (value, other))
    (h' : SameKind (other, third)) : SameKind (value, third) := by
  rw [sameKind_iff] at h h' ⊢
  rcases h with ⟨a, b, ha, hb⟩ | ⟨a, b, ha, hb⟩ <;> subst hb
  · obtain ⟨-, c, -, hc⟩ | ⟨_, _, hc, -⟩ := h'
    · exact .inl ⟨a, c, ha, hc⟩
    · cases hc
  · obtain ⟨_, _, hc, -⟩ | ⟨-, c, -, hc⟩ := h'
    · cases hc
    · exact .inr ⟨a, c, ha, hc⟩

/-- The sum of two literals is of their kind. -/
theorem sameKind_of_add {value other result : Constant} (h : value.add other = some result) :
    SameKind (other, result) := by
  unfold Constant.add at h
  split at h <;> cases h <;> rfl

theorem keeps_peek_bind {α : Type} {distance : Nat} {f : String → Parser α}
    (h : ∀ text, Keeps (Clean language) (f text)) :
    Keeps (Clean language) (Parser.peek distance >>= f) :=
  fun s hs => h _ s hs

theorem keeps_take : Keeps (Clean language) Parser.take := by
  intro s hs
  unfold Parser.take
  apply ensures_get_bind
  cases hrest : s.rest with
  | nil => exact ensures_throw hs
  | cons token rest => exact ⟨hs.1.suffix (hrest ▸ List.suffix_cons token rest), hs.2⟩

theorem keeps_expect (expected : String) :
    Keeps (Clean language) (Parser.expect language expected) := by
  intro s hs
  unfold Parser.expect
  apply ensures_get_bind
  cases hrest : s.rest with
  | nil => exact ensures_throw hs
  | cons token rest =>
      dsimp only
      split
      · exact ensures_throw hs
      · exact ⟨hs.1.suffix (hrest ▸ List.suffix_cons token rest), hs.2⟩

theorem keeps_templateIdentifier (value : String) :
    Keeps (Clean language) (Parser.templateIdentifier language value) := by
  unfold Parser.templateIdentifier
  split
  · exact keeps_pure _
  · exact keeps_throw _

theorem keeps_takeName : Keeps (Clean language) (Parser.takeName language) :=
  keeps_take.bind fun token => keeps_templateIdentifier token.string

theorem keeps_items {α : Type} {closing : String} {item : List α → Parser α}
    (hitem : ∀ done, Keeps (Clean language) (item done)) (fuel : Nat) (done : List α) :
    Keeps (Clean language) (Parser.items closing item fuel done) := by
  induction fuel generalizing done with
  | zero =>
      unfold Parser.items
      apply keeps_peek_bind
      intro text
      split
      · exact keeps_throw _
      · exact keeps_pure _
  | succ fuel ih =>
      unfold Parser.items
      apply keeps_peek_bind
      intro text
      split
      · apply keeps_take.bind
        intro _
        apply keeps_peek_bind
        intro text
        split
        · exact keeps_pure _
        · exact (hitem done).bind fun next => ih _
      · exact keeps_pure _

theorem keeps_sequence {α : Type} {closing : String} {item : List α → Parser α}
    (hitem : ∀ done, Keeps (Clean language) (item done)) (first : List α) :
    Keeps (Clean language) (Parser.sequence language closing item first) := by
  have hfirst : Keeps (Clean language) (Parser.firstItems closing item first) := by
    unfold Parser.firstItems
    split
    · apply keeps_peek_bind
      intro text
      split
      · exact (hitem []).bind fun next => keeps_pure _
      · exact keeps_pure _
    · exact keeps_pure _
  unfold Parser.sequence
  apply hfirst.bind
  intro done
  apply keeps_get_bind
  intro s
  apply (keeps_items hitem _ done).bind
  intro result
  split
  · exact (keeps_expect closing).bind fun _ => keeps_pure _
  · exact keeps_pure _

theorem ensures_take_cons {s : Cursor} {token : CodeToken} {rest : List CodeToken}
    (hrest : s.rest = token :: rest) {E : PythonError → Cursor → Prop} :
    Ensures Parser.take s (fun taken t => taken = token ∧ t = { s with rest := rest }) E := by
  unfold Parser.take
  apply ensures_get_bind
  rw [hrest]
  exact ⟨rfl, rfl⟩

theorem ensures_literalEval (text : String) (s : Cursor) :
    Ensures (Parser.literalEval language text) s
      (fun value t => language.literalEval text = .ok value ∧ t = s) fun _ t => t = s := by
  unfold Parser.literalEval
  cases h : language.literalEval text with
  | ok value => exact ensures_pure ⟨rfl, rfl⟩
  | error e => cases e <;> exact ensures_throw rfl

theorem ensures_join {value other : Constant} (h : SameKind (value, other)) (s : Cursor)
    {E : PythonError → Cursor → Prop} :
    Ensures (Parser.join value other) s
      (fun result t => value.add other = some result ∧
        t = { s with joins := s.joins ++ [(value, other)] }) E := by
  obtain ⟨result, hresult⟩ := Option.isSome_iff_exists.mp h
  unfold Parser.join
  rw [hresult]
  exact ⟨rfl, rfl⟩

/-- A string that comes next is of the kind of the value. -/
def FollowedByKind (language : Language) (value : Constant) (tokens : List CodeToken) : Prop :=
  ∀ token rest, tokens = token :: rest → token.type = .string → ∀ other,
    language.literalEval token.string = .ok other → SameKind (value, other)

/-- The value of a string is followed by its kind, as the string was. -/
theorem OneKind.followedByKind {token : CodeToken} {rest : List CodeToken} {value other : Constant}
    (h : OneKind language (token :: rest)) (htype : token.type = .string)
    (heval : language.literalEval token.string = .ok other) (hsame : SameKind (value, other)) :
    FollowedByKind language value rest := by
  rintro next after rfl hnext third hthird
  exact hsame.trans (h token next after (List.suffix_refl _) htype hnext other third heval hthird)

theorem clean_strings (fuel : Nat) (value : Constant) (s : Cursor) (hs : Clean language s)
    (hfollows : FollowedByKind language value s.rest) :
    Ensures (Parser.strings language fuel value) s (fun _ => Clean language)
      fun _ => Clean language := by
  induction fuel generalizing value s with
  | zero =>
      unfold Parser.strings
      apply ensures_get_bind
      cases hrest : s.rest with
      | nil => exact ensures_pure hs
      | cons token rest =>
          dsimp only
          split
          · exact ensures_pure hs
          · exact ensures_throw hs
  | succ fuel ih =>
      unfold Parser.strings
      apply ensures_get_bind
      cases hrest : s.rest with
      | nil => exact ensures_pure hs
      | cons token rest =>
          have hkind : OneKind language (token :: rest) := hrest ▸ hs.1
          dsimp only
          split
          · exact ensures_pure hs
          · rename_i htype
            rw [not_not] at htype
            apply (ensures_take_cons hrest).bind
            rintro _ _ ⟨rfl, rfl⟩
            have hclean : Clean language { s with rest := rest } :=
              ⟨hkind.suffix (List.suffix_cons _ rest), hs.2⟩
            apply ((ensures_literalEval _ _).mono (fun _ _ => id) ?_).bind
            · rintro other _ ⟨hother, rfl⟩
              have hsame := hfollows _ rest hrest htype other hother
              apply (ensures_join hsame _).bind
              rintro result _ ⟨hresult, rfl⟩
              apply ih result
              · refine ⟨hclean.1, ?_⟩
                intro pair hpair
                rcases List.mem_append.mp hpair with hpair | hpair
                · exact hs.2 pair hpair
                · rw [List.mem_singleton.mp hpair]
                  exact hsame
              · exact hkind.followedByKind htype hother (sameKind_of_add hresult).symm
            · rintro e _ rfl
              exact hclean

/-- A literal that was taken, with the strings after it. -/
theorem clean_literal {s : Cursor} {token : CodeToken} {rest : List CodeToken}
    (hs : Clean language s) (hrest : s.rest = token :: rest) :
    Ensures (Parser.literal language token) { s with rest := rest } (fun _ => Clean language)
      fun _ => Clean language := by
  have hkind : OneKind language (token :: rest) := hrest ▸ hs.1
  have hclean : Clean language { s with rest := rest } :=
    ⟨hkind.suffix (List.suffix_cons _ rest), hs.2⟩
  unfold Parser.literal
  apply ((ensures_literalEval _ _).mono (fun _ _ => id) ?_).bind
  · rintro value _ ⟨hvalue, rfl⟩
    by_cases hsupported : Parser.supported value = true
    · rw [if_pos hsupported]
      by_cases htype : token.type = .string
      · rw [if_pos htype]
        apply ensures_get_bind
        refine (clean_strings _ value _ hclean ?_).bind fun _ _ ht => ensures_pure ht
        rintro next after hafter hnext other hother
        exact hkind token next after (hafter ▸ List.suffix_refl _) htype hnext value other
          hvalue hother
      · rw [if_neg htype]
        exact ensures_pure hclean
    · rw [if_neg hsupported]
      exact ensures_throw hclean
  · rintro e _ rfl
    exact hclean

theorem keeps_takeOperation (operation : Operation) :
    Keeps (Clean language) (Parser.takeOperation language operation) := by
  unfold Parser.takeOperation
  induction operation.words with
  | nil => exact keeps_pure _
  | cons word words ih => exact (keeps_expect word).bind fun _ => ih

section Methods

variable {self : Nat → Parser Expression} (hself : ∀ minimum, Keeps (Clean language) (self minimum))
include hself

theorem keeps_pair : Keeps (Clean language) (Parser.pair language self) := by
  apply (hself 0).bind
  intro key
  apply (keeps_expect ":").bind
  intro _
  exact (hself 0).bind fun value => keeps_pure _

theorem keeps_dictionaryOrSet : Keeps (Clean language) (Parser.dictionaryOrSet language self) := by
  apply keeps_peek_bind
  intro text
  split
  · exact keeps_take.bind fun _ => keeps_pure _
  · apply (hself 0).bind
    intro first
    apply keeps_peek_bind
    intro text
    split
    · exact (keeps_sequence (fun _ => hself 0) [first]).bind fun items => keeps_pure _
    · apply (keeps_expect ":").bind
      intro _
      apply (hself 0).bind
      intro value
      exact (keeps_sequence (fun _ => keeps_pair hself) _).bind fun items => keeps_pure _

theorem keeps_parenthesis : Keeps (Clean language) (Parser.parenthesis language self) := by
  apply keeps_peek_bind
  intro text
  split
  · exact keeps_take.bind fun _ => keeps_pure _
  · apply (hself 0).bind
    intro first
    apply keeps_peek_bind
    intro text
    split
    · exact (keeps_sequence (fun _ => hself 0) [first]).bind fun items => keeps_pure _
    · exact (keeps_expect ")").bind fun _ => keeps_pure _

theorem keeps_primary : Keeps (Clean language) (Parser.primary language self) := by
  intro s hs
  cases hrest : s.rest with
  | nil =>
      have htake : Ensures Parser.take s (fun _ _ => False) fun _ => Clean language := by
        unfold Parser.take
        apply ensures_get_bind
        rw [hrest]
        exact ensures_throw hs
      exact htake.bind fun _ _ h => h.elim
  | cons token rest =>
      have hclean : Clean language { s with rest := rest } :=
        ⟨hs.1.suffix (hrest ▸ List.suffix_cons token rest), hs.2⟩
      apply (ensures_take_cons hrest).bind
      rintro _ _ ⟨rfl, rfl⟩
      split
      · exact ((hself _).bind fun value => keeps_pure _) _ hclean
      · split
        · exact clean_literal hs hrest
        · split
          · exact ensures_pure hclean
          · split
            · exact keeps_parenthesis hself _ hclean
            · split
              · exact ((keeps_sequence (fun _ => hself 0) []).bind fun items => keeps_pure _) _ hclean
              · split
                · exact keeps_dictionaryOrSet hself _ hclean
                · split
                  · exact ((keeps_templateIdentifier _).bind fun name => keeps_pure _) _ hclean
                  · exact ensures_throw hclean

theorem keeps_part (absent : List String) :
    Keeps (Clean language) (Parser.part self absent) := by
  apply keeps_peek_bind
  intro text
  split
  · exact keeps_pure _
  · exact (hself 0).bind fun value => keeps_pure _

theorem keeps_subscript (left : Expression) :
    Keeps (Clean language) (Parser.subscript language self left) := by
  apply (keeps_part hself _).bind
  intro start
  apply keeps_peek_bind
  intro text
  split
  · apply keeps_take.bind
    intro _
    apply (keeps_part hself _).bind
    intro stop
    apply keeps_peek_bind
    intro text
    split
    · apply keeps_take.bind
      intro _
      apply (keeps_part hself _).bind
      intro step
      exact (keeps_expect "]").bind fun _ => keeps_pure _
    · exact (keeps_expect "]").bind fun _ => keeps_pure _
  · cases start with
    | none => exact keeps_throw _
    | some key => exact (keeps_expect "]").bind fun _ => keeps_pure _

theorem keeps_argument (done : List Parser.Argument) :
    Keeps (Clean language) (Parser.argument language self done) := by
  apply keeps_peek_bind
  intro text
  split
  · apply keeps_takeName.bind
    intro key
    split
    · exact keeps_throw _
    · apply (keeps_expect "=").bind
      intro _
      exact (hself 0).bind fun value => keeps_pure _
  · split
    · exact (hself 0).bind fun value => keeps_pure _
    · exact keeps_throw _

theorem keeps_filterCall (left : Expression) :
    Keeps (Clean language) (Parser.filterCall language self left) := by
  apply keeps_takeName.bind
  intro name
  split
  · apply keeps_peek_bind
    intro text
    split
    · apply keeps_take.bind
      intro _
      exact (keeps_sequence (keeps_argument hself) []).bind fun arguments => keeps_pure _
    · exact keeps_pure _
  · exact keeps_throw _

theorem keeps_chain (fuel : Nat) (operator : ComparisonOperator) :
    Keeps (Clean language) (Parser.chain language self fuel operator) := by
  induction fuel generalizing operator with
  | zero =>
      unfold Parser.chain
      apply (hself 41).bind
      intro operand
      apply keeps_get_bind
      intro s
      split
      · exact keeps_throw _
      · exact keeps_pure _
  | succ fuel ih =>
      unfold Parser.chain
      apply (hself 41).bind
      intro operand
      apply keeps_get_bind
      intro s
      split
      · apply (keeps_takeOperation _).bind
        intro _
        exact (ih _).bind fun rest => keeps_pure _
      · exact keeps_pure _

theorem keeps_infixed (left : Expression) (operation : Operation) :
    Keeps (Clean language) (Parser.infixed language self left operation) := by
  cases operation with
  | «attribute» => exact keeps_takeName.bind fun name => keeps_pure _
  | subscript => exact keeps_subscript hself left
  | filter => exact keeps_filterCall hself left
  | conditional =>
      apply (hself 6).bind
      intro condition
      apply (keeps_expect "else").bind
      intro _
      exact (hself 5).bind fun negative => keeps_pure _
  | comparison operator =>
      apply keeps_get_bind
      intro s
      exact (keeps_chain hself _ operator).bind fun rest => keeps_pure _
  | binary operator => exact (hself _).bind fun right => keeps_pure _

theorem keeps_climb (minimum fuel : Nat) (left : Expression) :
    Keeps (Clean language) (Parser.climb language self minimum fuel left) := by
  induction fuel generalizing left with
  | zero =>
      unfold Parser.climb
      apply keeps_get_bind
      intro s
      split
      · exact keeps_pure _
      · split
        · exact keeps_pure _
        · exact keeps_throw _
  | succ fuel ih =>
      unfold Parser.climb
      apply keeps_get_bind
      intro s
      split
      · exact keeps_pure _
      · split
        · exact keeps_pure _
        · apply (keeps_takeOperation _).bind
          intro _
          exact (keeps_infixed hself left _).bind ih

end Methods

theorem keeps_expression (limit minimum : Nat) :
    Keeps (Clean language) (Parser.expression language limit minimum) := by
  induction limit generalizing minimum with
  | zero => exact keeps_throw _
  | succ limit ih =>
      apply (keeps_primary ih).bind
      intro left
      apply keeps_get_bind
      intro s
      exact keeps_climb ih minimum _ left

theorem keeps_finish : Keeps (Clean language) (Parser.finish language) := by
  apply keeps_peek_bind
  intro text
  split
  · exact keeps_throw _
  · split
    · exact keeps_throw _
    · exact keeps_pure _

theorem keeps_parse (limit : Nat) (started : Bool) :
    Keeps (Clean language) (Parser.parse language limit started) := by
  apply keeps_peek_bind
  intro text
  split
  · exact keeps_throw _
  · apply (keeps_expression limit 0).bind
    intro first
    apply keeps_peek_bind
    intro text
    split
    · apply (keeps_sequence (fun _ => keeps_expression limit 0) [first]).bind
      intro items
      exact keeps_finish.bind fun _ => keeps_pure _
    · exact keeps_finish.bind fun _ => keeps_pure _

theorem keeps_targetNames (closing : String) :
    Keeps (Clean language) (Parser.targetNames language closing) := by
  apply keeps_takeName.bind
  intro name
  apply keeps_peek_bind
  intro text
  exact (keeps_sequence (fun _ => keeps_takeName) [name]).bind fun names => keeps_pure _

theorem keeps_header (limit : Nat) (stop : String) :
    Keeps (Clean language) (Parser.header language limit stop) := by
  have htarget : Keeps (Clean language) (Parser.target language stop) := by
    apply keeps_peek_bind
    intro text
    split
    · apply keeps_take.bind
      intro _
      apply (keeps_targetNames ")").bind
      intro result
      exact (keeps_expect stop).bind fun _ => keeps_pure _
    · exact keeps_targetNames stop
  apply htarget.bind
  intro names
  exact (keeps_parse limit true).bind fun value => keeps_pure _

end Strings

end Templates

end Rmote
