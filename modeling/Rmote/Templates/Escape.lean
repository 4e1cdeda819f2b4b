import Rmote.Templates.TemplateParser
import Rmote.Templates.Render

/-!
# Writing a text as a template

A backslash in front of an opening delimiter makes it text. `escapeText` puts one in front of
every opening delimiter of a text, from the left to the right, and the lexer takes them away
again: the source is a single text token, and the program writes the text.
-/

namespace Rmote

namespace Templates

open RenderContext

/-- The text with a backslash in front of every opening delimiter. -/
def escapeText : List Char → List Char
  | a :: b :: rest =>
      if (TagKind.ofOpening [a, b]).isSome then '\\' :: a :: b :: escapeText rest
      else a :: escapeText (b :: rest)
  | [a] => [a]
  | [] => []

example : escapeText "a\x7b\x7b\x7b% \\\x7b#".toList =
    "a\\\x7b\x7b\\\x7b% \\\\\x7b#".toList := by decide

theorem escapeText_cons_cons (a b : Char) (rest : List Char) : escapeText (a :: b :: rest) =
    if (TagKind.ofOpening [a, b]).isSome then '\\' :: a :: b :: escapeText rest
    else a :: escapeText (b :: rest) := rfl

/-- There are three opening delimiters. -/
theorem ofOpening_eq_none {l : List Char} (h : ∀ c ∈ ['\x7b', '%', '#'], l ≠ ['\x7b', c]) :
    TagKind.ofOpening l = none := by
  unfold TagKind.ofOpening
  split <;> simp_all

theorem ofOpening_backslash (l : List Char) : TagKind.ofOpening ('\\' :: l) = none :=
  ofOpening_eq_none fun _ _ h => absurd (List.cons.inj h).1 (by decide)

/-- A backslash is no part of a delimiter. -/
theorem ofOpening_then_backslash (a : Char) : TagKind.ofOpening [a, '\\'] = none := by
  refine ofOpening_eq_none fun c hc h => ?_
  have hsecond : '\\' = c := (List.cons.inj (List.cons.inj h).2).1
  rw [← hsecond] at hc
  exact absurd hc (by decide)

theorem ofOpening_single (a : Char) : TagKind.ofOpening [a] = none :=
  ofOpening_eq_none fun _ _ h => by cases (List.cons.inj h).2

/-- What begins an escaped text is what begins the text, or a backslash. -/
theorem escapeText_cons (b : Char) (rest : List Char) :
    ∃ tail, escapeText (b :: rest) = b :: tail ∨ escapeText (b :: rest) = '\\' :: tail := by
  cases rest with
  | nil => exact ⟨[], .inl rfl⟩
  | cons c rest =>
      rw [escapeText_cons_cons]
      split
      · exact ⟨_, .inr rfl⟩
      · exact ⟨_, .inl rfl⟩

/-- A character that begins no delimiter of the text begins none after the rest is escaped. -/
theorem ofOpening_escaped {a b : Char} (rest : List Char) (h : TagKind.ofOpening [a, b] = none) :
    TagKind.ofOpening ((a :: escapeText (b :: rest)).take 2) = none := by
  obtain ⟨tail, htail | htail⟩ := escapeText_cons b rest
  · rw [htail]
    exact h
  · rw [htail]
    exact ofOpening_then_backslash a

/-- An escaped text does not begin with a delimiter. -/
theorem ofOpening_escapeText (text : List Char) :
    TagKind.ofOpening ((escapeText text).take 2) = none := by
  induction text using escapeText.induct with
  | case1 a b rest h _ =>
      rw [escapeText_cons_cons, if_pos h]
      exact ofOpening_backslash _
  | case2 a b rest h _ =>
      rw [escapeText_cons_cons, if_neg h]
      exact ofOpening_escaped rest (Option.not_isSome_iff_eq_none.mp h)
  | case3 a => exact ofOpening_single a
  | case4 => rfl

section Lexer

variable (tokenizer : Tokenizer) {source rest : List Char} {fuel i textStart : Nat}
  {buffer : List Char}

theorem drop_add_of_drop {l : List Char} (h : source.drop i = l ++ rest) :
    source.drop (i + l.length) = rest := by
  rw [← List.drop_drop, h, List.drop_left]

/-- A step of the lexer where no tag begins. -/
theorem lexLoop_cons {c : Char} (h : source.drop i = c :: rest)
    (hopening : ¬ (c = '\\' ∧ (TagKind.ofOpening (rest.take 2)).isSome = true) →
      TagKind.ofOpening ((c :: rest).take 2) = none) :
    lexLoop tokenizer source (fuel + 1) i textStart buffer =
      if c = '\\' ∧ (TagKind.ofOpening (rest.take 2)).isSome then
        lexLoop tokenizer source fuel (i + 3) textStart (buffer ++ rest.take 2)
      else lexLoop tokenizer source fuel (i + 1) textStart (buffer ++ [c]) := by
  rw [lexLoop, h]
  dsimp only
  by_cases hescape : c = '\\' ∧ (TagKind.ofOpening (rest.take 2)).isSome = true
  · rw [if_pos hescape, if_pos hescape]
  · rw [if_neg hescape, if_neg hescape, hopening hescape]

/-- The lexer keeps what is behind a backslash. -/
theorem lexLoop_escaped {a b : Char} (h : source.drop i = '\\' :: a :: b :: rest)
    (hopening : (TagKind.ofOpening [a, b]).isSome = true) :
    lexLoop tokenizer source (fuel + 1) i textStart buffer =
      lexLoop tokenizer source fuel (i + 3) textStart (buffer ++ [a, b]) := by
  rw [lexLoop_cons tokenizer h fun hescape => absurd ⟨rfl, hopening⟩ hescape]
  exact if_pos ⟨rfl, hopening⟩

/-- The lexer keeps a character that begins no delimiter. -/
theorem lexLoop_plain {c : Char} (h : source.drop i = c :: rest)
    (hescape : TagKind.ofOpening (rest.take 2) = none)
    (hopening : TagKind.ofOpening ((c :: rest).take 2) = none) :
    lexLoop tokenizer source (fuel + 1) i textStart buffer =
      lexLoop tokenizer source fuel (i + 1) textStart (buffer ++ [c]) := by
  rw [lexLoop_cons tokenizer h fun _ => hopening, if_neg]
  rw [hescape]
  exact fun h => absurd h.2 Bool.false_ne_true

theorem lexLoop_end (h : source.drop i = []) :
    lexLoop tokenizer source (fuel + 1) i textStart buffer =
      .ok (if buffer.isEmpty then [] else [.text buffer textStart]) := by
  rw [lexLoop, h]

/-- The loop of the lexer reads an escaped text back into its buffer. -/
theorem lexLoop_escapeText {text : List Char} (hsource : source.drop i = escapeText text)
    (hfuel : (escapeText text).length ≤ fuel) :
    lexLoop tokenizer source (fuel + 1) i textStart buffer =
      .ok (if (buffer ++ text).isEmpty then [] else [.text (buffer ++ text) textStart]) := by
  induction text using escapeText.induct generalizing fuel i buffer with
  | case1 a b rest h ih =>
      rw [escapeText_cons_cons, if_pos h] at hsource hfuel
      obtain ⟨fuel, rfl⟩ := Nat.exists_eq_add_of_le' hfuel
      have hnext : source.drop (i + 3) = escapeText rest :=
        drop_add_of_drop (l := ['\\', a, b]) hsource
      rw [lexLoop_escaped tokenizer hsource h, List.length_cons, ← Nat.add_assoc,
        ih hnext (by simp only [List.length_cons]; omega), List.append_assoc]
      rfl
  | case2 a b rest h ih =>
      have hopening := Option.not_isSome_iff_eq_none.mp h
      rw [escapeText_cons_cons, if_neg h] at hsource hfuel
      obtain ⟨fuel, rfl⟩ := Nat.exists_eq_add_of_le' hfuel
      have hnext : source.drop (i + 1) = escapeText (b :: rest) :=
        drop_add_of_drop (l := [a]) hsource
      rw [lexLoop_plain tokenizer hsource (ofOpening_escapeText _)
        (ofOpening_escaped rest hopening), List.length_cons, ← Nat.add_assoc,
        ih hnext (by omega), List.append_assoc]
      rfl
  | case3 a =>
      change source.drop i = [a] at hsource
      change 1 ≤ fuel at hfuel
      obtain ⟨fuel, rfl⟩ := Nat.exists_eq_add_of_le' hfuel
      have hnext : source.drop (i + 1) = [] := drop_add_of_drop (l := [a]) hsource
      rw [lexLoop_plain tokenizer hsource rfl (ofOpening_single a)]
      exact lexLoop_end tokenizer hnext
  | case4 =>
      rw [lexLoop_end tokenizer hsource, List.append_nil]

theorem tokenize_escapeText (text : List Char) :
    tokenize tokenizer (escapeText text) = .ok (if text.isEmpty then [] else [.text text 0]) :=
  lexLoop_escapeText tokenizer rfl (Nat.le_refl _)

end Lexer

section Compile

variable (tokenizer : Tokenizer) (language : Language) (limit : Nat)

theorem body_nil {source : List Char} :
    (BlockParser.body language limit source (limit + 1) []).run ⟨[], 0, []⟩ = .ok [] ⟨[], 0, []⟩ := by
  unfold BlockParser.body BlockParser.statements
  rfl

theorem body_text {source : List Char} (value : List Char) (position : Nat) :
    (BlockParser.body language limit source (limit + 1) []).run ⟨[.text value position], 0, []⟩ =
      .ok [.text position (String.ofList value)] ⟨[], 0, []⟩ := by
  unfold BlockParser.body BlockParser.statements BlockParser.statements
  rfl

/-- The block parser makes one node of a text. -/
theorem compile_escapeText (text : List Char) :
    compile tokenizer language limit (escapeText text) =
      .ok (if text.isEmpty then [] else [.text 0 (String.ofList text)]) ⟨[], 0, []⟩ := by
  unfold compile
  rw [tokenize_escapeText]
  cases text with
  | nil => exact body_nil language limit
  | cons c text => exact body_text language limit (c :: text) 0

end Compile

section Render

variable {V C F W E : Type} [DecidableEq V] (py : Python V C F W E)

/-- A program of one text constructs no filter and writes the text. -/
theorem render_text (text : String) (position fuel : Nat) (filters : List (String × C))
    (s : RenderContext V F W) (hs : s.output = []) :
    ∃ t, (TemplateProgram.render py fuel ⟨[.text position text], filters⟩).run s = .ok text t := by
  have hactive : (⟨[.text position text], filters⟩ : TemplateProgram C).active = [] :=
    List.filter_eq_nil_iff.mpr fun _ _ => Bool.false_ne_true
  refine ⟨{ s with output := [text] }, ?_⟩
  unfold TemplateProgram.render
  rw [hactive]
  change EStateM.Result.ok (String.join (s.output ++ [text])) { s with output := s.output ++ [text] } = _
  rw [hs, List.nil_append, String.join_cons, String.join_nil, String.append_empty]

theorem render_nil (fuel : Nat) (filters : List (String × C)) (s : RenderContext V F W)
    (hs : s.output = []) :
    ∃ t, (TemplateProgram.render py fuel ⟨[], filters⟩).run s = .ok "" t := by
  have hactive : (⟨[], filters⟩ : TemplateProgram C).active = [] :=
    List.filter_eq_nil_iff.mpr fun _ _ => Bool.false_ne_true
  refine ⟨s, ?_⟩
  unfold TemplateProgram.render
  rw [hactive]
  change EStateM.Result.ok (String.join s.output) s = _
  rw [hs, String.join_nil]

omit [DecidableEq V] in
/-- A render starts without output. -/
theorem output_callContext (context : Option (Mapping V)) (values : String → Option V) (world : W) :
    (callContext context values world : RenderContext V F W).output = [] := by
  cases context with
  | none => rfl
  | some mapping => rfl

/-- Every text is the lexer's only token, and the output, of its escaped source. -/
theorem escapeText_renders (tokenizer : Tokenizer) (language : Language) (limit : Nat)
    (text : List Char) (filters : List (String × C)) (fuel : Nat) (context : Option (Mapping V))
    (values : String → Option V) (world : W) :
    tokenize tokenizer (escapeText text) = .ok (if text.isEmpty then [] else [.text text 0]) ∧
    ∃ nodes, compile tokenizer language limit (escapeText text) = .ok nodes ⟨[], 0, []⟩ ∧
      ∃ s, (TemplateProgram.render py fuel ⟨nodes, filters⟩).run
        (callContext context values world) = .ok (String.ofList text) s := by
  refine ⟨tokenize_escapeText tokenizer text, _, compile_escapeText tokenizer language limit text, ?_⟩
  have houtput := output_callContext (F := F) context values world
  cases text with
  | nil => exact render_nil py fuel filters _ houtput
  | cons c text => exact render_text py (String.ofList (c :: text)) 0 fuel filters _ houtput

end Render

end Templates

end Rmote
