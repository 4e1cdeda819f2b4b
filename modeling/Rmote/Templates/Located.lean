import Rmote.Templates.Grammar
import Rmote.Templates.Strings

/-!
# Errors of the compiler are located

The lexer and the block parser raise `TemplateSyntaxError` at the start of a tag, and `location`
turns what the expression parser raises into one. The only other exception is the `TypeError`
of adding a text and bytes, so the compiler is total for sources in which that never happens.
-/

namespace Rmote

namespace Templates

open Outcome BlockParser

/-- The error names a character of the source. -/
def Names (source : List Char) (e : CompileError) : Prop :=
  ∃ message position, position < source.length ∧ e = .located (sourceError source message position)

section Lexer

variable {tokenizer : Tokenizer} {source : List Char} {α β : Type}

/-- A piece of the lexer returns with `P`, or its error names a character of the source. -/
def Scans (source : List Char) (P : α → Prop) : Except CompileError α → Prop
  | .ok a => P a
  | .error e => Names source e

theorem Scans.bind {m : Except CompileError α} {f : α → Except CompileError β} {P : α → Prop}
    {Q : β → Prop} (h : Scans source P m) (hf : ∀ a, P a → Scans source Q (f a)) :
    Scans source Q (m >>= f) := by
  cases m with
  | ok a => exact hf a h
  | error e => exact h

theorem scans_raise {P : α → Prop} {position : Nat} (h : position < source.length)
    (message : String) :
    Scans source P (.error (.located (sourceError source message position))) :=
  ⟨message, position, h, rfl⟩

theorem splitLines_cons (c : Char) (rest : List Char) :
    ∃ line lines, splitLines (c :: rest) = (c :: line) :: lines := by
  rw [splitLines]
  split_ifs
  · exact ⟨[], _, rfl⟩
  · cases splitLines rest with
    | nil => exact ⟨[], [], rfl⟩
    | cons line lines => exact ⟨line, lines, rfl⟩

theorem le_foldl_length (lines : List (List Char)) (offset : Nat) :
    offset ≤ lines.foldl (fun offset line => offset + line.length) offset := by
  induction lines generalizing offset with
  | nil => exact Nat.le_refl _
  | cons line lines ih => exact (Nat.le_add_right _ _).trans (ih _)

/-- A token that is placed in the text has an offset behind the start of the code. -/
theorem lineOffsets_placed {start : Nat} (hstart : 1 ≤ start) {token : PythonToken}
    (h : token.Placed ('(' :: source.drop start)) :
    ∃ offset, (lineOffsets source start)[token.row - 1]? = some offset ∧
      start ≤ offset + token.column := by
  obtain ⟨hrow, hlast, hcolumn⟩ := h
  rw [lineOffsets, List.getElem?_scanl, if_pos (by omega)]
  refine ⟨_, rfl, ?_⟩
  obtain ⟨line, lines, hlines⟩ := splitLines_cons '(' (source.drop start)
  by_cases hfirst : token.row = 1
  · have := hcolumn hfirst
    rw [hfirst]
    simp only [Nat.sub_self, List.take_zero, List.foldl_nil]
    omega
  · obtain ⟨k, hk⟩ := Nat.exists_eq_add_of_lt (lt_of_le_of_ne hrow (Ne.symm hfirst))
    rw [hk, hlines, Nat.add_sub_cancel, Nat.add_comm 1 k, List.take_succ_cons, List.foldl_cons]
    have := le_foldl_length (lines.take k) (start - 1 + ('(' :: line).length)
    rw [List.length_cons] at this ⊢
    omega

/-- The loop of `code` stops behind its start. -/
theorem scans_codeLoop {start opening : Nat} (hstart : 1 ≤ start)
    (hopening : opening < source.length) (kind : TagKind) (failed : Bool) (depth : Int)
    (result : List CodeToken) {tokens : List PythonToken}
    (hplaced : ∀ token ∈ tokens, token.Placed ('(' :: source.drop start)) :
    Scans source (fun found => start ≤ found.2.2)
      (codeLoop source start opening kind failed depth result tokens) := by
  induction tokens generalizing depth result with
  | nil => exact scans_raise hopening _
  | cons token tokens ih =>
      obtain ⟨offset, hoffset, hle⟩ := lineOffsets_placed hstart (hplaced token List.mem_cons_self)
      rw [codeLoop, hoffset]
      dsimp only
      split
      · exact scans_raise hopening _
      · split
        · exact hle
        · split
          · exact Nat.le_succ_of_le hle
          · exact ih _ _ fun token' htoken => hplaced token' (List.mem_cons_of_mem token htoken)

theorem scans_code {start opening : Nat} (hstart : 1 ≤ start) (hopening : opening < source.length)
    (kind : TagKind) :
    Scans source (fun found => start ≤ found.2.2) (code tokenizer source start opening kind) := by
  have hstarts := tokenizer.starts ('(' :: source.drop start)
  have hplaced := tokenizer.placed ('(' :: source.drop start)
  unfold code
  cases hgenerate : tokenizer.generateTokens ('(' :: source.drop start) with
  | mk tokens failed =>
      rw [hgenerate] at hstarts hplaced
      cases tokens with
      | nil =>
          obtain rfl : failed = true := hstarts.resolve_left fun h => h rfl
          exact scans_raise hopening _
      | cons token tokens => exact scans_codeLoop hstart hopening kind failed 0 [] hplaced

theorem le_of_findFrom {pattern : List Char} {start close : Nat}
    (h : findFrom pattern source start = some close) : start ≤ close := by
  obtain ⟨k, -, hk⟩ := List.exists_of_findSome?_eq_some h
  split_ifs at hk
  cases hk
  exact Nat.le_add_right start k

/-- A tag starts at its opening delimiter and ends behind it. -/
theorem scans_tag (kind : TagKind) {start opening : Nat} (hstart : 1 ≤ start)
    (hopening : opening < source.length) :
    Scans source (fun found => found.1.position = opening ∧ start ≤ found.2.2)
      (tag tokenizer source kind start opening) := by
  unfold tag
  cases kind with
  | comment =>
      cases hfind : findFrom TagKind.comment.closing source start with
      | none => exact scans_raise hopening _
      | some close => exact ⟨rfl, le_of_findFrom hfind⟩
  | expression =>
      apply (scans_code hstart hopening TagKind.expression).bind
      intro found hfound
      exact ⟨rfl, hfound⟩
  | command =>
      apply (scans_code hstart hopening TagKind.command).bind
      intro found hfound
      dsimp only
      split
      · exact scans_raise hopening _
      · exact ⟨rfl, hfound⟩

/-- The tokens stand at characters of the source. -/
abbrev InSource (source : List Char) (tokens : List TemplateToken) : Prop :=
  ∀ token ∈ tokens, token.position < source.length

theorem inSource_text {textStart : Nat} {text : List Char}
    (h : text ≠ [] → textStart < source.length) :
    InSource source (if text.isEmpty then [] else [.text text textStart]) := by
  intro token htoken
  split_ifs at htoken with hempty
  · cases htoken
  · rw [List.mem_singleton.mp htoken]
    exact h fun hnil => hempty (List.isEmpty_iff.mpr hnil)

/-- The lexer has enough fuel for the characters that are left. -/
theorem scans_lexLoop (fuel i textStart : Nat) (buffer : List Char)
    (hfuel : source.length - i + 1 ≤ fuel) (htext : textStart ≤ i)
    (hbuffer : buffer ≠ [] → textStart < source.length) :
    Scans source (InSource source) (lexLoop tokenizer source fuel i textStart buffer) := by
  induction fuel generalizing i textStart buffer with
  | zero => omega
  | succ fuel ih =>
      rw [lexLoop]
      cases hrest : source.drop i with
      | nil => exact inSource_text hbuffer
      | cons c rest =>
          have hi : i < source.length := by
            by_contra hi
            rw [List.drop_eq_nil_of_le (Nat.not_lt.mp hi)] at hrest
            cases hrest
          dsimp only
          split
          · exact ih _ _ _ (by omega) (by omega) fun _ => by omega
          · split
            · exact ih _ _ _ (by omega) (by omega) fun _ => by omega
            · rename_i kind _
              have hstart : i + 2 ≤ if startsAt ['-'] source (i + 2) = true then i + 3 else i + 2 := by
                split_ifs <;> omega
              refine (scans_tag kind (by omega) hi).bind ?_
              rintro ⟨token, stop, close⟩ ⟨htoken, hclose⟩
              dsimp only at htoken hclose ⊢
              refine (ih _ _ [] ?_ (Nat.le_refl _) fun h => absurd rfl h).bind ?_
              · split_ifs <;> omega
              · intro tokens htokens token' htoken'
                rcases List.mem_append.mp htoken' with htoken' | htoken'
                · refine inSource_text (fun htext => hbuffer ?_) token' htoken'
                  rintro rfl
                  exact htext (by split_ifs <;> rfl)
                · rcases List.mem_cons.mp htoken' with htoken' | htoken'
                  · rw [htoken', htoken]
                    exact hi
                  · exact htokens token' htoken'

theorem scans_tokenize : Scans source (InSource source) (tokenize tokenizer source) :=
  scans_lexLoop _ 0 0 [] (Nat.le_refl _) (Nat.le_refl _) fun h => absurd rfl h

end Lexer

/-- The code of a tag. -/
def TemplateToken.code : TemplateToken → List CodeToken
  | .expression _ _ tokens | .command _ _ _ tokens => tokens
  | .text _ _ | .comment _ _ => []

section Blocks

variable {language : Language} {limit : Nat} {source : List Char} {all : List TemplateToken}
  {α β : Type} {m : BlockParser α}

/-- No tag has a text next to bytes. -/
abbrev AllOneKind (language : Language) (all : List TemplateToken) : Prop :=
  ∀ token ∈ all, OneKind language token.code

/-- How a body may fail. That no assertion fails is known from the grammar. -/
def Escapes (language : Language) (source : List Char) (all : List TemplateToken)
    (e : CompileError) (s : BlockCursor) : Prop :=
  (Names source e ∧ AllSameKind s.joins) ∨
    (e = .raised .typeError ∧ ¬ AllSameKind s.joins ∧ ¬ AllOneKind language all) ∨
    e = .raised .assertionError

/-- How a statement may fail, before its errors are located. -/
def Raises (language : Language) (source : List Char) (all : List TemplateToken)
    (e : CompileError) (s : BlockCursor) : Prop :=
  Escapes language source all e s ∨
    ∃ error, e = .raised error ∧ error.isCaught = true ∧ AllSameKind s.joins

/-- The tokens that are left are tokens of the template. -/
def Ready (all : List TemplateToken) (s : BlockCursor) : Prop :=
  AllSameKind s.joins ∧ s.rest ⊆ all

/-- The code returned, and took `n` tokens or more. -/
abbrev After (all : List TemplateToken) (n : Nat) (s t : BlockCursor) : Prop :=
  Ready all t ∧ t.rest.length + n ≤ s.rest.length

/-- A piece of the block parser. -/
def Proceeds (language : Language) (source : List Char) (all : List TemplateToken)
    (m : BlockParser α) : Prop :=
  ∀ s, Ready all s → Ensures m s (fun _ => After all 0 s) (Raises language source all)

theorem proceeds_pure (a : α) : Proceeds language source all (pure a) :=
  fun _ hs => ensures_pure ⟨hs, Nat.le_refl _⟩

theorem proceeds_throw {error : PythonError} (h : error.isCaught = true) :
    Proceeds language source all (throw (.raised error) : BlockParser α) :=
  fun _ hs => ensures_throw (.inr ⟨error, rfl, h, hs.1⟩)

/-- The code goes on behind what another one left. -/
theorem Proceeds.after (h : Proceeds language source all m) {n : Nat} {s t : BlockCursor}
    (ht : After all n s t) : Ensures m t (fun _ => After all n s) (Raises language source all) := by
  apply (h t ht.1).mono
  · intro a u hu
    refine ⟨hu.1, ?_⟩
    have := ht.2
    have := hu.2
    omega
  · exact fun e u => id

theorem Proceeds.bind {f : α → BlockParser β} (h : Proceeds language source all m)
    (hf : ∀ a, Proceeds language source all (f a)) : Proceeds language source all (m >>= f) :=
  fun s hs => (h s hs).bind fun a _ ht => (hf a).after ht

theorem ready_rest {s : BlockCursor} {token : TemplateToken} {rest : List TemplateToken}
    (hs : Ready all s) (hrest : s.rest = token :: rest) :
    Ready all { s with rest := rest } ∧ token ∈ all :=
  ⟨⟨hs.1, fun _ h => hs.2 (hrest ▸ List.mem_cons_of_mem token h)⟩,
    hs.2 (hrest ▸ List.mem_cons_self)⟩

theorem raises_raiseAt {s : BlockCursor} (hs : Ready all s) {position : Nat}
    (h : position < source.length) (message : String) {Q : β → BlockCursor → Prop}
    (f : α → BlockParser β) :
    Ensures (raiseAt source message position >>= f) s Q (Raises language source all) :=
  (ensures_throw (Q := fun _ _ => False) (.inl (.inl ⟨⟨message, position, h, rfl⟩, hs.1⟩))).bind
    fun _ _ h => h.elim

/-- A tag is read by a parser of its own. -/
theorem proceeds_onTokens {parser : Parser α} {P : α → Prop} (htakes : Takes 0 P parser)
    (hkeeps : Keeps (Clean language) parser) {token : TemplateToken} (htoken : token ∈ all) :
    Proceeds language source all (onTokens token.code parser) := by
  intro s hs
  have hnone : AllSameKind [] := fun _ hpair => absurd hpair List.not_mem_nil
  have hjoins : ∀ joins, AllSameKind joins → AllSameKind (s.joins ++ joins) := by
    intro joins h pair hpair
    exact (List.mem_append.mp hpair).elim (hs.1 pair) (h pair)
  have hparser := htakes ⟨token.code, []⟩ hnone
  unfold Ensures onTokens EStateM.run at *
  cases hrun : parser ⟨token.code, []⟩ with
  | ok a u =>
      rw [hrun] at hparser
      exact ⟨⟨hjoins _ hparser.2.1, hs.2⟩, Nat.le_refl _⟩
  | error e u =>
      rw [hrun] at hparser
      rcases hparser with ⟨rfl, hmixed⟩ | ⟨hcaught, hsame⟩
      · refine .inl (.inr (.inl ⟨rfl, fun h => hmixed ?_, fun h => hmixed ?_⟩))
        · exact fun pair hpair => h pair (List.mem_append_right _ hpair)
        · exact ((hkeeps ⟨token.code, []⟩ ⟨h token htoken, hnone⟩).error hrun).2
      · exact .inr ⟨e, rfl, hcaught, hjoins _ hsame⟩

/-- Behind `location` an error is located. -/
theorem escapes_location {position : Nat} (hposition : position < source.length) {s : BlockCursor}
    {Q : α → BlockCursor → Prop} (h : Ensures m s Q (Raises language source all)) :
    Ensures (location source position m) s Q (Escapes language source all) := by
  apply h.tryCatch
  rintro e t (he | ⟨error, rfl, hcaught, hsame⟩)
  · cases e with
    | located e => exact ensures_throw he
    | raised e =>
        rcases he with ⟨⟨message, position', -, he⟩, -⟩ | he
        · cases he
        · have hcaught : e.isCaught = false := by
            rcases he with ⟨he, -⟩ | he <;> cases he <;> rfl
          dsimp only
          rw [hcaught]
          exact ensures_throw (.inr he)
  · dsimp only
    rw [hcaught]
    exact ensures_throw (.inl ⟨⟨error.message, position, hposition, rfl⟩, hsame⟩)

theorem Proceeds.location (h : Proceeds language source all m) {position : Nat}
    (hposition : position < source.length) :
    Proceeds language source all (location source position m) := by
  intro s hs
  apply (escapes_location hposition (h s hs)).mono
  · exact fun _ _ => id
  · exact fun _ _ => .inl

theorem ensures_assertion {s : BlockCursor} {Q : α → BlockCursor → Prop} :
    Ensures (throw (.raised .assertionError)) s Q (Raises language source all) :=
  ensures_throw (.inl (.inr (.inr rfl)))

section Methods

variable (hall : InSource source all)
include hall

theorem proceeds_expression {token : TemplateToken} (htoken : token ∈ all) :
    Proceeds language source all
      (BlockParser.expression language limit source token.position token.code) :=
  (proceeds_onTokens (takes_parse limit false) (keeps_parse limit false) htoken).location
    (hall token htoken)

theorem proceeds_blockEnd {opening : Nat} (hopening : opening < source.length)
    (expected : String) : Proceeds language source all (blockEnd source opening expected) := by
  intro s hs
  unfold blockEnd
  apply ensures_get_bind
  cases hrest : s.rest with
  | nil => exact ensures_throw (.inl (.inl ⟨⟨_, opening, hopening, rfl⟩, hs.1⟩))
  | cons token rest =>
      obtain ⟨hready, htoken⟩ := ready_rest hs hrest
      cases token with
      | text value position => exact ensures_assertion
      | expression value position tokens => exact ensures_assertion
      | comment value position => exact ensures_assertion
      | command value position name tokens =>
          dsimp only
          split
          · exact raises_raiseAt hs (hall _ htoken) _ _
          · split
            · exact raises_raiseAt hs (hall _ htoken) _ _
            · refine ⟨hready, ?_⟩
              rw [hrest]
              exact Nat.le_succ _

variable {bd : List String → BlockParser (List Node)}
  (hbd : ∀ stops, Proceeds language source all (bd stops))
include hbd

theorem ensures_branch_after {next : Bool → BlockParser (List (Option Expression × List Node))}
    {s : BlockCursor} (hs : Ready all s)
    (hnext : ∀ seenElse t, After all 1 s t →
      Ensures (next seenElse) t (fun _ => After all 0 t) (Raises language source all))
    (seenElse : Bool) :
    Ensures (branch language limit source bd next seenElse) s (fun _ => After all 0 s)
      (Raises language source all) := by
  unfold branch
  apply ensures_get_bind
  cases hrest : s.rest with
  | nil => exact ensures_pure ⟨hs, Nat.le_refl _⟩
  | cons token rest =>
      obtain ⟨hready, htoken⟩ := ready_rest hs hrest
      have htaken : After all 1 s { s with rest := rest } := by
        refine ⟨hready, ?_⟩
        rw [hrest]
        exact Nat.le_refl _
      -- the rounds after this one start behind its token
      have hothers : ∀ {t : BlockCursor} {f : List (Option Expression × List Node) →
          List (Option Expression × List Node)} (seenElse : Bool), After all 1 s t →
          Ensures (f <$> next seenElse) t (fun _ => After all 0 s) (Raises language source all) := by
        intro t f seenElse ht
        rw [map_eq_pure_bind]
        apply (hnext seenElse t ht).bind
        intro others u hu
        refine ensures_pure ⟨hu.1, ?_⟩
        have := ht.2
        have := hu.2
        omega
      cases token with
      | text value position => exact ensures_assertion
      | expression value position tokens => exact ensures_assertion
      | comment value position => exact ensures_assertion
      | command value position name tokens =>
          dsimp only
          split
          · exact ensures_pure ⟨hs, Nat.le_refl _⟩
          · split
            · exact raises_raiseAt hs (hall _ htoken) _ _
            · apply ensures_modify_bind
              split
              · split
                · exact raises_raiseAt hready (hall _ htoken) _ _
                · apply ((hbd _).after htaken).bind
                  intro nodes t ht
                  exact hothers true ht
              · apply ((proceeds_expression hall htoken).after htaken).bind
                intro condition t ht
                apply ((hbd _).after ht).bind
                intro nodes u hu
                exact hothers seenElse hu

/-- The loop of `condition` has enough fuel for the tokens that are left. -/
theorem ensures_branches_after (fuel : Nat) (seenElse : Bool) {s : BlockCursor} (hs : Ready all s)
    (hfuel : s.rest.length ≤ fuel) :
    Ensures (branches language limit source bd fuel seenElse) s (fun _ => After all 0 s)
      (Raises language source all) := by
  induction fuel generalizing seenElse s with
  | zero =>
      apply ensures_branch_after hall hbd hs
      intro _ t ht
      have := ht.2
      omega
  | succ fuel ih =>
      apply ensures_branch_after hall hbd hs
      intro seenElse t ht
      have := ht.2
      exact ih seenElse ht.1 (by omega)

theorem proceeds_condition {token : TemplateToken} (htoken : token ∈ all) :
    Proceeds language source all
      (condition language limit source bd token.position token.code) := by
  apply (proceeds_expression hall htoken).bind
  intro value
  apply (hbd _).bind
  intro nodes s hs
  apply ensures_get_bind
  apply (ensures_branches_after hall hbd _ false hs (Nat.le_refl _)).bind
  intro others t ht
  apply ((proceeds_blockEnd hall (hall token htoken) "if").after ht).bind
  intro _ u hu
  exact ensures_pure hu

theorem proceeds_otherwise : Proceeds language source all (otherwise source bd) := by
  intro s hs
  unfold otherwise
  apply ensures_get_bind
  cases hrest : s.rest with
  | nil => exact ensures_pure ⟨hs, Nat.le_refl _⟩
  | cons token rest =>
      obtain ⟨hready, htoken⟩ := ready_rest hs hrest
      cases token with
      | text value position => exact ensures_assertion
      | expression value position tokens => exact ensures_assertion
      | comment value position => exact ensures_assertion
      | command value position name tokens =>
          dsimp only
          split
          · exact ensures_pure ⟨hs, Nat.le_refl _⟩
          · split
            · exact raises_raiseAt hs (hall _ htoken) _ _
            · apply ensures_modify_bind
              apply (hbd ["else"]).after
              refine ⟨hready, ?_⟩
              rw [hrest]
              exact Nat.le_succ _

theorem proceeds_loop {token : TemplateToken} (htoken : token ∈ all) :
    Proceeds language source all (loop language limit source bd token.position token.code) := by
  unfold loop
  apply (proceeds_onTokens (takes_header limit "in") (keeps_header limit "in") htoken).bind
  rintro ⟨target, iterable⟩ s hs
  apply ensures_modify_bind
  have hinner : After all 0 s { s with loopDepth := s.loopDepth + 1 } := ⟨hs, Nat.le_refl _⟩
  apply ((hbd ["else"]).after hinner).bind
  intro nodes t ht
  apply ensures_modify_bind
  apply ((proceeds_otherwise hall hbd).after (t := { t with loopDepth := t.loopDepth - 1 }) ht).bind
  intro others u hu
  apply ((proceeds_blockEnd hall (hall token htoken) "for").after hu).bind
  intro _ v hv
  exact ensures_pure hv

theorem proceeds_command {value : List Char} {position : Nat} {name : String}
    {tokens : List CodeToken} (htoken : .command value position name tokens ∈ all) :
    Proceeds language source all (command language limit source bd position name tokens) := by
  unfold command
  split
  · apply proceeds_condition hall hbd htoken
  split
  · apply proceeds_loop hall hbd htoken
  split
  · apply (proceeds_onTokens (takes_header limit "=") (keeps_header limit "=") htoken).bind
    rintro ⟨target, expression⟩
    exact proceeds_pure _
  split
  · intro s hs
    have hraise : ∀ (message : String) (f : Unit → BlockParser Node),
        Ensures (throw (.raised (.syntaxError message)) >>= f) s (fun _ => After all 0 s)
          (Raises language source all) := by
      intro message f
      have h : Ensures (throw (.raised (.syntaxError message)) : BlockParser Unit) s
          (fun _ _ => False) (Raises language source all) :=
        ensures_throw (.inr ⟨.syntaxError message, rfl, rfl, hs.1⟩)
      exact h.bind fun _ _ hfalse => hfalse.elim
    apply ensures_get_bind
    by_cases hdepth : s.loopDepth = 0
    · rw [if_pos hdepth]
      exact hraise _ _
    · rw [if_neg hdepth]
      exact ensures_pure ⟨hs, Nat.le_refl _⟩
  split
  · exact proceeds_throw rfl
  split
  · exact proceeds_throw rfl
  · exact proceeds_throw rfl

theorem proceeds_statement {token : TemplateToken} (htoken : token ∈ all) :
    Proceeds language source all (statement language limit source bd token) := by
  cases token with
  | text value position => exact proceeds_pure _
  | comment value position => exact proceeds_pure _
  | expression value position tokens =>
      exact (proceeds_expression hall htoken).bind fun value => proceeds_pure _
  | command value position name tokens =>
      exact (proceeds_command hall hbd htoken).bind fun node => proceeds_pure _

/-- The loop of `body` has enough fuel for the tokens that are left. -/
theorem ensures_statements_after (stops : List String) (fuel : Nat) {s : BlockCursor}
    (hs : Ready all s) (hfuel : s.rest.length ≤ fuel) :
    Ensures (statements language limit source bd stops fuel) s (fun _ => After all 0 s)
      (Escapes language source all) := by
  induction fuel generalizing s with
  | zero =>
      unfold statements
      apply ensures_get_bind
      rw [List.length_eq_zero_iff.mp (Nat.le_zero.mp hfuel)]
      exact ensures_pure ⟨hs, Nat.le_refl _⟩
  | succ fuel ih =>
      unfold statements
      apply ensures_get_bind
      cases hrest : s.rest with
      | nil => exact ensures_pure ⟨hs, Nat.le_refl _⟩
      | cons token rest =>
          obtain ⟨hready, htoken⟩ := ready_rest hs hrest
          rw [hrest, List.length_cons] at hfuel
          dsimp only
          split
          · exact ensures_pure ⟨hs, Nat.le_refl _⟩
          · apply ensures_modify_bind
            apply (escapes_location (hall token htoken)
              (proceeds_statement hall hbd htoken _ hready)).bind
            intro node t ht
            have hleft : t.rest.length ≤ rest.length := ht.2
            apply (ih ht.1 (by omega)).bind
            intro nodes u hu
            refine ensures_pure ⟨hu.1, ?_⟩
            have := hu.2
            rw [hrest, List.length_cons]
            omega

end Methods

theorem proceeds_body (hall : InSource source all) (depth : Nat) (stops : List String) :
    Proceeds language source all (body language limit source depth stops) := by
  induction depth generalizing stops with
  | zero => exact proceeds_throw rfl
  | succ depth ih =>
      intro s hs
      apply ensures_get_bind
      apply (ensures_statements_after hall ih stops _ hs (Nat.le_refl _)).mono
      · exact fun _ _ => id
      · exact fun _ _ => .inl

theorem escapes_body (hall : InSource source all) (depth : Nat) :
    Ensures (body language limit source (depth + 1) []) ⟨all, 0, []⟩ (fun _ => Ready all)
      (Escapes language source all) := by
  have hready : Ready all ⟨all, 0, []⟩ := ⟨fun _ h => absurd h List.not_mem_nil, fun _ => id⟩
  unfold body
  apply ensures_get_bind
  apply (ensures_statements_after hall (proceeds_body hall depth) [] _ hready (Nat.le_refl _)).mono
  · exact fun _ t ht => ht.1
  · exact fun _ _ => id

end Blocks

/-- The compiler returns a program, or a located error that names a character of the source. -/
def Located (source : List Char) : EStateM.Result CompileError BlockCursor (List Node) → Prop
  | .ok _ _ => True
  | .error (.located e) _ => (characterAt source e.line e.column).isSome = true
  | .error (.raised _) _ => False

/-- The literals that the parsers joined with the next string. -/
def joined : EStateM.Result CompileError BlockCursor (List Node) → List (Constant × Constant)
  | .ok _ s | .error _ s => s.joins

theorem Names.located {source : List Char} {e : CompileError} (h : Names source e)
    (s : BlockCursor) : Located source (.error e s) := by
  obtain ⟨message, position, hposition, rfl⟩ := h
  exact Option.isSome_iff_exists.mpr ⟨_, characterAt_sourceError hposition message⟩

/-- Compilation is total up to located errors exactly when no text is joined with bytes. That no
tag has a text next to bytes is enough. -/
theorem compile_located_iff (tokenizer : Tokenizer) (language : Language) (limit : Nat)
    (source : List Char) :
    (Located source (compile tokenizer language limit source) ↔
      AllSameKind (joined (compile tokenizer language limit source))) ∧
    ∀ tokens, tokenize tokenizer source = .ok tokens →
      (∀ token ∈ tokens, OneKind language token.code) →
      Located source (compile tokenizer language limit source) := by
  have hscans : Scans source (InSource source) (tokenize tokenizer source) := scans_tokenize
  unfold compile
  cases htokenize : tokenize tokenizer source with
  | error e =>
      rw [htokenize] at hscans
      have hlocated := Names.located hscans ⟨[], 0, []⟩
      exact ⟨⟨fun _ _ h => absurd h List.not_mem_nil, fun _ => hlocated⟩, fun _ _ _ => hlocated⟩
  | ok tokens =>
      rw [htokenize] at hscans
      have hbody : Ensures (body language limit source (limit + 1) []) ⟨tokens, 0, []⟩
          (fun _ => Ready tokens) (Escapes language source tokens) :=
        escapes_body hscans limit
      have hassertion := @body_ne_assertionError language limit source (limit + 1) []
        ⟨tokens, 0, []⟩
      dsimp only
      cases hrun : (body language limit source (limit + 1) []).run ⟨tokens, 0, []⟩ with
      | ok nodes s => exact ⟨⟨fun _ => (hbody.ok hrun).1, fun _ => trivial⟩, fun _ _ _ => trivial⟩
      | error e s =>
          rcases hbody.error hrun with ⟨hnames, hsame⟩ | ⟨rfl, hmixed, hkinds⟩ | he
          · have hlocated := hnames.located s
            exact ⟨⟨fun _ => hsame, fun _ => hlocated⟩, fun _ _ _ => hlocated⟩
          · refine ⟨⟨fun h => h.elim, fun h => absurd h hmixed⟩, fun tokens' htokens h => ?_⟩
            cases htokens
            exact absurd h hkinds
          · exact absurd he (hassertion hrun)

/-- An expression with a text next to bytes. -/
def mixedSource : List Char := "\x7b\x7b 'a' b'b' \x7d\x7d".toList

/-- Python's tokens of that expression. No other text is a program. -/
def mixedTokenizer : Tokenizer where
  generateTokens text :=
    if text = '(' :: mixedSource.drop 2 then
      ([⟨.op, "(", 1, 0⟩, ⟨.string, "'a'", 1, 2⟩, ⟨.string, "b'b'", 1, 6⟩, ⟨.op, "\x7d", 1, 11⟩,
        ⟨.op, "\x7d", 1, 12⟩], false)
    else
      ([], true)
  starts text := by
    split_ifs
    · exact .inl (List.cons_ne_nil _ _)
    · exact .inr rfl
  placed text token htoken := by
    split_ifs at htoken
    · simp only [List.tail_cons, List.mem_cons, List.not_mem_nil, or_false] at htoken
      rcases htoken with rfl | rfl | rfl | rfl <;>
        exact ⟨Nat.le_refl 1, Nat.le_add_left 1 _, fun _ => by decide⟩
    · cases htoken

/-- A language with one text and one bytes literal. -/
def mixedLanguage : Language where
  isIdentifier word := word.toList.all Char.isAlpha
  repr word := word
  literalEval
    | "'a'" => .ok (.str "a")
    | "b'b'" => .ok (.bytes [98])
    | _ => .error (.valueError "malformed node or string")
  filters _ := false

/-- What is raised without a location. -/
def raisedIn : EStateM.Result CompileError BlockCursor (List Node) → Option PythonError
  | .error (.raised e) _ => some e
  | .ok _ _ | .error (.located _) _ => none

/-- A text next to bytes raises the `TypeError` of Python. -/
theorem mixedSource_not_located :
    raisedIn (compile mixedTokenizer mixedLanguage 4 mixedSource) = some .typeError ∧
      ¬ Located mixedSource (compile mixedTokenizer mixedLanguage 4 mixedSource) := by
  have hraised : raisedIn (compile mixedTokenizer mixedLanguage 4 mixedSource) = some .typeError := by
    decide +kernel
  refine ⟨hraised, fun h => ?_⟩
  cases hcompile : compile mixedTokenizer mixedLanguage 4 mixedSource with
  | ok nodes s =>
      rw [hcompile] at hraised
      cases hraised
  | error e s =>
      rw [hcompile] at hraised h
      cases e with
      | located e => cases hraised
      | raised e => exact h

end Templates

end Rmote
