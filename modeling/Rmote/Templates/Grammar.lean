import Rmote.Templates.TemplateParser
import Rmote.Templates.Wellformed

/-!
# The grammar of templates

`Block` says which tokens form the body of a block and which nodes they are, inside a loop or
outside of every loop. The block parser accepts exactly the token sequences that are such a
body, and it builds the nodes that the grammar gives. None of its assertions can fail.
-/

namespace Rmote

namespace Templates

open Outcome BlockParser

section Grammar

variable (language : Language) (limit : Nat)

/-- The tokens of a tag are an expression. -/
def ReadsExpression (tokens : List CodeToken) (value : Expression) : Prop :=
  ∃ s, (Parser.parse language limit false).run ⟨tokens, []⟩ = .ok value s

/-- The tokens of a tag are names, the string `stop` and an expression. -/
def ReadsHeader (stop : String) (tokens : List CodeToken) (target : AssignmentTarget)
    (value : Expression) : Prop :=
  ∃ s, (Parser.header language limit stop).run ⟨tokens, []⟩ = .ok (target, value) s

mutual

/-- The body of a block. -/
inductive Block : Bool → List TemplateToken → List Node → Prop
  | nil {inLoop : Bool} : Block inLoop [] []
  | text {inLoop : Bool} {value : List Char} {position : Nat} {rest : List TemplateToken}
      {nodes : List Node} (hrest : Block inLoop rest nodes) :
      Block inLoop (.text value position :: rest) (.text position (String.ofList value) :: nodes)
  | output {inLoop : Bool} {value : List Char} {position : Nat} {tokens : List CodeToken}
      {expression : Expression} {rest : List TemplateToken} {nodes : List Node}
      (hexpression : ReadsExpression language limit tokens expression)
      (hrest : Block inLoop rest nodes) :
      Block inLoop (.expression value position tokens :: rest) (.output position expression :: nodes)
  | comment {inLoop : Bool} {value : List Char} {position : Nat} {rest : List TemplateToken}
      {nodes : List Node} (hrest : Block inLoop rest nodes) :
      Block inLoop (.comment value position :: rest) nodes
  | assignment {inLoop : Bool} {value : List Char} {position : Nat} {tokens : List CodeToken}
      {target : AssignmentTarget} {expression : Expression} {rest : List TemplateToken}
      {nodes : List Node} (hheader : ReadsHeader language limit "=" tokens target expression)
      (hrest : Block inLoop rest nodes) :
      Block inLoop (.command value position "set" tokens :: rest)
        (.assignment position target expression :: nodes)
  | break {value : List Char} {position : Nat} {rest : List TemplateToken} {nodes : List Node}
      (hrest : Block true rest nodes) :
      Block true (.command value position "break" [] :: rest) (.break position :: nodes)
  | continue {value : List Char} {position : Nat} {rest : List TemplateToken} {nodes : List Node}
      (hrest : Block true rest nodes) :
      Block true (.command value position "continue" [] :: rest) (.continue position :: nodes)
  | condition {inLoop : Bool} {value value' : List Char} {position position' : Nat}
      {tokens : List CodeToken} {expression : Expression} {closing : String}
      {body others rest : List TemplateToken} {inner nodes : List Node}
      {branches : List (Option Expression × List Node)}
      (hexpression : ReadsExpression language limit tokens expression)
      (hbody : Block inLoop body inner) (hothers : Branches inLoop others branches)
      (hclosing : closing = "end" ∨ closing = "endif") (hrest : Block inLoop rest nodes) :
      Block inLoop (.command value position "if" tokens ::
          (body ++ (others ++ .command value' position' closing [] :: rest)))
        (.condition position ((some expression, inner) :: branches) :: nodes)
  | loop {inLoop : Bool} {value value' : List Char} {position position' : Nat}
      {tokens : List CodeToken} {target : AssignmentTarget} {iterable : Expression}
      {closing : String} {body others rest : List TemplateToken} {inner otherwise nodes : List Node}
      (hheader : ReadsHeader language limit "in" tokens target iterable)
      (hbody : Block true body inner) (hothers : Otherwise inLoop others otherwise)
      (hclosing : closing = "end" ∨ closing = "endfor") (hrest : Block inLoop rest nodes) :
      Block inLoop (.command value position "for" tokens ::
          (body ++ (others ++ .command value' position' closing [] :: rest)))
        (.loop position target iterable inner otherwise :: nodes)

/-- The branches of an `if` after the first one: any number of `elif`, then an `else` or none. -/
inductive Branches : Bool → List TemplateToken → List (Option Expression × List Node) → Prop
  | nil {inLoop : Bool} : Branches inLoop [] []
  | elif {inLoop : Bool} {value : List Char} {position : Nat} {tokens : List CodeToken}
      {expression : Expression} {body others : List TemplateToken} {inner : List Node}
      {branches : List (Option Expression × List Node)}
      (hexpression : ReadsExpression language limit tokens expression)
      (hbody : Block inLoop body inner) (hothers : Branches inLoop others branches) :
      Branches inLoop (.command value position "elif" tokens :: (body ++ others))
        ((some expression, inner) :: branches)
  | else {inLoop : Bool} {value : List Char} {position : Nat} {body : List TemplateToken}
      {inner : List Node} (hbody : Block inLoop body inner) :
      Branches inLoop (.command value position "else" [] :: body) [(none, inner)]

/-- The `else` part of a loop, or none. It is outside of the loop. -/
inductive Otherwise : Bool → List TemplateToken → List Node → Prop
  | nil {inLoop : Bool} : Otherwise inLoop [] []
  | else {inLoop : Bool} {value : List Char} {position : Nat} {body : List TemplateToken}
      {inner : List Node} (hbody : Block inLoop body inner) :
      Otherwise inLoop (.command value position "else" [] :: body) inner

end

end Grammar

/-! ## What the parser reads -/

section Sound

variable {language : Language} {limit : Nat} {source : List Char}

/-- No assertion failed. -/
abbrev NoAssertion (e : CompileError) (_ : BlockCursor) : Prop := e ≠ .raised .assertionError

/-- The code took tokens with a property, and left the loops around it alone. -/
def Consumes (s t : BlockCursor) (P : List TemplateToken → Prop) : Prop :=
  t.loopDepth = s.loopDepth ∧ ∃ taken, s.rest = taken ++ t.rest ∧ P taken

/-- Whether there is a loop around. -/
def BlockCursor.inLoop (s : BlockCursor) : Bool := s.loopDepth != 0

theorem BlockCursor.inLoop_congr {s t : BlockCursor} (h : t.loopDepth = s.loopDepth) :
    t.inLoop = s.inLoop := by
  unfold BlockCursor.inLoop
  rw [h]

theorem Consumes.trans {s t u : BlockCursor} {P Q R : List TemplateToken → Prop}
    (h : Consumes s t P) (h' : Consumes t u Q) (hR : ∀ a b, P a → Q b → R (a ++ b)) :
    Consumes s u R := by
  obtain ⟨hdepth, a, ha, hP⟩ := h
  obtain ⟨hdepth', b, hb, hQ⟩ := h'
  refine ⟨hdepth'.trans hdepth, a ++ b, ?_, hR a b hP hQ⟩
  rw [ha, hb, List.append_assoc]

/-- A tag was read before, which takes no token. -/
theorem Consumes.congr {s s' t : BlockCursor} {P : List TemplateToken → Prop}
    (hdepth : s'.loopDepth = s.loopDepth) (hrest : s'.rest = s.rest) (h : Consumes s' t P) :
    Consumes s t P := by
  unfold Consumes at *
  rw [hdepth, hrest] at h
  exact h

/-- The code took the token at the front first. -/
theorem Consumes.cons {s t : BlockCursor} {token : TemplateToken} {rest : List TemplateToken}
    {P Q : List TemplateToken → Prop} (hrest : s.rest = token :: rest)
    (h : Consumes { s with rest := rest } t P) (hQ : ∀ taken, P taken → Q (token :: taken)) :
    Consumes s t Q := by
  obtain ⟨hdepth, taken, htaken, hP⟩ := h
  refine ⟨hdepth, token :: taken, ?_, hQ taken hP⟩
  rw [hrest, List.cons_append]
  exact congrArg _ htaken

/-- A body ends at the end of the tokens, or in front of a command. -/
def Stopped (stops : List String) (rest : List TemplateToken) : Prop :=
  ∀ token ∈ rest.head?, (∃ value position name tokens, token = .command value position name tokens) ∧
    stopsAt stops token = true

theorem ensures_location {α : Type} {position : Nat} {m : BlockParser α} {s : BlockCursor}
    {Q : α → BlockCursor → Prop} (h : Ensures m s Q NoAssertion) :
    Ensures (location source position m) s Q NoAssertion := by
  apply h.tryCatch
  intro e t he
  cases e with
  | located e => exact ensures_throw nofun
  | raised e =>
      dsimp only
      split
      · exact ensures_throw nofun
      · exact ensures_throw he

/-- A tag is read by a parser of its own, which never asserts. -/
theorem ensures_onTokens {α : Type} {tokens : List CodeToken} {parser : Parser α} {P : α → Prop}
    (h : Takes 0 P parser) (s : BlockCursor) :
    Ensures (onTokens tokens parser) s
      (fun a t => (∃ u, parser.run ⟨tokens, []⟩ = .ok a u) ∧ t.loopDepth = s.loopDepth ∧
        t.rest = s.rest) NoAssertion := by
  have hparser := h ⟨tokens, []⟩ (fun _ hpair => absurd hpair List.not_mem_nil)
  unfold Ensures at hparser ⊢
  unfold onTokens EStateM.run at *
  cases hrun : parser ⟨tokens, []⟩ with
  | ok a u => exact ⟨⟨u, rfl⟩, rfl, rfl⟩
  | error e u =>
      rw [hrun] at hparser
      rintro he
      cases he
      rcases hparser with ⟨hparser, -⟩ | ⟨hparser, -⟩
      · cases hparser
      · cases hparser

theorem ensures_expression (position : Nat) (tokens : List CodeToken) (s : BlockCursor) :
    Ensures (BlockParser.expression language limit source position tokens) s
      (fun value t => ReadsExpression language limit tokens value ∧ t.loopDepth = s.loopDepth ∧
        t.rest = s.rest) NoAssertion :=
  ensures_location (ensures_onTokens (takes_parse limit false) s)

theorem ensures_raiseAt {α β : Type} {message : String} {position : Nat} {s : BlockCursor}
    {f : α → BlockParser β} {Q : β → BlockCursor → Prop} :
    Ensures (raiseAt source message position >>= f) s Q NoAssertion :=
  (ensures_throw (Q := fun _ _ => False) nofun).bind nofun

theorem Stopped.command {stops : List String} {token : TemplateToken} {rest : List TemplateToken}
    (h : Stopped stops (token :: rest)) :
    ∃ value position name tokens, token = .command value position name tokens :=
  (h token rfl).1

theorem ensures_blockEnd {stops : List String} (opening : Nat) (expected : String)
    (s : BlockCursor) (hs : Stopped stops s.rest) :
    Ensures (blockEnd source opening expected) s
      (fun _ t => Consumes s t fun taken => ∃ value position closing,
        taken = [.command value position closing []] ∧
          (closing = "end" ∨ closing = "end" ++ expected)) NoAssertion := by
  unfold blockEnd
  apply ensures_get_bind
  cases hrest : s.rest with
  | nil => exact ensures_throw nofun
  | cons token rest =>
      rw [hrest] at hs
      obtain ⟨value, position, closing, tokens, rfl⟩ := hs.command
      dsimp only
      split
      · exact ensures_raiseAt
      · rename_i hclosing
        split
        · exact ensures_raiseAt
        · rename_i htokens
          rw [not_not] at htokens
          subst htokens
          refine ⟨rfl, [_], hrest, value, position, closing, rfl, ?_⟩
          rw [not_and_or, not_not, not_not] at hclosing
          exact hclosing

theorem stopped_of_stopsAt {stops : List String} {token : TemplateToken}
    {rest : List TemplateToken} (h : stopsAt stops token = true) :
    Stopped stops (token :: rest) := by
  intro token' htoken'
  cases htoken'
  refine ⟨?_, h⟩
  cases token with
  | command value position name tokens => exact ⟨value, position, name, tokens, rfl⟩
  | text value position => cases h
  | expression value position tokens => cases h
  | comment value position => cases h

section Methods

variable {bd : List String → BlockParser (List Node)}

/-- The body of a block was read. -/
abbrev ReadsBlock (language : Language) (limit : Nat) (stops : List String) (s : BlockCursor)
    (nodes : List Node) (t : BlockCursor) : Prop :=
  Consumes s t (fun taken => Block language limit s.inLoop taken nodes) ∧ Stopped stops t.rest

/-- The branches of an `if` were read, none after an `else`. -/
abbrev ReadsBranches (language : Language) (limit : Nat) (seenElse : Bool) (s : BlockCursor)
    (others : List (Option Expression × List Node)) (t : BlockCursor) : Prop :=
  Consumes s t (fun taken => Branches language limit s.inLoop taken others ∧
    (seenElse = true → taken = [] ∧ others = [])) ∧ Stopped ["elif", "else"] t.rest

variable (hbd : ∀ stops s, Ensures (bd stops) s (ReadsBlock language limit stops s) NoAssertion)
include hbd

theorem ensures_branch {next : Bool → BlockParser (List (Option Expression × List Node))}
    (hnext : ∀ seenElse s, Stopped ["elif", "else"] s.rest →
      Ensures (next seenElse) s (ReadsBranches language limit seenElse s) NoAssertion)
    (seenElse : Bool) (s : BlockCursor) (hs : Stopped ["elif", "else"] s.rest) :
    Ensures (branch language limit source bd next seenElse) s
      (ReadsBranches language limit seenElse s) NoAssertion := by
  have hnone : Ensures (pure []) s (ReadsBranches language limit seenElse s) NoAssertion :=
    ensures_pure ⟨⟨rfl, [], rfl, .nil, fun _ => ⟨rfl, rfl⟩⟩, hs⟩
  unfold branch
  apply ensures_get_bind
  cases hrest : s.rest with
  | nil => exact hnone
  | cons token rest =>
      rw [hrest] at hs
      obtain ⟨value, position, name, tokens, rfl⟩ := hs.command
      dsimp only
      split
      · exact hnone
      · rename_i hname
        split
        · exact ensures_raiseAt
        · rename_i hseen
          apply ensures_modify_bind
          split
          · rename_i helse
            subst helse
            split
            · exact ensures_raiseAt
            · rename_i htokens
              rw [not_not] at htokens
              subst htokens
              apply (hbd _ _).bind
              rintro nodes t ⟨hbody, hstopped⟩
              apply (hnext true t hstopped).bind
              rintro others u ⟨hothers, hstopped'⟩
              refine ensures_pure ⟨?_, hstopped'⟩
              refine Consumes.cons hrest (hbody.trans hothers ?_) fun _ => id
              rintro a b hblock ⟨-, hnil⟩
              obtain ⟨rfl, rfl⟩ := hnil rfl
              rw [List.append_nil]
              exact ⟨.else hblock, fun h => absurd h hseen⟩
          · rename_i helse
            have helif : name = "elif" := by
              rw [not_and_or, not_not, not_not] at hname
              exact hname.resolve_right helse
            subst helif
            apply (ensures_expression position tokens _).bind
            rintro condition t ⟨hcondition, hdepth, ht⟩
            apply (hbd _ t).bind
            rintro nodes u ⟨hbody, hstopped⟩
            apply (hnext seenElse u hstopped).bind
            rintro others v ⟨hothers, hstopped'⟩
            refine ensures_pure ⟨?_, hstopped'⟩
            rw [BlockCursor.inLoop_congr hbody.1, BlockCursor.inLoop_congr hdepth] at hothers
            rw [BlockCursor.inLoop_congr hdepth] at hbody
            refine Consumes.cons hrest ((hbody.trans hothers ?_).congr hdepth ht) fun _ => id
            rintro a b hblock ⟨hbranches, -⟩
            exact ⟨.elif hcondition hblock hbranches, fun h => absurd h hseen⟩

theorem ensures_branches (fuel : Nat) (seenElse : Bool) (s : BlockCursor)
    (hs : Stopped ["elif", "else"] s.rest) :
    Ensures (branches language limit source bd fuel seenElse) s
      (ReadsBranches language limit seenElse s) NoAssertion := by
  induction fuel generalizing seenElse s with
  | zero =>
      apply ensures_branch hbd _ seenElse s hs
      intro _ _ _
      exact ensures_throw (fun h => nomatch h)
  | succ fuel ih => exact ensures_branch hbd ih seenElse s hs

/-- A statement was read: its node comes in front of the nodes of any block behind it. -/
abbrev ReadsStatement (language : Language) (limit : Nat) (token : TemplateToken)
    (s : BlockCursor) (node : Option Node) (t : BlockCursor) : Prop :=
  Consumes s t fun taken => ∀ rest nodes, Block language limit s.inLoop rest nodes →
    Block language limit s.inLoop (token :: (taken ++ rest)) (node.toList ++ nodes)

theorem ensures_condition (value : List Char) (opening : Nat) (tokens : List CodeToken)
    (s : BlockCursor) :
    Ensures (condition language limit source bd opening tokens) s
      (fun node => ReadsStatement language limit (.command value opening "if" tokens) s (some node))
      NoAssertion := by
  unfold condition
  apply (ensures_expression opening tokens s).bind
  rintro expression t ⟨hexpression, hdepth, ht⟩
  apply (hbd _ t).bind
  rintro nodes u ⟨hbody, hstopped⟩
  apply ensures_get_bind
  apply (ensures_branches hbd _ false u hstopped).bind
  rintro others v ⟨hothers, hstopped'⟩
  apply (ensures_blockEnd opening "if" v hstopped').bind
  rintro _ w hend
  apply ensures_pure
  rw [BlockCursor.inLoop_congr hbody.1, BlockCursor.inLoop_congr hdepth] at hothers
  rw [BlockCursor.inLoop_congr hdepth] at hbody
  refine (hbody.trans (hothers.trans (R := fun taken => ∃ others' value' position' closing,
    taken = others' ++ [.command value' position' closing []] ∧
    Branches language limit s.inLoop others' others ∧
    (closing = "end" ∨ closing = "endif")) hend ?_) ?_).congr hdepth ht
  · rintro a _ ⟨ha, -⟩ ⟨value', position', closing, rfl, hclosing⟩
    exact ⟨a, value', position', closing, rfl, ha, hclosing⟩
  · rintro a _ ha ⟨b, value', position', closing, rfl, hb, hclosing⟩ rest nodes' hrest
    have hblock : Block language limit s.inLoop (.command value opening "if" tokens ::
        (a ++ (b ++ .command value' position' closing [] :: rest)))
        (.condition opening ((some expression, nodes) :: others) :: nodes') :=
      .condition hexpression ha hb hclosing hrest
    simpa using hblock

theorem ensures_otherwise (s : BlockCursor) (hs : Stopped ["else"] s.rest) :
    Ensures (otherwise source bd) s
      (fun nodes t => Consumes s t (fun taken => Otherwise language limit s.inLoop taken nodes) ∧
        Stopped ["else"] t.rest) NoAssertion := by
  have hnone : Ensures (pure []) s
      (fun nodes t => Consumes s t (fun taken => Otherwise language limit s.inLoop taken nodes) ∧
        Stopped ["else"] t.rest) NoAssertion :=
    ensures_pure ⟨⟨rfl, [], rfl, .nil⟩, hs⟩
  unfold otherwise
  apply ensures_get_bind
  cases hrest : s.rest with
  | nil => exact hnone
  | cons token rest =>
      rw [hrest] at hs
      obtain ⟨value, position, name, tokens, rfl⟩ := hs.command
      dsimp only
      split
      · exact hnone
      · rename_i hname
        rw [not_not] at hname
        subst hname
        split
        · exact ensures_raiseAt
        · rename_i htokens
          rw [not_not] at htokens
          subst htokens
          apply ensures_modify_bind
          apply (hbd ["else"] _).mono
          · rintro nodes t ⟨hbody, hstopped⟩
            exact ⟨Consumes.cons hrest hbody fun _ => .else, hstopped⟩
          · exact fun e t => id

theorem ensures_loop (value : List Char) (opening : Nat) (tokens : List CodeToken)
    (s : BlockCursor) :
    Ensures (loop language limit source bd opening tokens) s
      (fun node => ReadsStatement language limit (.command value opening "for" tokens) s (some node))
      NoAssertion := by
  unfold loop
  apply (ensures_onTokens (takes_header limit "in") s).bind
  rintro ⟨target, iterable⟩ t ⟨hheader, hdepth, ht⟩
  dsimp only
  apply ensures_modify_bind
  apply (hbd ["else"] _).bind
  rintro nodes u ⟨⟨hbodyDepth, taken, hu, hbody⟩, hstopped⟩
  apply ensures_modify_bind
  -- behind the body the parser is as deep in loops as before
  have hinner : ({ u with loopDepth := u.loopDepth - 1 } : BlockCursor).loopDepth = s.loopDepth := by
    change u.loopDepth - 1 = _
    rw [hbodyDepth, ← hdepth]
    rfl
  apply (ensures_otherwise hbd { u with loopDepth := u.loopDepth - 1 } hstopped).bind
  rintro others v ⟨⟨hothersDepth, taken', hv, hothers⟩, hstopped'⟩
  rw [BlockCursor.inLoop_congr hinner] at hothers
  apply (ensures_blockEnd opening "for" v hstopped').bind
  rintro _ w ⟨hendDepth, _, hw, value', position', closing, rfl, hclosing⟩
  apply ensures_pure
  refine ⟨hendDepth.trans (hothersDepth.trans hinner),
    taken ++ (taken' ++ [.command value' position' closing []]), ?_, ?_⟩
  · change t.rest = _ at hu
    change u.rest = _ at hv
    rw [← ht, hu, hv, hw]
    simp
  · intro rest nodes' hrest
    have hblock : Block language limit s.inLoop (.command value opening "for" tokens ::
        (taken ++ (taken' ++ .command value' position' closing [] :: rest)))
        (.loop opening target iterable nodes others :: nodes') :=
      .loop hheader hbody hothers hclosing hrest
    simpa using hblock

theorem ensures_command (value : List Char) (position : Nat) (name : String)
    (tokens : List CodeToken) (s : BlockCursor) :
    Ensures (command language limit source bd position name tokens) s
      (fun node => ReadsStatement language limit (.command value position name tokens) s (some node))
      NoAssertion := by
  unfold command
  split
  · rename_i hname
    subst hname
    exact ensures_condition hbd value position tokens s
  split
  · rename_i hname
    subst hname
    exact ensures_loop hbd value position tokens s
  split
  · rename_i hname
    subst hname
    apply (ensures_onTokens (takes_header limit "=") s).bind
    rintro ⟨target, expression⟩ t ⟨hheader, hdepth, ht⟩
    apply ensures_pure
    exact ⟨hdepth, [], ht.symm, fun rest nodes hrest => .assignment hheader hrest⟩
  split
  · rename_i hname
    obtain ⟨hname, rfl⟩ := hname
    have hraise : ∀ (e : PythonError) {f : Unit → BlockParser Node} {Q : Node → BlockCursor → Prop},
        e ≠ .assertionError → Ensures (throw (.raised e) >>= f) s Q NoAssertion :=
      fun e f Q he => (ensures_throw (Q := fun _ _ => False) fun h => he (by cases h; rfl)).bind nofun
    rcases hname with rfl | rfl
    · apply ensures_get_bind
      simp only [if_true]
      split
      · exact hraise _ nofun
      · rename_i hdepth
        have hinLoop : s.inLoop = true := bne_iff_ne.mpr hdepth
        refine ensures_pure ⟨rfl, [], rfl, ?_⟩
        intro rest nodes hrest
        rw [hinLoop] at hrest ⊢
        exact .break hrest
    · apply ensures_get_bind
      simp only [String.reduceEq, if_false]
      split
      · exact hraise _ nofun
      · rename_i hdepth
        have hinLoop : s.inLoop = true := bne_iff_ne.mpr hdepth
        refine ensures_pure ⟨rfl, [], rfl, ?_⟩
        intro rest nodes hrest
        rw [hinLoop] at hrest ⊢
        exact .continue hrest
  split
  · exact ensures_throw nofun
  split
  · exact ensures_throw nofun
  · exact ensures_throw nofun

theorem ensures_statement (token : TemplateToken) (s : BlockCursor) :
    Ensures (statement language limit source bd token) s (ReadsStatement language limit token s)
      NoAssertion := by
  cases token with
  | text value position =>
      exact ensures_pure ⟨rfl, [], rfl, fun rest nodes hrest => .text hrest⟩
  | expression value position tokens =>
      apply (ensures_expression position tokens s).bind
      rintro expression t ⟨hexpression, hdepth, ht⟩
      exact ensures_pure ⟨hdepth, [], ht.symm, fun rest nodes hrest => .output hexpression hrest⟩
  | command value position name tokens =>
      apply (ensures_command hbd value position name tokens s).bind
      rintro node t h
      exact ensures_pure h
  | comment value position =>
      exact ensures_pure ⟨rfl, [], rfl, fun rest nodes hrest => .comment hrest⟩

theorem ensures_statements (stops : List String) (fuel : Nat) (s : BlockCursor) :
    Ensures (statements language limit source bd stops fuel) s (ReadsBlock language limit stops s)
      NoAssertion := by
  induction fuel generalizing s with
  | zero =>
      unfold statements
      apply ensures_get_bind
      cases hrest : s.rest with
      | nil => exact ensures_pure ⟨⟨rfl, [], rfl, .nil⟩, by rw [hrest]; nofun⟩
      | cons token rest =>
          dsimp only
          split
          · rename_i hstop
            exact ensures_pure ⟨⟨rfl, [], rfl, .nil⟩, hrest ▸ stopped_of_stopsAt hstop⟩
          · exact ensures_throw nofun
  | succ fuel ih =>
      unfold statements
      apply ensures_get_bind
      cases hrest : s.rest with
      | nil => exact ensures_pure ⟨⟨rfl, [], rfl, .nil⟩, by rw [hrest]; nofun⟩
      | cons token rest =>
          dsimp only
          split
          · rename_i hstop
            exact ensures_pure ⟨⟨rfl, [], rfl, .nil⟩, hrest ▸ stopped_of_stopsAt hstop⟩
          · apply ensures_modify_bind
            apply (ensures_location (ensures_statement hbd token _)).bind
            rintro node t hnode
            apply (ih t).bind
            rintro nodes u ⟨hnodes, hstopped⟩
            refine ensures_pure ⟨?_, hstopped⟩
            rw [BlockCursor.inLoop_congr hnode.1] at hnodes
            refine Consumes.cons hrest (hnode.trans (R := fun taken =>
              Block language limit s.inLoop (token :: taken) (node.toList ++ nodes)) hnodes ?_)
              fun _ => id
            intro a b ha hb
            exact ha b nodes hb

end Methods

theorem ensures_body (depth : Nat) (stops : List String) (s : BlockCursor) :
    Ensures (body language limit source depth stops) s (ReadsBlock language limit stops s)
      NoAssertion := by
  induction depth generalizing stops s with
  | zero => exact ensures_throw nofun
  | succ depth ih =>
      unfold body
      apply ensures_get_bind
      exact ensures_statements ih stops _ s

/-! ## What the grammar allows is read -/

section Complete

/-- From the state the code returns the value and leaves the tokens. -/
def Yields {α : Type} (m : BlockParser α) (s : BlockCursor) (a : α) (rest : List TemplateToken) :
    Prop :=
  ∃ t, m.run s = .ok a t ∧ t.rest = rest ∧ t.loopDepth = s.loopDepth

variable {α β : Type} {m : BlockParser α} {s : BlockCursor} {a : α} {b : β}
  {rest rest' : List TemplateToken}

theorem yields_pure (h : s.rest = rest) : Yields (pure a) s a rest := ⟨s, rfl, h, rfl⟩

theorem yields_get_bind {f : BlockCursor → BlockParser α} (h : Yields (f s) s a rest) :
    Yields (get >>= f) s a rest := h

theorem yields_take_bind {f : PUnit → BlockParser α}
    (h : Yields (f ⟨⟩) { s with rest := rest' } a rest) :
    Yields (modify (fun s => { s with rest := rest' }) >>= f) s a rest := h

theorem Yields.bind {f : α → BlockParser β} (h : Yields m s a rest)
    (hf : ∀ t, t.rest = rest → t.loopDepth = s.loopDepth → Yields (f a) t b rest') :
    Yields (m >>= f) s b rest' := by
  obtain ⟨t, hrun, ht, hdepth⟩ := h
  obtain ⟨u, hrun', hu, hdepth'⟩ := hf t ht hdepth
  refine ⟨u, ?_, hu, hdepth'.trans hdepth⟩
  rw [EStateM.run_bind, hrun]
  exact hrun'

theorem Yields.map {c : α → β} (h : Yields m s a rest) :
    Yields (m >>= fun x => pure (c x)) s (c a) rest :=
  h.bind fun _ ht _ => yields_pure ht

theorem Yields.location {position : Nat} (h : Yields m s a rest) :
    Yields (location source position m) s a rest := by
  obtain ⟨t, hrun, ht, hdepth⟩ := h
  refine ⟨t, ?_, ht, hdepth⟩
  unfold BlockParser.location
  change EStateM.tryCatch m _ s = _
  unfold EStateM.tryCatch
  unfold EStateM.run at hrun
  rw [hrun]

theorem yields_onTokens {tokens : List CodeToken} {parser : Parser α}
    (h : ∃ u, parser.run ⟨tokens, []⟩ = .ok a u) : Yields (onTokens tokens parser) s a s.rest := by
  obtain ⟨u, hrun⟩ := h
  refine ⟨{ s with joins := s.joins ++ u.joins }, ?_, rfl, rfl⟩
  unfold onTokens EStateM.run at *
  rw [hrun]

/-- Code that runs inside one more loop. -/
theorem yields_inner {f : α → BlockParser β}
    (h : Yields m { s with loopDepth := s.loopDepth + 1 } a rest)
    (hf : ∀ t, t.rest = rest → t.loopDepth = s.loopDepth → Yields (f a) t b rest') :
    Yields (do
      modify fun s => { s with loopDepth := s.loopDepth + 1 }
      let x ← m
      modify fun s => { s with loopDepth := s.loopDepth - 1 }
      f x) s b rest' := by
  obtain ⟨t, hrun, ht, hdepth⟩ := h
  have hdepth' : t.loopDepth - 1 = s.loopDepth := by
    rw [hdepth]
    rfl
  obtain ⟨u, hrun', hu, hdepth''⟩ := hf { t with loopDepth := t.loopDepth - 1 } ht hdepth'
  refine ⟨u, ?_, hu, hdepth''.trans hdepth'⟩
  change (m >>= fun x => _).run _ = _
  rw [EStateM.run_bind, hrun]
  exact hrun'

theorem yields_expression {position : Nat} {tokens : List CodeToken} {value : Expression}
    (h : ReadsExpression language limit tokens value) :
    Yields (BlockParser.expression language limit source position tokens) s value s.rest :=
  (yields_onTokens h).location

theorem yields_blockEnd {opening position : Nat} {expected closing : String} {value : List Char}
    (hs : s.rest = .command value position closing [] :: rest)
    (hclosing : closing = "end" ∨ closing = "end" ++ expected) :
    Yields (blockEnd source opening expected) s ⟨⟩ rest := by
  unfold blockEnd
  apply yields_get_bind
  rw [hs]
  dsimp only
  rw [if_neg]
  · exact ⟨{ s with rest := rest }, rfl, rfl, rfl⟩
  · rintro ⟨h, h'⟩
    exact hclosing.elim h h'

/-- A body that is given these strings reads every statement. -/
def Passes (stops : List String) : Prop := ∀ stop ∈ stops, stop = "elif" ∨ stop = "else"

theorem Passes.stopsAt {stops : List String} (h : Passes stops) {value : List Char}
    {position : Nat} {name : String} {tokens : List CodeToken}
    (hname : name ∈ ["if", "for", "set", "break", "continue"]) :
    stopsAt stops (.command value position name tokens) = false := by
  have hstops : name ∉ stops := by
    intro hmem
    rcases h name hmem with rfl | rfl
    · exact absurd hname (by decide)
    · exact absurd hname (by decide)
  have hterminators : name ∉ terminators := by
    intro hmem
    simp only [terminators, List.mem_cons, List.not_mem_nil, or_false] at hmem
    rcases hmem with rfl | rfl | rfl
    · exact absurd hname (by decide)
    · exact absurd hname (by decide)
    · exact absurd hname (by decide)
  rw [BlockParser.stopsAt, List.contains_eq_mem, List.contains_eq_mem, decide_eq_false hstops,
    decide_eq_false hterminators, Bool.and_false, Bool.or_false]

theorem stopped_nil (stops : List String) : Stopped stops [] := nofun

/-- A body ends in front of what closes its block. -/
theorem stopped_closing {stops : List String} (hstops : stops ≠ []) {value : List Char}
    {position : Nat} {name : String} {tokens : List CodeToken} {rest : List TemplateToken}
    (hname : name ∈ stops ∨ name ∈ terminators) :
    Stopped stops (.command value position name tokens :: rest) := by
  apply stopped_of_stopsAt
  rw [BlockParser.stopsAt, Bool.or_eq_true, Bool.and_eq_true]
  rcases hname with hname | hname
  · exact .inl (List.contains_iff_mem.mpr hname)
  · refine .inr ⟨?_, List.contains_iff_mem.mpr hname⟩
    cases stops with
    | nil => exact absurd rfl hstops
    | cons stop stops => rfl

theorem mem_terminators {closing expected : String}
    (hexpected : expected = "if" ∨ expected = "for")
    (h : closing = "end" ∨ closing = "end" ++ expected) : closing ∈ terminators := by
  rcases h with rfl | rfl
  · decide
  · rcases hexpected with rfl | rfl <;> decide

section Methods

variable {bd : List String → BlockParser (List Node)} {bound : Nat}

/-- Bodies with fewer tokens than a bound are read as the grammar says. -/
def BodyYields (language : Language) (limit bound : Nat)
    (bd : List String → BlockParser (List Node)) : Prop :=
  ∀ {stops taken nodes rest s}, Block language limit s.inLoop taken nodes → taken.length < bound →
    Passes stops → Stopped stops rest → s.rest = taken ++ rest → Yields (bd stops) s nodes rest

theorem passes_if : Passes ["elif", "else"] := by
  intro stop hstop
  simpa using hstop

theorem passes_for : Passes ["else"] := by
  intro stop hstop
  exact .inr (List.mem_singleton.mp hstop)

/-- What stands behind a branch: another one, or what closes the block. -/
theorem stopped_branches {inLoop : Bool} {taken rest : List TemplateToken}
    {others : List (Option Expression × List Node)}
    (h : Branches language limit inLoop taken others) (hrest : Stopped ["elif", "else"] rest) :
    Stopped ["elif", "else"] (taken ++ rest) := by
  cases h with
  | nil => exact hrest
  | elif _ _ _ => exact stopped_closing (List.cons_ne_nil _ _) (.inl (by decide))
  | «else» _ => exact stopped_closing (List.cons_ne_nil _ _) (.inl (by decide))

variable (hbd : BodyYields language limit bound bd)
include hbd

theorem yields_branches {fuel : Nat} {s : BlockCursor} {taken rest : List TemplateToken}
    {others : List (Option Expression × List Node)} {value : List Char} {position : Nat}
    {closing : String} (h : Branches language limit s.inLoop taken others)
    (hclosing : closing = "end" ∨ closing = "endif") (hfuel : taken.length ≤ fuel)
    (hbound : taken.length ≤ bound)
    (hs : s.rest = taken ++ .command value position closing [] :: rest) :
    Yields (branches language limit source bd fuel false) s others
      (.command value position closing [] :: rest) := by
  have hstop : Stopped ["elif", "else"] (.command value position closing [] :: rest) :=
    stopped_closing (List.cons_ne_nil _ _) (.inr (mem_terminators (.inl rfl) hclosing))
  have hname : closing ≠ "elif" ∧ closing ≠ "else" := by
    rcases hclosing with rfl | rfl <;> decide
  -- in front of the closing command the loop ends, before and after an `else`
  have hend : ∀ (next : Bool → BlockParser (List (Option Expression × List Node)))
      (seenElse : Bool) (t : BlockCursor), t.rest = .command value position closing [] :: rest →
      Yields (branch language limit source bd next seenElse) t []
        (.command value position closing [] :: rest) := by
    intro next seenElse t ht
    unfold branch
    apply yields_get_bind
    rw [ht]
    dsimp only
    rw [if_pos hname]
    exact yields_pure ht
  have hloop : ∀ (fuel : Nat) (seenElse : Bool) (t : BlockCursor),
      t.rest = .command value position closing [] :: rest →
      Yields (branches language limit source bd fuel seenElse) t []
        (.command value position closing [] :: rest) := by
    intro fuel seenElse t ht
    cases fuel with
    | zero => exact hend _ seenElse t ht
    | succ fuel => exact hend _ seenElse t ht
  induction fuel generalizing s taken others with
  | zero =>
      cases h with
      | nil => exact hloop 0 false s hs
      | elif _ _ _ => exact absurd hfuel (Nat.not_succ_le_zero _)
      | «else» _ => exact absurd hfuel (Nat.not_succ_le_zero _)
  | succ fuel ih =>
      cases h with
      | nil => exact hloop (fuel + 1) false s hs
      | @elif _ value' position' tokens expression body others' inner branches' hexpression hbody
            hothers =>
          simp only [List.length_cons, List.length_append] at hfuel hbound
          unfold branches branch
          apply yields_get_bind
          rw [hs]
          dsimp only [List.cons_append]
          rw [if_neg (by decide), if_neg Bool.false_ne_true]
          apply yields_take_bind
          rw [if_neg (by decide)]
          apply (yields_expression hexpression).bind
          intro t ht hdepth
          have hinner : t.inLoop = s.inLoop := BlockCursor.inLoop_congr hdepth
          apply (@hbd _ _ _ (others' ++ TemplateToken.command value position closing [] :: rest) _
            (hinner ▸ hbody) (by omega) passes_if (stopped_branches hothers hstop) ?_).bind
          · intro u hu hdepth'
            have hinner' : u.inLoop = s.inLoop := (BlockCursor.inLoop_congr hdepth').trans hinner
            exact (ih (hinner' ▸ hothers) (by omega) (by omega) hu).map
          · rw [ht, List.append_assoc]
      | @«else» _ value' position' body inner hbody =>
          simp only [List.length_cons] at hfuel hbound
          unfold branches branch
          apply yields_get_bind
          rw [hs]
          dsimp only [List.cons_append]
          rw [if_neg (by decide), if_neg Bool.false_ne_true]
          apply yields_take_bind
          rw [if_pos rfl, if_neg (not_not.mpr rfl)]
          refine Yields.bind (m := bd ["elif", "else"]) (hbd hbody (by omega) passes_if hstop rfl) ?_
          intro u hu hdepth
          exact (hloop fuel true u hu).map

theorem yields_otherwise {s : BlockCursor} {taken rest : List TemplateToken} {nodes : List Node}
    {value : List Char} {position : Nat} {closing : String}
    (h : Otherwise language limit s.inLoop taken nodes)
    (hclosing : closing = "end" ∨ closing = "endfor") (hbound : taken.length ≤ bound)
    (hs : s.rest = taken ++ .command value position closing [] :: rest) :
    Yields (otherwise source bd) s nodes (.command value position closing [] :: rest) := by
  have hname : closing ≠ "else" := by
    rcases hclosing with rfl | rfl <;> decide
  unfold otherwise
  apply yields_get_bind
  rw [hs]
  cases h with
  | nil =>
      dsimp only [List.nil_append]
      rw [if_pos hname]
      exact yields_pure hs
  | «else» hbody =>
      dsimp only [List.cons_append]
      rw [if_neg (by decide), if_neg (not_not.mpr rfl)]
      apply yields_take_bind
      exact hbd hbody hbound passes_for
        (stopped_closing (List.cons_ne_nil _ _) (.inr (mem_terminators (.inr rfl) hclosing))) rfl

theorem yields_condition {s : BlockCursor} {body others rest : List TemplateToken}
    {opening position : Nat} {tokens : List CodeToken} {expression : Expression}
    {inner : List Node} {branches : List (Option Expression × List Node)} {value : List Char}
    {closing : String} (hexpression : ReadsExpression language limit tokens expression)
    (hbody : Block language limit s.inLoop body inner)
    (hothers : Branches language limit s.inLoop others branches)
    (hclosing : closing = "end" ∨ closing = "endif") (hbound : body.length + others.length < bound)
    (hs : s.rest = body ++ (others ++ .command value position closing [] :: rest)) :
    Yields (condition language limit source bd opening tokens) s
      (.condition opening ((some expression, inner) :: branches)) rest := by
  have hstop : Stopped ["elif", "else"] (.command value position closing [] :: rest) :=
    stopped_closing (List.cons_ne_nil _ _) (.inr (mem_terminators (.inl rfl) hclosing))
  unfold condition
  apply (yields_expression hexpression).bind
  intro t ht hdepth
  have ht' : t.inLoop = s.inLoop := BlockCursor.inLoop_congr hdepth
  apply (hbd (ht' ▸ hbody) (by omega) passes_if (stopped_branches hothers hstop)
    (ht.trans hs)).bind
  intro u hu hdepth'
  have hu' : u.inLoop = s.inLoop := (BlockCursor.inLoop_congr hdepth').trans ht'
  apply yields_get_bind
  apply (yields_branches hbd (hu' ▸ hothers) hclosing (by rw [hu]; simp) (by omega) hu).bind
  intro v hv _
  have hend : Yields (blockEnd source opening "if") v ⟨⟩ rest := yields_blockEnd hv hclosing
  exact hend.map

theorem yields_loop {s : BlockCursor} {body others rest : List TemplateToken}
    {opening position : Nat} {tokens : List CodeToken} {target : AssignmentTarget}
    {iterable : Expression} {inner nodes : List Node} {value : List Char} {closing : String}
    (hheader : ReadsHeader language limit "in" tokens target iterable)
    (hbody : Block language limit true body inner)
    (hothers : Otherwise language limit s.inLoop others nodes)
    (hclosing : closing = "end" ∨ closing = "endfor") (hbound : body.length + others.length < bound)
    (hs : s.rest = body ++ (others ++ .command value position closing [] :: rest)) :
    Yields (loop language limit source bd opening tokens) s
      (.loop opening target iterable inner nodes) rest := by
  have hstop : Stopped ["else"] (others ++ .command value position closing [] :: rest) := by
    cases hothers with
    | nil =>
        exact stopped_closing (List.cons_ne_nil _ _) (.inr (mem_terminators (.inr rfl) hclosing))
    | «else» _ => exact stopped_closing (List.cons_ne_nil _ _) (.inl (by decide))
  unfold loop
  apply (yields_onTokens hheader).bind
  intro t ht hdepth
  apply yields_inner
  · exact hbd hbody (by omega) passes_for hstop (ht.trans hs)
  · intro u hu hdepth'
    have hu' : u.inLoop = s.inLoop := BlockCursor.inLoop_congr (hdepth'.trans hdepth)
    apply (yields_otherwise hbd (hu' ▸ hothers) hclosing (by omega) hu).bind
    intro v hv _
    have hend : Yields (blockEnd source opening "for") v ⟨⟩ rest := yields_blockEnd hv hclosing
    exact hend.map

omit hbd in
/-- The statement at the front is read, then the statements behind it. -/
theorem yields_statement {fuel : Nat} {stops : List String} {s : BlockCursor}
    {token : TemplateToken} {taken behind rest : List TemplateToken} {node : Option Node}
    {nodes : List Node} (hs : s.rest = token :: taken) (hstop : stopsAt stops token = false)
    (hnode : Yields (statement language limit source bd token) { s with rest := taken } node behind)
    (hnodes : ∀ t : BlockCursor, t.rest = behind → t.loopDepth = s.loopDepth →
      Yields (statements language limit source bd stops fuel) t nodes rest) :
    Yields (statements language limit source bd stops (fuel + 1)) s (node.toList ++ nodes) rest := by
  unfold statements
  apply yields_get_bind
  rw [hs]
  dsimp only
  rw [hstop, if_neg Bool.false_ne_true]
  apply yields_take_bind
  apply hnode.location.bind
  intro t ht hdepth
  exact (hnodes t ht hdepth).map

omit hbd in
theorem yields_command {fuel : Nat} {stops : List String} {s : BlockCursor} {value : List Char}
    {position : Nat} {name : String} {tokens : List CodeToken}
    {taken behind rest : List TemplateToken} {node : Node} {nodes : List Node}
    (hs : s.rest = .command value position name tokens :: taken) (hstops : Passes stops)
    (hname : name ∈ ["if", "for", "set", "break", "continue"])
    (hnode : Yields (command language limit source bd position name tokens)
      { s with rest := taken } node behind)
    (hnodes : ∀ t : BlockCursor, t.rest = behind → t.loopDepth = s.loopDepth →
      Yields (statements language limit source bd stops fuel) t nodes rest) :
    Yields (statements language limit source bd stops (fuel + 1)) s (node :: nodes) rest :=
  yields_statement hs (hstops.stopsAt hname) hnode.map hnodes

/-- One statement after another. -/
theorem yields_statements {fuel : Nat} {stops : List String} {s : BlockCursor} {inLoop : Bool}
    {taken rest : List TemplateToken} {nodes : List Node}
    (h : Block language limit inLoop taken nodes) (hinLoop : s.inLoop = inLoop)
    (hfuel : taken.length ≤ fuel) (hbound : taken.length ≤ bound) (hstops : Passes stops)
    (hrest : Stopped stops rest) (hs : s.rest = taken ++ rest) :
    Yields (statements language limit source bd stops fuel) s nodes rest := by
  have hend : ∀ (fuel : Nat) (s : BlockCursor), s.rest = rest →
      Yields (statements language limit source bd stops fuel) s [] rest := by
    intro fuel s hs
    unfold statements
    apply yields_get_bind
    rw [hs]
    cases rest with
    | nil => exact yields_pure hs
    | cons token rest =>
        dsimp only
        rw [(hrest token rfl).2, if_pos rfl]
        exact yields_pure hs
  induction fuel generalizing s taken nodes with
  | zero =>
      obtain rfl := List.length_eq_zero_iff.mp (Nat.le_zero.mp hfuel)
      cases h
      exact hend 0 s hs
  | succ fuel ih =>
      have hnext : ∀ {behind : List TemplateToken} {nodes : List Node},
          Block language limit inLoop behind nodes → behind.length < taken.length →
          ∀ t : BlockCursor, t.rest = behind ++ rest → t.loopDepth = s.loopDepth →
          Yields (statements language limit source bd stops fuel) t nodes rest := by
        intro behind nodes hblock hlength t ht hdepth
        exact ih hblock ((BlockCursor.inLoop_congr hdepth).trans hinLoop) (by omega) (by omega) ht
      cases h with
      | nil => exact hend (fuel + 1) s hs
      | text hblock => exact yields_statement hs rfl (yields_pure rfl) (hnext hblock (by simp))
      | output hexpression hblock =>
          exact yields_statement hs rfl (yields_expression hexpression).map (hnext hblock (by simp))
      | comment hblock => exact yields_statement hs rfl (yields_pure rfl) (hnext hblock (by simp))
      | assignment hheader hblock =>
          refine yields_command hs hstops (by decide) ?_ (hnext hblock (by simp))
          exact (yields_onTokens hheader).bind fun t ht _ => yields_pure ht
      | «break» hblock =>
          refine yields_command hs hstops (by decide) ?_ (hnext hblock (by simp))
          have hdepth : s.loopDepth ≠ 0 := bne_iff_ne.mp hinLoop
          unfold command
          apply yields_get_bind
          dsimp only
          rw [if_neg hdepth]
          exact yields_pure rfl
      | «continue» hblock =>
          refine yields_command hs hstops (by decide) ?_ (hnext hblock (by simp))
          have hdepth : s.loopDepth ≠ 0 := bne_iff_ne.mp hinLoop
          unfold command
          apply yields_get_bind
          dsimp only
          rw [if_neg hdepth]
          exact yields_pure rfl
      | condition hexpression hbody hothers hclosing hblock =>
          subst hinLoop
          simp only [List.length_cons, List.length_append] at hbound
          refine yields_command (by simpa using hs) hstops (by decide) ?_
            (hnext hblock (by simp only [List.length_cons, List.length_append]; omega))
          exact yields_condition hbd hexpression hbody hothers hclosing (by omega) rfl
      | loop hheader hbody hothers hclosing hblock =>
          subst hinLoop
          simp only [List.length_cons, List.length_append] at hbound
          refine yields_command (by simpa using hs) hstops (by decide) ?_
            (hnext hblock (by simp only [List.length_cons, List.length_append]; omega))
          exact yields_loop hbd hheader hbody hothers hclosing (by omega) rfl

end Methods

/-- With enough nested bodies every block is read. -/
theorem yields_body (depth : Nat) : BodyYields language limit depth (body language limit source depth) := by
  induction depth with
  | zero =>
      intro _ _ _ _ _ _ hlength
      exact absurd hlength (Nat.not_lt_zero _)
  | succ depth ih =>
      intro stops taken nodes rest s hblock hlength hstops hrest hs
      unfold body
      apply yields_get_bind
      apply yields_statements ih hblock rfl _ (Nat.lt_succ_iff.mp hlength) hstops hrest hs
      rw [hs, List.length_append]
      exact Nat.le_add_right _ _

end Complete

end Sound

/-! ## What the tree holds -/

section Entries

/-- What stands at one place of a template. The condition of an `elif` has no position. -/
inductive Entry where
  | text (position : Nat) (text : String)
  | output (position : Nat) (expression : Expression)
  | assignment (position : Nat) (target : AssignmentTarget) (expression : Expression)
  | condition (position : Nat) (expression : Expression)
  | elif (expression : Expression)
  | loop (position : Nat) (target : AssignmentTarget) (iterable : Expression)
  | break (position : Nat)
  | continue (position : Nat)

def Entry.position : Entry → Option Nat
  | .text position _ | .output position _ | .assignment position _ _ | .condition position _
  | .loop position _ _ | .break position | .continue position => some position
  | .elif _ => none

mutual

/-- The entries of a node, in the order of the source. -/
def Node.entries : Node → List Entry
  | .text position text => [.text position text]
  | .output position expression => [.output position expression]
  | .assignment position target expression => [.assignment position target expression]
  | .condition position branches => branchEntries (.condition position) branches
  | .loop position target iterable body otherwise =>
      .loop position target iterable :: (entries body ++ entries otherwise)
  | .break position => [.break position]
  | .continue position => [.continue position]

/-- The tree, flattened in order. -/
def entries : List Node → List Entry
  | [] => []
  | node :: rest => node.entries ++ entries rest

/-- The entries of branches, over what stands for the condition of the first one. -/
def branchEntries (first : Expression → Entry) :
    List (Option Expression × List Node) → List Entry
  | [] => []
  | (none, body) :: rest => entries body ++ branchEntries .elif rest
  | (some expression, body) :: rest => first expression :: (entries body ++ branchEntries .elif rest)

end

/-- Whether a token leaves an entry of its own: comments, `else` and terminators do not. -/
def TemplateToken.isEntry : TemplateToken → Bool
  | .text _ _ | .expression _ _ _ => true
  | .comment _ _ => false
  | .command _ _ name _ => name != "else" && !terminators.contains name

variable (language : Language) (limit : Nat)

/-- The entry of a token. -/
inductive Written : TemplateToken → Entry → Prop
  | text (value : List Char) (position : Nat) :
      Written (.text value position) (.text position (String.ofList value))
  | output {value : List Char} {position : Nat} {tokens : List CodeToken} {expression : Expression}
      (h : ReadsExpression language limit tokens expression) :
      Written (.expression value position tokens) (.output position expression)
  | assignment {value : List Char} {position : Nat} {tokens : List CodeToken}
      {target : AssignmentTarget} {expression : Expression}
      (h : ReadsHeader language limit "=" tokens target expression) :
      Written (.command value position "set" tokens) (.assignment position target expression)
  | condition {value : List Char} {position : Nat} {tokens : List CodeToken}
      {expression : Expression} (h : ReadsExpression language limit tokens expression) :
      Written (.command value position "if" tokens) (.condition position expression)
  | elif {value : List Char} {position : Nat} {tokens : List CodeToken} {expression : Expression}
      (h : ReadsExpression language limit tokens expression) :
      Written (.command value position "elif" tokens) (.elif expression)
  | loop {value : List Char} {position : Nat} {tokens : List CodeToken}
      {target : AssignmentTarget} {iterable : Expression}
      (h : ReadsHeader language limit "in" tokens target iterable) :
      Written (.command value position "for" tokens) (.loop position target iterable)
  | break (value : List Char) (position : Nat) :
      Written (.command value position "break" []) (.break position)
  | continue (value : List Char) (position : Nat) :
      Written (.command value position "continue" []) (.continue position)

/-- The entries are those of the tokens that leave one, in order. -/
def Lists (tokens : List TemplateToken) (found : List Entry) : Prop :=
  List.Forall₂ (Written language limit) (tokens.filter TemplateToken.isEntry) found

variable {language : Language} {limit : Nat}

theorem lists_nil : Lists language limit [] [] := List.Forall₂.nil

theorem Lists.append {tokens tokens' : List TemplateToken} {found found' : List Entry}
    (h : Lists language limit tokens found) (h' : Lists language limit tokens' found') :
    Lists language limit (tokens ++ tokens') (found ++ found') := by
  unfold Lists
  rw [List.filter_append]
  exact List.rel_append h h'

theorem Lists.cons {token : TemplateToken} {entry : Entry} {tokens : List TemplateToken}
    {found : List Entry} (hentry : token.isEntry = true) (hwritten : Written language limit token entry)
    (h : Lists language limit tokens found) :
    Lists language limit (token :: tokens) (entry :: found) := by
  unfold Lists
  rw [List.filter_cons_of_pos hentry]
  exact .cons hwritten h

theorem Lists.skip {token : TemplateToken} {tokens : List TemplateToken} {found : List Entry}
    (hentry : token.isEntry = false) (h : Lists language limit tokens found) :
    Lists language limit (token :: tokens) found := by
  unfold Lists
  rw [List.filter_cons_of_neg (by rw [hentry]; exact Bool.false_ne_true)]
  exact h

theorem isEntry_closing {value : List Char} {position : Nat} {closing expected : String}
    (hexpected : expected = "if" ∨ expected = "for")
    (h : closing = "end" ∨ closing = "end" ++ expected) :
    (TemplateToken.command value position closing []).isEntry = false := by
  rw [TemplateToken.isEntry, List.contains_iff_mem.mpr (mem_terminators hexpected h)]
  exact Bool.and_false _

/-- The entries of a tree are those that its tokens leave. -/
theorem Block.lists {inLoop : Bool} {tokens : List TemplateToken} {nodes : List Node}
    (h : Block language limit inLoop tokens nodes) : Lists language limit tokens (entries nodes) := by
  apply @Block.rec language limit (fun _ tokens nodes _ => Lists language limit tokens (entries nodes))
    (fun _ tokens branches _ => Lists language limit tokens (branchEntries .elif branches))
    (fun _ tokens nodes _ => Lists language limit tokens (entries nodes)) _ _ _ _ _ _ _ _ _
    _ _ _ _ _ _ _ _ h
  -- the body of a block
  · intro _
    exact lists_nil
  · intro _ _ _ _ _ _ ih
    exact ih.cons rfl (.text _ _)
  · intro _ _ _ _ _ _ _ hexpression _ ih
    exact ih.cons rfl (.output hexpression)
  · intro _ _ _ _ _ _ ih
    exact ih.skip rfl
  · intro _ _ _ _ _ _ _ _ hheader _ ih
    exact ih.cons rfl (.assignment hheader)
  · intro _ _ _ _ _ ih
    exact ih.cons rfl (.break _ _)
  · intro _ _ _ _ _ ih
    exact ih.cons rfl (.continue _ _)
  · intro _ _ _ _ _ _ _ _ _ _ _ _ _ _ hexpression _ _ hclosing _ ihbody ihothers ih
    rw [entries, Node.entries, branchEntries, List.cons_append, List.append_assoc]
    refine (ihbody.append (ihothers.append ?_)).cons rfl (.condition hexpression)
    exact ih.skip (isEntry_closing (.inl rfl) hclosing)
  · intro _ _ _ _ _ _ _ _ _ _ _ _ _ _ _ hheader _ _ hclosing _ ihbody ihothers ih
    rw [entries, Node.entries, List.cons_append, List.append_assoc]
    refine (ihbody.append (ihothers.append ?_)).cons rfl (.loop hheader)
    exact ih.skip (isEntry_closing (.inr rfl) hclosing)
  -- the branches of an `if`
  · intro _
    exact lists_nil
  · intro _ _ _ _ _ _ _ _ _ hexpression _ _ ihbody ihothers
    exact (ihbody.append ihothers).cons rfl (.elif hexpression)
  · intro _ _ _ _ _ _ ih
    rw [branchEntries, branchEntries, List.append_nil]
    exact ih.skip rfl
  -- the `else` part of a loop
  · intro _
    exact lists_nil
  · intro _ _ _ _ _ _ ih
    exact ih.skip rfl

end Entries

section Accepted

variable {language : Language} {limit : Nat} {source : List Char}

theorem eq_nil_of_stopped {rest : List TemplateToken} (h : Stopped [] rest) : rest = [] := by
  cases rest with
  | nil => rfl
  | cons token rest =>
      obtain ⟨value, position, name, tokens, rfl⟩ := h.command
      exact absurd (h _ rfl).2 Bool.false_ne_true

/-- What `body` returns at the top level is what the grammar gives. -/
theorem block_of_body {depth : Nat} {tokens : List TemplateToken} {nodes : List Node}
    {s : BlockCursor} (h : (body language limit source depth []).run ⟨tokens, 0, []⟩ = .ok nodes s) :
    Block language limit false tokens nodes := by
  obtain ⟨⟨-, taken, htaken, hblock⟩, hstopped⟩ := (ensures_body depth [] ⟨tokens, 0, []⟩).ok h
  rw [eq_nil_of_stopped hstopped, List.append_nil] at htaken
  rw [show tokens = taken from htaken]
  exact hblock

theorem body_ne_assertionError {depth : Nat} {stops : List String} {s t : BlockCursor}
    {e : CompileError} (h : (body language limit source depth stops).run s = .error e t) :
    e ≠ .raised .assertionError :=
  (ensures_body depth stops s).error h

/-- `TemplateParser.body` at the top level accepts the sequences of the grammar and no others, with
the nodes of the grammar. The tree holds every text, every expression and every command that opens
a block or is a statement, in order and once, each `elif` by its condition, and nothing else. No
assertion fails, at any depth of the parser. -/
theorem body_accepts {depth : Nat} {tokens : List TemplateToken} (hdepth : tokens.length < depth) :
    (∀ nodes, (∃ s, (body language limit source depth []).run ⟨tokens, 0, []⟩ = .ok nodes s) ↔
      Block language limit false tokens nodes) ∧
    (∀ nodes s, (body language limit source depth []).run ⟨tokens, 0, []⟩ = .ok nodes s →
      List.Forall₂ (Written language limit) (tokens.filter TemplateToken.isEntry) (entries nodes)) ∧
    ∀ depth stops s e t, (body language limit source depth stops).run s = .error e t →
      e ≠ .raised .assertionError := by
  refine ⟨?_, ?_, ?_⟩
  · intro nodes
    constructor
    · rintro ⟨s, h⟩
      exact block_of_body h
    · intro h
      have hpasses : Passes [] := nofun
      obtain ⟨t, hrun, -⟩ := yields_body depth (s := ⟨tokens, 0, []⟩) h hdepth hpasses
        (stopped_nil []) (List.append_nil tokens).symm
      exact ⟨t, hrun⟩
  · intro nodes s h
    exact (block_of_body h).lists
  · intro depth stops s e t
    exact body_ne_assertionError

/-- A tokenizer for one line of words and operators of one character. -/
def wordsFrom (column : Nat) (word : List Char) : List Char → List PythonToken
  | [] => if word.isEmpty then [] else [⟨.name, String.ofList word, 1, column - word.length⟩]
  | c :: rest =>
      if c.isAlpha then
        wordsFrom (column + 1) (word ++ [c]) rest
      else
        (if word.isEmpty then [] else [⟨.name, String.ofList word, 1, column - word.length⟩]) ++
          (if c = ' ' then [] else [⟨.op, String.ofList [c], 1, column⟩]) ++
          wordsFrom (column + 1) [] rest

def wordTokenizer : Tokenizer where
  generateTokens text := (⟨.op, "(", 1, 0⟩ ::
    (wordsFrom 1 [] text.tail).filter fun token => token.row = 1 ∧ 1 ≤ token.column, false)
  starts _ := .inl (List.cons_ne_nil _ _)
  placed text := by
    intro token htoken
    obtain ⟨hrow, hcolumn⟩ := of_decide_eq_true (List.mem_filter.mp htoken).2
    exact ⟨by omega, by omega, fun _ => hcolumn⟩

/-- A language without literals and filters, in which every word is an identifier. -/
def wordLanguage : Language where
  isIdentifier word := word.toList.all Char.isAlpha
  repr word := word
  literalEval _ := .error (.valueError "malformed node or string")
  filters _ := false

/-- A source with an `if`, an `elif` and an `end`. -/
def elifSource : List Char := "{% if x %}{% elif y %}{% end %}".toList

def elifTokens : List TemplateToken :=
  [.command " if x ".toList 0 "if" [⟨.name, "x", 6⟩],
    .command " elif y ".toList 10 "elif" [⟨.name, "y", 18⟩], .command " end ".toList 22 "end" []]

theorem tokenize_elifTokens : tokenize wordTokenizer elifSource = .ok elifTokens := by
  decide +kernel

/-- The positions in the tree that the parser returns. -/
def positions : EStateM.Result CompileError BlockCursor (List Node) → Option (List (Option Nat))
  | .ok nodes _ => some ((entries nodes).map Entry.position)
  | .error _ _ => none

theorem body_elifTokens :
    ∃ nodes s, (body wordLanguage 4 elifSource 4 []).run ⟨elifTokens, 0, []⟩ = .ok nodes s ∧
      (entries nodes).map Entry.position = [some 0, none] := by
  have h : positions ((body wordLanguage 4 elifSource 4 []).run ⟨elifTokens, 0, []⟩) =
      some [some 0, none] := by
    decide +kernel
  cases hrun : (body wordLanguage 4 elifSource 4 []).run ⟨elifTokens, 0, []⟩ with
  | ok nodes s =>
      rw [hrun] at h
      exact ⟨nodes, s, rfl, Option.some.inj h⟩
  | error e s =>
      rw [hrun] at h
      cases h

theorem body_accepts_elif : ∃ nodes, Block wordLanguage 4 false elifTokens nodes ∧
    List.Forall₂ (Written wordLanguage 4) (elifTokens.filter TemplateToken.isEntry) (entries nodes) := by
  obtain ⟨nodes, s, hrun, -⟩ := body_elifTokens
  have haccepts := @body_accepts wordLanguage 4 elifSource 4 elifTokens (by decide)
  exact ⟨nodes, (haccepts.1 nodes).mp ⟨s, hrun⟩, haccepts.2.1 nodes s hrun⟩

/-- Not every command has a place of its own in the tree: an `elif` and an `end` leave none. -/
theorem body_omits_commands :
    ¬ ∀ (tokenizer : Tokenizer) (language : Language) (limit depth : Nat) (source : List Char)
      (tokens : List TemplateToken) (nodes : List Node) (s : BlockCursor),
      tokenize tokenizer source = .ok tokens → tokens.length < depth →
      (body language limit source depth []).run ⟨tokens, 0, []⟩ = .ok nodes s →
      ∀ value position name arguments, .command value position name arguments ∈ tokens →
        some position ∈ (entries nodes).map Entry.position := by
  intro h
  obtain ⟨nodes, s, hrun, hpositions⟩ := body_elifTokens
  have helif := h wordTokenizer wordLanguage 4 4 _ elifTokens nodes s tokenize_elifTokens
    (by decide) hrun " elif y ".toList 10 "elif" [⟨.name, "y", 18⟩] (.tail _ (.head _))
  rw [hpositions] at helif
  exact absurd helif (by decide)

end Accepted

end Templates

end Rmote
