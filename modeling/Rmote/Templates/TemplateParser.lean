import Rmote.Templates.ExpressionParser

/-!
# The block parser and `Template.compile`

`TemplateParser` builds the nodes of a program from the tokens of the lexer. `location`
turns the errors of a tag into located ones; an error that is located already passes. As
in the expression parser, the methods are written over the code that a nested body runs,
and a bound on the nested bodies stands for Python's recursion limit.
-/

namespace Rmote

namespace Templates

/-- The state of `TemplateParser`: the tokens from `index` on and the loops around them,
beside the joins of the expression parsers that ran. -/
structure BlockCursor where
  rest : List TemplateToken
  loopDepth : Nat
  joins : List (Constant × Constant)

abbrev BlockParser := EStateM CompileError BlockCursor

namespace BlockParser

/-- An `ExpressionParser` of its own on the tokens of a tag. -/
def onTokens {α : Type} (tokens : List CodeToken) (parser : Parser α) : BlockParser α :=
  fun s => match parser ⟨tokens, []⟩ with
    | .ok value t => .ok value { s with joins := s.joins ++ t.joins }
    | .error e t => .error (.raised e) { s with joins := s.joins ++ t.joins }

/-- `location`. -/
def location {α : Type} (source : List Char) (position : Nat) (m : BlockParser α) :
    BlockParser α :=
  tryCatch m fun e =>
    match e with
    | .located e => throw (.located e)
    | .raised e =>
        if e.isCaught then
          throw (.located (sourceError source e.message position))
        else
          throw (.raised e)

def raiseAt {α : Type} (source : List Char) (message : String) (position : Nat) :
    BlockParser α :=
  throw (.located (sourceError source message position))

def terminators : List String :=
  ["end", "endif", "endfor"]

section Methods

variable (language : Language) (limit : Nat) (source : List Char)
  (body : List String → BlockParser (List Node))

/-- `TemplateParser.expression`. -/
def expression (position : Nat) (tokens : List CodeToken) : BlockParser Expression :=
  location source position (onTokens tokens (Parser.parse language limit false))

/-- `TemplateParser.end`. -/
def blockEnd (opening : Nat) (expected : String) : BlockParser PUnit := do
  match (← get).rest with
  | [] => raiseAt source ("Unclosed " ++ expected) opening
  | .command _ position name tokens :: rest =>
      if name ≠ "end" ∧ name ≠ "end" ++ expected then
        raiseAt source ("Expected end" ++ expected ++ ", got " ++ name) position
      if tokens ≠ [] then
        raiseAt source "Unexpected text after block terminator" position
      modify fun s => { s with rest := rest }
  | _ => throw (.raised .assertionError)

/-- One round of the loop of `condition`, over the rounds after it. -/
def branch (next : Bool → BlockParser (List (Option Expression × List Node))) (seenElse : Bool) :
    BlockParser (List (Option Expression × List Node)) := do
  match (← get).rest with
  | [] => return []
  | .command _ position name tokens :: rest =>
      if name ≠ "elif" ∧ name ≠ "else" then
        return []
      if seenElse then
        raiseAt source ("Unexpected " ++ name ++ " after else") position
      modify fun s => { s with rest := rest }
      if name = "else" then
        if tokens ≠ [] then
          raiseAt source "Unexpected text after else" position
        let nodes ← body ["elif", "else"]
        let others ← next true
        return (none, nodes) :: others
      let condition ← expression language limit source position tokens
      let nodes ← body ["elif", "else"]
      let others ← next seenElse
      return (some condition, nodes) :: others
  | _ => throw (.raised .assertionError)

/-- The loop of `condition` over the branches after the first one. -/
def branches : Nat → Bool → BlockParser (List (Option Expression × List Node))
  | 0 => branch language limit source body fun _ => throw (.raised .stuck)
  | fuel + 1 => branch language limit source body (branches fuel)

/-- `TemplateParser.condition`. -/
def condition (opening : Nat) (tokens : List CodeToken) : BlockParser Node := do
  let condition ← expression language limit source opening tokens
  let nodes ← body ["elif", "else"]
  let others ← branches language limit source body (← get).rest.length false
  blockEnd source opening "if"
  return .condition opening ((some condition, nodes) :: others)

/-- The `else` part of a loop. -/
def otherwise : BlockParser (List Node) := do
  match (← get).rest with
  | [] => return []
  | .command _ position name tokens :: rest =>
      if name ≠ "else" then
        return []
      if tokens ≠ [] then
        raiseAt source "Unexpected text after else" position
      modify fun s => { s with rest := rest }
      body ["else"]
  | _ => throw (.raised .assertionError)

/-- `TemplateParser.loop`. -/
def loop (opening : Nat) (tokens : List CodeToken) : BlockParser Node := do
  let (target, iterable) ← onTokens tokens (Parser.header language limit "in")
  modify fun s => { s with loopDepth := s.loopDepth + 1 }
  let nodes ← body ["else"]
  modify fun s => { s with loopDepth := s.loopDepth - 1 }
  let others ← otherwise source body
  blockEnd source opening "for"
  return .loop opening target iterable nodes others

/-- The commands of `statement`. -/
def command (position : Nat) (name : String) (tokens : List CodeToken) : BlockParser Node := do
  if name = "if" then
    condition language limit source body position tokens
  else if name = "for" then
    loop language limit source body position tokens
  else if name = "set" then
    let (target, value) ← onTokens tokens (Parser.header language limit "=")
    return .assignment position target value
  else if (name = "break" ∨ name = "continue") ∧ tokens = [] then
    if (← get).loopDepth = 0 then
      throw (.raised (.syntaxError (name ++ " outside loop")))
    return if name = "break" then .break position else .continue position
  else if terminators.contains name then
    throw (.raised (.syntaxError "Unexpected block terminator"))
  else if name = "elif" ∨ name = "else" then
    throw (.raised (.syntaxError ("Unexpected " ++ name)))
  else
    throw (.raised (.syntaxError ("Unsupported template command: " ++ name)))

/-- `TemplateParser.statement`. -/
def statement : TemplateToken → BlockParser (Option Node)
  | .text value position => return some (.text position (String.ofList value))
  | .expression _ position tokens => do
      let value ← expression language limit source position tokens
      return some (.output position value)
  | .comment _ _ => return none
  | .command _ position name tokens => do
      let node ← command language limit source body position name tokens
      return some node

/-- Whether `body` ends before a token. -/
def stopsAt (stops : List String) : TemplateToken → Bool
  | .command _ _ name _ =>
      stops.contains name || (!stops.isEmpty && terminators.contains name)
  | _ => false

/-- The loop of `body`. -/
def statements (stops : List String) (fuel : Nat) : BlockParser (List Node) := do
  match (← get).rest with
  | [] => return []
  | token :: rest =>
      if stopsAt stops token then
        return []
      match fuel with
      | 0 => throw (.raised .stuck)
      | fuel + 1 => do
          modify fun s => { s with rest := rest }
          let node ← location source token.position
            (statement language limit source body token)
          let nodes ← statements stops fuel
          return node.toList ++ nodes

end Methods

/-- `TemplateParser.body`, with as many nested bodies as the first number. -/
def body (language : Language) (limit : Nat) (source : List Char) :
    Nat → List String → BlockParser (List Node)
  | 0, _ => throw (.raised .recursionError)
  | depth + 1, stops => do
      statements language limit source (body language limit source depth) stops
        (← get).rest.length

end BlockParser

/-- `Template.compile`: the lexer, then the block parser over its tokens. `limit` bounds the
nested expressions and the nested blocks. -/
def compile (tokenizer : Tokenizer) (language : Language) (limit : Nat) (source : List Char) :
    EStateM.Result CompileError BlockCursor (List Node) :=
  match tokenize tokenizer source with
  | .error e => .error e ⟨[], 0, []⟩
  | .ok tokens => (BlockParser.body language limit source (limit + 1) []).run ⟨tokens, 0, []⟩

end Templates

end Rmote
