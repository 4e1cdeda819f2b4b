import Rmote.Templates.Lexer
import Rmote.Templates.Program

/-!
# The expression parser

The Pratt parser of the engine. Its state is what is left of the tokens of one tag, and its
calls nest through `expression` only, so the methods are written over the parser `self`
that a nested call runs; `expression` ties the knot with a bound on the nested calls, after
which Python raises `RecursionError`. Every `while` loop runs with one unit of fuel for each
token that is left.

`joins` is a history variable: the literals that `+=` was applied to.
-/

namespace Rmote

namespace Templates

/-- `keyword.kwlist`. -/
def keywords : List String :=
  ["False", "None", "True", "and", "as", "assert", "async", "await", "break", "class",
    "continue", "def", "del", "elif", "else", "except", "finally", "for", "from", "global",
    "if", "import", "in", "is", "lambda", "nonlocal", "not", "or", "pass", "raise", "return",
    "try", "while", "with", "yield"]

/-- `+` of two texts or of two bytes values. Nothing else can be added to one of them. -/
def Constant.add : Constant → Constant → Option Constant
  | .str value, .str other => some (.str (value ++ other))
  | .bytes value, .bytes other => some (.bytes (value ++ other))
  | _, _ => Option.none

/-- The exceptions of `ast.literal_eval` on a token. -/
inductive LiteralError where
  | syntaxError (message : String)
  | valueError (message : String)
  deriving DecidableEq, Repr

/-- What the parser uses of Python and of the filter set: `str.isidentifier`, `repr` of a
string, `ast.literal_eval`, and the names of the filters. -/
structure Language where
  isIdentifier : String → Bool
  repr : String → String
  literalEval : String → Except LiteralError Constant
  filters : String → Bool

/-- The names that `template_identifier` accepts. -/
def Language.isPublic (language : Language) (name : String) : Bool :=
  language.isIdentifier name && !keywords.contains name && name.toList.head? ≠ some '_'

/-- The keys of `PRECEDENCE`. -/
inductive Operation where
  | attribute
  | subscript
  | filter
  | conditional
  | comparison (operator : ComparisonOperator)
  | binary (operator : BinaryOperator)
  deriving DecidableEq, Repr

def Operation.ofString : String → Option Operation
  | "if" => some .conditional
  | "or" => some (.binary .or)
  | "and" => some (.binary .and)
  | "==" => some (.comparison .eq)
  | "!=" => some (.comparison .ne)
  | "<" => some (.comparison .lt)
  | "<=" => some (.comparison .le)
  | ">" => some (.comparison .gt)
  | ">=" => some (.comparison .ge)
  | "is" => some (.comparison .is)
  | "is not" => some (.comparison .isNot)
  | "in" => some (.comparison .in)
  | "not in" => some (.comparison .notIn)
  | "+" => some (.binary (.arithmetic .add))
  | "-" => some (.binary (.arithmetic .sub))
  | "*" => some (.binary (.arithmetic .mul))
  | "/" => some (.binary (.arithmetic .truediv))
  | "//" => some (.binary (.arithmetic .floordiv))
  | "%" => some (.binary (.arithmetic .mod))
  | "**" => some (.binary (.arithmetic .pow))
  | "|" => some .filter
  | "." => some .attribute
  | "[" => some .subscript
  | _ => none

/-- The words of an operation, as `op.split()` gives them. -/
def Operation.words : Operation → List String
  | .conditional => ["if"]
  | .binary .or => ["or"]
  | .binary .and => ["and"]
  | .comparison .eq => ["=="]
  | .comparison .ne => ["!="]
  | .comparison .lt => ["<"]
  | .comparison .le => ["<="]
  | .comparison .gt => [">"]
  | .comparison .ge => [">="]
  | .comparison .is => ["is"]
  | .comparison .isNot => ["is", "not"]
  | .comparison .in => ["in"]
  | .comparison .notIn => ["not", "in"]
  | .binary (.arithmetic .add) => ["+"]
  | .binary (.arithmetic .sub) => ["-"]
  | .binary (.arithmetic .mul) => ["*"]
  | .binary (.arithmetic .truediv) => ["/"]
  | .binary (.arithmetic .floordiv) => ["//"]
  | .binary (.arithmetic .mod) => ["%"]
  | .binary (.arithmetic .pow) => ["**"]
  | .filter => ["|"]
  | .attribute => ["."]
  | .subscript => ["["]

/-- The values of `PRECEDENCE`. -/
def Operation.precedence : Operation → Nat
  | .conditional => 5
  | .binary .or => 10
  | .binary .and => 20
  | .comparison _ => 40
  | .binary (.arithmetic .add) | .binary (.arithmetic .sub) => 50
  | .binary (.arithmetic .pow) => 80
  | .binary (.arithmetic _) => 60
  | .filter => 90
  | .attribute | .subscript => 100

/-- The keys of `PREFIX_PRECEDENCE`. -/
def prefixOperator : String → Option UnaryOperator
  | "not" => some .not
  | "+" => some .pos
  | "-" => some .neg
  | _ => none

/-- The values of `PREFIX_PRECEDENCE`. -/
def UnaryOperator.precedence : UnaryOperator → Nat
  | .not => 35
  | .pos | .neg => 95

/-- `LITERALS`. -/
def literalName : String → Option Constant
  | "True" | "true" => some (.bool true)
  | "False" | "false" => some (.bool false)
  | "None" | "none" => some .none
  | _ => none

/-- What is left of the tokens of a tag. -/
structure Cursor where
  rest : List CodeToken
  joins : List (Constant × Constant)

abbrev Parser := EStateM PythonError Cursor

/-- The string of the token at a distance, or the empty string after the last one. -/
def stringAt (tokens : List CodeToken) (distance : Nat) : String :=
  match tokens[distance]? with
  | some token => token.string
  | none => ""

/-- `ExpressionParser.operation`, as a key of `PRECEDENCE`. -/
def operationAt (tokens : List CodeToken) : Option Operation :=
  match stringAt tokens 0, stringAt tokens 1 with
  | "not", "in" => some (.comparison .notIn)
  | "is", "not" => some (.comparison .isNot)
  | op, _ => Operation.ofString op

namespace Parser

/-- `ExpressionParser.peek`. -/
def peek (distance : Nat) : Parser String := do
  return stringAt (← get).rest distance

/-- `ExpressionParser.take` without an expected string. -/
def take : Parser CodeToken := do
  match (← get).rest with
  | [] => throw (.syntaxError "Unexpected end of expression")
  | token :: rest =>
      modify fun s => { s with rest := rest }
      return token

/-- `ExpressionParser.take` of an expected string. -/
def expect (language : Language) (expected : String) : Parser PUnit := do
  match (← get).rest with
  | [] => throw (.syntaxError "Unexpected end of expression")
  | token :: rest =>
      if token.string ≠ expected then
        throw (.syntaxError ("Expected " ++ language.repr expected ++ ", got " ++
          language.repr token.string))
      else
        modify fun s => { s with rest := rest }

/-- `template_identifier`. -/
def templateIdentifier (language : Language) (value : String) : Parser String := do
  if language.isPublic value then
    return value
  throw (.syntaxError ("Invalid or private name: " ++ language.repr value))

/-- A name, as `template_identifier(self.take().string)` reads it. -/
def takeName (language : Language) : Parser String := do
  let token ← take
  templateIdentifier language token.string

/-- `ast.literal_eval`. -/
def literalEval (language : Language) (text : String) : Parser Constant := do
  match language.literalEval text with
  | .ok value => return value
  | .error (.syntaxError message) => throw (.syntaxError message)
  | .error (.valueError message) => throw (.valueError message)

/-- The `while` loop of `sequence`, after the items so far. -/
def items {α : Type} (closing : String) (item : List α → Parser α) :
    Nat → List α → Parser (List α)
  | fuel, done => do
      if (← peek 0) = "," then
        match fuel with
        | 0 => throw .stuck
        | fuel + 1 => do
            let _ ← take
            if (← peek 0) = closing then
              return done
            let next ← item done
            items closing item fuel (done ++ [next])
      else
        return done

/-- The items of `sequence` before its loop. -/
def firstItems {α : Type} (closing : String) (item : List α → Parser α) (first : List α) :
    Parser (List α) := do
  if first.isEmpty then
    if (← peek 0) ≠ closing then
      let next ← item []
      return [next]
  return first

/-- `ExpressionParser.sequence`. An item may depend on the items before it. -/
def sequence {α : Type} (language : Language) (closing : String) (item : List α → Parser α)
    (first : List α) : Parser (List α) := do
  let done ← firstItems closing item first
  let result ← items closing item (← get).rest.length done
  if closing ≠ "" then
    expect language closing
  return result

/-- `value += other` of two literals, the first of which is the value of a string. -/
def join (value other : Constant) : Parser Constant := do
  modify fun s => { s with joins := s.joins ++ [(value, other)] }
  match value.add other with
  | some result => return result
  | none => throw .typeError

/-- The loop of `primary` over adjacent strings. -/
def strings (language : Language) : Nat → Constant → Parser Constant
  | fuel, value => do
      match (← get).rest with
      | [] => return value
      | token :: _ =>
          if token.type ≠ .string then
            return value
          match fuel with
          | 0 => throw .stuck
          | fuel + 1 => do
              let token ← take
              let other ← literalEval language token.string
              let value ← join value other
              strings language fuel value

/-- `type(value) in (str, bytes, int, float)`. -/
def supported : Constant → Bool
  | .str _ | .bytes _ | .int _ | .float _ => true
  | _ => false

/-- `take_operation`. -/
def takeOperation (language : Language) (operation : Operation) : Parser PUnit :=
  operation.words.forM (expect language)

/-- The items of a filter call. -/
inductive Argument where
  | positional (value : Expression)
  | keyword (name : String) (value : Expression)

def Argument.value? : Argument → Option Expression
  | .positional value => some value
  | .keyword _ _ => none

def Argument.keyword? : Argument → Option (String × Expression)
  | .positional _ => none
  | .keyword name value => some (name, value)

section Methods

variable (language : Language) (self : Nat → Parser Expression)

/-- `parse_pair` of `dictionary_or_set`. -/
def pair : Parser (Expression × Expression) := do
  let key ← self 0
  expect language ":"
  let value ← self 0
  return (key, value)

/-- `dictionary_or_set`. -/
def dictionaryOrSet : Parser Expression := do
  if (← peek 0) = "\x7d" then
    let _ ← take
    return .dictionary []
  let first ← self 0
  if (← peek 0) ≠ ":" then
    let items ← sequence language "\x7d" (fun _ => self 0) [first]
    return .collection .set items
  expect language ":"
  let value ← self 0
  let items ← sequence language "\x7d" (fun _ => pair language self) [(first, value)]
  return .dictionary items

/-- The parenthesis of `primary`. -/
def parenthesis : Parser Expression := do
  if (← peek 0) = ")" then
    let _ ← take
    return .collection .tuple []
  let first ← self 0
  if (← peek 0) = "," then
    let items ← sequence language ")" (fun _ => self 0) [first]
    return .collection .tuple items
  expect language ")"
  return first

/-- The literal of `primary`. -/
def literal (token : CodeToken) : Parser Expression := do
  let value ← literalEval language token.string
  if supported value then
    if token.type = .string then
      let value ← strings language (← get).rest.length value
      return .literal value
    return .literal value
  throw (.syntaxError "Unsupported literal")

/-- `primary`. -/
def primary : Parser Expression := do
  let token ← take
  match prefixOperator token.string with
  | some operator =>
      let value ← self operator.precedence
      return .unary operator value
  | none =>
      if token.type = .number ∨ token.type = .string then
        literal language token
      else
        match literalName token.string with
        | some value => return .literal value
        | none =>
            if token.string = "(" then
              parenthesis language self
            else if token.string = "[" then
              let items ← sequence language "]" (fun _ => self 0) []
              return .collection .list items
            else if token.string = "\x7b" then
              dictionaryOrSet language self
            else if token.type = .name then
              let name ← templateIdentifier language token.string
              return .variable name
            else
              throw (.syntaxError ("Unsupported expression token: " ++
                language.repr token.string))

/-- The optional part of a subscript, which is absent before one of the given strings. -/
def part (absent : List String) : Parser (Option Expression) := do
  if absent.contains (← peek 0) then
    return none
  let value ← self 0
  return some value

/-- `subscript`. -/
def subscript (left : Expression) : Parser Expression := do
  let start ← part self [":"]
  if (← peek 0) = ":" then
    let _ ← take
    let stop ← part self [":", "]"]
    if (← peek 0) = ":" then
      let _ ← take
      let step ← part self ["]"]
      expect language "]"
      return .lookup left (.slice start stop step)
    expect language "]"
    return .lookup left (.slice start stop none)
  match start with
  | none => throw (.syntaxError "Missing subscript")
  | some key =>
      expect language "]"
      return .lookup left key

/-- `argument` of `filter_call`. -/
def argument (done : List Argument) : Parser Argument := do
  if (← peek 1) = "=" then
    let key ← takeName language
    if key ∈ (done.filterMap Argument.keyword?).map (·.1) then
      throw (.syntaxError ("Duplicate filter argument: " ++ key))
    else
      expect language "="
      let value ← self 0
      return .keyword key value
  else if done.filterMap Argument.keyword? = [] then
    let value ← self 0
    return .positional value
  else
    throw (.syntaxError "Positional argument after keyword argument")

/-- `filter_call`. -/
def filterCall (left : Expression) : Parser Expression := do
  let name ← takeName language
  if language.filters name then
    if (← peek 0) = "(" then
      let _ ← take
      let arguments ← sequence language ")" (argument language self) []
      return .filter name left (arguments.filterMap Argument.value?)
        (arguments.filterMap Argument.keyword?)
    else
      return .filter name left [] []
  else
    throw (.syntaxError ("Unknown template filter: " ++ name))

/-- The loop of `infix` over a chain of comparisons. -/
def chain : Nat → ComparisonOperator → Parser (List (ComparisonOperator × Expression))
  | fuel, operator => do
      let operand ← self 41
      match operationAt (← get).rest with
      | some (.comparison next) =>
          match fuel with
          | 0 => throw .stuck
          | fuel + 1 => do
              takeOperation language (.comparison next)
              let rest ← chain fuel next
              return (operator, operand) :: rest
      | _ => return [(operator, operand)]

/-- The minimum for the right operand of a binary operator. -/
def rightMinimum (operator : BinaryOperator) : Nat :=
  if operator = .arithmetic .pow then
    (Operation.binary operator).precedence
  else
    (Operation.binary operator).precedence + 1

/-- `infix`. -/
def infixed (left : Expression) : Operation → Parser Expression
  | .attribute => do
      let name ← takeName language
      return .attribute left name
  | .subscript => subscript language self left
  | .filter => filterCall language self left
  | .conditional => do
      let condition ← self 6
      expect language "else"
      let negative ← self 5
      return .conditional condition left negative
  | .comparison operator => do
      let rest ← chain language self (← get).rest.length operator
      return .comparison left rest
  | .binary operator => do
      let right ← self (rightMinimum operator)
      return .binary operator left right

/-- The loop of `expression`. -/
def climb (minimum : Nat) : Nat → Expression → Parser Expression
  | fuel, left => do
      match operationAt (← get).rest with
      | none => return left
      | some operation =>
          if operation.precedence < minimum then
            return left
          match fuel with
          | 0 => throw .stuck
          | fuel + 1 => do
              takeOperation language operation
              let left ← infixed language self left operation
              climb minimum fuel left

/-- `expression` over its nested calls. -/
def expressionStep (minimum : Nat) : Parser Expression := do
  let left ← primary language self
  climb language self minimum (← get).rest.length left

end Methods

/-- `ExpressionParser.expression`, with as many nested calls as the first number. -/
def expression (language : Language) : Nat → Nat → Parser Expression
  | 0, _ => throw .recursionError
  | limit + 1, minimum => expressionStep language (expression language limit) minimum

section Entries

variable (language : Language) (limit : Nat)

/-- `finish`. -/
def finish : Parser PUnit := do
  let next ← peek 0
  if next = "(" then
    throw (.syntaxError "Function and method calls are not allowed; use a filter")
  else if next ≠ "" then
    throw (.syntaxError ("Unexpected token: " ++ language.repr next))

/-- `parse`, told whether tokens were taken before. -/
def parse (started : Bool) : Parser Expression := do
  if (← peek 0) = "" then
    throw (.syntaxError
      (if started then "Unexpected end of expression" else "Empty template expression"))
  else
    let first ← expression language limit 0
    if (← peek 0) = "," then
      let items ← sequence language "" (fun _ => expression language limit 0) [first]
      finish language
      return .collection .tuple items
    else
      finish language
      return first

/-- The names of a target up to a closing string. -/
def targetNames (closing : String) : Parser AssignmentTarget := do
  let name ← takeName language
  let next ← peek 0
  let names ← sequence language closing (fun _ => takeName language) [name]
  return ⟨name, names.tail, next = ","⟩

/-- `target`. -/
def target (stop : String) : Parser AssignmentTarget := do
  if (← peek 0) = "(" then
    let _ ← take
    let result ← targetNames language ")"
    expect language stop
    return result
  targetNames language stop

/-- `assignment` and `for_header`, which differ in the string after the target. -/
def header (stop : String) : Parser (AssignmentTarget × Expression) := do
  let names ← target language stop
  let value ← parse language limit true
  return (names, value)

end Entries

end Parser

end Templates

end Rmote
