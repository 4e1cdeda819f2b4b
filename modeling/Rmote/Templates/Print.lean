import Rmote.Templates.Wellformed

/-!
# Printing expressions

`Expression.tokens` writes a tree as the tokens of a tag. Which operands get parentheses is a
parameter: `needed` puts them around the operands whose level is too low for their position, and
`every` around all of them.
-/

namespace Rmote

namespace Templates

/-- A delimiter or an operator as a token. -/
def lexeme (text : String) : CodeToken :=
  ⟨if keywords.contains text then .name else .op, text, 0⟩

/-- A name as a token. -/
def nameToken (name : String) : CodeToken := ⟨.name, name, 0⟩

def UnaryOperator.word : UnaryOperator → String
  | .not => "not"
  | .pos => "+"
  | .neg => "-"

def Operation.tokens (operation : Operation) : List CodeToken := operation.words.map lexeme

/-- The smallest level of a left operand without parentheses: its own level associates to the
left, but for `**`, the conditional and a chain of comparisons. -/
def Operation.leftMinimum : Operation → Nat
  | .conditional => 6
  | .comparison _ => 41
  | .binary (.arithmetic .pow) => 81
  | operation => operation.precedence

/-- The precedence of the operation that a tree is. Whatever starts and ends with a delimiter or
is a single token binds tighter than every operation. -/
def Expression.level : Expression → Nat
  | .unary operator _ => operator.precedence
  | .binary operator _ _ => (Operation.binary operator).precedence
  | .comparison _ _ => 40
  | .conditional _ _ _ => 5
  | .filter _ _ _ _ => 90
  | .attribute _ _ | .lookup _ _ => 100
  | .literal _ | .variable _ | .collection _ _ | .dictionary _ | .slice _ _ _ => 101

def Expression.isSlice : Expression → Bool
  | .slice _ _ _ => true
  | _ => false

/-- Parentheses around the tokens, or none. -/
def parenthesized (wrap : Bool) (tokens : List CodeToken) : List CodeToken :=
  if wrap then lexeme "(" :: (tokens ++ [lexeme ")"]) else tokens

/-- Items with commas between them. -/
def separated : List (List CodeToken) → List CodeToken
  | [] => []
  | item :: rest => item ++ rest.flatMap fun other => lexeme "," :: other

section Print

variable (spelling : Constant → String) (wraps : Nat → Expression → Bool)

def literalToken : Constant → CodeToken
  | .none => lexeme "None"
  | .bool true => lexeme "True"
  | .bool false => lexeme "False"
  | .str value => ⟨.string, spelling (.str value), 0⟩
  | .bytes value => ⟨.string, spelling (.bytes value), 0⟩
  | value => ⟨.number, spelling value, 0⟩

mutual

/-- The tokens of a tree. `spelling` gives the text of a literal, and `wraps` says which operand
of a position with a minimum is put in parentheses. -/
def Expression.tokens : Expression → List CodeToken
  | .literal value => [literalToken spelling value]
  | .variable name => [nameToken name]
  | .collection .list items => lexeme "[" :: (separated (printItems items) ++ [lexeme "]"])
  | .collection .set items => lexeme "\x7b" :: (separated (printItems items) ++ [lexeme "\x7d"])
  | .collection .tuple items =>
      lexeme "(" :: (separated (printItems items) ++
        ((if items.length = 1 then [lexeme ","] else []) ++ [lexeme ")"]))
  | .dictionary items => lexeme "\x7b" :: (separated (printPairs items) ++ [lexeme "\x7d"])
  | .unary operator value =>
      lexeme operator.word ::
        parenthesized (wraps operator.precedence value) value.tokens
  | .binary operator left right =>
      parenthesized (wraps (Operation.binary operator).leftMinimum left) left.tokens ++
        ((Operation.binary operator).tokens ++
          parenthesized (wraps (Parser.rightMinimum operator) right) right.tokens)
  | .comparison first rest =>
      parenthesized (wraps 41 first) first.tokens ++ printChain rest
  | .conditional condition positive negative =>
      parenthesized (wraps 6 positive) positive.tokens ++
        (Operation.conditional.tokens ++
          (parenthesized (wraps 6 condition) condition.tokens ++
            (lexeme "else" :: parenthesized (wraps 5 negative) negative.tokens)))
  | .attribute value name =>
      parenthesized (wraps 100 value) value.tokens ++
        (Operation.attribute.tokens ++ [nameToken name])
  | .lookup value key =>
      parenthesized (wraps 100 value) value.tokens ++
        (Operation.subscript.tokens ++
          (parenthesized (wraps 0 key && !key.isSlice) key.tokens ++ [lexeme "]"]))
  | .slice start stop step =>
      printPart start ++ (lexeme ":" :: (printPart stop ++ printStep step))
  | .filter name value arguments keywords =>
      parenthesized (wraps 90 value) value.tokens ++
        (Operation.filter.tokens ++ (nameToken name ::
          (if arguments.isEmpty && keywords.isEmpty then []
            else lexeme "(" ::
              (separated (printItems arguments ++ printKeywords keywords) ++ [lexeme ")"]))))

def printItems : List Expression → List (List CodeToken)
  | [] => []
  | item :: rest => parenthesized (wraps 0 item) item.tokens :: printItems rest

def printPairs : List (Expression × Expression) → List (List CodeToken)
  | [] => []
  | (key, value) :: rest =>
      (parenthesized (wraps 0 key) key.tokens ++
        (lexeme ":" :: parenthesized (wraps 0 value) value.tokens)) :: printPairs rest

def printChain : List (ComparisonOperator × Expression) → List CodeToken
  | [] => []
  | (operator, operand) :: rest =>
      (Operation.comparison operator).tokens ++
        (parenthesized (wraps 41 operand) operand.tokens ++ printChain rest)

def printKeywords : List (String × Expression) → List (List CodeToken)
  | [] => []
  | (name, value) :: rest =>
      (nameToken name :: lexeme "=" :: parenthesized (wraps 0 value) value.tokens) ::
        printKeywords rest

def printPart : Option Expression → List CodeToken
  | none => []
  | some part => parenthesized (wraps 0 part) part.tokens

def printStep : Option Expression → List CodeToken
  | none => []
  | some step => lexeme ":" :: parenthesized (wraps 0 step) step.tokens

end

/-- An operand in a position with a minimum. -/
def operand (minimum : Nat) (e : Expression) : List CodeToken :=
  parenthesized (wraps minimum e) (e.tokens spelling wraps)

end Print

/-- Parentheses exactly around the operands whose level is too low. -/
def needed (minimum : Nat) (e : Expression) : Bool := decide (e.level < minimum)

/-- Parentheses around every operand. -/
def every (_ : Nat) (_ : Expression) : Bool := true

end Templates

end Rmote
