/-!
# Compiled templates

The expression tree and the nodes that `Template.compile` builds and that a render walks.
A comparison chain keeps its first operand apart, so that the operators and the operands
after it always come in pairs, and an assignment target has at least one name.
-/

namespace Rmote

namespace Templates

/-- The values a literal can have. Floats are kept as their 64 bits, and `complex` is what
`ast.literal_eval` gives for an imaginary number, which the parser refuses. -/
inductive Constant where
  | none
  | bool (value : Bool)
  | int (value : Int)
  | float (bits : UInt64)
  | complex (imaginary : UInt64)
  | str (value : String)
  | bytes (value : List UInt8)
  deriving DecidableEq, Repr

inductive CollectionKind where
  | list
  | tuple
  | set
  deriving DecidableEq, Repr

/-- The keys of `UNARY_OPERATORS`. -/
inductive UnaryOperator where
  | pos
  | neg
  | not
  deriving DecidableEq, Repr

/-- The keys of `BINARY_OPERATORS`. -/
inductive Arithmetic where
  | add
  | sub
  | mul
  | truediv
  | floordiv
  | mod
  | pow
  deriving DecidableEq, Repr

/-- The operators of a `BinaryExpression`: the two that skip their right operand, and
arithmetic. -/
inductive BinaryOperator where
  | or
  | and
  | arithmetic (operator : Arithmetic)
  deriving DecidableEq, Repr

/-- The keys of `COMPARISON_OPERATORS`. -/
inductive ComparisonOperator where
  | eq
  | ne
  | lt
  | le
  | gt
  | ge
  | is
  | isNot
  | in
  | notIn
  deriving DecidableEq, Repr

/-- The expression classes of the engine. -/
inductive Expression where
  | literal (value : Constant)
  | variable (name : String)
  | collection (kind : CollectionKind) (items : List Expression)
  | dictionary (items : List (Expression × Expression))
  | unary (operator : UnaryOperator) (value : Expression)
  | binary (operator : BinaryOperator) (left right : Expression)
  | comparison (first : Expression) (rest : List (ComparisonOperator × Expression))
  | conditional (condition positive negative : Expression)
  | attribute (value : Expression) (name : String)
  | lookup (value key : Expression)
  | slice (start stop step : Option Expression)
  | filter (name : String) (value : Expression) (arguments : List Expression)
      (keywords : List (String × Expression))
  deriving Repr

/-- The names of an assignment. With `unpack` the value is spread over all of them. -/
structure AssignmentTarget where
  first : String
  others : List String
  unpack : Bool
  deriving DecidableEq, Repr

def AssignmentTarget.names (target : AssignmentTarget) : List String :=
  target.first :: target.others

/-- The instructions of a program. A branch of `condition` without an expression is the
`else` branch. -/
inductive Node where
  | text (position : Nat) (text : String)
  | output (position : Nat) (expression : Expression)
  | assignment (position : Nat) (target : AssignmentTarget) (expression : Expression)
  | condition (position : Nat) (branches : List (Option Expression × List Node))
  | loop (position : Nat) (target : AssignmentTarget) (iterable : Expression)
      (body otherwise : List Node)
  | break (position : Nat)
  | continue (position : Nat)
  deriving Repr

section NamedFilters

mutual

/-- The filters that `named_filters` finds in an expression. -/
def Expression.namedFilters : Expression → List String
  | .literal _ | .variable _ => []
  | .collection _ items => namedInAll items
  | .dictionary items => namedInItems items
  | .unary _ value => value.namedFilters
  | .binary _ left right => left.namedFilters ++ right.namedFilters
  | .comparison first rest => first.namedFilters ++ namedInChain rest
  | .conditional condition positive negative =>
      condition.namedFilters ++ positive.namedFilters ++ negative.namedFilters
  | .attribute value _ => value.namedFilters
  | .lookup value key => value.namedFilters ++ key.namedFilters
  | .slice start stop step => namedInPart start ++ namedInPart stop ++ namedInPart step
  | .filter name value arguments keywords =>
      name :: (value.namedFilters ++ namedInAll arguments ++ namedInKeywords keywords)

def namedInAll : List Expression → List String
  | [] => []
  | item :: rest => item.namedFilters ++ namedInAll rest

def namedInItems : List (Expression × Expression) → List String
  | [] => []
  | (key, value) :: rest => key.namedFilters ++ value.namedFilters ++ namedInItems rest

def namedInChain : List (ComparisonOperator × Expression) → List String
  | [] => []
  | (_, operand) :: rest => operand.namedFilters ++ namedInChain rest

def namedInKeywords : List (String × Expression) → List String
  | [] => []
  | (_, argument) :: rest => argument.namedFilters ++ namedInKeywords rest

def namedInPart : Option Expression → List String
  | none => []
  | some part => part.namedFilters

end

mutual

/-- The filters that `named_filters` finds in a node. -/
def Node.namedFilters : Node → List String
  | .text _ _ | .break _ | .continue _ => []
  | .output _ expression => expression.namedFilters
  | .assignment _ _ expression => expression.namedFilters
  | .condition _ branches => namedInBranches branches
  | .loop _ _ iterable body otherwise =>
      iterable.namedFilters ++ namedFilters body ++ namedFilters otherwise

/-- `named_filters`. -/
def namedFilters : List Node → List String
  | [] => []
  | node :: rest => node.namedFilters ++ namedFilters rest

def namedInBranches : List (Option Expression × List Node) → List String
  | [] => []
  | (condition, body) :: rest =>
      namedInPart condition ++ namedFilters body ++ namedInBranches rest

end

end NamedFilters

/-- `TemplateProgram`, without the source text that only diagnostics use. `C` are filter
classes. -/
structure TemplateProgram (C : Type) where
  nodes : List Node
  filters : List (String × C)

/-- `TemplateProgram.active`. -/
def TemplateProgram.active {C : Type} (program : TemplateProgram C) : List (String × C) :=
  program.filters.filter fun item => namedFilters program.nodes |>.contains item.1

section Induction

variable {P : Expression → Prop}

/-- Induction over an expression, with a hypothesis for every part of a list or a pair. -/
theorem Expression.induction
    (literal : ∀ value, P (.literal value))
    (var : ∀ name, P (.variable name))
    (collection : ∀ kind items, (∀ e ∈ items, P e) → P (.collection kind items))
    (dictionary : ∀ items, (∀ p ∈ items, P p.1 ∧ P p.2) → P (.dictionary items))
    (unary : ∀ operator value, P value → P (.unary operator value))
    (binary : ∀ operator left right, P left → P right → P (.binary operator left right))
    (comparison : ∀ first rest, P first → (∀ p ∈ rest, P p.2) → P (.comparison first rest))
    (conditional : ∀ condition positive negative, P condition → P positive → P negative →
      P (.conditional condition positive negative))
    (attr : ∀ value name, P value → P (.attribute value name))
    (lookup : ∀ value key, P value → P key → P (.lookup value key))
    (slice : ∀ start stop step, (∀ e ∈ start, P e) → (∀ e ∈ stop, P e) → (∀ e ∈ step, P e) →
      P (.slice start stop step))
    (filter : ∀ name value arguments keywords, P value → (∀ e ∈ arguments, P e) →
      (∀ p ∈ keywords, P p.2) → P (.filter name value arguments keywords)) :
    ∀ e, P e := by
  have nil : ∀ {α : Type} {Q : α → Prop}, ∀ a ∈ ([] : List α), Q a := by
    intro α Q a ha
    exact absurd ha List.not_mem_nil
  have cons : ∀ {α : Type} {Q : α → Prop} (a : α) (l : List α), Q a → (∀ b ∈ l, Q b) →
      ∀ b ∈ a :: l, Q b := by
    intro α Q a l ha hl b hb
    cases hb with
    | head => exact ha
    | tail _ hb => exact hl b hb
  apply @Expression.rec P (fun items => ∀ e ∈ items, P e) (fun items => ∀ p ∈ items, P p.1 ∧ P p.2)
    (fun rest => ∀ p ∈ rest, P p.2) (fun part => ∀ e ∈ part, P e)
    (fun keywords => ∀ p ∈ keywords, P p.2) (fun p => P p.1 ∧ P p.2) (fun p => P p.2)
    (fun p => P p.2) literal var collection dictionary unary binary comparison conditional attr
    lookup slice filter
  · exact nil
  · exact cons
  · exact nil
  · exact cons
  · exact nil
  · exact cons
  · intro e he
    cases he
  · intro e he e' he'
    cases he'
    exact he
  · exact nil
  · exact cons
  · intro key value hkey hvalue
    exact ⟨hkey, hvalue⟩
  · intro operator e he
    exact he
  · intro name e he
    exact he

end Induction

end Templates

end Rmote
