import Rmote.Templates.Source

/-!
# The template lexer

`TemplateLexer` splits a source into text, interpolations, commands and comments. The code
of a tag is tokenized by Python's `tokenize`, which is a parameter here: it is given the
rest of the source behind a synthetic parenthesis, and yields tokens until it ends or
fails. The lexer reads them up to the closing delimiter of the tag.
-/

namespace Rmote

namespace Templates

/-- The token types of Python that the engine tells apart. -/
inductive TokenType where
  | name
  | number
  | string
  | op
  | errorToken
  | nl
  | newline
  | indent
  | dedent
  | comment
  | endMarker
  | other (code : Nat)
  deriving DecidableEq, Repr

/-- A token of `tokenize`, with the row and the column of its start. -/
structure PythonToken where
  type : TokenType
  string : String
  row : Nat
  column : Nat
  deriving DecidableEq, Repr

/-- `CodeToken`. -/
structure CodeToken where
  type : TokenType
  string : String
  position : Nat
  deriving DecidableEq, Repr

/-- The token classes of a template. -/
inductive TemplateToken where
  | text (value : List Char) (position : Nat)
  | expression (value : List Char) (position : Nat) (tokens : List CodeToken)
  | command (value : List Char) (position : Nat) (name : String) (tokens : List CodeToken)
  | comment (value : List Char) (position : Nat)
  deriving DecidableEq, Repr

def TemplateToken.position : TemplateToken → Nat
  | .text _ position | .expression _ position _ | .command _ position _ _
  | .comment _ position => position

/-- The exceptions of Python that compiling a template can meet, beside the located
`TemplateSyntaxError`. `stuck` is no exception: a loop of the model ran out of fuel. -/
inductive PythonError where
  | syntaxError (message : String)
  | valueError (message : String)
  | recursionError
  | typeError
  | indexError
  | stopIteration
  | assertionError
  | stuck
  deriving DecidableEq, Repr

/-- `str` of an exception. -/
def PythonError.message : PythonError → String
  | .syntaxError message | .valueError message => message
  | .recursionError => "maximum recursion depth exceeded"
  | .typeError | .indexError | .stopIteration | .assertionError | .stuck => ""

/-- Whether `except (SyntaxError, TokenError, ValueError, RecursionError)` catches it. -/
def PythonError.isCaught : PythonError → Bool
  | .syntaxError _ | .valueError _ | .recursionError => true
  | .typeError | .indexError | .stopIteration | .assertionError | .stuck => false

/-- What leaves the compiler instead of a program. -/
inductive CompileError where
  | located (error : TemplateSyntaxError)
  | raised (error : PythonError)
  deriving DecidableEq, Repr

/-- The lines of a text, each with its newline. -/
def splitLines (text : List Char) : List (List Char) :=
  match text with
  | [] => []
  | c :: rest =>
      if c = '\n' then
        [c] :: splitLines rest
      else
        match splitLines rest with
        | [] => [[c]]
        | line :: lines => (c :: line) :: lines

/-- Where a token of a text may start: in one of its lines or right after the last one. The
first character is the synthetic parenthesis. -/
def PythonToken.Placed (text : List Char) (token : PythonToken) : Prop :=
  1 ≤ token.row ∧ token.row ≤ (splitLines text).length + 1 ∧ (token.row = 1 → 1 ≤ token.column)

/-- Python's `tokenize.generate_tokens` on a text: the tokens, and whether it then raises
`TokenError` or `IndentationError`. A text that starts with a parenthesis has a first
token unless it fails, and the tokens after it are placed in the text. -/
structure Tokenizer where
  generateTokens : List Char → List PythonToken × Bool
  starts : ∀ text, (generateTokens text).1 ≠ [] ∨ (generateTokens text).2 = true
  placed : ∀ text, ∀ token ∈ (generateTokens text).1.tail, token.Placed text

/-- `str.isspace` of one character. -/
def isSpace (c : Char) : Bool :=
  let n := c.toNat
  (9 ≤ n && n ≤ 13) || (28 ≤ n && n ≤ 32) || n = 0x85 || n = 0xa0 || n = 0x1680 ||
    (0x2000 ≤ n && n ≤ 0x200a) || n = 0x2028 || n = 0x2029 || n = 0x202f || n = 0x205f ||
    n = 0x3000

/-- `str.rstrip`. -/
def rstrip (text : List Char) : List Char :=
  (text.reverse.dropWhile isSpace).reverse

/-- The three kinds of tags. -/
inductive TagKind where
  | expression
  | command
  | comment
  deriving DecidableEq, Repr

/-- The keys of `delimiters`. -/
def TagKind.ofOpening : List Char → Option TagKind
  | ['{', '{'] => some .expression
  | ['{', '%'] => some .command
  | ['{', '#'] => some .comment
  | _ => none

def TagKind.closing : TagKind → List Char
  | .expression => ['}', '}']
  | .command => ['%', '}']
  | .comment => ['#', '}']

def TagKind.word : TagKind → String
  | .expression => "expression"
  | .command => "command"
  | .comment => "comment"

/-- `str.find` from an offset. -/
def findFrom (pattern source : List Char) (start : Nat) : Option Nat :=
  (List.range (source.length - start + 1)).findSome? fun k =>
    if pattern.isPrefixOf (source.drop (start + k)) then some (start + k) else none

/-- `startswith` at an offset. -/
def startsAt (pattern source : List Char) (position : Nat) : Bool :=
  pattern.isPrefixOf (source.drop position)

section Lexer

variable (tokenizer : Tokenizer) (source : List Char)

/-- The token types that `code` leaves out. -/
def TokenType.ignored : TokenType → Bool
  | .nl | .newline | .indent | .dedent | .comment | .endMarker => true
  | _ => false

/-- The list `offsets` of `code` once all lines are read. -/
def lineOffsets (start : Nat) : List Nat :=
  (splitLines ('(' :: source.drop start)).scanl (fun offset line => offset + line.length)
    (start - 1)

/-- The loop of `code`, with the bracket depth and the tokens so far: the tokens, the end of
the code and the closing delimiter. Positions past the closing one are never read. -/
def codeLoop (start opening : Nat) (kind : TagKind) (failed : Bool) :
    Int → List CodeToken → List PythonToken → Except CompileError (List CodeToken × Nat × Nat)
  | _, _, [] =>
      .error (.located (sourceError source
        (if failed then "Invalid or unclosed template " ++ kind.word
          else "Unclosed template " ++ kind.word) opening))
  | depth, result, token :: tokens =>
      match (lineOffsets source start)[token.row - 1]? with
      | none => .error (.raised .indexError)
      | some offset =>
          let position := offset + token.column
          if token.type = .errorToken ∧ (token.string = "'" ∨ token.string = "\"") then
            .error (.located (sourceError source
              ("Unterminated string in template " ++ kind.word) opening))
          else if token.type = .op ∧ depth = 0 ∧ startsAt kind.closing source position then
            .ok (result, position, position)
          else if token.type = .op ∧ depth = 0 ∧ startsAt ('-' :: kind.closing) source position then
            .ok (result, position, position + 1)
          else
            let depth :=
              if token.type = .op ∧ token.string ∈ ["(", "[", "\x7b"] then depth + 1
              else if token.type = .op ∧ token.string ∈ [")", "]", "\x7d"] then depth - 1
              else depth
            let result :=
              if token.type.ignored then result
              else result ++ [⟨token.type, token.string, position⟩]
            codeLoop start opening kind failed depth result tokens

/-- `TemplateLexer.code`. -/
def code (start opening : Nat) (kind : TagKind) :
    Except CompileError (List CodeToken × Nat × Nat) :=
  let (tokens, failed) := tokenizer.generateTokens ('(' :: source.drop start)
  match tokens with
  | [] =>
      if failed then
        .error (.located (sourceError source ("Invalid or unclosed template " ++ kind.word) opening))
      else
        .error (.raised .stopIteration)
  | _ :: tokens => codeLoop source start opening kind failed 0 [] tokens

/-- What `tokenize` finds at an opening delimiter: the token, the end of its value and the
closing delimiter. -/
def tag (kind : TagKind) (start opening : Nat) : Except CompileError (TemplateToken × Nat × Nat) :=
  let value stop := (source.drop start).take (stop - start)
  match kind with
  | .comment =>
      match findFrom kind.closing source start with
      | none => .error (.located (sourceError source "Unclosed template comment" opening))
      | some close =>
          let stop := if start < close ∧ source[close - 1]? = some '-' then close - 1 else close
          .ok (.comment (value stop) opening, stop, close)
  | .expression => do
      let (tokens, stop, close) ← code tokenizer source start opening kind
      .ok (.expression (value stop) opening tokens, stop, close)
  | .command => do
      let (tokens, stop, close) ← code tokenizer source start opening kind
      let tokens := if tokens.getLast?.any (·.string = ":") then tokens.dropLast else tokens
      match tokens with
      | [] => .error (.located (sourceError source "Empty template command" opening))
      | name :: arguments => .ok (.command (value stop) opening name.string arguments, stop, close)

/-- The loop of `tokenize` from the position `i`, with the text since `textStart`. -/
def lexLoop : Nat → Nat → Nat → List Char → Except CompileError (List TemplateToken)
  | 0, _, _, _ => .error (.raised .stuck)
  | fuel + 1, i, textStart, buffer =>
      match source.drop i with
      | [] => .ok (if buffer.isEmpty then [] else [.text buffer textStart])
      | c :: rest =>
          if c = '\\' ∧ (TagKind.ofOpening (rest.take 2)).isSome then
            lexLoop fuel (i + 3) textStart (buffer ++ rest.take 2)
          else
            match TagKind.ofOpening ((c :: rest).take 2) with
            | none => lexLoop fuel (i + 1) textStart (buffer ++ [c])
            | some kind => do
                let trimLeft := startsAt ['-'] source (i + 2)
                let start := if trimLeft then i + 3 else i + 2
                let text := if trimLeft then rstrip buffer else buffer
                let (token, stop, close) ← tag tokenizer source kind start i
                let next := close + 2
                let next := if stop < close
                  then next + ((source.drop next).takeWhile isSpace).length else next
                let tokens ← lexLoop fuel next next []
                .ok ((if text.isEmpty then [] else [.text text textStart]) ++ token :: tokens)

/-- `TemplateLexer.tokenize`. -/
def tokenize : Except CompileError (List TemplateToken) :=
  lexLoop tokenizer source (source.length + 1) 0 0 []

end Lexer

end Templates

end Rmote
