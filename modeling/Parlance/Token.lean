import Parlance.Value

/-!
# Tokens
-/

namespace Parlance

inductive Kind where
  | number
  | string
  | identifier
  | newline
  | endOfInput
  | leftParen
  | rightParen
  | leftBrace
  | rightBrace
  | leftBracket
  | rightBracket
  | comma
  | dot
  | plusAssign
  | minusAssign
  | plus
  | minus
  | star
  | slash
  | percent
  | equal
  | bangEqual
  | bang
  | lessEqual
  | greaterEqual
  | less
  | greater
  | assign
  | letWord
  | printWord
  | ifWord
  | elifWord
  | elseWord
  | whileWord
  | trueWord
  | falseWord
  | andWord
  | orWord
  /-- A kind of which the reader knows no use. -/
  | other (name : String)
  deriving Repr, DecidableEq

/-- The words that are no names. -/
def Kind.keywords : List (String × Kind) :=
  [("let", .letWord), ("print", .printWord), ("if", .ifWord), ("elif", .elifWord),
   ("else", .elseWord), ("while", .whileWord), ("true", .trueWord), ("false", .falseWord),
   ("and", .andWord), ("or", .orWord)]

def Kind.ofWord (word : String) : Kind := (keywords.lookup word).getD .identifier

/-- `literal` is the value of a number or a string, and nothing for other kinds. -/
structure Token where
  kind : Kind
  lexeme : String
  literal : Value
  line : Int

namespace Token

def endOfInput (line : Int) : Token := ⟨.endOfInput, "", .nothing, line⟩

/-- How a refusal names the token. -/
def text (t : Token) : String :=
  match t.kind with
  | .endOfInput => "end of input"
  | .newline => "newline"
  | _ => Text.quoted t.lexeme

end Token

end Parlance
