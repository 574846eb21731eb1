import Parlance.Op
import Parlance.Scopes.Basic
import Parlance.Stmt
import Parlance.Token

/-!
# Errors and failures

An error has a cause, and a line once that is known. Each cause belongs to one kind of error; the
wording of all messages is here. A failure is an error, or one of the few things that can go wrong
outside the rules of the language.
-/

namespace Parlance

/-- The kinds of error, as messages name them. -/
inductive ErrorKind where
  | lexical
  | parse
  | undefinedVariable
  | uninitializedVariable
  | typeMismatch
  | shape
  | divisionByZero
  | call
  | general
  deriving Repr, DecidableEq

def ErrorKind.name : ErrorKind → String
  | .lexical => "LexError"
  | .parse => "ParseError"
  | .undefinedVariable => "UndefinedVariableError"
  | .uninitializedVariable => "UninitializedVariableError"
  | .typeMismatch => "TypeMismatchError"
  | .shape => "ShapeError"
  | .divisionByZero => "DivisionByZeroError"
  | .call => "CallError"
  | .general => "Error"

/-- What the reader wanted where it met another token. -/
inductive Wanted where
  | expression
  | noMore
  | endOfStatement
  | variableName
  | assignSign
  | fieldName
  | closedIndex
  | closedCall
  | closedParen
  | closedArray
  | openedBlock
  | closedBlock
  deriving Repr, DecidableEq

def Wanted.text : Wanted → String
  | .expression => "expected an expression"
  | .noMore => "unexpected token after expression"
  | .endOfStatement => "expected end of statement"
  | .variableName => "expected variable name after let"
  | .assignSign => "expected '='"
  | .fieldName => "expected field name after ."
  | .closedIndex => "expected ']' to close index"
  | .closedCall => "expected ')' to close call"
  | .closedParen => "expected ')'"
  | .closedArray => "expected ']' to close array"
  | .openedBlock => "expected '\x7b' to open block"
  | .closedBlock => "expected '\x7d' to close block"

inductive Cause where
  | unterminatedString
  | unexpectedCharacter (c : Char)
  | numberOutOfRange (lexeme : String)
  | unexpectedToken (wanted : Wanted) (found : Token)
  | sourceTooDeep
  | undefinedVariable (name : String) (scopes : Scopes)
  | uninitializedVariable (name : String)
  | operandTypes (op : Op) (left right : Variant)
  | negatedType (got : Variant)
  | invertedType (got : Variant)
  | conditionType (guard : Guard) (got : Variant)
  | targetType (got : Variant)
  | indexType (got : Variant)
  | assignedType (name : String) (new current : Value)
  | measuredType (got : Variant)
  | numeralType (got : Variant)
  | fractionalIndex (index : Number)
  | indexOutOfRange (index : Number) (length : Nat)
  | firstOfEmpty
  | lastOfEmpty
  | noField (variant : Variant) (field : String)
  | blankExpression (form : Blank)
  | operandCount (op : Op) (count : Nat)
  | argumentCount (function : String) (arity : Int) (count : Nat)
  | expressionTooDeep
  | divisionByZero
  | modulusByZero
  | undefinedFunction (name : String)
  | notANumeral (text : String)
  | functionFailed (name reason : String)
  /-- An error that a function from outside reports. -/
  | reported (kind : ErrorKind) (message : String)

namespace Cause

def kind : Cause → ErrorKind
  | unterminatedString | unexpectedCharacter _ | numberOutOfRange _ => .lexical
  | unexpectedToken .. | sourceTooDeep => .parse
  | undefinedVariable .. => .undefinedVariable
  | uninitializedVariable _ => .uninitializedVariable
  | operandTypes .. | negatedType _ | invertedType _ | conditionType .. | targetType _
  | indexType _ | assignedType .. | measuredType _ | numeralType _ => .typeMismatch
  | fractionalIndex _ | indexOutOfRange .. | firstOfEmpty | lastOfEmpty | noField ..
  | blankExpression _ | operandCount .. | argumentCount .. | expressionTooDeep => .shape
  | divisionByZero | modulusByZero => .divisionByZero
  | undefinedFunction _ | notANumeral _ | functionFailed .. => .call
  | reported kind _ => kind

def message : Cause → String
  | unterminatedString => "unterminated string literal"
  | unexpectedCharacter c => "unexpected character " ++ Text.quoted (String.ofList [c])
  | numberOutOfRange lexeme => "number literal " ++ lexeme ++ " is out of range"
  | unexpectedToken wanted found => wanted.text ++ ", got " ++ found.text
  | sourceTooDeep | expressionTooDeep => "expression nested too deeply"
  | undefinedVariable name _ => "undefined variable " ++ name
  | uninitializedVariable name => "uninitialized variable " ++ name
  | operandTypes op left right =>
    "unsupported operand types for " ++ op.symbol ++ ": " ++ left.name ++ " and " ++ right.name
  | negatedType got => "unary - expects Number, got " ++ got.name
  | invertedType got => "! expects Boolean, got " ++ got.name
  | conditionType guard got => guard.word ++ " condition must be Boolean, got " ++ got.name
  | targetType got => "cannot index " ++ got.name
  | indexType got => "index must be Number, got " ++ got.name
  | assignedType name new current =>
    "mismatched types for " ++ name ++ ", cannot assign " ++ new.describe ++ " to "
      ++ current.describe
  | measuredType got => "len expects Array or String, got " ++ got.name
  | numeralType got => "num expects String, got " ++ got.name
  | fractionalIndex index => "index " ++ Number.text index ++ " is not a whole number"
  | indexOutOfRange index length =>
    "index " ++ Number.text index ++ " out of range for length " ++ Nat.repr length
  | firstOfEmpty => "first of empty array"
  | lastOfEmpty => "last of empty array"
  | noField variant field => variant.name ++ " has no field " ++ field
  | blankExpression form => "invalid expression: " ++ form.text
  | operandCount op count =>
    "invalid expression: " ++ op.symbol ++ " with " ++ Nat.repr count ++ " operand(s)"
  | argumentCount function arity count =>
    function ++ " expects " ++ Int.repr arity ++ " argument(s), got " ++ Nat.repr count
  | divisionByZero => "division by zero"
  | modulusByZero => "modulus by zero"
  | undefinedFunction name => "undefined function " ++ name
  | notANumeral text => "cannot parse number from " ++ Text.quoted text
  | functionFailed name reason => name ++ " failed: " ++ reason
  | reported _ message => message

/-- The reader met the end of the input, so more input may help. -/
def incomplete : Cause → Bool
  | unexpectedToken _ found => found.kind == .endOfInput
  | _ => false

end Cause

structure Error where
  cause : Cause
  line : Option Int

namespace Error

/-- Kind, line and message. -/
def text (e : Error) : String :=
  match e.line with
  | some line => e.cause.kind.name ++ " [line " ++ Int.repr line ++ "]: " ++ e.cause.message
  | none => e.cause.kind.name ++ ": " ++ e.cause.message

/-- The error with a line, if it had none. -/
def locate (e : Error) (line : Option Int) : Error :=
  match e.line with
  | some _ => e
  | none => { e with line := line }

end Error

inductive Failure where
  | error (e : Error)
  /-- A remainder of an infinite number. -/
  | noRemainder
  | outermostScope
  | notInfix (op : Op)
  | blankStatement
  | tooDeep
  /-- A function from outside failed for a reason of its own. -/
  | foreign (reason : String)

namespace Failure

/-- A failure that has no line yet. -/
def of (cause : Cause) : Failure := .error ⟨cause, none⟩

def message : Failure → String
  | error e => e.cause.message
  | noRemainder => "math domain error"
  | outermostScope => "cannot pop the outermost scope"
  | notInfix op => op.symbol ++ " is not an infix operator"
  | blankStatement => "unexpected statement"
  | tooDeep => "maximum recursion depth exceeded"
  | foreign reason => reason

/-- What a failure becomes when it leaves a statement. -/
def locate (f : Failure) (line : Option Int) : Failure :=
  match f with
  | error e => error (e.locate line)
  | tooDeep => error ⟨.expressionTooDeep, line⟩
  | f => f

end Failure

end Parlance
