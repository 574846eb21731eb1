import Parlance.Error
import Parlance.Number.Numeral
import Parlance.Text.Lines

/-!
# Tokens of a text

At every place the longest token is taken. Spaces, tabs and comments stand between tokens; line ends
are tokens. Text that starts no token, and a number too great to be finite, stop the scan.
-/

namespace Parlance

namespace Token

def isNameStart (c : Char) : Bool := c.isAlpha || c == '_'

def isNameChar (c : Char) : Bool := c.isAlphanum || c == '_'

/-- How many digits stand first. -/
def digitCount (cs : List Char) : Nat := (cs.takeWhile Text.isDigit).length

/-- How many characters of a fraction stand first: none, or a point and digits. -/
def fractionCount : List Char → Nat
  | '.' :: rest => if digitCount rest = 0 then 0 else digitCount rest + 1
  | _ => 0

/-- How many characters of an exponent stand first: none, or its mark, a sign or none, and
digits. -/
def exponentCount : List Char → Nat
  | c :: rest =>
    if c == 'e' || c == 'E' then
      match rest with
      | d :: more =>
        if d == '+' || d == '-' then
          if digitCount more = 0 then 0 else digitCount more + 2
        else if digitCount rest = 0 then 0 else digitCount rest + 1
      | [] => 0
    else 0
  | [] => 0

/-- How many characters after its first digit belong to a number. -/
def numberCount (cs : List Char) : Nat :=
  let whole := digitCount cs
  let fraction := fractionCount (cs.drop whole)
  whole + fraction + exponentCount (cs.drop (whole + fraction))

/-- How many characters after its opening quote belong to a string. -/
def stringCount? (cs : List Char) : Option Nat :=
  if cs.contains '"' then some ((cs.takeWhile (· != '"')).length + 1) else none

/-- `long` when an equals sign follows, else `short`. -/
def withEquals (long short : Kind) : List Char → Kind × Nat
  | '=' :: _ => (long, 1)
  | _ => (short, 0)

/-- The kinds that are one sign. -/
def sign? : Char → Option Kind
  | '(' => some .leftParen
  | ')' => some .rightParen
  | '\x7b' => some .leftBrace
  | '\x7d' => some .rightBrace
  | '[' => some .leftBracket
  | ']' => some .rightBracket
  | ',' => some .comma
  | '.' => some .dot
  | '*' => some .star
  | '/' => some .slash
  | '%' => some .percent
  | _ => none

/-- The kinds that are one sign or, with an equals sign after it, two. -/
def doubleSign? : Char → Option (Kind × Kind)
  | '+' => some (.plusAssign, .plus)
  | '-' => some (.minusAssign, .minus)
  | '=' => some (.equal, .assign)
  | '!' => some (.bangEqual, .bang)
  | '<' => some (.lessEqual, .less)
  | '>' => some (.greaterEqual, .greater)
  | _ => none

/-- The kind of the token that starts with `c`, and how many of the characters after it belong to
it. -/
def munch? (c : Char) (rest : List Char) : Option (Kind × Nat) :=
  if isNameStart c then
    let tail := rest.takeWhile isNameChar
    some (Kind.ofWord (String.ofList (c :: tail)), tail.length)
  else if Text.isDigit c then some (.number, numberCount rest)
  else if c == '"' then (stringCount? rest).map fun n => (.string, n)
  else if c == '\n' then some (.newline, 0)
  else if c == '\r' then if rest.head? = some '\n' then some (.newline, 1) else none
  else match sign? c, doubleSign? c with
    | some kind, _ => some (kind, 0)
    | none, some (long, short) => some (withEquals long short rest)
    | none, none => none

/-- The value that a lexeme stands for. -/
def literalOf? (kind : Kind) (lexeme : List Char) : Option Value :=
  match kind with
  | .number =>
    match Number.read? (String.ofList lexeme) with
    | some x => if Number.isFinite x then some (.number x) else none
    | none => none
  | .string => some (.string (String.ofList (lexeme.drop 1).dropLast))
  | _ => some .nothing

/-- The error where no token starts. -/
def strayCharacter (c : Char) : Cause :=
  if c == '"' then .unterminatedString else .unexpectedCharacter c

/-- The tokens of `cs`, which starts on the given line. -/
def scanFrom (line : Int) (cs : List Char) : Except Error (List Token) :=
  match cs with
  | [] => .ok [endOfInput line]
  | c :: rest =>
    if c == ' ' || c == '\t' then scanFrom line rest
    else if c == '#' then scanFrom line (rest.dropWhile (· != '\n'))
    else match munch? c rest with
      | none => .error ⟨strayCharacter c, some line⟩
      | some (kind, count) =>
        let lexeme := c :: rest.take count
        match literalOf? kind lexeme with
        | none => .error ⟨.numberOutOfRange (String.ofList lexeme), some line⟩
        | some literal =>
          match scanFrom (line + Text.lineEnds lexeme) (rest.drop count) with
          | .ok tokens => .ok (⟨kind, String.ofList lexeme, literal, line⟩ :: tokens)
          | .error e => .error e
termination_by cs.length
decreasing_by
  · simp
  · have := (List.dropWhile_sublist (l := rest) (· != '\n')).length_le
    simp only [List.length_cons]
    omega
  · simp only [List.length_cons, List.length_drop]
    omega

end Token

/-- The tokens of a text, the end of the input last. -/
def scan (source : String) : Except Error (List Token) := Token.scanFrom 1 source.toList

end Parlance
