import Parlance.Number.Binary
import Parlance.Text.Blank
import Parlance.Text.Digit

/-!
# Numerals

A numeral is a sign, digits with a point among or around them and an exponent, or a word for what
is not finite. Blanks may stand around it and single underscores between its digits. In text beyond
ASCII the blanks and decimal digits of every script count too.
-/

namespace Parlance.Number

inductive Numeral where
  | nan
  | infinite (negative : Bool)
  /-- `digits * 10 ^ exponent`. -/
  | decimal (negative : Bool) (digits : Nat) (exponent : Int)
  deriving Repr, DecidableEq

namespace Numeral

/-- The nearest number. Exponents that decide alone that the number is infinite or zero are not
written out. -/
def value : Numeral → Number
  | .nan => notANumber
  | .infinite negative => infinity negative
  | .decimal negative digits exponent =>
    if digits = 0 then nearest negative 0 1
    else if 0 ≤ exponent then
      if 400 < exponent then infinity negative
      else nearest negative (digits * 10 ^ exponent.toNat) 1
    else if (Nat.repr digits).length + exponent < -400 then nearest negative 0 1
    else nearest negative digits (10 ^ exponent.natAbs)

/-- The blanks of ASCII that may stand around a numeral. -/
def isPadding (c : Char) : Bool :=
  c == ' ' || (9 ≤ c.toNat && c.toNat ≤ 13)

def isAsciiDigit (c : Char) : Bool := '0' ≤ c && c ≤ '9'

def asciiDigit (d : Nat) : Char := Char.ofNat ('0'.toNat + d)

/-- A blank beyond ASCII as a space, and a digit of another script as the digit of ASCII. -/
def narrow (c : Char) : Char :=
  if c.toNat < 127 then c
  else if Text.isBlank c then ' '
  else match Text.digit? c with
    | some d => asciiDigit d
    | none => '?'

def toAscii (cs : List Char) : List Char :=
  if cs.all (·.toNat < 128) then cs else cs.map narrow

/-- Takes out the underscores, each of which must stand between two digits. -/
def joinDigits : List Char → Option (List Char)
  | [] => some []
  | c :: '_' :: d :: rest =>
    if isAsciiDigit c && isAsciiDigit d then (joinDigits (d :: rest)).map (c :: ·) else none
  | c :: rest => if c == '_' then none else (joinDigits rest).map (c :: ·)

def digitsValue (cs : List Char) : Nat :=
  cs.foldl (fun n c => 10 * n + (c.toNat - '0'.toNat)) 0

/-- An optional sign, and whether it was a minus. -/
def splitSign : List Char → Bool × List Char
  | '-' :: rest => (true, rest)
  | '+' :: rest => (false, rest)
  | cs => (false, cs)

/-- The exponent that ends a numeral. -/
def readExponent : List Char → Option Int
  | [] => some 0
  | c :: rest =>
    if c == 'e' || c == 'E' then
      let (negative, digits) := splitSign rest
      if digits.isEmpty || !digits.all isAsciiDigit then none
      else some (if negative then -(digitsValue digits : Int) else digitsValue digits)
    else none

/-- The digits after a point, if one comes next, and what follows them. -/
def splitFraction : List Char → List Char × List Char
  | '.' :: rest => rest.span isAsciiDigit
  | cs => ([], cs)

def readUnsigned (negative : Bool) (cs : List Char) : Option Numeral :=
  let word := cs.map Char.toLower
  if word = "nan".toList then some .nan
  else if word = "inf".toList || word = "infinity".toList then some (.infinite negative)
  else
    let (whole, rest) := cs.span isAsciiDigit
    let (fraction, rest) := splitFraction rest
    if whole.isEmpty && fraction.isEmpty then none
    else (readExponent rest).map fun e =>
      .decimal negative (digitsValue (whole ++ fraction)) (e - fraction.length)

def read? (s : String) : Option Numeral := do
  let cs ← joinDigits (Text.strip isPadding (toAscii s.toList))
  let (negative, rest) := splitSign cs
  readUnsigned negative rest

end Numeral

/-- The number that a text stands for. -/
def read? (s : String) : Option Number :=
  (Numeral.read? s).map Numeral.value

end Parlance.Number
