import Parlance.Number.Shortest
import Parlance.Text.Blank

/-!
# The text of a number

Both texts read back as the number. The plain text shows that it is a number of binary digits: it
keeps the sign of zero, has a point, and turns to an exponent from `10 ^ 16` on and below
`10 ^ (-4)`. The text that scripts print writes a whole number with all its digits and nothing else.
-/

namespace Parlance.Number

/-- At least two digits and a sign. -/
def exponentText (e : Int) : List Char :=
  let digits := Nat.toDigits 10 e.natAbs
  (if e < 0 then '-' else '+') :: List.replicate (2 - digits.length) '0' ++ digits

/-- `digits` with the point after the first `point` of them. -/
def positional (digits : List Char) (point : Int) : List Char :=
  if point ≤ 0 then '0' :: '.' :: List.replicate point.natAbs '0' ++ digits
  else
    let front := point.toNat
    digits.take front ++ List.replicate (front - digits.length) '0' ++ '.' ::
      (if digits.length ≤ front then ['0'] else digits.drop front)

def scientific (digits : List Char) (point : Int) : List Char :=
  let fraction := digits.drop 1
  digits.take 1 ++ (if fraction.isEmpty then [] else '.' :: fraction) ++ 'e' ::
    exponentText (point - 1)

def Decimal.text (d : Decimal) : List Char :=
  let written := Nat.toDigits 10 d.digits
  let digits := Text.dropEnd (· == '0') written
  let point := written.length + d.exponent
  if -4 < point && point ≤ 16 then positional digits point else scientific digits point

def signed (negative : Bool) (text : List Char) : String :=
  String.ofList (if negative then '-' :: text else text)

/-- The fewest digits that read back. -/
def plain (x : Number) : String :=
  match shape x with
  | .nan => "nan"
  | .infinite negative => signed negative "inf".toList
  | .finite negative mantissa scale =>
    signed negative
      (if mantissa = 0 then "0.0".toList else (Window.ofMagnitude mantissa scale).shortest.text)

/-- The text that scripts print. -/
def text (x : Number) : String :=
  match toInt? x with
  | some n => signed (n < 0) (Nat.toDigits 10 n.natAbs)
  | none => plain x

end Parlance.Number
