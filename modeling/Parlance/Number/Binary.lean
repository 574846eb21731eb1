/-!
# Numbers as bits

A finite number is a whole multiple of the unit `2 ^ (-1074)`: its magnitude is
`mantissa * 2 ^ scale` units, and read as a whole number its bits below the sign are
`scale * 2 ^ 52 + mantissa`. Rounding to the nearest number is done on these whole numbers.
-/

namespace Parlance

/-- The numbers of the language are binary64 numbers. -/
abbrev Number := Float

namespace Number

/-- Powers of whole numbers are those of the core library, whatever else is imported. -/
@[default_instance 20000]
scoped instance (priority := high) powers : Pow Nat Nat := instPowNat

/-- What the bits of a number say. -/
inductive Shape where
  | nan
  | infinite (negative : Bool)
  | finite (negative : Bool) (mantissa scale : Nat)
  deriving Repr, DecidableEq

/-- How many units make one. -/
def unitsPerOne : Nat := 2 ^ 1074

/-- The bits of infinity, the least that belong to no finite number. -/
def infiniteBits : Nat := 2047 * 2 ^ 52

def shape (x : Number) : Shape :=
  let bits := x.toBits.toNat
  let negative := decide (2 ^ 63 ≤ bits)
  let magnitude := bits % 2 ^ 63
  if infiniteBits < magnitude then .nan
  else if magnitude = infiniteBits then .infinite negative
  else if magnitude < 2 ^ 52 then .finite negative magnitude 0
  else .finite negative (2 ^ 52 + magnitude % 2 ^ 52) (magnitude / 2 ^ 52 - 1)

/-- The number with this sign and these bits below it. -/
def ofMagnitude (negative : Bool) (magnitude : Nat) : Number :=
  Float.ofBits (UInt64.ofNat (if negative then 2 ^ 63 + magnitude else magnitude))

def notANumber : Number := ofMagnitude false (infiniteBits + 2 ^ 51)

def infinity (negative : Bool) : Number := ofMagnitude negative infiniteBits

/-- The whole number nearest to `a / b`, the even one of two. -/
def roundDiv (a b : Nat) : Nat :=
  let q := a / b
  let r := a % b
  if b < 2 * r || (2 * r == b && q % 2 == 1) then q + 1 else q

/-- The magnitude nearest to `a / b`, infinite from half a step beyond the greatest finite one. -/
def nearestMagnitude (a b : Nat) : Nat :=
  let units := a * unitsPerOne
  let scale := (units / b).log2 - 52
  min (scale * 2 ^ 52 + roundDiv units (b * 2 ^ scale)) infiniteBits

/-- The number nearest to `a / b`, the one with an even mantissa of two. -/
def nearest (negative : Bool) (a b : Nat) : Number :=
  ofMagnitude negative (nearestMagnitude a b)

def ofNat (n : Nat) : Number := nearest false n 1

/-- The whole number that `x` is, if it is one. -/
def toInt? (x : Number) : Option Int :=
  match shape x with
  | .finite negative mantissa scale =>
    let units := mantissa * 2 ^ scale
    if units % unitsPerOne = 0 then
      let n := units / unitsPerOne
      some (if negative then -(n : Int) else n)
    else none
  | _ => none

def isFinite (x : Number) : Bool :=
  match shape x with
  | .finite .. => true
  | _ => false

/-- What is left of `x` after taking away `y` as often as it goes in whole; the sign is that of `x`.
There is none for an infinite `x`, nor for a `y` that is zero. -/
def remainder? (x y : Number) : Option Number :=
  match shape x, shape y with
  | .nan, _ => some notANumber
  | _, .nan => some notANumber
  | .infinite _, _ => none
  | .finite .., .infinite _ => some x
  | .finite negative m s, .finite _ m' s' =>
    if m' = 0 then none
    else some (nearest negative (m * 2 ^ s % (m' * 2 ^ s')) unitsPerOne)

end Number

end Parlance
