import Parlance.Number.Binary

/-!
# The fewest digits that read back

The reals that round to a number fill a window around it. On the grids of one, two, up to seventeen
significant digits, the first grid with a point in the window gives the digits; of two such points
next to the number the nearer one is taken.

A window is written in whole numbers. Its unit is a quarter of the distance between the number and
the next, moved by powers of ten until the number has more than seventeen digits before the point,
and by powers of two until nothing stands behind it.
-/

namespace Parlance.Number

/-- `digits * 10 ^ exponent`. -/
structure Decimal where
  digits : Nat
  exponent : Int
  deriving Repr, DecidableEq

/-- The reals that round to `value`; the ends belong to them when `closed`. Points are counted in
units of which `one` make `10 ^ (-places)`. -/
structure Window where
  low : Nat
  value : Nat
  high : Nat
  closed : Bool
  one : Nat
  places : Nat
  deriving Repr, DecidableEq

namespace Window

/-- Powers of ten that give the number more than seventeen digits before the point. -/
def placesFor (mantissa scale : Nat) : Nat := 17 + (1074 - (scale + mantissa.log2) + 2) / 3

/-- The window of a magnitude. Below a power of two the numbers lie twice as dense. -/
def ofMagnitude (mantissa scale : Nat) : Window :=
  let places := placesFor mantissa scale
  let factor := 2 ^ (scale - 1076) * 10 ^ places
  let below := if mantissa = 2 ^ 52 ∧ 0 < scale then 1 else 2
  { low := (4 * mantissa - below) * factor
    value := 4 * mantissa * factor
    high := (4 * mantissa + 2) * factor
    closed := mantissa % 2 == 0
    one := 2 ^ (1076 - scale)
    places := places }

def holds (w : Window) (point : Nat) : Bool :=
  if w.closed then w.low ≤ point && point ≤ w.high else w.low < point && point < w.high

/-- Of two neighbours on a grid around the value the nearer one, the even one of two. -/
def nearer (w : Window) (grid n : Nat) : Nat :=
  let down := w.value - n * grid
  let up := (n + 1) * grid - w.value
  if down < up || (down == up && n % 2 == 0) then n else n + 1

/-- The point of the grid in the window that is nearest to the value, as a multiple of the grid. -/
def pick? (w : Window) (grid : Nat) : Option Nat :=
  let n := w.value / grid
  match w.holds (n * grid), w.holds ((n + 1) * grid) with
  | true, true => some (w.nearer grid n)
  | true, false => some n
  | false, true => some (n + 1)
  | false, false => none

/-- The decimal on the grid of `count` digits, when the value has `width` digits in all. -/
def onGrid? (w : Window) (width count : Nat) : Option Decimal :=
  let zeros := width - count
  (w.pick? (w.one * 10 ^ zeros)).map fun n => ⟨n, (zeros : Int) - w.places⟩

/-- The decimal with the fewest digits in the window. -/
def shortest (w : Window) : Decimal :=
  let whole := w.value / w.one
  let width := (Nat.toDigits 10 whole).length
  ((List.range 17).findSome? fun k => w.onGrid? width (k + 1)).getD ⟨whole, -(w.places : Int)⟩

end Window

end Parlance.Number
