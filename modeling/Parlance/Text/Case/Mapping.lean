/-!
# Case mappings as runs of code points
-/

namespace Parlance.Text

/-- The code points `first`, `first + step`, … up to `last`, each moved by `shift`. -/
structure Run where
  first : Nat
  last : Nat
  step : Nat
  shift : Int
  deriving Repr, DecidableEq

/-- Where a code point of the run goes. -/
def Run.image? (run : Run) (n : Nat) : Option Nat :=
  if run.first ≤ n && n ≤ run.last && (n - run.first) % run.step == 0 then
    some (n + run.shift).toNat
  else none

/-- A mapping sends a few characters to several, others along runs, and keeps the rest. -/
structure Mapping where
  expansions : List (Nat × List Nat)
  runs : List Run

def Mapping.apply (m : Mapping) (c : Char) : List Char :=
  match m.expansions.lookup c.toNat with
  | some image => image.map Char.ofNat
  | none =>
    match m.runs.findSome? (·.image? c.toNat) with
    | some image => [Char.ofNat image]
    | none => [c]

end Parlance.Text
