import Parlance.Value

/-!
# Equality of values

Values of different types are never equal, arrays are equal item by item, and numbers compare as
numbers do: what is not a number equals nothing, and both zeros are one.
-/

namespace Parlance.Value

mutual
def same : Value → Value → Bool
  | .boolean a, .boolean b => a == b
  | .number x, .number y => x == y
  | .string s, .string t => s == t
  | .array xs, .array ys => sameAll xs ys
  | .nothing, .nothing => true
  | _, _ => false
def sameAll : List Value → List Value → Bool
  | [], [] => true
  | x :: xs, y :: ys => same x y && sameAll xs ys
  | _, _ => false
end

mutual
/-- `same`, given up when it has to go more than `room` arrays deep. Arrays of different lengths and
what comes after a difference are not looked into. -/
def sameWithin (room : Nat) : Value → Value → Option Bool
  | .array xs, .array ys =>
    if xs.length ≠ ys.length then some false
    else match room with
      | 0 => none
      | room + 1 => sameAllWithin room xs ys
  | a, b => some (same a b)
def sameAllWithin (room : Nat) : List Value → List Value → Option Bool
  | x :: xs, y :: ys =>
    match sameWithin room x y with
    | some true => sameAllWithin room xs ys
    | answer => answer
  | _, _ => some true
end

end Parlance.Value
