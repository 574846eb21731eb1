/-!
# Classes of characters as ranges of code points
-/

namespace Parlance.Text

/-- First and last code point of each range. -/
abbrev Ranges := List (Nat × Nat)

namespace Ranges

def holds (table : Ranges) (c : Char) : Bool :=
  table.any fun range => range.1 ≤ c.toNat && c.toNat ≤ range.2

theorem holds_iff {table : Ranges} {c : Char} :
    table.holds c = true ↔ ∃ range ∈ table, range.1 ≤ c.toNat ∧ c.toNat ≤ range.2 := by
  simp [holds]

end Ranges

end Parlance.Text
