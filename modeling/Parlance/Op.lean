/-!
# Operators
-/

namespace Parlance

inductive Op where
  | plus
  | minus
  | multiply
  | divide
  | mod
  | equal
  | notEqual
  | less
  | greater
  | lessEqual
  | greaterEqual
  | and
  | or
  | not
  | index
  | field
  deriving Repr, DecidableEq

namespace Op

def symbol : Op → String
  | plus => "+"
  | minus => "-"
  | multiply => "*"
  | divide => "/"
  | mod => "%"
  | equal => "=="
  | notEqual => "!="
  | less => "<"
  | greater => ">"
  | lessEqual => "<="
  | greaterEqual => ">="
  | and => "and"
  | or => "or"
  | not => "!"
  | index => "[]"
  | field => "."

/-- How strongly an infix operator binds to its left and to its right. The right side binds one
stronger, so operators of one level associate to the left. -/
def power? : Op → Option (Nat × Nat)
  | or => some (1, 2)
  | and => some (3, 4)
  | equal | notEqual | less | greater | lessEqual | greaterEqual => some (5, 6)
  | plus | minus => some (7, 8)
  | multiply | divide | mod => some (9, 10)
  | index | field => some (13, 14)
  | not => none

/-- How strongly an operator in front of its operand binds. -/
def frontPower : Nat := 11

end Op

end Parlance
