import Parlance.Error
import Parlance.Text.Case
import Parlance.Value.Equality

/-!
# Operators on values

Operators take values that are already evaluated and never convert one type into another.
-/

namespace Parlance

/-- An operation gives a value or fails. -/
abbrev Result := Except Failure Value

namespace Value

def mismatch (op : Op) (a b : Value) : Result :=
  .error (.of (.operandTypes op a.variant b.variant))

def add : Value → Value → Result
  | .number x, .number y => .ok (.number (x + y))
  | .string s, .string t => .ok (.string (s ++ t))
  | .array xs, .array ys => .ok (.array (xs ++ ys))
  | a, b => mismatch .plus a b

def subtract : Value → Value → Result
  | .number x, .number y => .ok (.number (x - y))
  | a, b => mismatch .minus a b

def multiply : Value → Value → Result
  | .number x, .number y => .ok (.number (x * y))
  | a, b => mismatch .multiply a b

def divide : Value → Value → Result
  | .number x, .number y =>
    if y == 0 then .error (.of .divisionByZero) else .ok (.number (x / y))
  | a, b => mismatch .divide a b

def modulus : Value → Value → Result
  | .number x, .number y =>
    if y == 0 then .error (.of .modulusByZero)
    else match Number.remainder? x y with
      | some r => .ok (.number r)
      | none => .error .noRemainder
  | a, b => mismatch .mod a b

def negate : Value → Result
  | .number x => .ok (.number (-x))
  | a => .error (.of (.negatedType a.variant))

def invert : Value → Result
  | .boolean b => .ok (.boolean !b)
  | a => .error (.of (.invertedType a.variant))

/-- Equality of two values of one type; `limit` bounds the nesting of arrays. -/
def compare (limit : Nat) (op : Op) (answer : Bool → Bool) (a b : Value) : Result :=
  if a.variant = b.variant then
    match sameWithin limit a b with
    | some eq => .ok (.boolean (answer eq))
    | none => .error .tooDeep
  else mismatch op a b

def equal (limit : Nat) : Value → Value → Result := compare limit .equal id

def notEqual (limit : Nat) : Value → Value → Result := compare limit .notEqual not

/-- Order of two numbers, or of two strings by code points. -/
def order (op : Op) (numbers : Number → Number → Bool) (strings : String → String → Bool) :
    Value → Value → Result
  | .number x, .number y => .ok (.boolean (numbers x y))
  | .string s, .string t => .ok (.boolean (strings s t))
  | a, b => mismatch op a b

def less : Value → Value → Result := order .less (· < ·) (· < ·)

def greater : Value → Value → Result := order .greater (· > ·) (· > ·)

def lessEqual : Value → Value → Result := order .lessEqual (· ≤ ·) fun s t => !decide (t < s)

def greaterEqual : Value → Value → Result := order .greaterEqual (· ≥ ·) fun s t => !decide (s < t)

def conjoin : Value → Value → Result
  | .boolean a, .boolean b => .ok (.boolean (a && b))
  | a, b => mismatch .and a b

def disjoin : Value → Value → Result
  | .boolean a, .boolean b => .ok (.boolean (a || b))
  | a, b => mismatch .or a b

/-- The place of a whole index in a sequence, counted from the end when it is negative. -/
def place? (length : Nat) (i : Int) : Option Nat :=
  let j := if i < 0 then i + length else i
  if 0 ≤ j && j < length then some j.toNat else none

/-- The item at an index. -/
def itemAt (items : List Value) (i : Number) : Result :=
  match Number.toInt? i with
  | none => .error (.of (.fractionalIndex i))
  | some k =>
    match (place? items.length k).bind (items[·]?) with
    | some v => .ok v
    | none => .error (.of (.indexOutOfRange i items.length))

/-- The characters of a string, each as a string. -/
def characters (s : String) : List Value := s.toList.map fun c => .string (String.ofList [c])

def index : Value → Value → Result
  | .array items, .number i => itemAt items i
  | .string s, .number i => itemAt (characters s) i
  | .array _, i | .string _, i => .error (.of (.indexType i.variant))
  | a, _ => .error (.of (.targetType a.variant))

/-- The length of an array or a string. -/
def length? : Value → Option Nat
  | .array items => some items.length
  | .string s => some s.length
  | _ => none

def ofLength (n : Nat) : Value := .number (Number.ofNat n)

def access (a : Value) (field : String) : Result :=
  match a, field with
  | .array items, "length" => .ok (ofLength items.length)
  | .array items, "first" =>
    match items.head? with
    | some v => .ok v
    | none => .error (.of .firstOfEmpty)
  | .array items, "last" =>
    match items.getLast? with
    | some v => .ok v
    | none => .error (.of .lastOfEmpty)
  | .string s, "length" => .ok (ofLength s.length)
  | .string s, "upper" => .ok (.string (Text.upper s))
  | .string s, "lower" => .ok (.string (Text.lower s))
  | a, field => .error (.of (.noField a.variant field))

/-- The text, unless arrays nest deeper in it than `limit`. -/
def textWithin (limit : Nat) (v : Value) : Except Failure String :=
  if v.depth ≤ limit then .ok v.text else .error .tooDeep

end Value

namespace Op

/-- What an operator between two operands does. -/
def binary? (limit : Nat) : Op → Option (Value → Value → Result)
  | plus => some Value.add
  | minus => some Value.subtract
  | multiply => some Value.multiply
  | divide => some Value.divide
  | mod => some Value.modulus
  | equal => some (Value.equal limit)
  | notEqual => some (Value.notEqual limit)
  | less => some Value.less
  | greater => some Value.greater
  | lessEqual => some Value.lessEqual
  | greaterEqual => some Value.greaterEqual
  | and => some Value.conjoin
  | or => some Value.disjoin
  | index => some Value.index
  | not | field => none

/-- What an operator in front of one operand does. -/
def unary? : Op → Option (Value → Result)
  | minus => some Value.negate
  | not => some Value.invert
  | _ => none

end Op

end Parlance
