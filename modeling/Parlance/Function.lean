import Parlance.Number.Numeral
import Parlance.Value.Operators

/-!
# Functions

Scripts call functions by name. A registry lists functions in the order in which their names came;
a function of a name already listed takes the place of the old one.
-/

namespace Parlance

structure Function where
  name : String
  /-- How many arguments it takes, if that is fixed. A function registered with a negative number
  can be listed, but every call of it is refused. -/
  arity : Option Int
  apply : List Value → Result

namespace Function

/-- A function of one argument. -/
def ofOne (name : String) (f : Value → Result) : Function where
  name := name
  arity := some 1
  apply
    | v :: _ => f v
    | [] => .error (.foreign "list index out of range")

def len : Function := ofOne "len" fun v =>
  match v.length? with
  | some n => .ok (.ofLength n)
  | none => .error (.of (.measuredType v.variant))

def str (limit : Nat) : Function := ofOne "str" fun v =>
  match v.textWithin limit with
  | .ok s => .ok (.string s)
  | .error f => .error f

def num : Function := ofOne "num" fun
  | .number x => .ok (.number x)
  | .string s =>
    match Number.read? s with
    | some x => .ok (.number x)
    | none => .error (.of (.notANumeral s))
  | v => .error (.of (.numeralType v.variant))

def type : Function := ofOne "type" fun v => .ok (.string v.variant.name)

def inspect (f : Function) : String := "<builtin " ++ f.name ++ ">"

end Function

abbrev Registry := List Function

namespace Registry

/-- The functions that every script has. -/
def standard (limit : Nat) : Registry := [.len, .str limit, .num, .type]

def find? (r : Registry) (name : String) : Option Function := List.find? (·.name == name) r

def register (r : Registry) (f : Function) : Registry :=
  match r with
  | [] => [f]
  | g :: rest => if g.name == f.name then f :: rest else g :: register rest f

/-- Calls a function. What goes wrong inside it outside the rules of the language is an error of
the call. -/
def call (r : Registry) (name : String) (args : List Value) : Result :=
  match r.find? name with
  | none => .error (.of (.undefinedFunction name))
  | some f =>
    if f.arity.all (· == (args.length : Int)) then
      match f.apply args with
      | .ok v => .ok v
      | .error (.error e) => .error (.error e)
      | .error failure => .error (.of (.functionFailed name failure.message))
    else .error (.of (.argumentCount name (f.arity.getD 0) args.length))

end Registry

end Parlance
