import Parlance.Number.Text
import Parlance.Text.Quoted

/-!
# Values

A value is a Boolean, a number, a string, an array of values, or nothing. `Value.text` is what a
script prints; `Value.inspect` also shows the kind of every part.
-/

namespace Parlance

inductive Value where
  | boolean (b : Bool)
  | number (x : Number)
  | string (s : String)
  | array (items : List Value)
  | nothing

/-- The type of a value, as scripts see it. -/
inductive Variant where
  | boolean
  | number
  | string
  | array
  | nothing
  deriving Repr, DecidableEq

def Variant.name : Variant → String
  | .boolean => "Boolean"
  | .number => "Number"
  | .string => "String"
  | .array => "Array"
  | .nothing => "NoneType"

namespace Value

def variant : Value → Variant
  | .boolean _ => .boolean
  | .number _ => .number
  | .string _ => .string
  | .array _ => .array
  | .nothing => .nothing

/-- Items between brackets. -/
def bracketed (items : List String) : String := "[" ++ ", ".intercalate items ++ "]"

def booleanText (b : Bool) : String := if b then "true" else "false"

mutual
/-- The text that scripts print. -/
def text : Value → String
  | .boolean b => booleanText b
  | .number x => Number.text x
  | .string s => s
  | .array items => bracketed (texts items)
  | .nothing => "None"
def texts : List Value → List String
  | [] => []
  | v :: vs => text v :: texts vs
end

mutual
/-- The text that tells values of different types apart. -/
def inspect : Value → String
  | .boolean b => if b then "True" else "False"
  | .number x => Number.plain x
  | .string s => Text.quoted s
  | .array items => "Array(" ++ bracketed (inspectAll items) ++ ")"
  | .nothing => "None"
def inspectAll : List Value → List String
  | [] => []
  | v :: vs => inspect v :: inspectAll vs
end

mutual
/-- How deep arrays stand in arrays. -/
def depth : Value → Nat
  | .array items => depths items + 1
  | _ => 0
def depths : List Value → Nat
  | [] => 0
  | v :: vs => max (depth v) (depths vs)
end

/-- Type and text, with strings quoted. -/
def describe : Value → String
  | .string s => "String " ++ Text.quoted s
  | v => v.variant.name ++ " " ++ v.text

theorem texts_eq_map (vs : List Value) : texts vs = vs.map text := by
  induction vs with
  | nil => rfl
  | cons v vs ih => rw [texts, ih, List.map_cons]

end Value

end Parlance
