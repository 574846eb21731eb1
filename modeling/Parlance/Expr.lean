import Parlance.Op
import Parlance.Value

/-!
# Expressions

An operator may stand over any number of operands, and an expression may be a blank form not yet
filled in: the reader builds neither, but trees made by other means may hold them. The canonical
text puts every operator between brackets.
-/

namespace Parlance

/-- Forms not filled in. -/
inductive Blank where
  | node
  | atom
  deriving Repr, DecidableEq

def Blank.text : Blank → String
  | .node => "Node()"
  | .atom => "Atom()"

inductive Expr where
  | literal (v : Value)
  | name (x : String)
  | array (items : List Expr)
  | call (function : String) (args : List Expr)
  | apply (op : Op) (operands : List Expr)
  | blank (form : Blank)

namespace Expr

/-- Booleans and numbers as scripts write them, anything else between double quotes. -/
def literalText : Value → String
  | .boolean b => Value.booleanText b
  | .number x => Number.text x
  | .string s => "\"" ++ s ++ "\""
  | v => "\"" ++ v.inspect ++ "\""

def applyText (op : Op) : List String → String
  | [x] => "(" ++ op.symbol ++ x ++ ")"
  | [l, r] =>
    match op with
    | .index => "(" ++ l ++ "[" ++ r ++ "])"
    | .field => "(" ++ l ++ "." ++ r ++ ")"
    | _ => "(" ++ l ++ " " ++ op.symbol ++ " " ++ r ++ ")"
  | xs => "(" ++ op.symbol ++ " " ++ " ".intercalate xs ++ ")"

mutual
/-- The canonical text. -/
def text : Expr → String
  | .literal v => literalText v
  | .name x => x
  | .array items => Value.bracketed (texts items)
  | .call f args => f ++ "(" ++ ", ".intercalate (texts args) ++ ")"
  | .apply op operands => applyText op (texts operands)
  | .blank form => form.text
def texts : List Expr → List String
  | [] => []
  | e :: es => text e :: texts es
end

theorem texts_eq_map (es : List Expr) : texts es = es.map text := by
  induction es with
  | nil => rfl
  | cons e es ih => rw [texts, ih, List.map_cons]

end Expr

end Parlance
