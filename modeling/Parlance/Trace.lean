import Parlance.Stmt

/-!
# The trace of a run

The trace tells what a run does. Notes of the first level tell the statements, those of the second
also bindings and scopes, those of the third also conditions.
-/

namespace Parlance

inductive Note where
  | statement (line : Option Int) (label : String)
  | declared (name : String) (variant : Variant) (text : String)
  | entered (depth : Nat)
  | left (depth : Nat)
  | tested (guard : Guard) (condition : Expr) (text : String)

namespace Note

def level : Note → Nat
  | statement .. => 1
  | declared .. | entered _ | left _ => 2
  | tested .. => 3

def text : Note → String
  | statement line label =>
    "line " ++ (match line with
      | some n => Int.repr n
      | none => "None") ++ ": " ++ label
  | declared name variant text => "declare " ++ name ++ ": " ++ variant.name ++ " = " ++ text
  | entered depth => "enter scope (depth " ++ Nat.repr depth ++ ")"
  | left depth => "leave scope (depth " ++ Nat.repr depth ++ ")"
  | tested guard condition text =>
    guard.word ++ " condition " ++ condition.text ++ " -> " ++ text

end Note

end Parlance
