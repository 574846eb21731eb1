import Parlance.Expr

/-!
# Statements

A statement carries the line that it starts on; line zero stands for none. A declaration is `fresh`
when it may introduce its name.
-/

namespace Parlance

inductive Stmt where
  | expr (e : Expr) (line : Int)
  | print (e : Expr) (line : Int)
  | declare (name : String) (value : Expr) (fresh : Bool) (line : Int)
  | branch (condition : Expr) (yes no : List Stmt) (line : Int)
  | loop (condition : Expr) (body : List Stmt) (line : Int)
  | blank

/-- What a condition stands in front of. -/
inductive Guard where
  | branch
  | loop
  deriving Repr, DecidableEq

def Guard.word : Guard → String
  | .branch => "if"
  | .loop => "while"

namespace Stmt

def line : Stmt → Int
  | .expr _ line => line
  | .print _ line => line
  | .declare _ _ _ line => line
  | .branch _ _ _ line => line
  | .loop _ _ line => line
  | .blank => 0

def line? (s : Stmt) : Option Int := if s.line = 0 then none else some s.line

/-- The name of the form, as the trace shows it. -/
def label : Stmt → String
  | .expr .. => "ExprStmt"
  | .print .. => "PrintStmt"
  | .declare .. => "Declaration"
  | .branch .. => "IfStmt"
  | .loop .. => "WhileStmt"
  | .blank => "Stmt"

end Stmt

end Parlance
