import Parlance.Function
import Parlance.Scopes

/-!
# The value of an expression

Operands and arguments are evaluated from left to right, all of them, before the operator or the
function is applied. Evaluation changes nothing.
-/

namespace Parlance

/-- What a run takes from outside. -/
structure Setting where
  functions : Registry
  /-- How deep expressions and the text of values may nest. -/
  limit : Nat
  /-- How much the trace shows. -/
  level : Nat

mutual
/-- The value of an expression that nests less than `room` deep. -/
def evaluateIn (σ : Setting) (s : Scopes) (room : Nat) (e : Expr) : Result :=
  match room with
  | 0 => .error .tooDeep
  | inside + 1 =>
    match e with
    | .literal v => .ok v
    | .name x => s.lookup x
    | .array items => do
      let vs ← evaluateAll σ s inside items
      return .array vs
    | .call f args => do
      let vs ← evaluateAll σ s inside args
      σ.functions.call f vs
    | .apply .field [target, .name field] => do
      let v ← evaluateIn σ s inside target
      v.access field
    | .apply op [left, right] =>
      match op.binary? σ.limit with
      | some f => do
        let a ← evaluateIn σ s inside left
        let b ← evaluateIn σ s inside right
        f a b
      | none => .error (.of (.operandCount op 2))
    | .apply op [operand] =>
      match op.unary? with
      | some f => do
        let a ← evaluateIn σ s inside operand
        f a
      | none => .error (.of (.operandCount op 1))
    | .apply op operands => .error (.of (.operandCount op operands.length))
    | .blank form => .error (.of (.blankExpression form))
def evaluateAll (σ : Setting) (s : Scopes) (room : Nat) : List Expr → Except Failure (List Value)
  | [] => .ok []
  | e :: es => do
    let v ← evaluateIn σ s room e
    let vs ← evaluateAll σ s room es
    return v :: vs
end

def evaluate (σ : Setting) (s : Scopes) (e : Expr) : Result := evaluateIn σ s σ.limit e

end Parlance
