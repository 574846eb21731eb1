import Parlance.Scopes.Basic
import Parlance.Value.Operators

/-!
# Names in a stack of scopes

Looking a name up and binding it again both go to the nearest scope that binds it.
-/

namespace Parlance.Scopes

/-- The value of a name. -/
def lookup (s : Scopes) (name : String) : Result :=
  match s.get? name with
  | some v => .ok v
  | none => .error (.of (.undefinedVariable name s))

/-- Binds a name. A name that is bound gets the value in the place where it is bound, and only a
`fresh` declaration may give it a value of another type. A name that is not bound is introduced in
the current scope by a fresh declaration, and by no other. -/
def declare (limit : Nat) (s : Scopes) (name : String) (v : Value) (fresh : Bool) :
    Except Failure Scopes :=
  match s.get? name with
  | some current =>
    if fresh || current.variant = v.variant then .ok (s.rebind name v)
    else if v.depth ≤ limit && current.depth ≤ limit then
      .error (.of (.assignedType name v current))
    else .error .tooDeep
  | none => if fresh then .ok (s.set name v) else .error (.of (.uninitializedVariable name))

/-- The stack without its current scope. -/
def pop (s : Scopes) : Except Failure Scopes :=
  match s.pop? with
  | some t => .ok t
  | none => .error .outermostScope

end Parlance.Scopes
