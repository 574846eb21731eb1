import Parlance.Evaluate
import Parlance.Trace

/-!
# Runs of statements

A run has an outcome and the state that it leaves, also when it fails. Runs take a bound on their
steps; `none` says that the bound was reached, and a greater bound never changes an outcome.
-/

namespace Parlance

structure State where
  scopes : Scopes
  /-- The lines printed so far. -/
  printed : Array String
  notes : Array Note

namespace State

def start : State := ⟨.empty, #[], #[]⟩

/-- Adds a note if the trace shows notes of its level. -/
def note (st : State) (level : Nat) (n : Note) : State :=
  if n.level ≤ level then { st with notes := st.notes.push n } else st

end State

structure Run where
  /-- The value of the last statement, which is nothing unless that is an expression. -/
  outcome : Except Failure Value
  state : State

namespace Run

/-- What becomes of a run when it leaves a statement. -/
def locate (line : Option Int) (run : Run) : Run :=
  match run.outcome with
  | .ok _ => run
  | .error f => { run with outcome := .error (f.locate line) }

/-- What becomes of a run when it leaves a block that was entered at a depth. -/
def leave (level depth : Nat) (run : Run) : Run :=
  let outside := { run.state with scopes := run.state.scopes.cut depth }
  match run.outcome with
  | .ok _ => ⟨.ok .nothing, outside.note level (.left outside.scopes.depth)⟩
  | .error f => ⟨.error f, outside⟩

end Run

namespace State

variable (σ : Setting)

/-- Prints the value of an expression. -/
def print (st : State) (e : Expr) : Run :=
  match evaluate σ st.scopes e >>= Value.textWithin σ.limit with
  | .ok line => ⟨.ok .nothing, { st with printed := st.printed.push line }⟩
  | .error f => ⟨.error f, st⟩

/-- Tells the trace of a binding. -/
def tellBinding (st : State) (name : String) (v : Value) : Run :=
  if 2 ≤ σ.level then
    match v.textWithin σ.limit with
    | .ok text => ⟨.ok .nothing, st.note σ.level (.declared name v.variant text)⟩
    | .error f => ⟨.error f, st⟩
  else ⟨.ok .nothing, st⟩

/-- Binds a name to the value of an expression. -/
def declare (st : State) (name : String) (e : Expr) (fresh : Bool) : Run :=
  if !fresh && !st.scopes.binds name then ⟨.error (.of (.uninitializedVariable name)), st⟩
  else
    match evaluate σ st.scopes e with
    | .error f => ⟨.error f, st⟩
    | .ok v =>
      match st.scopes.declare σ.limit name v fresh with
      | .error f => ⟨.error f, st⟩
      | .ok scopes => tellBinding σ { st with scopes := scopes } name v

/-- Tells the trace of a condition. -/
def tellCondition (st : State) (guard : Guard) (condition : Expr) (v : Value) :
    Except Failure State :=
  if 3 ≤ σ.level then
    match v.textWithin σ.limit with
    | .ok text => .ok (st.note σ.level (.tested guard condition text))
    | .error f => .error f
  else .ok st

/-- Whether a condition holds. -/
def test (st : State) (guard : Guard) (condition : Expr) : Except Failure Bool × State :=
  match evaluate σ st.scopes condition with
  | .error f => (.error f, st)
  | .ok v =>
    match tellCondition σ st guard condition v with
    | .error f => (.error f, st)
    | .ok st =>
      match v with
      | .boolean b => (.ok b, st)
      | v => (.error (.of (.conditionType guard v.variant)), st)

/-- Enters a fresh scope. -/
def enter (st : State) : State :=
  let scopes := st.scopes.push
  { st with scopes := scopes }.note σ.level (.entered scopes.depth)

end State

section Execution

variable (σ : Setting)

mutual
def execute : Nat → Stmt → State → Option Run
  | 0, _, _ => none
  | fuel + 1, s, st =>
    let st := st.note σ.level (.statement s.line? s.label)
    let run : Option Run :=
      match s with
      | .expr e _ => some ⟨evaluate σ st.scopes e, st⟩
      | .print e _ => some (st.print σ e)
      | .declare name e fresh _ => some (st.declare σ name e fresh)
      | .branch condition yes no _ =>
        match st.test σ .branch condition with
        | (.error f, st) => some ⟨.error f, st⟩
        | (.ok true, st) => executeBlock fuel yes st
        | (.ok false, st) => executeBlock fuel no st
      | .loop condition body _ => executeLoop fuel condition body st
      | .blank => some ⟨.error .blankStatement, st⟩
    run.map (Run.locate s.line?)

/-- Statements in a scope of their own, which is dropped however they end. -/
def executeBlock : Nat → List Stmt → State → Option Run
  | 0, _, _ => none
  | fuel + 1, body, st =>
    (executeAll fuel body .nothing (st.enter σ)).map (Run.leave σ.level st.scopes.depth)

/-- A block again and again, as long as the condition holds. -/
def executeLoop : Nat → Expr → List Stmt → State → Option Run
  | 0, _, _, _ => none
  | fuel + 1, condition, body, st =>
    match st.test σ .loop condition with
    | (.error f, st) => some ⟨.error f, st⟩
    | (.ok false, st) => some ⟨.ok .nothing, st⟩
    | (.ok true, st) =>
      match executeBlock fuel body st with
      | some ⟨.ok _, st⟩ => executeLoop fuel condition body st
      | run => run

/-- Statements one after the other up to the first that fails; `v` is the value of the one
before. -/
def executeAll : Nat → List Stmt → Value → State → Option Run
  | 0, _, _, _ => none
  | _ + 1, [], v, st => some ⟨.ok v, st⟩
  | fuel + 1, s :: rest, _, st =>
    match execute fuel s st with
    | some ⟨.ok v, st⟩ => executeAll fuel rest v st
    | run => run
end

/-- A program from the scopes of a state on. -/
def runProgram (fuel : Nat) (program : List Stmt) (st : State) : Option Run :=
  executeAll σ fuel program .nothing st

end Execution

end Parlance
