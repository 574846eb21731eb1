import Parlance.Reader.Statement
import Parlance.Run

/-!
# The prompt

Lines are gathered until they hold whole statements, which are then run. Input that stops in the
middle of a construct goes on with the next line. A conditional whose last brace ends its line is
held back for one line, which may go on with `else` or `elif`. Errors are reported and the names
stay; any other failure ends the session.
-/

namespace Parlance

/-- What a user sees. -/
inductive Event where
  | asked (prompt : String)
  /-- A line that a script prints. -/
  | printed (line : String)
  /-- The value of an expression that was put in. -/
  | echoed (text : String)
  | reported (e : Error)
  | told (text : String)
  | warned (text : String)

/-- The standard setting with this much of a trace. -/
def Setting.standard (level : Nat) : Setting :=
  { functions := .standard nestingLimit, limit := nestingLimit, level := level }

structure Session where
  /-- The lines put in that have not been run. -/
  buffer : String
  /-- What the buffer holds, when it waits for an `else`. -/
  held : Option (List Stmt)
  state : State
  events : Array Event

/-- How a session stands after a line. -/
inductive Progress where
  | goesOn (s : Session)
  | ends (s : Session)
  | fails (f : Failure) (s : Session)

namespace Session

def start : Session := ⟨"", none, .start, #[]⟩

def tell (s : Session) (e : Event) : Session := { s with events := s.events.push e }

def prompt (s : Session) : String := if s.buffer.isEmpty then ">> " else ".. "

def ask (s : Session) : Session := s.tell (.asked s.prompt)

/-- The session with an empty buffer. -/
def clear (s : Session) : Session := { s with buffer := "", held := none }

/-- The session after a run: what was printed is told, and the state starts with nothing printed. -/
def after (s : Session) (st : State) : Session :=
  { s with
    state := { st with printed := #[] }
    events := s.events ++ st.printed.map .printed }

/-- Runs a program, reports its error or echoes its value. -/
def perform (σ : Setting) (fuel : Nat) (program : List Stmt) (s : Session) : Option Progress :=
  match runProgram σ fuel program s.state with
  | none => none
  | some ⟨outcome, st⟩ =>
    let s := s.after st
    match outcome with
    | .error (.error e) => some (.goesOn (s.tell (.reported e)))
    | .error f => some (.fails f s)
    | .ok .nothing => some (.goesOn s)
    | .ok v =>
      match v.textWithin σ.limit with
      | .ok text => some (.goesOn (s.tell (.echoed text)))
      | .error f => some (.fails f s)

/-- Does a line go on with the conditional before it? -/
def continuesBranch (line : String) : Bool :=
  match scan line with
  | .ok (t :: _) => t.kind == .elseWord || t.kind == .elifWord
  | _ => false

def isExit (line : String) : Bool :=
  Text.strip Text.isBlank line.toList == "exit".toList

/-- Is a program held back for the next line? -/
def holdsBack (program : List Stmt) (line : String) : Bool :=
  match program.getLast? with
  | some (.branch ..) => (Text.dropEnd Text.isBlank line.toList).getLast? == some '\x7d'
  | _ => false

/-- Takes a line when no program is held back. -/
def take (σ : Setting) (fuel : Nat) (line : String) (s : Session) : Option Progress :=
  if s.buffer.isEmpty && isExit line then some (.ends s)
  else
    let s := { s with buffer := s.buffer ++ line ++ "\n" }
    match parseProgram s.buffer with
    | .error e =>
      if e.cause.incomplete then some (.goesOn s)
      else some (.goesOn (s.clear.tell (.reported e)))
    | .ok program =>
      if holdsBack program line then some (.goesOn { s with held := some program })
      else perform σ fuel program s.clear

/-- Takes a line. -/
def step (σ : Setting) (fuel : Nat) (line : String) (s : Session) : Option Progress :=
  match s.held with
  | none => take σ fuel line s
  | some program =>
    if continuesBranch line then take σ fuel line { s with held := none }
    else
      match perform σ fuel program s.clear with
      | some (.goesOn s) => take σ fuel line s
      | progress => progress

/-- Ends a session at the end of the input. -/
def close (σ : Setting) (fuel : Nat) (s : Session) : Option Progress :=
  match s.held with
  | none => some (.ends s)
  | some program =>
    match perform σ fuel program s.clear with
    | some (.goesOn s) => some (.ends s)
    | progress => progress

/-- A session over all lines. -/
def run (σ : Setting) (fuel : Nat) : List String → Session → Option Progress
  | [], s => close σ fuel s.ask
  | line :: rest, s =>
    match step σ fuel line s.ask with
    | some (.goesOn s) => run σ fuel rest s
    | progress => progress

end Session

end Parlance
