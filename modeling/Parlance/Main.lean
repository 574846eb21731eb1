import Parlance.Command

/-!
# The command line

Reads what the command needs, shows its events and ends with its status.
-/

namespace Parlance.Command

/-- The bound on the steps of a run, beyond what any run gets to. -/
def patience : Nat := Nat.pow 2 62

def display (event : Event) : IO Unit := do
  let out ← IO.getStdout
  match event with
  | .asked prompt => out.putStr prompt
  | .printed line => out.putStr (line ++ "\n")
  | .echoed text => out.putStr (text ++ "\n")
  | .told text => out.putStr text
  | .reported e => IO.eprint (e.text ++ "\n")
  | .warned text => IO.eprint text
  out.flush

def writeTrace (trace : Option (Array Note)) : IO Unit :=
  match trace with
  | none => pure ()
  | some notes => IO.FS.writeFile traceFile (notes.foldl (fun s n => s ++ n.text ++ "\n") "")

/-- Shows what a command did and gives its status. -/
def conclude (outcome : Outcome) : IO UInt32 := do
  outcome.events.forM display
  writeTrace outcome.trace
  match outcome.status with
  | .ok status => return status.toUInt32
  | .error (.exit code) => return code.toUInt32
  | .error (.failure f) => do
    IO.eprintln f.message
    return 1
  | .error _ => do
    IO.eprintln "cannot read the script"
    return 1

/-- The next line put in, without its line end. -/
def nextLine : IO (Option String) := do
  let line ← (← IO.getStdin).getLine
  if line.isEmpty then return none
  else return some (String.ofList (Text.dropEnd (· == '\n') line.toList))

partial def converse (σ : Setting) (s : Session) : IO UInt32 := do
  let s := s.ask
  s.events.forM display
  let s := { s with events := #[] }
  let progress ← match ← nextLine with
    | some line => pure (s.step σ patience line)
    | none => pure (s.close σ patience)
  match progress with
  | some (.goesOn s) => do
    s.events.forM display
    writeTrace (traceOf σ.level s.state)
    converse σ { s with events := #[] }
  | some (.ends s) => conclude ⟨s.events, .ok 0, traceOf σ.level s.state⟩
  | some (.fails f s) => conclude ⟨s.events, .error (.failure f), traceOf σ.level s.state⟩
  | none => return 1

def lookUp (path : String) : IO Entry := do
  try
    return .file (← IO.FS.readBinFile (pathText path))
  catch
    | .noFileOrDirectory .. => return .missing
    | _ => return .folder

def follow (args : List String) : IO UInt32 := do
  match plan args with
  | .done outcome => conclude outcome
  | .prompt level => do
    writeTrace (traceOf level .start)
    converse (.standard level) .start
  | .script level path => do
    writeTrace (traceOf level .start)
    match runScript level patience path (← lookUp path) with
    | some outcome => conclude outcome
    | none => return 1

end Parlance.Command

def main (args : List String) : IO UInt32 := Parlance.Command.follow args
