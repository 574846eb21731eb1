import Parlance.Command.Arguments
import Parlance.Command.Folder
import Parlance.Prompt

/-!
# The command

Without a script the command is a prompt, with one it runs the script, and with more it tells how it
is used. A trace is written to a file of its own, which is made before the script is looked up.
-/

namespace Parlance.Command

def usage : String := "usage: slang [-h] [-v] [script ...]\n"

def help : String :=
  usage ++ "\nSlang language interpreter\n\n" ++
  "positional arguments:\n" ++
  "  script      Slang program file (.slang) to execute\n\n" ++
  "options:\n" ++
  "  -h, --help  show this help message and exit\n" ++
  "  -v          increase debug verbosity (can be repeated)\n"

/-- Where the trace goes. -/
def traceFile : String := "debug.txt"

/-- Why a command stops without a status of its own. -/
inductive Stop where
  | failure (f : Failure)
  | exit (code : Nat)
  | folder
  | notText
  | tooLong

/-- What a command does. -/
structure Outcome where
  events : Array Event
  status : Except Stop Nat
  /-- The notes in the trace file, if that was made. -/
  trace : Option (Array Note)

/-- What a command line asks to do. -/
inductive Plan where
  | done (outcome : Outcome)
  | prompt (level : Nat)
  | script (level : Nat) (path : String)

def plan (args : List String) : Plan :=
  match request args with
  | .help => .done ⟨#[.told help], .error (.exit 0), none⟩
  | .refused message =>
    .done ⟨#[.warned (usage ++ "slang: error: " ++ message ++ "\n")], .error (.exit 2), none⟩
  | .accepted level [] => .prompt level
  | .accepted level [script] => .script level script
  | .accepted _ _ => .done ⟨#[.told "Usage: slang [script]\n"], .ok 0, none⟩

/-- The trace file of a run at a level. -/
def traceOf (level : Nat) (st : State) : Option (Array Note) :=
  if level = 0 then none else some st.notes

/-- Runs the text of a script. -/
def runSource (level fuel : Nat) (source : String) : Option Outcome :=
  match parseProgram source with
  | .error e => some ⟨#[.reported e], .ok 1, traceOf level .start⟩
  | .ok program =>
    (runProgram (.standard level) fuel program .start).map fun run =>
      let printed := run.state.printed.map .printed
      let trace := traceOf level run.state
      match run.outcome with
      | .ok _ => ⟨printed, .ok 0, trace⟩
      | .error (.error e) => ⟨printed.push (.reported e), .ok 1, trace⟩
      | .error f => ⟨printed, .error (.failure f), trace⟩

/-- Runs what a path to a script led to. -/
def runScript (level fuel : Nat) (path : String) (entry : Entry) : Option Outcome :=
  let trace := traceOf level .start
  match entry with
  | .missing =>
    some ⟨#[.warned ("Error: file " ++ pathText path ++ " not found\n")], .ok 1, trace⟩
  | .folder => some ⟨#[], .error .folder, trace⟩
  | .tooLong => some ⟨#[], .error .tooLong, trace⟩
  | .file bytes =>
    match Text.ofBytes? bytes with
    | none => some ⟨#[], .error .notText, trace⟩
    | some source => runSource level fuel source

/-- A session at the prompt over all lines. -/
def runPrompt (level fuel : Nat) (lines : List String) : Option Outcome :=
  (Session.run (.standard level) fuel lines .start).map fun
    | .goesOn s | .ends s => ⟨s.events, .ok 0, traceOf level s.state⟩
    | .fails f s => ⟨s.events, .error (.failure f), traceOf level s.state⟩

/-- The whole command, in a folder and with the lines put in. -/
def run (fuel : Nat) (args : List String) (folder : Folder) (lines : List String) :
    Option Outcome :=
  match plan args with
  | .done outcome => some outcome
  | .prompt level => runPrompt level fuel lines
  | .script level path =>
    let folder := if level = 0 then folder else folder.write traceFile .empty
    runScript level fuel path (folder.find path)

end Parlance.Command
