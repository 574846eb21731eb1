import Parlance.Text.Digit
import Parlance.Text.Quoted

/-!
# Command line arguments

The options are `-h`, `--help` and a `-v` that may be repeated; letters may share one dash, with an
equals sign after the first or not, and `--help` may be shortened. The first run of other arguments
names the scripts. After `--` nothing is an option. What stands elsewhere is not recognised.
-/

namespace Parlance.Command

inductive Flag where
  | help
  | verbose
  deriving Repr, DecidableEq

def Flag.name : Flag → String
  | .help => "-h/--help"
  | .verbose => "-v"

def Flag.ofLetter? : Char → Option Flag
  | 'h' => some .help
  | 'v' => some .verbose
  | _ => none

/-- What an argument is. -/
inductive Argument where
  | plain (text : String)
  | unknown (text : String)
  /-- Flags behind one dash: the first one, and what follows it. -/
  | cluster (first : Flag) (rest : List Char)
  /-- A flag with a value, which it does not take. -/
  | valued (flag : Flag) (value : List Char)
  deriving Repr, DecidableEq

/-- A minus sign and decimal digits, with a point before some of them or not. -/
def isNegativeNumeral (cs : List Char) : Bool :=
  match cs with
  | '-' :: rest =>
    let rest := if rest.getLast? = some '\n' then rest.dropLast else rest
    match rest.dropWhile Text.isDigit with
    | [] => !rest.isEmpty
    | '.' :: fraction => !fraction.isEmpty && fraction.all Text.isDigit
    | _ => false
  | _ => false

/-- An argument that is no option. -/
def classifyOther (text : String) : Argument :=
  if isNegativeNumeral text.toList || text.toList.contains ' ' then .plain text else .unknown text

def classify (text : String) : Argument :=
  match text.toList with
  | [] => .plain text
  | ['-'] => .plain text
  | '-' :: '-' :: name =>
    let front := name.takeWhile (· != '=')
    if front.isPrefixOf "help".toList then
      match name.drop front.length with
      | [] => .cluster .help []
      | _ :: value => .valued .help value
    else classifyOther text
  | '-' :: letter :: rest =>
    match Flag.ofLetter? letter, rest with
    | some flag, ['='] => .valued flag []
    | some flag, '=' :: value => .cluster flag value
    | some flag, rest => .cluster flag rest
    | none, _ => classifyOther text
  | _ => .plain text

/-- All arguments; those from the first `--` on are plain. -/
def classifyAll : List String → List Argument
  | [] => []
  | text :: rest =>
    if text = "--" then .plain text :: rest.map .plain
    else classify text :: classifyAll rest

/-- The complaint about a value that a flag does not take. -/
def ignoredValue (flag : Flag) (value : List Char) : String :=
  "argument " ++ flag.name ++ ": ignored explicit argument " ++ Text.quoted (String.ofList value)

/-- The flags of a cluster. From a letter on that is no flag, the rest would be a value of the flag
before it. -/
def openCluster (flag : Flag) : List Char → Except String (List Flag)
  | [] => .ok [flag]
  | c :: rest =>
    match Flag.ofLetter? c with
    | none => .error (ignoredValue flag (c :: rest))
    | some next => (openCluster next rest).map (flag :: ·)

/-- What a command line asks for. -/
inductive Request where
  | help
  | refused (message : String)
  | accepted (verbosity : Nat) (scripts : List String)
  deriving Repr, DecidableEq

/-- Where the scripts stand: still to come, in the run of arguments being read, or behind. -/
inductive Place where
  | ahead
  | here
  | behind
  deriving Repr, DecidableEq

structure Reading where
  verbosity : Nat
  scripts : List String
  place : Place
  unrecognised : List String

namespace Reading

def start : Reading := ⟨0, [], .ahead, []⟩

def refuse (r : Reading) (text : String) : Reading :=
  { r with unrecognised := r.unrecognised ++ [text] }

def plain (r : Reading) (text : String) : Reading :=
  match r.place with
  | .behind => r.refuse text
  | _ => { r with scripts := r.scripts ++ [text], place := .here }

/-- An option ends the run of scripts. -/
def leave (r : Reading) : Reading :=
  match r.place with
  | .here => { r with place := .behind }
  | _ => r

/-- Follows flags; `none` when one asks for help. -/
def follow (r : Reading) : List Flag → Option Reading
  | [] => some r
  | .help :: _ => none
  | .verbose :: rest => follow { r with verbosity := r.verbosity + 1 } rest

def finish (r : Reading) : Request :=
  if r.unrecognised.isEmpty then .accepted r.verbosity (r.scripts.erase "--")
  else .refused ("unrecognized arguments: " ++ " ".intercalate r.unrecognised)

def run (r : Reading) : List Argument → Request
  | [] => r.finish
  | .plain text :: rest => run (r.plain text) rest
  | .unknown text :: rest => run (r.leave.refuse text) rest
  | .cluster flag letters :: rest =>
    match openCluster flag letters with
    | .error message => .refused message
    | .ok flags =>
      match r.leave.follow flags with
      | none => .help
      | some r => run r rest
  | .valued flag value :: _ => .refused (ignoredValue flag value)

end Reading

/-- What the arguments ask for. -/
def request (args : List String) : Request := Reading.start.run (classifyAll args)

end Parlance.Command
