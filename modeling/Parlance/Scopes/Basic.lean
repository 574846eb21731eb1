import Parlance.Value

/-!
# Scopes and stacks of scopes

A scope binds names to values in the order in which they came; binding a name again keeps its
place. A stack has a current scope and those around it, the nearest first.
-/

namespace Parlance

abbrev Scope := List (String × Value)

namespace Scope

def get? (scope : Scope) (name : String) : Option Value := scope.lookup name

def binds (scope : Scope) (name : String) : Bool := (scope.get? name).isSome

def set (scope : Scope) (name : String) (v : Value) : Scope :=
  match scope with
  | [] => [(name, v)]
  | (x, w) :: rest => if name == x then (x, v) :: rest else (x, w) :: set rest name v

/-- The scope that results from binding one pair after the other. -/
def ofList (entries : List (String × Value)) : Scope :=
  entries.foldl (fun scope entry => scope.set entry.1 entry.2) []

def inspect (scope : Scope) : String :=
  "\x7b" ++ ", ".intercalate (scope.map fun entry => Text.quoted entry.1 ++ ": " ++ entry.2.inspect)
    ++ "\x7d"

end Scope

structure Scopes where
  /-- The current scope. -/
  inner : Scope
  /-- The scopes around it, the nearest first. -/
  outer : List Scope

namespace Scopes

def empty : Scopes := ⟨[], []⟩

/-- All scopes, the nearest first. -/
def frames (s : Scopes) : List Scope := s.inner :: s.outer

/-- All scopes, the outermost first. -/
def toList (s : Scopes) : List Scope := s.frames.reverse

/-- The stack of these scopes, the outermost first; a stack is never without a scope. -/
def ofList (scopes : List Scope) : Scopes :=
  match scopes.reverse with
  | [] => empty
  | inner :: outer => ⟨inner, outer⟩

def depth (s : Scopes) : Nat := s.frames.length

def push (s : Scopes) : Scopes := ⟨[], s.frames⟩

/-- The stack without its current scope, unless that is the only one. -/
def pop? (s : Scopes) : Option Scopes :=
  match s.outer with
  | [] => none
  | inner :: outer => some ⟨inner, outer⟩

/-- Drops current scopes until at most `depth` are left, and at least one. -/
def cutTo (depth : Nat) (inner : Scope) : List Scope → Scopes
  | [] => ⟨inner, []⟩
  | next :: outer =>
    if depth < outer.length + 2 then cutTo depth next outer else ⟨inner, next :: outer⟩

def cut (s : Scopes) (depth : Nat) : Scopes := cutTo depth s.inner s.outer

/-- Runs `body` in a fresh current scope, and drops what stands above the old ones afterwards. -/
def within {α : Type} (s : Scopes) (body : Scopes → α × Scopes) : α × Scopes :=
  let (a, t) := body s.push
  (a, t.cut s.depth)

/-- The nearest scope that binds a name. -/
def find? (s : Scopes) (name : String) : Option Scope := s.frames.find? (·.binds name)

def get? (s : Scopes) (name : String) : Option Value := s.frames.findSome? (·.get? name)

def binds (s : Scopes) (name : String) : Bool := (s.find? name).isSome

/-- Binds a name in the current scope. -/
def set (s : Scopes) (name : String) (v : Value) : Scopes := ⟨s.inner.set name v, s.outer⟩

/-- Binds a name again in the nearest of the scopes that binds it. -/
def rebindIn (name : String) (v : Value) : List Scope → List Scope
  | [] => []
  | scope :: rest =>
    if scope.binds name then scope.set name v :: rest else scope :: rebindIn name v rest

def rebind (s : Scopes) (name : String) (v : Value) : Scopes :=
  if s.inner.binds name then s.set name v else ⟨s.inner, rebindIn name v s.outer⟩

def inspect (s : Scopes) : String :=
  "Environment([" ++ ", ".intercalate (s.toList.map Scope.inspect) ++ "])"

end Scopes

end Parlance
