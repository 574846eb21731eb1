import Parlance.Reader.Expression
import Parlance.Token.Scan

/-!
# Reading statements

Statements end at a line end, at the brace that closes their block, or at the end of the input. An
`else` or `elif` may stand on a later line than the brace before it. Every block, and every `elif`,
takes one level of the `room` for nesting.
-/

namespace Parlance

/-- The operator of an assignment that computes with the old value. -/
def Op.assigning? : Kind → Option Op
  | .plusAssign => some .plus
  | .minusAssign => some .minus
  | _ => none

namespace Reader

variable (last : Int)

/-- Kinds at which a statement may end. -/
def endsStatement (kind : Kind) : Bool :=
  kind == .newline || kind == .endOfInput || kind == .rightBrace

/-- A declaration from what stands after its equals sign. -/
def declaration (room : Nat) (start : List Token) (name : String) (value : Expr → Expr)
    (fresh : Bool) (line : Int) (ts : List Token) (h : ts.length < start.length) :
    Reading start Stmt :=
  match expression last room 0 ts with
  | .error e => .error e
  | .ok ⟨e, rest, h₁⟩ => .ok ⟨.declare name (value e) fresh line, rest, Nat.lt_trans h₁ h⟩

/-- A declaration that introduces its name, from what stands after `let`. -/
def introduction (room : Nat) (start : List Token) (line : Int) (ts : List Token)
    (h : ts.length < start.length) : Reading start Stmt :=
  match expect last .identifier .variableName ts with
  | .error e => .error e
  | .ok ⟨name, rest, h₁⟩ =>
    match expect last .assign .assignSign rest with
    | .error e => .error e
    | .ok ⟨_, rest₁, h₂⟩ =>
      declaration last room start name.lexeme id true line rest₁
        (Nat.lt_trans h₂ (Nat.lt_trans h₁ h))

/-- A statement that is one expression. -/
def expressionStatement (room : Nat) (ts : List Token) : Reading ts Stmt :=
  match expression last room 0 ts with
  | .error e => .error e
  | .ok ⟨e, rest, h⟩ => .ok ⟨.expr e (front last ts).line, rest, h⟩

/-- A statement that starts with a name: an assignment, or else an expression. -/
def named (room : Nat) (ts : List Token) : Reading ts Stmt :=
  match ts with
  | t :: sign :: rest =>
    if sign.kind = .assign then
      declaration last room (t :: sign :: rest) t.lexeme id false t.line rest (lt_two t sign rest)
    else match Op.assigning? sign.kind with
      | some op =>
        declaration last room (t :: sign :: rest) t.lexeme
          (fun e => .apply op [.name t.lexeme, e]) false t.line rest (lt_two t sign rest)
      | none => expressionStatement last room (t :: sign :: rest)
  | ts => expressionStatement last room ts

mutual
def statement (room : Nat) (ts : List Token) : Reading ts Stmt :=
  match ts with
  | [] => expressionStatement last room []
  | t :: rest =>
    match t.kind with
    | .letWord => introduction last room (t :: rest) t.line rest (Nat.lt_succ_self _)
    | .printWord =>
      match expression last room 0 rest with
      | .error e => .error e
      | .ok ⟨e, rest₁, h₁⟩ => .ok ⟨.print e t.line, rest₁, by simp only [List.length_cons]; omega⟩
    | .ifWord => branching room (t :: rest) t.line rest (Nat.lt_succ_self _)
    | .whileWord =>
      match expression last room 0 rest with
      | .error e => .error e
      | .ok ⟨condition, rest₁, h₁⟩ =>
        match block room rest₁ with
        | .error e => .error e
        | .ok ⟨body, rest₂, h₂⟩ =>
          .ok ⟨.loop condition body t.line, rest₂, by simp only [List.length_cons]; omega⟩
    | .identifier => named last room (t :: rest)
    | _ => expressionStatement last room (t :: rest)
termination_by (ts.length, 0)

/-- A conditional from its condition on. -/
def branching (room : Nat) (start : List Token) (line : Int) (ts : List Token)
    (h : ts.length < start.length) : Reading start Stmt :=
  match expression last room 0 ts with
  | .error e => .error e
  | .ok ⟨condition, rest, h₁⟩ =>
    match block room rest with
    | .error e => .error e
    | .ok ⟨yes, rest₁, h₂⟩ =>
      match pastNewlines rest₁ with
      | none => .ok ⟨.branch condition yes [] line, rest₁, by omega⟩
      | some ⟨t, rest₂, h₃⟩ =>
        if t.kind = .elifWord then
          match room with
          | 0 => .error (depthError last rest₂)
          | inside + 1 =>
            match branching inside start t.line rest₂ (by omega) with
            | .error e => .error e
            | .ok ⟨no, rest₃, h₄⟩ => .ok ⟨.branch condition yes [no] line, rest₃, h₄⟩
        else if t.kind = .elseWord then
          match block room rest₂ with
          | .error e => .error e
          | .ok ⟨no, rest₃, h₄⟩ => .ok ⟨.branch condition yes no line, rest₃, by omega⟩
        else .ok ⟨.branch condition yes [] line, rest₁, by omega⟩
termination_by (ts.length, 1)

/-- Statements between braces. -/
def block (room : Nat) (ts : List Token) : Reading ts (List Stmt) :=
  match expect last .leftBrace .openedBlock ts with
  | .error e => .error e
  | .ok ⟨_, rest, h⟩ =>
    match room with
    | 0 => .error (depthError last rest)
    | inside + 1 => body inside ts (skipNewlines rest) (skipNewlines_lt h)
termination_by (ts.length, 0)
decreasing_by exact Prod.Lex.left _ _ (skipNewlines_lt h)

/-- The statements of a block, up to and with the brace that closes it. -/
def body (room : Nat) (start ts : List Token) (h : ts.length < start.length) :
    Reading start (List Stmt) :=
  match ts with
  | [] => .error (refusal last .closedBlock [])
  | t :: rest =>
    if t.kind = .rightBrace then .ok ⟨[], rest, by simp only [List.length_cons] at h; omega⟩
    else if t.kind = .endOfInput then .error (refusal last .closedBlock (t :: rest))
    else
      match statement room (t :: rest) with
      | .error e => .error e
      | .ok ⟨s, rest₁, h₁⟩ =>
        if endsStatement (front last rest₁).kind then
          match body room start (skipNewlines rest₁) (skipNewlines_lt (Nat.lt_trans h₁ h)) with
          | .error e => .error e
          | .ok ⟨ss, rest₂, h₂⟩ => .ok ⟨s :: ss, rest₂, h₂⟩
        else .error (refusal last .endOfStatement rest₁)
termination_by (ts.length, 1)
decreasing_by
  · decreasing_tactic
  · exact Prod.Lex.left _ _ (skipNewlines_lt h₁)
end

/-- All statements up to the end of the input. -/
def program (room : Nat) (ts : List Token) : Except Error (List Stmt) :=
  if (front last ts).kind = .endOfInput then .ok []
  else
    match statement last room ts with
    | .error e => .error e
    | .ok ⟨s, rest, _⟩ =>
      if endsStatement (front last rest).kind then
        match program room (skipNewlines rest) with
        | .error e => .error e
        | .ok ss => .ok (s :: ss)
      else .error (refusal last .endOfStatement rest)
termination_by ts.length
decreasing_by exact skipNewlines_lt (by assumption)

end Reader

/-- A program that nests at most `limit` deep. -/
def readProgram (limit : Nat) (ts : List Token) : Except Error (List Stmt) :=
  Reader.program (Reader.lastLine ts) limit (Reader.skipNewlines ts)

/-- How deep programs, expressions and the text of values may nest. -/
def nestingLimit : Nat := 400

/-- The expression that a text holds. -/
def parseExpression (source : String) : Except Error Expr :=
  scan source >>= readExpression nestingLimit

/-- The statements that a text holds. -/
def parseProgram (source : String) : Except Error (List Stmt) :=
  scan source >>= readProgram nestingLimit

end Parlance
