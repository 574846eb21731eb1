import Parlance.Reader.Basic

/-!
# Reading expressions

Operators bind by their powers: after an operand, `joined` goes on as long as the next operator
binds at least as strongly as asked for, and reads its right side with its power to the right.
Every bracket and every operator in front of an operand takes one level of the `room` for nesting.
-/

namespace Parlance

/-- The operator that a token stands for after an operand. -/
def Op.joining? : Kind → Option Op
  | .orWord => some .or
  | .andWord => some .and
  | .equal => some .equal
  | .bangEqual => some .notEqual
  | .less => some .less
  | .greater => some .greater
  | .lessEqual => some .lessEqual
  | .greaterEqual => some .greaterEqual
  | .plus => some .plus
  | .minus => some .minus
  | .star => some .multiply
  | .slash => some .divide
  | .percent => some .mod
  | .leftBracket => some .index
  | .dot => some .field
  | _ => none

/-- The operator that a token stands for before an operand. -/
def Op.leading? : Kind → Option Op
  | .minus => some .minus
  | .bang => some .not
  | _ => none

/-- The operator after an operand, with its powers, if it binds at least as strongly as `least`. -/
def Op.next? (least : Nat) (kind : Kind) : Option (Op × Nat) :=
  match Op.joining? kind with
  | none => none
  | some op =>
    match op.power? with
    | none => none
    | some (left, right) => if left < least then none else some (op, right)

namespace Reader

variable (last : Int)

mutual
/-- An expression of operators that bind at least as strongly as `least`. -/
def expression (room least : Nat) (ts : List Token) : Reading ts Expr :=
  match operand room ts with
  | .error e => .error e
  | .ok ⟨left, rest, h⟩ => joined room least ts left rest h
termination_by (ts.length, 1)

/-- What follows an operand: operators with their right sides, indexes and fields. -/
def joined (room least : Nat) (start : List Token) (left : Expr) (ts : List Token)
    (h : ts.length < start.length) : Reading start Expr :=
  match ts with
  | [] => .ok ⟨left, [], h⟩
  | t :: rest =>
    match Op.next? least t.kind with
    | none => .ok ⟨left, t :: rest, h⟩
    | some (.index, _) =>
      match room with
      | 0 => .error (depthError last rest)
      | inside + 1 =>
        match expression inside 0 rest with
        | .error e => .error e
        | .ok ⟨i, rest₁, h₁⟩ =>
          match expect last .rightBracket .closedIndex rest₁ with
          | .error e => .error e
          | .ok ⟨_, rest₂, h₂⟩ =>
            joined (inside + 1) least start (.apply .index [left, i]) rest₂
              (by simp only [List.length_cons] at h; omega)
    | some (.field, _) =>
      match expect last .identifier .fieldName rest with
      | .error e => .error e
      | .ok ⟨field, rest₁, h₁⟩ =>
        joined room least start (.apply .field [left, .name field.lexeme]) rest₁
          (by simp only [List.length_cons] at h; omega)
    | some (op, power) =>
      match expression room power rest with
      | .error e => .error e
      | .ok ⟨right, rest₁, h₁⟩ =>
        joined room least start (.apply op [left, right]) rest₁
          (by simp only [List.length_cons] at h; omega)
termination_by (ts.length, 0)

/-- What operators stand between. -/
def operand (room : Nat) (ts : List Token) : Reading ts Expr :=
  match ts with
  | [] => .error (refusal last .expression [])
  | t :: rest =>
    match t.kind with
    | .number | .string => .ok ⟨.literal t.literal, rest, Nat.lt_succ_self _⟩
    | .trueWord => .ok ⟨.literal (.boolean true), rest, Nat.lt_succ_self _⟩
    | .falseWord => .ok ⟨.literal (.boolean false), rest, Nat.lt_succ_self _⟩
    | .identifier =>
      match rest with
      | [] => .ok ⟨.name t.lexeme, [], Nat.lt_succ_self _⟩
      | p :: inner =>
        if p.kind = .leftParen then
          match items room .rightParen .closedCall (t :: p :: inner) inner (lt_two t p inner) with
          | .error e => .error e
          | .ok ⟨args, rest₁, h₁⟩ => .ok ⟨.call t.lexeme args, rest₁, h₁⟩
        else .ok ⟨.name t.lexeme, p :: inner, Nat.lt_succ_self _⟩
    | .leftParen =>
      match room with
      | 0 => .error (depthError last rest)
      | inside + 1 =>
        match expression inside 0 rest with
        | .error e => .error e
        | .ok ⟨e, rest₁, h₁⟩ =>
          match expect last .rightParen .closedParen rest₁ with
          | .error e => .error e
          | .ok ⟨_, rest₂, h₂⟩ => .ok ⟨e, rest₂, by simp only [List.length_cons]; omega⟩
    | .leftBracket =>
      match items room .rightBracket .closedArray (t :: rest) rest (Nat.lt_succ_self _) with
      | .error e => .error e
      | .ok ⟨es, rest₁, h₁⟩ => .ok ⟨.array es, rest₁, h₁⟩
    | kind =>
      match Op.leading? kind with
      | none => .error (refusal last .expression (t :: rest))
      | some op =>
        match room with
        | 0 => .error (depthError last rest)
        | inside + 1 =>
          match expression inside Op.frontPower rest with
          | .error e => .error e
          | .ok ⟨e, rest₁, h₁⟩ =>
            .ok ⟨.apply op [e], rest₁, by simp only [List.length_cons]; omega⟩
termination_by (ts.length, 0)

/-- Expressions with commas between them, up to and with the token that closes them. -/
def items (room : Nat) (closer : Kind) (wanted : Wanted) (start ts : List Token)
    (h : ts.length < start.length) : Reading start (List Expr) :=
  if (front last ts).kind = closer then
    .ok ⟨[], ts.tail, by rw [List.length_tail]; omega⟩
  else
    match room with
    | 0 => .error (depthError last ts)
    | inside + 1 => moreItems inside closer wanted start ts h
termination_by (ts.length, 3)

/-- At least one expression. -/
def moreItems (room : Nat) (closer : Kind) (wanted : Wanted) (start ts : List Token)
    (h : ts.length < start.length) : Reading start (List Expr) :=
  match expression room 0 ts with
  | .error e => .error e
  | .ok ⟨e, [], h₁⟩ => .error (refusal last wanted [])
  | .ok ⟨e, t :: rest, h₁⟩ =>
    if t.kind = .comma then
      match moreItems room closer wanted start rest
          (by simp only [List.length_cons] at h₁; omega) with
      | .error e => .error e
      | .ok ⟨es, rest₁, h₂⟩ => .ok ⟨e :: es, rest₁, h₂⟩
    else if t.kind = closer then
      .ok ⟨[e], rest, by simp only [List.length_cons] at h₁; omega⟩
    else .error (refusal last wanted (t :: rest))
termination_by (ts.length, 2)
decreasing_by
  · decreasing_tactic
  · apply Prod.Lex.left
    simp only [List.length_cons] at h₁
    omega
end

end Reader

/-- An expression that nests at most `limit` deep and is followed by line ends only. -/
def readExpression (limit : Nat) (ts : List Token) : Except Error Expr :=
  let last := Reader.lastLine ts
  match Reader.expression last limit 0 ts with
  | .error e => .error e
  | .ok ⟨e, rest, _⟩ =>
    let rest := Reader.skipNewlines rest
    if (Reader.front last rest).kind = .endOfInput then .ok e
    else .error (Reader.refusal last .noMore rest)

end Parlance
