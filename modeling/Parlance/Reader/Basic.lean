import Parlance.Error

/-!
# Reading tokens

A reader takes tokens from the front of a list and says what is left, which is always less than it
was given. A list that ends without a token for the end of the input is read as if that token
followed on the line of the last one.
-/

namespace Parlance.Reader

/-- What was read from the front of `start`, and the tokens that are left. -/
structure Taken (start : List Token) (α : Type) where
  value : α
  rest : List Token
  shorter : rest.length < start.length

abbrev Reading (start : List Token) (α : Type) := Except Error (Taken start α)

theorem lt_two (s t : Token) (ts : List Token) : ts.length < (s :: t :: ts).length :=
  Nat.lt_succ_of_lt (Nat.lt_succ_self _)

/-- The line of the end of the input. -/
def lastLine (ts : List Token) : Int :=
  match ts.getLast? with
  | some t => t.line
  | none => 1

variable (last : Int)

/-- The token in front. -/
def front : List Token → Token
  | [] => .endOfInput last
  | t :: _ => t

/-- The error of meeting the token in front. -/
def refusal (wanted : Wanted) (ts : List Token) : Error :=
  ⟨.unexpectedToken wanted (front last ts), some (front last ts).line⟩

/-- The error of nesting too deeply before the token in front. -/
def depthError (ts : List Token) : Error := ⟨.sourceTooDeep, some (front last ts).line⟩

/-- A token of the given kind. -/
def expect (kind : Kind) (wanted : Wanted) (ts : List Token) : Reading ts Token :=
  match ts with
  | [] => .error (refusal last wanted [])
  | t :: rest =>
    if t.kind = kind then .ok ⟨t, rest, Nat.lt_succ_self _⟩
    else .error (refusal last wanted (t :: rest))

def skipNewlines (ts : List Token) : List Token := ts.dropWhile (·.kind == .newline)

theorem skipNewlines_length_le (ts : List Token) : (skipNewlines ts).length ≤ ts.length :=
  (List.dropWhile_sublist _).length_le

theorem skipNewlines_lt {rest ts : List Token} (h : rest.length < ts.length) :
    (skipNewlines rest).length < ts.length :=
  Nat.lt_of_le_of_lt (skipNewlines_length_le rest) h

/-- The first token that is no line end. -/
def pastNewlines (ts : List Token) : Option (Taken ts Token) :=
  match h : skipNewlines ts with
  | [] => none
  | t :: rest => some ⟨t, rest, by
      have hle := skipNewlines_length_le ts
      rw [h, List.length_cons] at hle
      exact hle⟩

theorem pastNewlines_eq_none {ts : List Token} (h : skipNewlines ts = []) :
    pastNewlines ts = none := by
  unfold pastNewlines
  split
  · rfl
  · rename_i heq
    rw [h] at heq
    nomatch heq

theorem pastNewlines_eq_some {ts : List Token} {t : Token} {rest : List Token}
    (h : skipNewlines ts = t :: rest) : ∃ hs, pastNewlines ts = some ⟨t, rest, hs⟩ := by
  have hle := skipNewlines_length_le ts
  rw [h, List.length_cons] at hle
  refine ⟨hle, ?_⟩
  unfold pastNewlines
  split
  · rename_i heq
    rw [h] at heq
    nomatch heq
  · rename_i heq
    obtain ⟨rfl, rfl⟩ := List.cons.inj (heq.symm.trans h)
    rfl

end Parlance.Reader
