import Parlance.Reader.Statement

/-!
# Readers as plain functions

A reader carries the proof that it leaves less than it was given. Without that proof it is a
function from tokens to what was read and what is left, and readers follow each other by `andThen`.
Every reader of expressions is put into this form once, by one equation for each of its branches;
the later modules use the equations and never unfold a reader.
-/

namespace Parlance.Reader

variable {α β : Type} {start : List Token}

/-- What was read and what is left, without the proof that it is less. -/
def Reading.plain (r : Reading start α) : Except Error (α × List Token) :=
  match r with
  | .error e => .error e
  | .ok ⟨a, rest, _⟩ => .ok (a, rest)

theorem Reading.shorter_of_plain {r : Reading start α} {a : α} {rest : List Token}
    (h : r.plain = .ok (a, rest)) : rest.length < start.length := by
  cases r with
  | error e => cases h
  | ok taken =>
    obtain ⟨-, rfl⟩ := Prod.mk.inj (Except.ok.inj h)
    exact taken.shorter

/-- A reader without the proof that it leaves less. -/
abbrev Plain (α : Type) := List Token → Except Error (α × List Token)

namespace Plain

/-! ## Putting readers together -/

def give (a : α) : Plain α := fun ts => .ok (a, ts)

/-- Reads with `p`, then with the reader that `k` makes of what was read. -/
def andThen (p : Plain α) (k : α → Plain β) : Plain β := fun ts =>
  match p ts with
  | .error e => .error e
  | .ok (a, rest) => k a rest

theorem andThen_of_ok {p : Plain α} {k : α → Plain β} {ts rest : List Token} {a : α}
    (h : p ts = .ok (a, rest)) : p.andThen k ts = k a rest := by
  simp only [andThen, h]

theorem andThen_of_error {p : Plain α} {k : α → Plain β} {ts : List Token} {e : Error}
    (h : p ts = .error e) : p.andThen k ts = .error e := by
  simp only [andThen, h]

theorem andThen_eq_ok {p : Plain α} {k : α → Plain β} {ts rest : List Token} {b : β}
    (h : p.andThen k ts = .ok (b, rest)) :
    ∃ a mid, p ts = .ok (a, mid) ∧ k a mid = .ok (b, rest) := by
  unfold andThen at h
  split at h
  · nomatch h
  · exact ⟨_, _, by assumption, h⟩

theorem andThen_eq_error {p : Plain α} {k : α → Plain β} {ts : List Token} {e : Error}
    (h : p.andThen k ts = .error e) :
    p ts = .error e ∨ ∃ a mid, p ts = .ok (a, mid) ∧ k a mid = .error e := by
  unfold andThen at h
  split at h
  · rename_i he
    exact .inl (by rw [he, Except.error.inj h])
  · exact .inr ⟨_, _, by assumption, h⟩

variable (last : Int)

/-- Reads one level deeper, if there is room for it. -/
def within (room : Nat) (p : Nat → Plain α) : Plain α :=
  match room with
  | 0 => fun ts => .error (depthError last ts)
  | inside + 1 => p inside

variable {last} in
theorem within_eq_ok {room : Nat} {p : Nat → Plain α} {ts rest : List Token} {a : α}
    (h : within last room p ts = .ok (a, rest)) :
    ∃ inside, room = inside + 1 ∧ p inside ts = .ok (a, rest) := by
  match room, h with
  | inside + 1, h => exact ⟨inside, rfl, h⟩

/-- A token of the given kind. -/
def token (kind : Kind) (wanted : Wanted) : Plain Token := fun ts =>
  Reading.plain (expect last kind wanted ts)

theorem token_cons {kind : Kind} {wanted : Wanted} {t : Token} {rest : List Token}
    (h : t.kind = kind) : token last kind wanted (t :: rest) = .ok (t, rest) := by
  simp only [token, expect, if_pos h, Reading.plain]

theorem token_refused {kind : Kind} {wanted : Wanted} {ts : List Token}
    (h : ∀ t rest, ts = t :: rest → t.kind ≠ kind) :
    token last kind wanted ts = .error (refusal last wanted ts) := by
  match ts with
  | [] => rfl
  | t :: rest => simp only [token, expect, if_neg (h t rest rfl), Reading.plain]

variable {last} in
theorem token_eq_ok {kind : Kind} {wanted : Wanted} {ts rest : List Token} {t : Token}
    (h : token last kind wanted ts = .ok (t, rest)) : t.kind = kind ∧ ts = t :: rest := by
  match ts with
  | [] => nomatch h
  | u :: us =>
    by_cases hu : u.kind = kind
    · rw [token_cons last hu] at h
      obtain ⟨rfl, rfl⟩ := Prod.mk.inj (Except.ok.inj h)
      exact ⟨hu, rfl⟩
    · rw [token_refused last (fun t rest hts => by cases hts; exact hu)] at h
      nomatch h

variable {last} in
theorem token_eq_error {kind : Kind} {wanted : Wanted} {ts : List Token} {e : Error}
    (h : token last kind wanted ts = .error e) :
    e = refusal last wanted ts ∧ ∀ t rest, ts = t :: rest → t.kind ≠ kind := by
  have hne : ∀ t rest, ts = t :: rest → t.kind ≠ kind := by
    rintro t rest rfl hk
    rw [token_cons last hk] at h
    nomatch h
  rw [token_refused last hne] at h
  exact ⟨(Except.error.inj h).symm, hne⟩

/-! ## Readers of expressions -/

def expression (room least : Nat) : Plain Expr := fun ts =>
  Reading.plain (Reader.expression last room least ts)

def operand (room : Nat) : Plain Expr := fun ts => Reading.plain (Reader.operand last room ts)

/-- A list that any list is shorter than with one token more in front. -/
def longer (ts : List Token) : List Token := .endOfInput last :: ts

theorem lt_longer (ts : List Token) : ts.length < (longer last ts).length := Nat.lt_succ_self _

def joined (room least : Nat) (left : Expr) : Plain Expr := fun ts =>
  Reading.plain (Reader.joined last room least (longer last ts) left ts (lt_longer last ts))

def items (room : Nat) (closer : Kind) (wanted : Wanted) : Plain (List Expr) := fun ts =>
  Reading.plain (Reader.items last room closer wanted (longer last ts) ts (lt_longer last ts))

def moreItems (room : Nat) (closer : Kind) (wanted : Wanted) : Plain (List Expr) := fun ts =>
  Reading.plain (Reader.moreItems last room closer wanted (longer last ts) ts (lt_longer last ts))

/-! The list that a reader started from plays no part in what it reads. -/

theorem plain_joined_start (room least : Nat) : ∀ (left : Expr) (ts start start' : List Token)
    (h : ts.length < start.length) (h' : ts.length < start'.length),
    Reading.plain (Reader.joined last room least start left ts h) =
      Reading.plain (Reader.joined last room least start' left ts h')
  | left, [], start, start', h, h' => by
    rw [Reader.joined, Reader.joined]
    rfl
  | left, t :: rest, start, start', h, h' => by
    rw [Reader.joined.eq_def, Reader.joined.eq_def last room least start']
    dsimp only
    cases Op.next? least t.kind with
    | none => rfl
    | some pair =>
      obtain ⟨op, power⟩ := pair
      cases op
      case index =>
        cases room with
        | zero => rfl
        | succ inside =>
          dsimp only
          split
          · rfl
          · split
            · rfl
            · exact plain_joined_start (inside + 1) least _ _ _ _ _ _
      all_goals
        dsimp only
        split
        · rfl
        · exact plain_joined_start room least _ _ _ _ _ _
termination_by _ ts => ts.length
decreasing_by all_goals simp only [List.length_cons]; omega

theorem plain_moreItems_start (room : Nat) (closer : Kind) (wanted : Wanted)
    (ts start start' : List Token) (h : ts.length < start.length) (h' : ts.length < start'.length) :
    Reading.plain (Reader.moreItems last room closer wanted start ts h) =
      Reading.plain (Reader.moreItems last room closer wanted start' ts h') := by
  rw [Reader.moreItems.eq_def, Reader.moreItems.eq_def last room closer wanted start']
  split
  · rfl
  · rfl
  · rename_i e t rest h₁ _
    have hlt : rest.length < ts.length := Nat.lt_of_succ_lt h₁
    split
    · have ih := plain_moreItems_start room closer wanted rest start start' (by omega) (by omega)
      cases hr : Reader.moreItems last room closer wanted start rest (by omega) <;>
        cases hr' : Reader.moreItems last room closer wanted start' rest (by omega) <;>
        simp_all [Reading.plain]
    · split
      · rfl
      · rfl
termination_by ts.length
decreasing_by assumption

theorem plain_items_start (room : Nat) (closer : Kind) (wanted : Wanted)
    (ts start start' : List Token) (h : ts.length < start.length) (h' : ts.length < start'.length) :
    Reading.plain (Reader.items last room closer wanted start ts h) =
      Reading.plain (Reader.items last room closer wanted start' ts h') := by
  rw [Reader.items.eq_def, Reader.items.eq_def last room closer wanted start']
  split
  · rfl
  · cases room with
    | zero => rfl
    | succ inside => exact plain_moreItems_start last inside closer wanted _ _ _ _ _

/-! ## Equations -/

theorem expression_eq (room least : Nat) :
    expression last room least = (operand last room).andThen (joined last room least) := by
  funext ts
  unfold expression andThen operand
  rw [Reader.expression]
  cases Reader.operand last room ts with
  | error e => rfl
  | ok taken => exact plain_joined_start last room least _ _ _ _ _ _

theorem joined_nil (room least : Nat) (left : Expr) :
    joined last room least left [] = .ok (left, []) := by
  rw [joined, Reader.joined]
  rfl

section Joined

variable {last} {room least power : Nat} {left : Expr} {t : Token} {rest : List Token}

/-- What a token is behind an operand. -/
inductive Joint (least : Nat) (kind : Kind) : Prop where
  | stop (h : Op.next? least kind = none)
  | index {power : Nat} (h : Op.next? least kind = some (.index, power))
  | field {power : Nat} (h : Op.next? least kind = some (.field, power))
  | join {op : Op} {power : Nat} (h : Op.next? least kind = some (op, power)) (hi : op ≠ .index)
      (hf : op ≠ .field)

theorem joint (least : Nat) (kind : Kind) : Joint least kind := by
  cases hn : Op.next? least kind with
  | none => exact .stop hn
  | some pair =>
    obtain ⟨op, power⟩ := pair
    by_cases hi : op = .index
    · subst hi
      exact .index hn
    · by_cases hf : op = .field
      · subst hf
        exact .field hn
      · exact .join hn hi hf

theorem joined_stop (h : Op.next? least t.kind = none) :
    joined last room least left (t :: rest) = .ok (left, t :: rest) := by
  rw [joined, Reader.joined.eq_def]
  simp only [h, Reading.plain]

theorem joined_index (h : Op.next? least t.kind = some (.index, power)) :
    joined last room least left (t :: rest) =
      ((within last room fun inside => expression last inside 0).andThen fun i =>
        (token last .rightBracket .closedIndex).andThen fun _ =>
          joined last room least (.apply .index [left, i])) rest := by
  rw [joined, Reader.joined.eq_def]
  simp only [h]
  cases room with
  | zero => rfl
  | succ inside =>
    simp only [within, andThen, expression, token]
    cases Reader.expression last inside 0 rest with
    | error e => rfl
    | ok taken =>
      simp only [Reading.plain]
      cases expect last .rightBracket .closedIndex taken.rest with
      | error e => rfl
      | ok closer => exact plain_joined_start last (inside + 1) least _ _ _ _ _ _

theorem joined_field (h : Op.next? least t.kind = some (.field, power)) :
    joined last room least left (t :: rest) =
      ((token last .identifier .fieldName).andThen fun field =>
        joined last room least (.apply .field [left, .name field.lexeme])) rest := by
  rw [joined, Reader.joined.eq_def]
  simp only [h, andThen, token]
  cases expect last .identifier .fieldName rest with
  | error e => rfl
  | ok taken => exact plain_joined_start last room least _ _ _ _ _ _

theorem joined_join {op : Op} (h : Op.next? least t.kind = some (op, power)) (hi : op ≠ .index)
    (hf : op ≠ .field) :
    joined last room least left (t :: rest) =
      ((expression last room power).andThen fun right =>
        joined last room least (.apply op [left, right])) rest := by
  rw [joined, Reader.joined.eq_def]
  simp only [h, andThen, expression]
  cases Reader.expression last room power rest with
  | error e => cases op <;> first | contradiction | rfl
  | ok taken =>
    cases op <;> first | contradiction | exact plain_joined_start last room least _ _ _ _ _ _

end Joined

theorem operand_nil (room : Nat) :
    operand last room [] = .error (refusal last .expression []) := by
  rw [operand, Reader.operand]
  rfl

section Operand

variable {last} {room : Nat} {t : Token} {rest : List Token}

theorem operand_literal (h : t.kind = .number ∨ t.kind = .string) :
    operand last room (t :: rest) = .ok (.literal t.literal, rest) := by
  rw [operand, Reader.operand.eq_def]
  rcases h with h | h <;> simp only [h, Reading.plain]

theorem operand_true (h : t.kind = .trueWord) :
    operand last room (t :: rest) = .ok (.literal (.boolean true), rest) := by
  rw [operand, Reader.operand.eq_def]
  simp only [h, Reading.plain]

theorem operand_false (h : t.kind = .falseWord) :
    operand last room (t :: rest) = .ok (.literal (.boolean false), rest) := by
  rw [operand, Reader.operand.eq_def]
  simp only [h, Reading.plain]

theorem operand_name (h : t.kind = .identifier)
    (hp : ∀ p inner, rest = p :: inner → p.kind ≠ .leftParen) :
    operand last room (t :: rest) = .ok (.name t.lexeme, rest) := by
  rw [operand, Reader.operand.eq_def]
  match rest with
  | [] => simp only [h, Reading.plain]
  | p :: inner => simp only [h, if_neg (hp p inner rfl), Reading.plain]

theorem operand_call {p : Token} (h : t.kind = .identifier) (hp : p.kind = .leftParen) :
    operand last room (t :: p :: rest) =
      ((items last room .rightParen .closedCall).andThen fun args =>
        give (.call t.lexeme args)) rest := by
  rw [operand, Reader.operand.eq_def]
  simp only [h, if_pos hp, andThen, items]
  rw [plain_items_start last room .rightParen .closedCall rest _ _ _ (lt_two t p rest)]
  cases Reader.items last room .rightParen .closedCall (t :: p :: rest) rest (lt_two t p rest) with
  | error e => rfl
  | ok taken => rfl

theorem operand_paren (h : t.kind = .leftParen) :
    operand last room (t :: rest) =
      ((within last room fun inside => expression last inside 0).andThen fun e =>
        (token last .rightParen .closedParen).andThen fun _ => give e) rest := by
  rw [operand, Reader.operand.eq_def]
  simp only [h]
  cases room with
  | zero => rfl
  | succ inside =>
    simp only [within, andThen, expression, token]
    cases Reader.expression last inside 0 rest with
    | error e => rfl
    | ok taken =>
      simp only [Reading.plain]
      cases expect last .rightParen .closedParen taken.rest with
      | error e => rfl
      | ok closer => rfl

theorem operand_array (h : t.kind = .leftBracket) :
    operand last room (t :: rest) =
      ((items last room .rightBracket .closedArray).andThen fun es => give (.array es)) rest := by
  rw [operand, Reader.operand.eq_def]
  simp only [h, andThen, items]
  rw [plain_items_start last room .rightBracket .closedArray rest _ (t :: rest) _
    (Nat.lt_succ_self _)]
  cases Reader.items last room .rightBracket .closedArray (t :: rest) rest
      (Nat.lt_succ_self _) with
  | error e => rfl
  | ok taken => rfl

theorem operand_leading {op : Op} (h : Op.leading? t.kind = some op) :
    operand last room (t :: rest) =
      ((within last room fun inside => expression last inside Op.frontPower).andThen fun e =>
        give (.apply op [e])) rest := by
  rw [operand, Reader.operand.eq_def]
  cases hk : t.kind <;> rw [hk] at h <;> simp only [Op.leading?, reduceCtorEq] at h
  all_goals
    obtain rfl := Option.some.inj h
    simp only [hk, Op.leading?]
    cases room with
    | zero => rfl
    | succ inside =>
      simp only [within, andThen, expression]
      cases Reader.expression last inside Op.frontPower rest with
      | error e => rfl
      | ok taken => rfl

/-- The kinds that an expression starts with. -/
def opens (kind : Kind) : Bool :=
  match kind with
  | .number | .string | .trueWord | .falseWord | .identifier | .leftParen | .leftBracket | .minus
  | .bang => true
  | _ => false

theorem operand_refused (h : opens t.kind = false) :
    operand last room (t :: rest) = .error (refusal last .expression (t :: rest)) := by
  rw [operand, Reader.operand.eq_def]
  cases hk : t.kind <;> rw [hk] at h <;> simp only [opens, reduceCtorEq] at h
  all_goals simp only [hk, Op.leading?, Reading.plain]

/-- What a token is where an operand is due. -/
inductive Opening (kind : Kind) : Prop where
  | literal (h : kind = .number ∨ kind = .string)
  | trueWord (h : kind = .trueWord)
  | falseWord (h : kind = .falseWord)
  | identifier (h : kind = .identifier)
  | paren (h : kind = .leftParen)
  | array (h : kind = .leftBracket)
  | leading {op : Op} (h : Op.leading? kind = some op)
  | refused (h : opens kind = false)

theorem opening (kind : Kind) : Opening kind := by
  cases kind with
  | number => exact .literal (.inl rfl)
  | string => exact .literal (.inr rfl)
  | trueWord => exact .trueWord rfl
  | falseWord => exact .falseWord rfl
  | identifier => exact .identifier rfl
  | leftParen => exact .paren rfl
  | leftBracket => exact .array rfl
  | minus | bang => exact .leading rfl
  | _ => exact .refused rfl

/-- Behind a name, which is a call if a parenthesis follows it. -/
theorem call_or_name (ts : List Token) :
    (∃ p inner, ts = p :: inner ∧ p.kind = .leftParen) ∨
      ∀ p inner, ts = p :: inner → p.kind ≠ .leftParen := by
  by_cases hcall : ∃ p inner, ts = p :: inner ∧ p.kind = .leftParen
  · exact .inl hcall
  · exact .inr fun p inner hts hp => hcall ⟨p, inner, hts, hp⟩

end Operand

theorem items_eq (room : Nat) (closer : Kind) (wanted : Wanted) (ts : List Token) :
    items last room closer wanted ts =
      if (front last ts).kind = closer then .ok ([], ts.tail)
      else within last room (fun inside => moreItems last inside closer wanted) ts := by
  rw [items, Reader.items.eq_def]
  split
  · rfl
  · cases room with
    | zero => rfl
    | succ inside => exact plain_moreItems_start last inside closer wanted _ _ _ _ _

/-- What follows an item: a comma and more of them, or the token that closes them. -/
def afterItem (room : Nat) (closer : Kind) (wanted : Wanted) (e : Expr) : Plain (List Expr) :=
  fun ts =>
    if (front last ts).kind = .comma then
      ((moreItems last room closer wanted).andThen fun es => give (e :: es)) ts.tail
    else ((token last closer wanted).andThen fun _ => give [e]) ts

theorem afterItem_comma {room : Nat} {closer : Kind} {wanted : Wanted} {e : Expr} {t : Token}
    {ts : List Token} (h : t.kind = .comma) :
    afterItem last room closer wanted e (t :: ts) =
      ((moreItems last room closer wanted).andThen fun es => give (e :: es)) ts :=
  if_pos h

theorem afterItem_last {room : Nat} {closer : Kind} {wanted : Wanted} {e : Expr} {ts : List Token}
    (h : (front last ts).kind ≠ .comma) :
    afterItem last room closer wanted e ts =
      ((token last closer wanted).andThen fun _ => give [e]) ts :=
  if_neg h

theorem moreItems_eq (room : Nat) (closer : Kind) (wanted : Wanted) :
    moreItems last room closer wanted =
      (expression last room 0).andThen (afterItem last room closer wanted) := by
  funext ts
  simp only [andThen, expression, moreItems]
  rw [Reader.moreItems.eq_def]
  cases Reader.expression last room 0 ts with
  | error e => rfl
  | ok taken =>
    obtain ⟨e, rest, h⟩ := taken
    match rest, h with
    | [], h => rfl
    | t :: rest, h =>
      simp only [afterItem, Reading.plain, front, List.tail_cons]
      by_cases hc : t.kind = .comma
      · have hlt : rest.length < (longer last ts).length :=
          Nat.lt_trans (Nat.lt_of_succ_lt h) (lt_longer last ts)
        have hstart := plain_moreItems_start last room closer wanted rest _ _ hlt (lt_longer last rest)
        simp only [if_pos hc, andThen, moreItems, ← hstart]
        cases Reader.moreItems last room closer wanted (longer last ts) rest hlt with
        | error e => rfl
        | ok taken => rfl
      · by_cases hcl : t.kind = closer
        · rw [andThen_of_ok (token_cons last hcl)]
          simp only [if_neg hc, if_pos hcl, give]
          exact (if_neg hc).symm
        · have href : token last closer wanted (t :: rest) = _ :=
            token_refused last (by rintro t rest ⟨⟩; exact hcl)
          rw [andThen_of_error href]
          simp only [if_neg hc, if_neg hcl]
          exact (if_neg hc).symm

end Plain

end Parlance.Reader
