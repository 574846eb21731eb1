import Parlance.Proofs.Grammar.Complete
import Parlance.Proofs.Reader.Statement

/-!
# Reading by position

The same language read by a cursor that walks over one list of tokens: it looks at the token where
it stands, moves on, and in one place moves back, when a conditional has looked for its `else` behind
the line ends. A walk calls other walks by name (`Call`), and `ofCall` says what each of them does;
a loop is a call of itself. Nothing here says that a walk ends. It does if there is a derivation of
`Ends`, and a derivation is finite.

A walk `Reaches` a reading if it ends, moved only past the place where it started and within the
tokens, and read and left what the reading says. The rules for `Reaches` follow the rules for `Plain`
readers one by one.
-/

namespace Parlance.Reader

open Grammar (Yields)

/-- Where a walk stands, and all the places where it stood before, the latest first. -/
structure Cursor where
  pos : Nat
  past : List Nat

namespace Cursor

def start : Cursor := ⟨0, []⟩

def moved (c : Cursor) (pos : Nat) : Cursor := ⟨pos, c.pos :: c.past⟩

@[simp] theorem pos_moved (c : Cursor) (pos : Nat) : (c.moved pos).pos = pos := rfl

/-- Every place that a walk stood at, with the present one. -/
def places (c : Cursor) : List Nat := c.pos :: c.past

/-- The tokens from the cursor on. -/
def left (c : Cursor) (ts : List Token) : List Token := ts.drop c.pos

section Left

variable {c : Cursor} {ts rest : List Token} {t : Token}

theorem length_left (c : Cursor) (ts : List Token) : (c.left ts).length = ts.length - c.pos :=
  List.length_drop

theorem pos_lt (h : c.left ts = t :: rest) : c.pos < ts.length := by
  have hlen := c.length_left ts
  rw [h, List.length_cons] at hlen
  omega

theorem front_left (last : Int) (c : Cursor) (ts : List Token) (ahead : Nat) :
    front last ((c.left ts).drop ahead) = ts[c.pos + ahead]?.getD (.endOfInput last) := by
  unfold left
  rw [List.drop_drop, ← List.head?_drop]
  cases ts.drop (c.pos + ahead) with
  | nil => rfl
  | cons t rest => rfl

theorem left_moved (c : Cursor) (ts : List Token) (count : Nat) :
    (c.moved (c.pos + count)).left ts = (c.left ts).drop count :=
  List.drop_drop.symm

theorem left_step (h : c.left ts = t :: rest) : (c.moved (c.pos + 1)).left ts = rest := by
  rw [left_moved, h]
  rfl

theorem left_step_lt (h : c.left ts = t :: rest) :
    ((c.moved (c.pos + 1)).left ts).length < (c.left ts).length := by
  rw [left_step h, h]
  exact Nat.lt_succ_self _

end Left

/-- `c'` comes of `c` by moves, each of them to a place past `c` and among the first `size`. -/
def Onward (size : Nat) (c c' : Cursor) : Prop :=
  ∃ moves, c'.places = moves ++ c.places ∧ ∀ pos ∈ moves, c.pos < pos ∧ pos ≤ size

namespace Onward

variable {size pos : Nat} {c c' c'' : Cursor}

theorem refl (size : Nat) (c : Cursor) : Onward size c c := ⟨[], rfl, by simp⟩

theorem eq_or_mem (h : Onward size c c') : c'.pos = c.pos ∨ c.pos < c'.pos ∧ c'.pos ≤ size := by
  obtain ⟨moves, hplaces, hmoves⟩ := h
  cases moves with
  | nil => exact .inl (List.cons.inj hplaces).1
  | cons pos moves =>
    rw [(List.cons.inj hplaces).1]
    exact .inr (hmoves pos (List.mem_cons_self ..))

theorem le (h : Onward size c c') : c.pos ≤ c'.pos := by
  have := h.eq_or_mem
  omega

theorem left_le (h : Onward size c c') (ts : List Token) :
    (c'.left ts).length ≤ (c.left ts).length := by
  have hle := h.le
  rw [length_left, length_left]
  omega

theorem pos_of_left_lt {ts : List Token} (h : Onward size c c')
    (hlt : (c'.left ts).length < (c.left ts).length) : c.pos < c'.pos ∧ c'.pos ≤ size := by
  refine h.eq_or_mem.resolve_left fun heq => ?_
  rw [length_left, length_left, heq] at hlt
  exact Nat.lt_irrefl _ hlt

theorem trans (h : Onward size c c') (h' : Onward size c' c'') : Onward size c c'' := by
  have hle := h.le
  obtain ⟨moves, hplaces, hmoves⟩ := h
  obtain ⟨moves', hplaces', hmoves'⟩ := h'
  refine ⟨moves' ++ moves, by rw [hplaces', hplaces, List.append_assoc], fun pos hpos => ?_⟩
  rcases List.mem_append.1 hpos with hpos | hpos
  · have := hmoves' pos hpos
    omega
  · exact hmoves pos hpos

/-- A move of a walk that is under way. It may go back, as long as it stays past the start. -/
theorem move (h : Onward size c c') (hlt : c.pos < pos) (hle : pos ≤ size) :
    Onward size c (c'.moved pos) := by
  obtain ⟨moves, hplaces, hmoves⟩ := h
  refine ⟨pos :: moves, congrArg (pos :: ·) hplaces, fun q hq => ?_⟩
  rcases List.mem_cons.1 hq with rfl | hq
  · exact ⟨hlt, hle⟩
  · exact hmoves q hq

/-- A walk past the token in front. -/
theorem step {ts rest : List Token} {t : Token} (h : c.left ts = t :: rest) :
    Onward ts.length c (c.moved (c.pos + 1)) :=
  (refl _ c).move (Nat.lt_succ_self _) (pos_lt h)

theorem forall_places (h : Onward size c c') (hc : ∀ pos ∈ c.places, pos ≤ size) :
    ∀ pos ∈ c'.places, pos ≤ size := by
  obtain ⟨moves, hplaces, hmoves⟩ := h
  intro pos hpos
  rw [hplaces] at hpos
  rcases List.mem_append.1 hpos with hpos | hpos
  · exact (hmoves pos hpos).2
  · exact hc pos hpos

end Onward

end Cursor

/-- The walks that are called, with what they are told. -/
inductive Call where
  | skipLines
  | expression (least : Nat)
  | joined (least : Nat) (left : Expr)
  | operand
  | items (closer : Kind) (wanted : Wanted)
  | moreItems (closer : Kind) (wanted : Wanted)
  | statement
  | branching (line : Int)
  | alternative (condition : Expr) (yes : List Stmt) (line : Int)
  | block
  | body
  | statementLine
  | program

/-- What a call gives back. -/
abbrev Call.Result : Call → Type
  | .skipLines => Unit
  | .expression _ | .joined _ _ | .operand => Expr
  | .items _ _ | .moreItems _ _ => List Expr
  | .statement | .branching _ | .alternative _ _ _ | .statementLine => Stmt
  | .block | .body | .program => List Stmt

/-- A reading that moves a cursor: it may ask where the cursor stands, move it, fail, and call. -/
inductive Walk (α : Type) where
  | done (a : α)
  | fail (e : Error)
  | ask (k : Nat → Walk α)
  | move (pos : Nat) (k : Walk α)
  | call (q : Call) (k : q.Result → Walk α)

namespace Walk

variable {α β : Type}

protected def bind : Walk α → (α → Walk β) → Walk β
  | .done a, f => f a
  | .fail e, _ => .fail e
  | .ask k, f => .ask fun pos => (k pos).bind f
  | .move pos k, f => .move pos (k.bind f)
  | .call q k, f => .call q fun a => (k a).bind f

instance : Monad Walk where
  pure := .done
  bind := .bind

/-! ## Moves -/

def pos : Walk Nat := .ask .done

def moveTo (pos : Nat) : Walk Unit := .move pos (.done ())

/-- The error of meeting a token. -/
def refuse (wanted : Wanted) (t : Token) : Walk α := .fail ⟨.unexpectedToken wanted t, some t.line⟩

/-! ## Calls -/

def skipLines : Walk Unit := .call .skipLines .done

def expression (least : Nat) : Walk Expr := .call (.expression least) .done

def joined (least : Nat) (left : Expr) : Walk Expr := .call (.joined least left) .done

def operand : Walk Expr := .call .operand .done

def items (closer : Kind) (wanted : Wanted) : Walk (List Expr) := .call (.items closer wanted) .done

def moreItems (closer : Kind) (wanted : Wanted) : Walk (List Expr) :=
  .call (.moreItems closer wanted) .done

def statement : Walk Stmt := .call .statement .done

def branching (line : Int) : Walk Stmt := .call (.branching line) .done

def alternative (condition : Expr) (yes : List Stmt) (line : Int) : Walk Stmt :=
  .call (.alternative condition yes line) .done

def block : Walk (List Stmt) := .call .block .done

def body : Walk (List Stmt) := .call .body .done

/-- A statement and the line ends after it. -/
def statementLine : Walk Stmt := .call .statementLine .done

/-- All statements up to the end of the input. -/
def program : Walk (List Stmt) := .call .program .done

variable (ts : List Token)

/-- The token some places ahead; behind the last token stands the end of the input. -/
def peek (ahead : Nat) : Walk Token :=
  return ts[(← pos) + ahead]?.getD (.endOfInput (lastLine ts))

/-- The token in front. The cursor moves past it unless it stands behind the last token. -/
def next : Walk Token := do
  let t ← peek ts 0
  if (← pos) < ts.length then moveTo ((← pos) + 1)
  return t

/-- A token of the given kind. The cursor moves without looking where the tokens end. -/
def consume (kind : Kind) (wanted : Wanted) : Walk Token := do
  let t ← peek ts 0
  if t.kind = kind then
    moveTo ((← pos) + 1)
    return t
  else refuse wanted t

def endStatement : Walk Unit := do
  let t ← peek ts 0
  if endsStatement t.kind then return ()
  else refuse .endOfStatement t

/-- What a call does. Where no `elif` and no `else` is found behind the first block of a conditional
and the line ends after it, the cursor moves back to the end of the block. -/
def ofCall : (q : Call) → Walk q.Result
  | .skipLines => do
    if (← peek ts 0).kind = .newline then
      moveTo ((← pos) + 1)
      skipLines
    else return ()
  | .expression least => do
    joined least (← operand)
  | .joined least left => do
    match Op.next? least (← peek ts 0).kind with
    | none => return left
    | some (op, power) =>
      let _ ← next ts
      if op = .index then
        let i ← expression 0
        let _ ← consume ts .rightBracket .closedIndex
        joined least (.apply .index [left, i])
      else if op = .field then
        let field ← consume ts .identifier .fieldName
        joined least (.apply .field [left, .name field.lexeme])
      else
        let right ← expression power
        joined least (.apply op [left, right])
  | .operand => do
    let t ← next ts
    match t.kind with
    | .number | .string => return .literal t.literal
    | .trueWord => return .literal (.boolean true)
    | .falseWord => return .literal (.boolean false)
    | .identifier =>
      if (← peek ts 0).kind = .leftParen then
        let _ ← next ts
        let args ← items .rightParen .closedCall
        return .call t.lexeme args
      else return .name t.lexeme
    | .leftParen =>
      let e ← expression 0
      let _ ← consume ts .rightParen .closedParen
      return e
    | .leftBracket =>
      let es ← items .rightBracket .closedArray
      return .array es
    | kind =>
      match Op.leading? kind with
      | some op =>
        let e ← expression Op.frontPower
        return .apply op [e]
      | none => refuse .expression t
  | .items closer wanted => do
    if (← peek ts 0).kind = closer then
      let _ ← next ts
      return []
    else moreItems closer wanted
  | .moreItems closer wanted => do
    let e ← expression 0
    if (← peek ts 0).kind = .comma then
      let _ ← next ts
      let es ← moreItems closer wanted
      return e :: es
    else
      let _ ← consume ts closer wanted
      return [e]
  | .statement => do
    let t ← peek ts 0
    match t.kind with
    | .letWord =>
      let _ ← next ts
      let name ← consume ts .identifier .variableName
      let _ ← consume ts .assign .assignSign
      let e ← expression 0
      return .declare name.lexeme e true t.line
    | .printWord =>
      let _ ← next ts
      let e ← expression 0
      return .print e t.line
    | .ifWord =>
      let _ ← next ts
      branching t.line
    | .whileWord =>
      let _ ← next ts
      let condition ← expression 0
      let body ← block
      return .loop condition body t.line
    | .identifier =>
      let sign ← peek ts 1
      if sign.kind = .assign then
        moveTo ((← pos) + 2)
        let e ← expression 0
        return .declare t.lexeme e false t.line
      else match Op.assigning? sign.kind with
        | some op =>
          moveTo ((← pos) + 2)
          let e ← expression 0
          return .declare t.lexeme (.apply op [.name t.lexeme, e]) false t.line
        | none =>
          let e ← expression 0
          return .expr e t.line
    | _ =>
      let e ← expression 0
      return .expr e t.line
  | .branching line => do
    let condition ← expression 0
    let yes ← block
    alternative condition yes line
  | .alternative condition yes line => do
    let saved ← pos
    skipLines
    let t ← peek ts 0
    if t.kind = .elifWord then
      let _ ← next ts
      let no ← branching t.line
      return .branch condition yes [no] line
    else if t.kind = .elseWord then
      let _ ← next ts
      let no ← block
      return .branch condition yes no line
    else
      moveTo saved
      return .branch condition yes [] line
  | .block => do
    let _ ← consume ts .leftBrace .openedBlock
    skipLines
    body
  | .body => do
    let t ← peek ts 0
    if t.kind = .rightBrace then
      let _ ← next ts
      return []
    else if t.kind = .endOfInput then refuse .closedBlock t
    else
      let s ← statementLine
      let ss ← body
      return s :: ss
  | .statementLine => do
    let s ← statement
    endStatement ts
    skipLines
    return s
  | .program => do
    if (← peek ts 0).kind = .endOfInput then return []
    else
      let s ← statementLine
      let ss ← program
      return s :: ss

/-- An expression that is followed by line ends only. -/
def wholeExpression : Walk Expr := do
  let e ← expression 0
  skipLines
  let t ← peek ts 0
  if t.kind = .endOfInput then return e
  else refuse .noMore t

def wholeProgram : Walk (List Stmt) := do
  skipLines
  program

/-! ## Walks that end -/

/-- The walk from the first cursor ends at the second, with what it has read or the error that it met.
A failure leaves the cursor where it was met. -/
inductive Ends : {α : Type} → Walk α → Cursor → Except Error α → Cursor → Prop
  | done {α : Type} {a : α} {c : Cursor} : Ends (.done a) c (.ok a) c
  | fail {α : Type} {e : Error} {c : Cursor} : Ends (.fail e : Walk α) c (.error e) c
  | ask {α : Type} {k : Nat → Walk α} {c c' : Cursor} {r : Except Error α} (h : Ends (k c.pos) c r c') :
      Ends (.ask k) c r c'
  | move {α : Type} {pos : Nat} {k : Walk α} {c c' : Cursor} {r : Except Error α}
      (h : Ends k (c.moved pos) r c') : Ends (.move pos k) c r c'
  | call {α : Type} {q : Call} {k : q.Result → Walk α} {c c₁ c' : Cursor} {a : q.Result}
      {r : Except Error α} (h : Ends (ofCall ts q) c (.ok a) c₁) (hk : Ends (k a) c₁ r c') :
      Ends (.call q k) c r c'
  | callFail {α : Type} {q : Call} {k : q.Result → Walk α} {c c' : Cursor} {e : Error}
      (h : Ends (ofCall ts q) c (.error e) c') : Ends (.call q k) c (.error e) c'

namespace Ends

variable {ts} {w : Walk α} {k : α → Walk β} {c c' c'' : Cursor} {r r' : Except Error α} {a : α}
  {e : Error}

/-- A walk ends in one way only. -/
theorem unique (h : Ends ts w c r c') (h' : Ends ts w c r' c'') : r' = r ∧ c'' = c' := by
  induction h generalizing c'' with
  | done | fail =>
    cases h'
    exact ⟨rfl, rfl⟩
  | ask _ ih =>
    cases h' with
    | ask h' => exact ih h'
  | move _ ih =>
    cases h' with
    | move h' => exact ih h'
  | call _ _ ih ihk =>
    cases h' with
    | call h₁ h₂ =>
      obtain ⟨hr, rfl⟩ := ih h₁
      obtain rfl := Except.ok.inj hr
      exact ihk h₂
    | callFail h₁ => cases (ih h₁).1
  | callFail _ ih =>
    cases h' with
    | call h₁ _ => cases (ih h₁).1
    | callFail h₁ =>
      obtain ⟨hr, rfl⟩ := ih h₁
      exact ⟨by rw [Except.error.inj hr], rfl⟩

theorem bind {r : Except Error β} (h : Ends ts w c (.ok a) c') (hk : Ends ts (k a) c' r c'') :
    Ends ts (w >>= k) c r c'' := by
  induction w generalizing c with
  | done b =>
    cases h
    exact hk
  | fail e => cases h
  | ask k ih =>
    cases h with
    | ask h => exact .ask (ih _ h)
  | move pos w ih =>
    cases h with
    | move h => exact .move (ih h)
  | call q k ih =>
    cases h with
    | call hq h => exact .call hq (ih _ h)

theorem bindFail (h : Ends ts w c (.error e) c') : Ends ts (w >>= k) c (.error e) c' := by
  induction w generalizing c with
  | done b => cases h
  | fail e =>
    cases h
    exact .fail
  | ask k ih =>
    cases h with
    | ask h => exact .ask (ih _ h)
  | move pos w ih =>
    cases h with
    | move h => exact .move (ih h)
  | call q k ih =>
    cases h with
    | call hq h => exact .call hq (ih _ h)
    | callFail hq => exact .callFail hq

/-- A call ends as its walk does. -/
theorem ofCall {q : Call} {r : Except Error q.Result} (h : Ends ts (ofCall ts q) c r c') :
    Ends ts (.call q .done) c r c' := by
  cases r with
  | error e => exact .callFail h
  | ok a => exact .call h .done

end Ends

theorem ends_peek (ahead : Nat) (c : Cursor) :
    Ends ts (peek ts ahead) c (.ok (front (lastLine ts) ((c.left ts).drop ahead))) c := by
  rw [Cursor.front_left]
  exact .ask .done

variable {ts} in
theorem ends_peek_cons {t : Token} {rest : List Token} {c : Cursor} (h : c.left ts = t :: rest) :
    Ends ts (peek ts 0) c (.ok t) c := by
  have hpeek := ends_peek ts 0 c
  rwa [h] at hpeek

variable {ts} in
theorem ends_next {t : Token} {rest : List Token} {c : Cursor} (h : c.left ts = t :: rest) :
    Ends ts (next ts) c (.ok t) (c.moved (c.pos + 1)) := by
  refine .bind (ends_peek ts 0 c) (.ask ?_)
  rw [h]
  show Ends ts (ite (c.pos < ts.length) _ _) c _ _
  rw [if_pos (Cursor.pos_lt h)]
  exact .ask (.move .done)

variable {ts} in
theorem ends_next_nil {c : Cursor} (h : c.left ts = []) :
    Ends ts (next ts) c (.ok (.endOfInput (lastLine ts))) c := by
  refine .bind (ends_peek ts 0 c) (.ask ?_)
  rw [h]
  show Ends ts (ite (c.pos < ts.length) _ _) c _ _
  rw [if_neg (Nat.not_lt.2 (List.drop_eq_nil_iff.1 h))]
  exact .done

/-- The walk from `c` ends, after moves past `b` and among the tokens only, and reads and leaves what
the reading says for every room that it does not run out of. -/
def ReachesFrom (b : Cursor) (w : Walk α) (c : Cursor)
    (reading : Nat → Except Error (α × List Token)) : Prop :=
  ∃ r c', Ends ts w c r c' ∧ b.Onward ts.length c' ∧
    ∀ room, Yields (reading room) (r.map fun a => (a, c'.left ts))

/-- The walk ends, with moves past its own start only. -/
abbrev Reaches (w : Walk α) (c : Cursor) (reading : Nat → Except Error (α × List Token)) : Prop :=
  ReachesFrom ts c w c reading

section From

variable {ts} {b c c' : Cursor}

/-- A walk that goes on after one that does not fail. -/
theorem ReachesFrom.after {w : Walk α} {k : α → Walk β} {a : α}
    {later : Nat → Except Error (β × List Token)} (hends : Ends ts w c (.ok a) c')
    (h : ReachesFrom ts b (k a) c' later) : ReachesFrom ts b (w >>= k) c later := by
  obtain ⟨r, c'', hends', honward, hread⟩ := h
  exact ⟨r, c'', hends.bind hends', honward, hread⟩

theorem ReachesFrom.call {q : Call} {reading : Nat → Except Error (q.Result × List Token)}
    (h : ReachesFrom ts b (ofCall ts q) c reading) : ReachesFrom ts b (.call q .done) c reading := by
  obtain ⟨r, c', hends, hread⟩ := h
  exact ⟨r, c', hends.ofCall, hread⟩

end From

namespace Reaches

variable {ts} {w : Walk α} {k : α → Walk β} {b c c' : Cursor} {a : α} {t : Token}
  {rest us : List Token} {reading reading' : Nat → Except Error (α × List Token)}
  {later : Nat → Except Error (β × List Token)} {p : Nat → Plain α} {q : Nat → α → Plain β}

theorem rebase (h : Reaches ts w c reading) (hb : b.Onward ts.length c) :
    ReachesFrom ts b w c reading := by
  obtain ⟨r, c', hends, honward, hread⟩ := h
  exact ⟨r, c', hends, hb.trans honward, hread⟩

theorem call {called : Call} {reading : Nat → Except Error (called.Result × List Token)}
    (h : Reaches ts (ofCall ts called) c reading) : Reaches ts (.call called .done) c reading :=
  ReachesFrom.call h

theorem of_eq (h : Reaches ts w c reading') (heq : ∀ room, reading room = reading' room) :
    Reaches ts w c reading := by
  rwa [funext heq]

theorem pure (a : α) (c : Cursor) :
    Reaches ts (Pure.pure a) c fun _ => Plain.give a (c.left ts) :=
  ⟨.ok a, c, .done, .refl _ c, fun _ => .rfl⟩

theorem refuse (wanted : Wanted) (us : List Token) (c : Cursor) :
    Reaches ts (refuse wanted (front (lastLine ts) us) : Walk α) c fun _ =>
      .error (refusal (lastLine ts) wanted us) :=
  ⟨_, c, .fail, .refl _ c, fun _ => .rfl⟩

/-- One walk after another, as one reader after another. The second may move back as far as to the
start of the first. -/
theorem bindBack (h : Reaches ts w c fun room => p room us)
    (hk : ∀ a c', c.Onward ts.length c' → (∀ room, Yields (p room us) (.ok (a, c'.left ts))) →
      ReachesFrom ts c (k a) c' fun room => q room a (c'.left ts)) :
    Reaches ts (w >>= k) c fun room => (p room).andThen (q room) us := by
  obtain ⟨r, c', hends, honward, hread⟩ := h
  cases r with
  | error e =>
    refine ⟨.error e, c', hends.bindFail, honward, fun room => ?_⟩
    rcases hread room with hroom | ⟨line, hroom⟩
    · exact .inl (Plain.andThen_of_error hroom)
    · exact .inr ⟨line, Plain.andThen_of_error hroom⟩
  | ok a =>
    obtain ⟨r', c'', hends', honward', hread'⟩ := hk a c' honward hread
    refine ⟨r', c'', hends.bind hends', honward', fun room => ?_⟩
    exact (Yields.andThen (hread room)).trans (hread' room)

theorem bind (h : Reaches ts w c fun room => p room us)
    (hk : ∀ a c', c.Onward ts.length c' → (∀ room, Yields (p room us) (.ok (a, c'.left ts))) →
      Reaches ts (k a) c' fun room => q room a (c'.left ts)) :
    Reaches ts (w >>= k) c fun room => (p room).andThen (q room) us :=
  h.bindBack fun a c' honward hread => (hk a c' honward hread).rebase honward

/-- What is read changes, and nothing else. -/
theorem thenPure (h : Reaches ts w c fun room => p room us) (f : α → β) :
    Reaches ts (w >>= fun a => Pure.pure (f a)) c fun room =>
      (p room).andThen (fun a => Plain.give (f a)) us :=
  h.bind fun a c' _ _ => pure (f a) c'

theorem after (hends : Ends ts w c (.ok a) c') (honward : c.Onward ts.length c')
    (h : Reaches ts (k a) c' later) : Reaches ts (w >>= k) c later :=
  ReachesFrom.after hends (h.rebase honward)

theorem peekAhead {k : Token → Walk β} {ahead : Nat}
    (h : Reaches ts (k (front (lastLine ts) ((c.left ts).drop ahead))) c later) :
    Reaches ts (Walk.peek ts ahead >>= k) c later :=
  h.after (ends_peek ts ahead c) (.refl _ c)

theorem peek {k : Token → Walk β} (h : Reaches ts (k (front (lastLine ts) (c.left ts))) c later) :
    Reaches ts (peek ts 0 >>= k) c later :=
  peekAhead h

theorem pos {k : Nat → Walk β} (h : Reaches ts (k c.pos) c later) :
    Reaches ts (pos >>= k) c later :=
  h.after (.ask .done) (.refl _ c)

theorem moveTo {place : Nat} {k : Unit → Walk β} (hlt : c.pos < place) (hle : place ≤ ts.length)
    (h : Reaches ts (k ()) (c.moved place) later) : Reaches ts (moveTo place >>= k) c later :=
  h.after (.move .done) ((Cursor.Onward.refl _ c).move hlt hle)

theorem next {k : Token → Walk β} (hleft : c.left ts = t :: rest)
    (h : Reaches ts (k t) (c.moved (c.pos + 1)) later) : Reaches ts (next ts >>= k) c later :=
  h.after (ends_next hleft) (.step hleft)

theorem within {last : Int} (h : Reaches ts w c fun room => p room us) :
    Reaches ts w c fun room => Plain.within last room p us := by
  obtain ⟨r, c', hends, honward, hread⟩ := h
  exact ⟨r, c', hends, honward, fun room => .within fun inside => hread inside⟩

/-- A token of a kind that the end of the input is not of. -/
theorem consume {kind : Kind} {wanted : Wanted} (hkind : kind ≠ .endOfInput) :
    Reaches ts (consume ts kind wanted) c fun _ =>
      Plain.token (lastLine ts) kind wanted (c.left ts) := by
  refine peek ?_
  cases hleft : c.left ts with
  | nil =>
    rw [if_neg (show (front (lastLine ts) []).kind ≠ kind from hkind.symm)]
    exact (refuse wanted [] c).of_eq fun _ => rfl
  | cons t rest =>
    by_cases hk : t.kind = kind
    · rw [if_pos (show (front (lastLine ts) (t :: rest)).kind = kind from hk)]
      refine pos (moveTo (Nat.lt_succ_self _) (Cursor.pos_lt hleft) ?_)
      refine (pure t _).of_eq fun _ => ?_
      rw [Plain.token_cons _ hk, Cursor.left_step hleft]
      rfl
    · rw [if_neg (show (front (lastLine ts) (t :: rest)).kind ≠ kind from hk)]
      refine (refuse wanted (t :: rest) c).of_eq fun _ => ?_
      exact Plain.token_refused _ (by rintro _ _ ⟨⟩; exact hk)

theorem skipLines (c : Cursor) :
    Reaches ts skipLines c fun _ => Plain.newlines (c.left ts) := by
  refine .call (peek ?_)
  cases hleft : c.left ts with
  | nil => exact (pure () c).of_eq fun _ => by rw [hleft]; rfl
  | cons t rest =>
    have hfront : front (lastLine ts) (t :: rest) = t := rfl
    by_cases hk : t.kind = .newline
    · have hlt := Cursor.pos_lt hleft
      have ih := skipLines (c.moved (c.pos + 1))
      rw [Cursor.left_step hleft] at ih
      rw [hfront, if_pos hk]
      refine pos (moveTo (Nat.lt_succ_self _) hlt (ih.of_eq fun _ => ?_))
      simp only [Plain.newlines, skipNewlines, List.dropWhile_cons, hk, beq_self_eq_true, if_true]
    · rw [hfront, if_neg hk]
      refine (pure () c).of_eq fun _ => ?_
      rw [hleft]
      simp only [Plain.newlines, skipNewlines, List.dropWhile_cons, beq_iff_eq, hk, if_false]
      rfl
termination_by ts.length - c.pos
decreasing_by
  rw [Cursor.pos_moved]
  omega

end Reaches

theorem ends_skipLines (c : Cursor) :
    ∃ c', Ends ts skipLines c (.ok ()) c' ∧ c.Onward ts.length c' ∧
      c'.left ts = skipNewlines (c.left ts) := by
  obtain ⟨r, c', hends, honward, hread⟩ := Reaches.skipLines c
  rcases hread 0 with hread | ⟨line, hstop⟩
  · cases r with
    | error e => cases hread
    | ok a => exact ⟨c', hends, honward, (Prod.mk.inj (Except.ok.inj hread)).2.symm⟩
  · cases hstop

end Walk

end Parlance.Reader
