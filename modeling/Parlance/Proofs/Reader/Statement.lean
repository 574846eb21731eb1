import Parlance.Proofs.Reader.Plain

/-!
# Readers of statements as plain functions

The readers of statements in the form of `Plain`, with one equation for each of their branches. A
statement and the line ends after it are read by `statementLine`, and what may follow the first
block of a conditional by `alternative`.
-/

namespace Parlance.Reader

theorem skipNewlines_suffix (ts : List Token) : skipNewlines ts <:+ ts := List.dropWhile_suffix _

theorem skipNewlines_append {ts rest : List Token} {t : Token} (h : skipNewlines ts = t :: rest)
    (more : List Token) : skipNewlines (ts ++ more) = t :: (rest ++ more) := by
  unfold skipNewlines at h ⊢
  rw [List.dropWhile_append, h]
  rfl

theorem skipNewlines_append_of_nil {ts : List Token} (h : skipNewlines ts = [])
    (more : List Token) : skipNewlines (ts ++ more) = skipNewlines more := by
  unfold skipNewlines at h ⊢
  rw [List.dropWhile_append, h]
  rfl

namespace Plain

variable (last : Int)

/-! ## The readers -/

/-- Line ends, if there are any. -/
def newlines : Plain Unit := fun ts => .ok ((), skipNewlines ts)

def declaration (room : Nat) (name : String) (value : Expr → Expr) (fresh : Bool) (line : Int) :
    Plain Stmt :=
  (expression last room 0).andThen fun e => give (.declare name (value e) fresh line)

def introduction (room : Nat) (line : Int) : Plain Stmt :=
  (token last .identifier .variableName).andThen fun name =>
    (token last .assign .assignSign).andThen fun _ =>
      declaration last room name.lexeme id true line

def expressionStatement (room : Nat) (line : Int) : Plain Stmt :=
  (expression last room 0).andThen fun e => give (.expr e line)

def statement (room : Nat) : Plain Stmt := fun ts => Reading.plain (Reader.statement last room ts)

def branching (room : Nat) (line : Int) : Plain Stmt := fun ts =>
  Reading.plain (Reader.branching last room (longer last ts) line ts (lt_longer last ts))

def block (room : Nat) : Plain (List Stmt) := fun ts => Reading.plain (Reader.block last room ts)

def body (room : Nat) : Plain (List Stmt) := fun ts =>
  Reading.plain (Reader.body last room (longer last ts) ts (lt_longer last ts))

/-- What may follow the first block of a conditional: a further condition, or a block for every
other case. -/
def alternative (room : Nat) (condition : Expr) (yes : List Stmt) (line : Int) : Plain Stmt :=
  fun ts =>
    match skipNewlines ts with
    | [] => .ok (.branch condition yes [] line, ts)
    | t :: rest =>
      if t.kind = .elifWord then
        ((within last room fun inside => branching last inside t.line).andThen fun no =>
          give (.branch condition yes [no] line)) rest
      else if t.kind = .elseWord then
        ((block last room).andThen fun no => give (.branch condition yes no line)) rest
      else .ok (.branch condition yes [] line, ts)

/-- A statement and the line ends after it. -/
def statementLine (room : Nat) : Plain Stmt :=
  (statement last room).andThen fun s ts =>
    if endsStatement (front last ts).kind then .ok (s, skipNewlines ts)
    else .error (refusal last .endOfStatement ts)

/-! The list that a reader started from plays no part in what it reads. -/

theorem plain_branching_start (room : Nat) (line : Int) (ts start start' : List Token)
    (h : ts.length < start.length) (h' : ts.length < start'.length) :
    Reading.plain (Reader.branching last room start line ts h) =
      Reading.plain (Reader.branching last room start' line ts h') := by
  rw [Reader.branching.eq_def, Reader.branching.eq_def last room start']
  split
  · rfl
  · split
    · rfl
    · split
      · rfl
      · rename_i rest₁ _ _ _ t rest₂ _ _
        split
        · cases room with
          | zero => rfl
          | succ inside =>
            have ih := plain_branching_start inside t.line rest₂ start start' (by omega) (by omega)
            dsimp only
            cases hr : Reader.branching last inside start t.line rest₂ (by omega) <;>
              cases hr' : Reader.branching last inside start' t.line rest₂ (by omega) <;>
              simp_all [Reading.plain]
        · split
          · split <;> rfl
          · rfl
termination_by ts.length
decreasing_by omega

theorem plain_body_start (room : Nat) (ts start start' : List Token)
    (h : ts.length < start.length) (h' : ts.length < start'.length) :
    Reading.plain (Reader.body last room start ts h) =
      Reading.plain (Reader.body last room start' ts h') := by
  match ts, h, h' with
  | [], _, _ =>
    rw [Reader.body, Reader.body]
    rfl
  | t :: rest, h, h' =>
    rw [Reader.body.eq_def, Reader.body.eq_def last room start']
    dsimp only
    split
    · rfl
    · split
      · rfl
      · split
        · rfl
        · rename_i s rest₁ h₁ _
          split
          · have hlt := skipNewlines_lt h₁
            have ih := plain_body_start room (skipNewlines rest₁) start start' (by omega) (by omega)
            cases hr : Reader.body last room start (skipNewlines rest₁) (by omega) <;>
              cases hr' : Reader.body last room start' (skipNewlines rest₁) (by omega) <;>
              simp_all [Reading.plain]
          · rfl
termination_by ts.length
decreasing_by exact hlt

/-! ## Equations -/

theorem plain_declaration {room : Nat} {start : List Token} {name : String} {value : Expr → Expr}
    {fresh : Bool} {line : Int} {ts : List Token} (h : ts.length < start.length) :
    Reading.plain (Reader.declaration last room start name value fresh line ts h) =
      declaration last room name value fresh line ts := by
  unfold Reader.declaration declaration andThen expression
  cases Reader.expression last room 0 ts with
  | error e => rfl
  | ok taken => rfl

theorem plain_introduction {room : Nat} {start : List Token} {line : Int} {ts : List Token}
    (h : ts.length < start.length) :
    Reading.plain (Reader.introduction last room start line ts h) =
      introduction last room line ts := by
  unfold Reader.introduction introduction andThen token
  cases expect last .identifier .variableName ts with
  | error e => rfl
  | ok name =>
    simp only [Reading.plain]
    cases expect last .assign .assignSign name.rest with
    | error e => rfl
    | ok sign => exact plain_declaration last _

theorem plain_expressionStatement (room : Nat) (ts : List Token) :
    Reading.plain (Reader.expressionStatement last room ts) =
      expressionStatement last room (front last ts).line ts := by
  unfold Reader.expressionStatement expressionStatement andThen expression
  cases Reader.expression last room 0 ts with
  | error e => rfl
  | ok taken => rfl

theorem statement_nil (room : Nat) :
    statement last room [] = expressionStatement last room last [] := by
  rw [statement, Reader.statement]
  exact plain_expressionStatement last room []

section Statement

variable {last} {room : Nat} {t : Token} {rest : List Token}

theorem statement_let (h : t.kind = .letWord) :
    statement last room (t :: rest) = introduction last room t.line rest := by
  rw [statement, Reader.statement.eq_def]
  simp only [h]
  exact plain_introduction last _

theorem statement_print (h : t.kind = .printWord) :
    statement last room (t :: rest) =
      ((expression last room 0).andThen fun e => give (.print e t.line)) rest := by
  rw [statement, Reader.statement.eq_def]
  simp only [h, andThen, expression]
  cases Reader.expression last room 0 rest with
  | error e => rfl
  | ok taken => rfl

theorem statement_if (h : t.kind = .ifWord) :
    statement last room (t :: rest) = branching last room t.line rest := by
  rw [statement, Reader.statement.eq_def]
  simp only [h]
  exact plain_branching_start last room t.line rest _ _ _ _

theorem statement_while (h : t.kind = .whileWord) :
    statement last room (t :: rest) =
      ((expression last room 0).andThen fun condition =>
        (block last room).andThen fun body => give (.loop condition body t.line)) rest := by
  rw [statement, Reader.statement.eq_def]
  simp only [h, andThen, expression, block]
  cases Reader.expression last room 0 rest with
  | error e => rfl
  | ok taken =>
    simp only [Reading.plain]
    cases Reader.block last room taken.rest with
    | error e => rfl
    | ok body => rfl

theorem statement_assign {sign : Token} (h : t.kind = .identifier) (hs : sign.kind = .assign) :
    statement last room (t :: sign :: rest) =
      declaration last room t.lexeme id false t.line rest := by
  rw [statement, Reader.statement.eq_def]
  simp only [h, named, if_pos hs]
  exact plain_declaration last _

theorem statement_assigning {sign : Token} {op : Op} (h : t.kind = .identifier)
    (hs : Op.assigning? sign.kind = some op) :
    statement last room (t :: sign :: rest) =
      declaration last room t.lexeme (fun e => .apply op [.name t.lexeme, e]) false t.line
        rest := by
  have hne : sign.kind ≠ .assign := by
    intro ha
    rw [ha] at hs
    cases hs
  rw [statement, Reader.statement.eq_def]
  simp only [h, named, if_neg hne, hs]
  exact plain_declaration last _

/-- The signs of assignments. -/
def assigns (kind : Kind) : Bool := kind = .assign || (Op.assigning? kind).isSome

theorem statement_name (h : t.kind = .identifier)
    (hs : ∀ sign more, rest = sign :: more → assigns sign.kind = false) :
    statement last room (t :: rest) = expressionStatement last room t.line (t :: rest) := by
  rw [statement, Reader.statement.eq_def]
  simp only [h]
  match rest with
  | [] => exact plain_expressionStatement last room [t]
  | sign :: more =>
    have hsign := hs sign more rfl
    unfold assigns at hsign
    rw [Bool.or_eq_false_iff, decide_eq_false_iff_not, Option.isSome_eq_false_iff,
      Option.isNone_iff_eq_none] at hsign
    simp only [named, if_neg hsign.1, hsign.2]
    exact plain_expressionStatement last room (t :: sign :: more)

/-- What a token makes of the name before it that starts a statement. -/
inductive Naming (kind : Kind) : Prop where
  | assign (h : kind = .assign)
  | assigning {op : Op} (h : Op.assigning? kind = some op)
  | value (h : assigns kind = false)

theorem naming (kind : Kind) : Naming kind := by
  by_cases ha : kind = .assign
  · exact .assign ha
  · cases hop : Op.assigning? kind with
    | some op => exact .assigning hop
    | none => exact .value (by simp [assigns, ha, hop])

/-- The kinds that tell what statement they start. -/
def announces (kind : Kind) : Bool :=
  match kind with
  | .letWord | .printWord | .ifWord | .whileWord | .identifier => true
  | _ => false

theorem statement_expression (h : announces t.kind = false) :
    statement last room (t :: rest) = expressionStatement last room t.line (t :: rest) := by
  rw [statement, Reader.statement.eq_def]
  cases hk : t.kind <;> rw [hk] at h <;> simp only [announces, reduceCtorEq] at h
  all_goals
    simp only [hk]
    exact plain_expressionStatement last room (t :: rest)

end Statement

theorem branching_eq (room : Nat) (line : Int) :
    branching last room line =
      (expression last room 0).andThen fun condition =>
        (block last room).andThen fun yes => alternative last room condition yes line := by
  funext ts
  simp only [branching, andThen, expression, block]
  rw [Reader.branching.eq_def]
  cases Reader.expression last room 0 ts with
  | error e => rfl
  | ok condition =>
    simp only [Reading.plain]
    cases Reader.block last room condition.rest with
    | error e => rfl
    | ok yes =>
      obtain ⟨yes, rest₁, h₂⟩ := yes
      simp only [alternative]
      cases hskip : skipNewlines rest₁ with
      | nil => rw [pastNewlines_eq_none hskip]
      | cons t rest₂ =>
        obtain ⟨h₃, hpast⟩ := pastNewlines_eq_some hskip
        by_cases helif : t.kind = .elifWord
        · simp only [hpast, if_pos helif]
          cases room with
          | zero => rfl
          | succ inside =>
            have hlt : rest₂.length < (longer last ts).length := by
              have := condition.shorter
              have := lt_longer last ts
              omega
            have hstart :=
              plain_branching_start last inside t.line rest₂ _ _ hlt (lt_longer last rest₂)
            simp only [within, andThen, branching, ← hstart]
            cases Reader.branching last inside (longer last ts) t.line rest₂ hlt with
            | error e => rfl
            | ok no => rfl
        · by_cases helse : t.kind = .elseWord
          · simp only [hpast, if_neg helif, if_pos helse, andThen, block]
            cases Reader.block last room rest₂ with
            | error e => rfl
            | ok no => rfl
          · simp only [hpast, if_neg helif, if_neg helse]

section Alternative

variable {last} {room : Nat} {condition : Expr} {yes : List Stmt} {line : Int} {t : Token}
  {ts rest : List Token}

theorem alternative_none
    (h : ∀ t rest, skipNewlines ts = t :: rest → t.kind ≠ .elifWord ∧ t.kind ≠ .elseWord) :
    alternative last room condition yes line ts = .ok (.branch condition yes [] line, ts) := by
  unfold alternative
  split
  · rfl
  · rename_i t rest hskip
    obtain ⟨helif, helse⟩ := h t rest hskip
    rw [if_neg helif, if_neg helse]

theorem alternative_elif (h : skipNewlines ts = t :: rest) (ht : t.kind = .elifWord) :
    alternative last room condition yes line ts =
      ((within last room fun inside => branching last inside t.line).andThen fun no =>
        give (.branch condition yes [no] line)) rest := by
  simp only [alternative, h, if_pos ht]

theorem alternative_else (h : skipNewlines ts = t :: rest) (ht : t.kind = .elseWord) :
    alternative last room condition yes line ts =
      ((block last room).andThen fun no => give (.branch condition yes no line)) rest := by
  have hne : t.kind ≠ .elifWord := by rw [ht]; decide
  simp only [alternative, h, if_neg hne, if_pos ht]

end Alternative

theorem block_eq (room : Nat) :
    block last room =
      (token last .leftBrace .openedBlock).andThen fun _ =>
        within last room fun inside => newlines.andThen fun _ => body last inside := by
  funext ts
  simp only [block, andThen, token]
  rw [Reader.block.eq_def]
  cases expect last .leftBrace .openedBlock ts with
  | error e => rfl
  | ok opener =>
    cases room with
    | zero => rfl
    | succ inside => exact plain_body_start last inside _ _ _ _ _

theorem body_nil (room : Nat) : body last room [] = .error (refusal last .closedBlock []) := by
  rw [body, Reader.body]
  rfl

section Body

variable {last} {room : Nat} {t : Token} {rest : List Token}

theorem body_close (h : t.kind = .rightBrace) : body last room (t :: rest) = .ok ([], rest) := by
  rw [body, Reader.body.eq_def]
  simp only [if_pos h, Reading.plain]

theorem body_end (h : t.kind = .endOfInput) :
    body last room (t :: rest) = .error (refusal last .closedBlock (t :: rest)) := by
  have hne : t.kind ≠ .rightBrace := by rw [h]; decide
  rw [body, Reader.body.eq_def]
  simp only [if_neg hne, if_pos h, Reading.plain]

theorem body_statement (hclose : t.kind ≠ .rightBrace) (hend : t.kind ≠ .endOfInput) :
    body last room (t :: rest) =
      ((statementLine last room).andThen fun s =>
        (body last room).andThen fun ss => give (s :: ss)) (t :: rest) := by
  rw [body, Reader.body.eq_def]
  simp only [if_neg hclose, if_neg hend, statementLine, andThen, statement]
  cases Reader.statement last room (t :: rest) with
  | error e => rfl
  | ok taken =>
    obtain ⟨s, rest₁, h₁⟩ := taken
    by_cases hends : endsStatement (front last rest₁).kind = true
    · have hlt : (skipNewlines rest₁).length < (longer last (t :: rest)).length :=
        Nat.lt_trans (skipNewlines_lt h₁) (lt_longer last _)
      have hstart :=
        plain_body_start last room (skipNewlines rest₁) _ _ hlt (lt_longer last _)
      simp only [Reading.plain, if_pos hends]
      simp only [body, ← hstart]
      cases Reader.body last room (longer last (t :: rest)) (skipNewlines rest₁) hlt with
      | error e => rfl
      | ok taken => rfl
    · simp only [Reading.plain, if_neg hends]

end Body

variable {last} in
theorem statementLine_eq_ok {room : Nat} {ts rest : List Token} {s : Stmt}
    (h : statementLine last room ts = .ok (s, rest)) :
    ∃ left, statement last room ts = .ok (s, left) ∧
      endsStatement (front last left).kind = true ∧ rest = skipNewlines left := by
  obtain ⟨s', left, hs, hend⟩ := andThen_eq_ok h
  split at hend
  · rename_i hends
    obtain ⟨rfl, rfl⟩ := Prod.mk.inj (Except.ok.inj hend)
    exact ⟨left, hs, hends, rfl⟩
  · cases hend

variable {last} in
theorem statementLine_shorter {room : Nat} {ts rest : List Token} {s : Stmt}
    (h : statementLine last room ts = .ok (s, rest)) : rest.length < ts.length := by
  obtain ⟨left, hs, -, rfl⟩ := statementLine_eq_ok h
  exact skipNewlines_lt (Reading.shorter_of_plain hs)

/-! ## Programs -/

section Program

variable {last} {room : Nat} {ts : List Token}

theorem program_end (h : (front last ts).kind = .endOfInput) : program last room ts = .ok [] := by
  rw [program, if_pos h]

theorem program_eq (h : (front last ts).kind ≠ .endOfInput) :
    program last room ts =
      match statementLine last room ts with
      | .error e => .error e
      | .ok (s, rest) => (s :: ·) <$> program last room rest := by
  rw [program, if_neg h]
  simp only [statementLine, andThen, statement]
  cases Reader.statement last room ts with
  | error e => rfl
  | ok taken =>
    obtain ⟨s, rest, h₁⟩ := taken
    by_cases hends : endsStatement (front last rest).kind = true
    · simp only [Reading.plain, if_pos hends]
      cases program last room (skipNewlines rest) with
      | error e => rfl
      | ok ss => rfl
    · simp only [Reading.plain, if_neg hends]

theorem program_of_ok {rest : List Token} {s : Stmt} (h : (front last ts).kind ≠ .endOfInput)
    (hs : statementLine last room ts = .ok (s, rest)) :
    program last room ts = (s :: ·) <$> program last room rest := by
  rw [program_eq h, hs]

theorem program_of_error {e : Error} (h : (front last ts).kind ≠ .endOfInput)
    (hs : statementLine last room ts = .error e) : program last room ts = .error e := by
  rw [program_eq h, hs]

theorem program_eq_ok {ss : List Stmt} (h : program last room ts = .ok ss) :
    ((front last ts).kind = .endOfInput ∧ ss = []) ∨
      ∃ s rest more, statementLine last room ts = .ok (s, rest) ∧
        program last room rest = .ok more ∧ ss = s :: more := by
  by_cases hend : (front last ts).kind = .endOfInput
  · rw [program_end hend] at h
    exact .inl ⟨hend, (Except.ok.inj h).symm⟩
  · cases hs : statementLine last room ts with
    | error e =>
      rw [program_of_error hend hs] at h
      cases h
    | ok taken =>
      obtain ⟨s, rest⟩ := taken
      rw [program_of_ok hend hs] at h
      cases hp : program last room rest with
      | error e =>
        rw [hp] at h
        cases h
      | ok more =>
        rw [hp] at h
        exact .inr ⟨s, rest, more, rfl, hp, (Except.ok.inj h).symm⟩

theorem program_eq_error {e : Error} (h : program last room ts = .error e) :
    (front last ts).kind ≠ .endOfInput ∧
      (statementLine last room ts = .error e ∨
        ∃ s rest, statementLine last room ts = .ok (s, rest) ∧
          program last room rest = .error e) := by
  have hend : (front last ts).kind ≠ .endOfInput := by
    intro hend
    rw [program_end hend] at h
    cases h
  refine ⟨hend, ?_⟩
  cases hs : statementLine last room ts with
  | error e' =>
    rw [program_of_error hend hs] at h
    exact .inl (congrArg Except.error (Except.error.inj h))
  | ok taken =>
    obtain ⟨s, rest⟩ := taken
    rw [program_of_ok hend hs] at h
    cases hp : program last room rest with
    | error e' =>
      rw [hp] at h
      exact .inr ⟨s, rest, rfl, hp.trans (congrArg Except.error (Except.error.inj h))⟩
    | ok more =>
      rw [hp] at h
      cases h

end Program

end Plain

end Parlance.Reader
