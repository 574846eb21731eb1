import Parlance.Proofs.Grammar.Script
import Parlance.Proofs.Reader.Walk

/-!
# Every reading ends

The walks of `Walk` end on every list of tokens, whatever kinds stand in it and wherever it ends, and
they read what the readers read. The induction is on the tokens that are left, and where a walk calls
another before it has moved, on which walk it is.
-/

namespace Parlance.Reader

open Grammar (Yields)

namespace Walk

variable {α : Type} {ts : List Token}

/-- A reading that gives up only with more tokens before it than there was room, with room enough. -/
theorem eq_of_yields {r s : Except Error α} {room size : Nat} (h : Yields r s)
    (hfault : ∀ e, r = .error e → Fault room size e) (hroom : size ≤ room) : r = s := by
  rcases h with h | ⟨line, hstop⟩
  · exact h
  · rcases hfault _ hstop with ⟨wanted, found, hcause⟩ | ⟨-, hlt⟩
    · cases hcause
    · omega

/-- A walk moves on if the reading that it reaches always leaves less. -/
theorem left_lt_of_yields {reading : Nat → Except Error (α × List Token)} {a : α} {c c' : Cursor}
    (hfault : ∀ room e, reading room = .error e → Fault room (c.left ts).length e)
    (hless : ∀ room a rest, reading room = .ok (a, rest) → rest.length < (c.left ts).length)
    (h : ∀ room, Yields (reading room) (.ok (a, c'.left ts))) :
    (c'.left ts).length < (c.left ts).length :=
  hless _ _ _ (eq_of_yields (h _) (hfault _) (Nat.le_refl _))

/-- A token in front, unless it may be the end of the input, stands in the list. -/
theorem exists_cons_of_front {last : Int} {us : List Token} {kind : Kind}
    (h : (front last us).kind = kind) (hkind : kind ≠ .endOfInput) :
    ∃ t rest, us = t :: rest ∧ t.kind = kind := by
  cases us with
  | nil => exact absurd h.symm hkind
  | cons t rest => exact ⟨t, rest, rfl, h⟩

/-! ## Expressions -/

theorem expression_moves {least : Nat} {e : Expr} {c c' : Cursor}
    (h : ∀ room, Yields (Plain.expression (lastLine ts) room least (c.left ts))
      (.ok (e, c'.left ts))) :
    (c'.left ts).length < (c.left ts).length :=
  left_lt_of_yields (fun _ _ => Plain.expression_fault) (fun _ _ _ => Reading.shorter_of_plain) h

mutual
theorem expression_reaches (least : Nat) (c : Cursor) :
    Reaches ts (expression least) c fun room =>
      Plain.expression (lastLine ts) room least (c.left ts) := by
  refine .call ?_
  simp only [Plain.expression_eq]
  refine (operand_reaches c).bind fun left c' _ hread => ?_
  -- The operand has taken a token, so the walk behind it is at a smaller place of the measure.
  have hlt := left_lt_of_yields (fun _ _ => Plain.operand_fault)
    (fun _ _ _ => Reading.shorter_of_plain) hread
  exact joined_reaches least left c'
termination_by ((c.left ts).length, 2)

theorem joined_reaches (least : Nat) (left : Expr) (c : Cursor) :
    Reaches ts (joined least left) c fun room =>
      Plain.joined (lastLine ts) room least left (c.left ts) := by
  refine .call ?_
  refine .peek ?_
  cases hleft : c.left ts with
  | nil =>
    simp only [Plain.joined_nil]
    exact (Reaches.pure left c).of_eq fun _ => by rw [hleft]; rfl
  | cons t rest =>
    show Reaches ts (match Op.next? least t.kind with | none => _ | some (op, power) => _) c _
    cases hn : Op.next? least t.kind with
    | none =>
      simp only [Plain.joined_stop hn]
      exact (Reaches.pure left c).of_eq fun _ => by rw [hleft]; rfl
    | some pair =>
      obtain ⟨op, power⟩ := pair
      refine .next hleft ?_
      have hstep := Cursor.left_step_lt hleft
      obtain rfl := Cursor.left_step hleft
      by_cases hi : op = .index
      · subst hi
        simp only [Plain.joined_index hn, if_true]
        refine (expression_reaches 0 _).within.bind fun i c₁ _ hread => ?_
        have hlt := expression_moves fun room => hread (room + 1)
        refine (Reaches.consume (by decide)).bind fun closer c₂ honward _ => ?_
        have hle := honward.left_le ts
        exact joined_reaches least _ c₂
      · by_cases hf : op = .field
        · subst hf
          simp only [Plain.joined_field hn, if_neg hi, if_true]
          refine (Reaches.consume (by decide)).bind fun field c₁ honward _ => ?_
          have hle := honward.left_le ts
          exact joined_reaches least _ c₁
        · simp only [Plain.joined_join hn hi hf, if_neg hi, if_neg hf]
          refine (expression_reaches power _).bind fun right c₁ _ hread => ?_
          have hlt := expression_moves hread
          exact joined_reaches least _ c₁
termination_by ((c.left ts).length, 0)

theorem operand_reaches (c : Cursor) :
    Reaches ts operand c fun room => Plain.operand (lastLine ts) room (c.left ts) := by
  refine .call ?_
  cases hleft : c.left ts with
  | nil =>
    simp only [Plain.operand_nil]
    exact .after (ends_next_nil hleft) (.refl _ c) (Reaches.refuse .expression [] c)
  | cons t rest =>
    refine .next hleft ?_
    have hstep := Cursor.left_step_lt hleft
    obtain rfl := Cursor.left_step hleft
    cases hk : t.kind with
    | number | string =>
      simp only [Plain.operand_literal (show t.kind = .number ∨ t.kind = .string by simp [hk])]
      exact .pure _ _
    | trueWord =>
      simp only [Plain.operand_true hk]
      exact .pure _ _
    | falseWord =>
      simp only [Plain.operand_false hk]
      exact .pure _ _
    | identifier => exact name_reaches hk _
    | leftParen =>
      simp only [Plain.operand_paren hk]
      refine (expression_reaches 0 _).within.bind fun e c₁ _ _ => ?_
      exact (Reaches.consume (by decide)).thenPure fun _ => e
    | leftBracket =>
      simp only [Plain.operand_array hk]
      exact (items_reaches .rightBracket .closedArray (by decide) _).thenPure Expr.array
    | minus =>
      simp only [Plain.operand_leading (show Op.leading? t.kind = some .minus by rw [hk]; rfl)]
      exact (expression_reaches Op.frontPower _).within.thenPure fun e => Expr.apply .minus [e]
    | bang =>
      simp only [Plain.operand_leading (show Op.leading? t.kind = some .not by rw [hk]; rfl)]
      exact (expression_reaches Op.frontPower _).within.thenPure fun e => Expr.apply .not [e]
    | _ =>
      simp only [Plain.operand_refused (show Plain.opens t.kind = false by rw [hk]; rfl)]
      exact Reaches.refuse .expression (t :: _) _
termination_by ((c.left ts).length, 1)

/-- Behind a name, which is a call if a parenthesis follows it. -/
theorem name_reaches {t : Token} (hk : t.kind = .identifier) (c : Cursor) :
    Reaches ts (do
      if (← peek ts 0).kind = .leftParen then
        let _ ← next ts
        let args ← items .rightParen .closedCall
        return Expr.call t.lexeme args
      else return Expr.name t.lexeme) c fun room =>
        Plain.operand (lastLine ts) room (t :: c.left ts) := by
  refine .peek ?_
  by_cases hfront : (front (lastLine ts) (c.left ts)).kind = .leftParen
  · obtain ⟨p, inner, hleft, hp⟩ := exists_cons_of_front hfront (by decide)
    have hstep := Cursor.left_step_lt hleft
    rw [if_pos hfront, hleft]
    simp only [Plain.operand_call hk hp]
    refine .next hleft ?_
    obtain rfl := Cursor.left_step hleft
    exact (items_reaches .rightParen .closedCall (by decide) _).thenPure (Expr.call t.lexeme)
  · have hname : ∀ p inner, c.left ts = p :: inner → p.kind ≠ .leftParen := by
      intro p inner hleft
      rwa [hleft] at hfront
    simp only [if_neg hfront, Plain.operand_name hk hname]
    exact .pure _ c
termination_by ((c.left ts).length, 0)

theorem items_reaches (closer : Kind) (wanted : Wanted) (hcloser : closer ≠ .endOfInput)
    (c : Cursor) :
    Reaches ts (items closer wanted) c fun room =>
      Plain.items (lastLine ts) room closer wanted (c.left ts) := by
  refine .call ?_
  simp only [Plain.items_eq]
  refine .peek ?_
  by_cases hfront : (front (lastLine ts) (c.left ts)).kind = closer
  · obtain ⟨t, rest, hleft, -⟩ := exists_cons_of_front hfront hcloser
    simp only [if_pos hfront]
    rw [hleft]
    refine .next hleft ?_
    obtain rfl := Cursor.left_step hleft
    exact .pure [] _
  · simp only [if_neg hfront]
    exact (moreItems_reaches closer wanted hcloser c).within
termination_by ((c.left ts).length, 4)

theorem moreItems_reaches (closer : Kind) (wanted : Wanted) (hcloser : closer ≠ .endOfInput)
    (c : Cursor) :
    Reaches ts (moreItems closer wanted) c fun room =>
      Plain.moreItems (lastLine ts) room closer wanted (c.left ts) := by
  refine .call ?_
  simp only [Plain.moreItems_eq]
  refine (expression_reaches 0 c).bind fun e c₁ _ hread => ?_
  have hlt := expression_moves hread
  refine .peek ?_
  by_cases hcomma : (front (lastLine ts) (c₁.left ts)).kind = .comma
  · obtain ⟨t, rest, hleft, ht⟩ := exists_cons_of_front hcomma (by decide)
    have hstep := Cursor.left_step_lt hleft
    rw [if_pos hcomma, hleft]
    simp only [Plain.afterItem_comma _ ht]
    refine .next hleft ?_
    obtain rfl := Cursor.left_step hleft
    exact (moreItems_reaches closer wanted hcloser _).thenPure (e :: ·)
  · simp only [Plain.afterItem_last _ hcomma, if_neg hcomma]
    exact (Reaches.consume hcloser).thenPure fun _ => [e]
termination_by ((c.left ts).length, 3)
end

/-! ## Statements -/

theorem statementLine_moves {s : Stmt} {c c' : Cursor}
    (h : ∀ room, Yields (Plain.statementLine (lastLine ts) room (c.left ts)) (.ok (s, c'.left ts))) :
    (c'.left ts).length < (c.left ts).length :=
  left_lt_of_yields (fun _ _ => Plain.statementLine_fault) (fun _ _ _ => Plain.statementLine_shorter) h

theorem declaration_reaches (name : String) (value : Expr → Expr) (fresh : Bool) (line : Int)
    (c : Cursor) :
    Reaches ts (do
      let e ← expression 0
      return Stmt.declare name (value e) fresh line) c fun room =>
        Plain.declaration (lastLine ts) room name value fresh line (c.left ts) :=
  (expression_reaches 0 c).thenPure fun e => Stmt.declare name (value e) fresh line

theorem expressionStatement_reaches (line : Int) (c : Cursor) :
    Reaches ts (do
      let e ← expression 0
      return Stmt.expr e line) c fun room =>
        Plain.expressionStatement (lastLine ts) room line (c.left ts) :=
  (expression_reaches 0 c).thenPure fun e => Stmt.expr e line

/-- What stands after a statement: a token at which it may end, and line ends. -/
theorem endStatement_reaches (s : Stmt) (c : Cursor) :
    Reaches ts (do
      endStatement ts
      skipLines
      return s) c fun _ =>
        if endsStatement (front (lastLine ts) (c.left ts)).kind then
          .ok (s, skipNewlines (c.left ts))
        else .error (refusal (lastLine ts) .endOfStatement (c.left ts)) := by
  by_cases hends : endsStatement (front (lastLine ts) (c.left ts)).kind = true
  · have hend : Ends ts (endStatement ts) c (.ok ()) c := by
      refine (ends_peek ts 0 c).bind ?_
      rw [List.drop_zero, if_pos hends]
      exact .done
    simp only [if_pos hends]
    exact .after hend (.refl _ c) ((Reaches.skipLines c).thenPure fun _ => s)
  · have hend : Ends ts (endStatement ts) c
        (.error (refusal (lastLine ts) .endOfStatement (c.left ts))) c := by
      refine (ends_peek ts 0 c).bind ?_
      rw [List.drop_zero, if_neg hends]
      exact .fail
    simp only [if_neg hends]
    exact ⟨_, c, hend.bindFail, .refl _ c, fun _ => .rfl⟩

/-- A statement that starts with a name: an assignment, or else an expression. -/
theorem named_reaches {t : Token} {rest : List Token} {c : Cursor} (hk : t.kind = .identifier)
    (hleft : c.left ts = t :: rest) :
    Reaches ts (do
      let sign ← peek ts 1
      if sign.kind = .assign then
        moveTo ((← pos) + 2)
        let e ← expression 0
        return Stmt.declare t.lexeme e false t.line
      else match Op.assigning? sign.kind with
        | some op =>
          moveTo ((← pos) + 2)
          let e ← expression 0
          return Stmt.declare t.lexeme (.apply op [.name t.lexeme, e]) false t.line
        | none =>
          let e ← expression 0
          return Stmt.expr e t.line) c fun room =>
        Plain.statement (lastLine ts) room (t :: rest) := by
  have hpast {sign : Token} {more : List Token} (hrest : rest = sign :: more) :
      (c.moved (c.pos + 2)).left ts = more ∧ c.pos + 2 ≤ ts.length := by
    have hlen := c.length_left ts
    rw [hleft, hrest, List.length_cons, List.length_cons] at hlen
    rw [Cursor.left_moved, hleft, hrest]
    exact ⟨rfl, by omega⟩
  refine .peekAhead ?_
  rw [hleft, List.drop_one, List.tail_cons]
  by_cases ha : (front (lastLine ts) rest).kind = .assign
  · rw [if_pos ha]
    obtain ⟨sign, more, rfl, hsign⟩ := exists_cons_of_front ha (by decide)
    obtain ⟨rfl, hle⟩ := hpast rfl
    simp only [Plain.statement_assign hk hsign]
    exact .pos (.moveTo (by omega) hle (declaration_reaches t.lexeme id false t.line _))
  · rw [if_neg ha]
    cases hop : Op.assigning? (front (lastLine ts) rest).kind with
    | some op =>
      cases rest with
      | nil => cases hop
      | cons sign more =>
        obtain ⟨rfl, hle⟩ := hpast rfl
        simp only [Plain.statement_assigning hk (show Op.assigning? sign.kind = some op from hop)]
        exact .pos (.moveTo (by omega) hle (declaration_reaches t.lexeme
          (fun e => .apply op [.name t.lexeme, e]) false t.line _))
    | none =>
      have hno : ∀ sign more, rest = sign :: more → Plain.assigns sign.kind = false := by
        rintro sign more rfl
        have ha : sign.kind ≠ .assign := ha
        have hop : Op.assigning? sign.kind = none := hop
        simp [Plain.assigns, ha, hop]
      simp only [Plain.statement_name hk hno]
      rw [← hleft]
      exact expressionStatement_reaches t.line c

/-- Where no `elif` and no `else` stands behind the line ends, the walk goes back to where it
started. -/
theorem ends_alternative_none (condition : Expr) (yes : List Stmt) (line : Int) {c : Cursor}
    (h : ∀ t rest, skipNewlines (c.left ts) = t :: rest → t.kind ≠ .elifWord ∧ t.kind ≠ .elseWord) :
    ∃ c₁, c.Onward ts.length c₁ ∧ c₁.left ts = skipNewlines (c.left ts) ∧
      Ends ts (alternative condition yes line) c (.ok (.branch condition yes [] line))
        (c₁.moved c.pos) := by
  obtain ⟨c₁, hskip, honward, hleft⟩ := ends_skipLines ts c
  refine ⟨c₁, honward, hleft, ?_⟩
  have hwords : (front (lastLine ts) (c₁.left ts)).kind ≠ .elifWord ∧
      (front (lastLine ts) (c₁.left ts)).kind ≠ .elseWord := by
    cases hleft' : c₁.left ts with
    | nil => simp [front, Token.endOfInput]
    | cons t rest => exact h t rest (hleft.symm.trans hleft')
  refine .ofCall (.bind (w := pos) (.ask .done) (.bind hskip (.bind (ends_peek ts 0 c₁) ?_)))
  rw [List.drop_zero, if_neg hwords.1, if_neg hwords.2]
  exact .move .done

mutual
theorem statement_reaches (c : Cursor) :
    Reaches ts statement c fun room => Plain.statement (lastLine ts) room (c.left ts) := by
  refine .call ?_
  refine .peek ?_
  cases hleft : c.left ts with
  | nil =>
    simp only [Plain.statement_nil]
    exact (expressionStatement_reaches (lastLine ts) c).of_eq fun _ => by rw [hleft]
  | cons t rest =>
    have hfront : front (lastLine ts) (t :: rest) = t := rfl
    have hstep := Cursor.left_step_lt hleft
    rw [hfront]
    cases hk : t.kind with
    | letWord =>
      simp only [Plain.statement_let hk]
      refine .next hleft ?_
      obtain rfl := Cursor.left_step hleft
      refine (Reaches.consume (by decide)).bind fun name c₁ _ _ => ?_
      refine (Reaches.consume (by decide)).bind fun sign c₂ _ _ => ?_
      exact declaration_reaches name.lexeme id true t.line c₂
    | printWord =>
      simp only [Plain.statement_print hk]
      refine .next hleft ?_
      obtain rfl := Cursor.left_step hleft
      exact (expression_reaches 0 _).thenPure fun e => Stmt.print e t.line
    | ifWord =>
      simp only [Plain.statement_if hk]
      refine .next hleft ?_
      obtain rfl := Cursor.left_step hleft
      exact branching_reaches t.line _
    | whileWord =>
      simp only [Plain.statement_while hk]
      refine .next hleft ?_
      obtain rfl := Cursor.left_step hleft
      refine (expression_reaches 0 _).bind fun condition c₁ _ hread => ?_
      have hlt := expression_moves hread
      exact (block_reaches c₁).thenPure fun body => Stmt.loop condition body t.line
    | identifier => exact named_reaches hk hleft
    | _ =>
      simp only [Plain.statement_expression (show Plain.announces t.kind = false by rw [hk]; rfl)]
      rw [← hleft]
      exact expressionStatement_reaches t.line c
termination_by ((c.left ts).length, 0)

theorem branching_reaches (line : Int) (c : Cursor) :
    Reaches ts (branching line) c fun room =>
      Plain.branching (lastLine ts) room line (c.left ts) := by
  refine .call ?_
  simp only [Plain.branching_eq]
  refine (expression_reaches 0 c).bind fun condition c₁ _ hcondition => ?_
  have hlt := expression_moves hcondition
  refine (block_reaches c₁).bindBack fun yes c₂ honward hyes => ?_
  have hlt' := left_lt_of_yields (fun _ _ => Plain.block_fault)
    (fun _ _ _ => Reading.shorter_of_plain) hyes
  exact alternative_reaches condition yes line honward hlt'
termination_by ((c.left ts).length, 0)

/-- Behind the first block of a conditional, which started at `b`. -/
theorem alternative_reaches (condition : Expr) (yes : List Stmt) (line : Int) {b c : Cursor}
    (honward : b.Onward ts.length c) (hlt : (c.left ts).length < (b.left ts).length) :
    ReachesFrom ts b (alternative condition yes line) c fun room =>
      Plain.alternative (lastLine ts) room condition yes line (c.left ts) := by
  -- The move back is none past `c`, where this walk starts, but past `b`: the block has moved.
  have hrestored (hnone : ∀ t rest, skipNewlines (c.left ts) = t :: rest →
      t.kind ≠ .elifWord ∧ t.kind ≠ .elseWord) :
      ReachesFrom ts b (alternative condition yes line) c fun room =>
        Plain.alternative (lastLine ts) room condition yes line (c.left ts) := by
    obtain ⟨c₁, honward₁, -, hends⟩ := ends_alternative_none condition yes line hnone
    have hpos := honward.pos_of_left_lt hlt
    simp only [Plain.alternative_none hnone]
    exact ⟨_, _, hends, (honward.trans honward₁).move hpos.1 hpos.2, fun _ => .rfl⟩
  cases hnext : skipNewlines (c.left ts) with
  | nil => exact hrestored (by simp [hnext])
  | cons t rest =>
    obtain ⟨c₁, hskip, honward₁, hleft₁⟩ := ends_skipLines ts c
    have hle := honward₁.left_le ts
    have hleft : c₁.left ts = t :: rest := hleft₁.trans hnext
    have hstep := Cursor.left_step_lt hleft
    have hb := (honward.trans honward₁).trans (.step hleft)
    by_cases helif : t.kind = .elifWord
    · simp only [Plain.alternative_elif hnext helif]
      refine .call (.after (w := pos) (.ask .done) (.after hskip (.after (ends_peek_cons hleft) ?_)))
      rw [if_pos helif]
      refine .after (ends_next hleft) ?_
      obtain rfl := Cursor.left_step hleft
      refine Reaches.rebase ?_ hb
      exact (branching_reaches t.line _).within.thenPure fun no => Stmt.branch condition yes [no] line
    · by_cases helse : t.kind = .elseWord
      · simp only [Plain.alternative_else hnext helse]
        refine .call (.after (w := pos) (.ask .done) (.after hskip (.after (ends_peek_cons hleft) ?_)))
        rw [if_neg helif, if_pos helse]
        refine .after (ends_next hleft) ?_
        obtain rfl := Cursor.left_step hleft
        refine Reaches.rebase ?_ hb
        exact (block_reaches _).thenPure fun no => Stmt.branch condition yes no line
      · refine hrestored fun u more hu => ?_
        obtain ⟨rfl, rfl⟩ := List.cons.inj (hnext.symm.trans hu)
        exact ⟨helif, helse⟩
termination_by ((c.left ts).length, 1)

theorem block_reaches (c : Cursor) :
    Reaches ts block c fun room => Plain.block (lastLine ts) room (c.left ts) := by
  refine .call ?_
  simp only [Plain.block_eq]
  refine (Reaches.consume (by decide)).bind fun opener c₁ _ hopen => ?_
  have hlt := left_lt_of_yields (fun _ _ => Plain.token_fault)
    (fun _ _ _ => Reading.shorter_of_plain) hopen
  refine Reaches.within ?_
  refine (Reaches.skipLines c₁).bind fun _ c₂ honward _ => ?_
  have hle := honward.left_le ts
  exact body_reaches c₂
termination_by ((c.left ts).length, 0)

theorem body_reaches (c : Cursor) :
    Reaches ts body c fun room => Plain.body (lastLine ts) room (c.left ts) := by
  refine .call ?_
  refine .peek ?_
  cases hleft : c.left ts with
  | nil =>
    simp only [Plain.body_nil]
    exact Reaches.refuse .closedBlock [] c
  | cons t rest =>
    have hfront : front (lastLine ts) (t :: rest) = t := rfl
    rw [hfront]
    by_cases hclose : t.kind = .rightBrace
    · simp only [Plain.body_close hclose, if_pos hclose]
      refine .next hleft ?_
      obtain rfl := Cursor.left_step hleft
      exact .pure [] _
    · by_cases hend : t.kind = .endOfInput
      · simp only [Plain.body_end hend, if_neg hclose, if_pos hend]
        exact Reaches.refuse .closedBlock (t :: rest) c
      · simp only [Plain.body_statement hclose hend, if_neg hclose, if_neg hend]
        rw [← hleft]
        refine (statementLine_reaches c).bind fun s c₁ _ hline => ?_
        have hlt := statementLine_moves hline
        exact (body_reaches c₁).thenPure (s :: ·)
termination_by ((c.left ts).length, 2)

theorem statementLine_reaches (c : Cursor) :
    Reaches ts statementLine c fun room =>
      Plain.statementLine (lastLine ts) room (c.left ts) := by
  refine .call ?_
  exact (statement_reaches c).bind fun s c₁ _ _ => endStatement_reaches s c₁
termination_by ((c.left ts).length, 1)
end

/-! ## Whole inputs -/

theorem program_ends (ts : List Token) (c : Cursor) :
    ∃ r c', Ends ts program c r c' ∧ c.Onward ts.length c' ∧
      ∀ room, Yields (Reader.program (lastLine ts) room (c.left ts)) r := by
  by_cases hend : (front (lastLine ts) (c.left ts)).kind = .endOfInput
  · refine ⟨.ok [], c, .ofCall (.bind (ends_peek ts 0 c) ?_), .refl _ c,
      fun _ => .inl (Plain.program_end hend)⟩
    rw [List.drop_zero, if_pos hend]
    exact .done
  · have hmore {r : Except Error (List Stmt)} {c' : Cursor} (h : Ends ts (do
        let s ← statementLine
        let ss ← program
        return s :: ss) c r c') : Ends ts program c r c' := by
      refine .ofCall (.bind (ends_peek ts 0 c) ?_)
      rwa [List.drop_zero, if_neg hend]
    have hreaches : Reaches ts statementLine c _ := statementLine_reaches c
    obtain ⟨r, c₁, hends, honward, hline⟩ := hreaches
    have hstop {line : Option Int} {room : Nat}
        (h : Plain.statementLine (lastLine ts) room (c.left ts) = .error ⟨.sourceTooDeep, line⟩)
        (s : Except Error (List Stmt)) :
        Yields (Reader.program (lastLine ts) room (c.left ts)) s :=
      .inr ⟨line, Plain.program_of_error hend h⟩
    cases r with
    | error e =>
      refine ⟨.error e, c₁, hmore hends.bindFail, honward, fun room => ?_⟩
      rcases hline room with hroom | ⟨line, hroom⟩
      · exact .inl (Plain.program_of_error hend hroom)
      · exact hstop hroom _
    | ok s =>
      have hlt := statementLine_moves hline
      obtain ⟨r, c₂, hends₂, honward₂, hread⟩ := program_ends ts c₁
      refine ⟨(s :: ·) <$> r, c₂, hmore (hends.bind ?_), honward.trans honward₂, fun room => ?_⟩
      · cases r with
        | error e => exact hends₂.bindFail
        | ok ss => exact hends₂.bind .done
      · rcases hline room with hroom | ⟨line, hroom⟩
        · rw [Plain.program_of_ok hend hroom]
          rcases hread room with hroom | ⟨line, hroom⟩
          · exact .inl (by rw [hroom])
          · exact .inr ⟨line, by rw [hroom]; rfl⟩
        · exact hstop hroom _
termination_by (c.left ts).length

theorem wholeProgram_ends (ts : List Token) :
    ∃ r c, Ends ts wholeProgram .start r c ∧ Cursor.start.Onward ts.length c ∧
      ∀ limit, Yields (readProgram limit ts) r := by
  obtain ⟨c₁, hskip, honward, hleft⟩ := ends_skipLines ts .start
  obtain ⟨r, c, hends, honward', hread⟩ := program_ends ts c₁
  rw [hleft] at hread
  exact ⟨r, c, hskip.bind hends, honward.trans honward', hread⟩

theorem wholeExpression_ends (ts : List Token) :
    ∃ r c, Ends ts (wholeExpression ts) .start r c ∧ Cursor.start.Onward ts.length c ∧
      ∀ limit, Yields (readExpression limit ts) r := by
  have hreaches : Reaches ts (expression 0) .start _ := expression_reaches 0 .start
  obtain ⟨r, c₁, hends, honward, hread⟩ := hreaches
  have hstop {limit : Nat} {e : Error} (h : Plain.expression (lastLine ts) limit 0 ts = .error e) :
      readExpression limit ts = .error e := by
    rw [Grammar.readExpression_eq, h]
  cases r with
  | error e =>
    refine ⟨.error e, c₁, hends.bindFail, honward, fun limit => ?_⟩
    exact (hread limit).imp hstop fun ⟨line, hlimit⟩ => ⟨line, hstop hlimit⟩
  | ok e =>
    obtain ⟨c₂, hskip, honward₂, hleft⟩ := ends_skipLines ts c₁
    refine ⟨if (front (lastLine ts) (c₂.left ts)).kind = .endOfInput then .ok e
      else .error (refusal (lastLine ts) .noMore (c₂.left ts)), c₂, ?_, honward.trans honward₂,
      fun limit => (hread limit).imp (fun hlimit => ?_) fun ⟨line, hlimit⟩ => ⟨line, hstop hlimit⟩⟩
    · refine hends.bind (hskip.bind ((ends_peek ts 0 c₂).bind ?_))
      rw [List.drop_zero]
      split
      · exact .done
      · exact .fail
    · rw [Grammar.readExpression_eq, show Plain.expression (lastLine ts) limit 0 ts = _ from hlimit,
        hleft]
      rfl

/-! ## The main result -/

/-- The walk over a whole list ends, in one way, never stands behind the last token, and reads what the
reading says: with the room that it has no need of, always. -/
def EndsWhole (ts : List Token) (w : Walk α) (reading : Nat → Except Error α) : Prop :=
  ∃ r c, Ends ts w .start r c ∧ (∀ r' c', Ends ts w .start r' c' → r' = r ∧ c' = c) ∧
    (∀ pos ∈ c.places, pos ≤ ts.length) ∧
    ∀ limit, Yields (reading limit) r ∧ (ts.length ≤ limit → reading limit = r)

/-- The walk from `c` ends, in one way, moves past `c` and among the tokens only, has moved on if it
succeeds, and reads and leaves what the reading says. -/
def Advances (ts : List Token) (w : Walk α) (c : Cursor)
    (reading : Nat → Reading (c.left ts) α) : Prop :=
  ∃ r c', Ends ts w c r c' ∧ (∀ r' c'', Ends ts w c r' c'' → r' = r ∧ c'' = c') ∧
    c.Onward ts.length c' ∧ (∀ a, r = .ok a → c.pos < c'.pos ∧ c'.pos ≤ ts.length) ∧
    ∀ room, Yields (reading room).plain (r.map fun a => (a, c'.left ts)) ∧
      ((c.left ts).length ≤ room → (reading room).plain = r.map fun a => (a, c'.left ts))

theorem EndsWhole.of_fault {w : Walk α} {reading : Nat → Except Error α}
    (h : ∃ r c, Ends ts w .start r c ∧ Cursor.start.Onward ts.length c ∧
      ∀ limit, Yields (reading limit) r)
    (hfault : ∀ limit e, reading limit = .error e → Fault limit ts.length e) :
    EndsWhole ts w reading := by
  obtain ⟨r, c, hends, honward, hread⟩ := h
  refine ⟨r, c, hends, fun _ _ => hends.unique, honward.forall_places ?_,
    fun limit => ⟨hread limit, fun hle => ?_⟩⟩
  · simp [Cursor.places, Cursor.start]
  · exact eq_of_yields (hread limit) (hfault limit) hle

namespace Advances

variable {w : Walk α} {c c' : Cursor} {reading : Nat → Reading (c.left ts) α} {a : α}

theorem of_fault (h : Reaches ts w c fun room => (reading room).plain)
    (hfault : ∀ room e, (reading room).plain = .error e → Fault room (c.left ts).length e) :
    Advances ts w c reading := by
  obtain ⟨r, c', hends, honward, hread⟩ := h
  refine ⟨r, c', hends, fun _ _ => hends.unique, honward, ?_,
    fun room => ⟨hread room, fun hle => ?_⟩⟩
  · rintro a rfl
    exact honward.pos_of_left_lt
      (left_lt_of_yields hfault (fun _ _ _ => Reading.shorter_of_plain) hread)
  · exact eq_of_yields (hread room) (hfault room) hle

theorem pos_lt (h : Advances ts w c reading) (hends : Ends ts w c (.ok a) c') :
    c.pos < c'.pos ∧ c'.pos ≤ ts.length := by
  obtain ⟨r, c'', -, hunique, -, hmoved, -⟩ := h
  obtain ⟨rfl, rfl⟩ := hunique _ _ hends
  exact hmoved a rfl

theorem of_ok {room : Nat} {rest : List Token} (h : Advances ts w c reading)
    (hread : (reading room).plain = .ok (a, rest)) (hroom : (c.left ts).length ≤ room) :
    ∃ c', Ends ts w c (.ok a) c' ∧ c'.left ts = rest := by
  obtain ⟨r, c', hends, -, -, -, hreads⟩ := h
  have hr := (hreads room).2 hroom
  rw [hread] at hr
  cases r with
  | error e => cases hr
  | ok b =>
    obtain ⟨rfl, rfl⟩ := Prod.mk.inj (Except.ok.inj hr)
    exact ⟨c', hends, rfl⟩

end Advances

theorem expression_advances (ts : List Token) (c : Cursor) (least : Nat) :
    Advances ts (expression least) c fun room =>
      Reader.expression (lastLine ts) room least (c.left ts) :=
  .of_fault (expression_reaches least c) fun _ _ => Plain.expression_fault

theorem statement_advances (ts : List Token) (c : Cursor) :
    Advances ts statement c fun room => Reader.statement (lastLine ts) room (c.left ts) :=
  .of_fault (statement_reaches c) fun _ _ => Plain.statement_fault

theorem block_advances (ts : List Token) (c : Cursor) :
    Advances ts block c fun room => Reader.block (lastLine ts) room (c.left ts) :=
  .of_fault (block_reaches c) fun _ _ => Plain.block_fault

/-- A conditional with its condition at `c`, and no `elif` and no `else` behind its first block, looks
past the line ends after the block, to `c₃`, and moves back to the end of the block. That lies past
`c`. -/
def Restores (ts : List Token) (c : Cursor) : Prop :=
  ∀ (line : Int) (condition : Expr) (yes : List Stmt) (c₁ c₂ : Cursor),
    Ends ts (expression 0) c (.ok condition) c₁ → Ends ts block c₁ (.ok yes) c₂ →
    (∀ t rest, skipNewlines (c₂.left ts) = t :: rest → t.kind ≠ .elifWord ∧ t.kind ≠ .elseWord) →
    c.pos < c₂.pos ∧ c₂.pos ≤ ts.length ∧
      ∃ c₃ : Cursor, c₃.left ts = skipNewlines (c₂.left ts) ∧
        Ends ts (branching line) c (.ok (.branch condition yes [] line)) (c₃.moved c₂.pos)

theorem restores (ts : List Token) (c : Cursor) : Restores ts c := by
  intro line condition yes c₁ c₂ hcondition hyes hnone
  have hpos₁ := (expression_advances ts c 0).pos_lt hcondition
  have hpos₂ := (block_advances ts c₁).pos_lt hyes
  obtain ⟨c₃, -, hleft, hends⟩ := ends_alternative_none condition yes line hnone
  exact ⟨Nat.lt_trans hpos₁.1 hpos₂.1, hpos₂.2, c₃, hleft, .ofCall (hcondition.bind (hyes.bind hends))⟩

/-- A conditional ends as the walk behind its first word does. -/
theorem ends_statement_if {t : Token} {rest : List Token} {c c' : Cursor} {r : Except Error Stmt}
    (hleft : c.left ts = t :: rest) (hk : t.kind = .ifWord) :
    Ends ts statement c r c' ↔ Ends ts (branching t.line) (c.moved (c.pos + 1)) r c' := by
  have hif {r : Except Error Stmt} {c' : Cursor}
      (h : Ends ts (branching t.line) (c.moved (c.pos + 1)) r c') : Ends ts statement c r c' := by
    refine .ofCall (.bind (ends_peek_cons hleft) ?_)
    simp only [hk]
    exact (ends_next hleft).bind h
  refine ⟨fun h => ?_, hif⟩
  obtain ⟨r', c'', hends, -⟩ := branching_reaches t.line (c.moved (c.pos + 1))
  obtain ⟨rfl, rfl⟩ := (hif hends).unique h
  exact hends

/-- **Reading ends on every list of tokens**, whatever kinds stand in it and with or without an end of
the input anywhere. The walks for programs and expressions have no measure and no fuel; they come to
an end and never stand behind the last token. Wherever an expression, a statement or a block is read,
the walk ends, and past its start if it succeeds. A conditional that found no alternative moves back to
a place that is past its start. All of them read what the readers read, whatever the limit for nesting,
unless it is reached, which takes more tokens than the limit. -/
theorem readings_end (ts : List Token) :
    EndsWhole ts wholeProgram (fun limit => readProgram limit ts) ∧
    EndsWhole ts (wholeExpression ts) (fun limit => readExpression limit ts) ∧
    ∀ c : Cursor,
      (∀ least, Advances ts (expression least) c fun room =>
        Reader.expression (lastLine ts) room least (c.left ts)) ∧
      Advances ts statement c (fun room => Reader.statement (lastLine ts) room (c.left ts)) ∧
      Advances ts block c (fun room => Reader.block (lastLine ts) room (c.left ts)) ∧
      Restores ts c ∧
      ∀ t rest, c.left ts = t :: rest → t.kind = .ifWord → ∀ r c',
        Ends ts statement c r c' ↔ Ends ts (branching t.line) (c.moved (c.pos + 1)) r c' := by
  refine ⟨?_, ?_, fun c => ⟨?_, ?_, ?_, ?_, ?_⟩⟩
  · exact .of_fault (wholeProgram_ends ts) fun _ _ => Grammar.readProgram_fault
  · exact .of_fault (wholeExpression_ends ts) fun _ _ => Grammar.readExpression_fault
  · exact expression_advances ts c
  · exact statement_advances ts c
  · exact block_advances ts c
  · exact restores ts c
  · exact fun t rest hleft hk _ _ => ends_statement_if hleft hk

/-- The tokens of `if a { }`, two line ends and a stray `)`, with no end of the input. The conditional
looks at the parenthesis, at place 6, and moves back to place 4. -/
theorem readings_end_stray_closer :
    let sign (kind : Kind) (lexeme : String) (line : Int) : Token := ⟨kind, lexeme, .nothing, line⟩
    let ts := [sign .ifWord "if" 1, sign .identifier "a" 1, sign .leftBrace "\x7b" 1,
      sign .rightBrace "\x7d" 1, sign .newline "\n" 1, sign .newline "\n" 2, sign .rightParen ")" 3]
    (∃ c, Ends ts wholeProgram .start
        (.error ⟨.unexpectedToken .expression (sign .rightParen ")" 3), some 3⟩) c ∧
      ∀ pos ∈ c.places, pos ≤ 7) ∧
    ∃ c₁ c₂ c₃ : Cursor, Ends ts (expression 0) ⟨1, [0]⟩ (.ok (.name "a")) c₁ ∧
      Ends ts block c₁ (.ok []) c₂ ∧ c₂.pos = 4 ∧ c₃.pos = 6 ∧
      Ends ts statement .start (.ok (.branch (.name "a") [] [] 1)) (c₃.moved 4) := by
  intro sign ts
  obtain ⟨⟨r, c, hends, -, hplaces, hread⟩, -, hcalls⟩ := readings_end ts
  have hprogram : readProgram 7 ts =
      .error ⟨.unexpectedToken .expression (sign .rightParen ")" 3), some 3⟩ := by
    cbv
  obtain rfl := hprogram.symm.trans ((hread 7).2 (by decide))
  refine ⟨⟨c, hends, hplaces⟩, ?_⟩
  have hlen (c : Cursor) : (c.left ts).length = 7 - c.pos := c.length_left ts
  obtain ⟨hcondition, -, -, hrestores, -⟩ := hcalls ⟨1, [0]⟩
  have hname : Plain.expression (lastLine ts) 6 0 (ts.drop 1) = .ok (.name "a", ts.drop 2) := by
    cbv
  obtain ⟨c₁, hc₁, hleft₁⟩ := (hcondition 0).of_ok hname (by decide)
  have hbraces : Plain.block (lastLine ts) 6 (c₁.left ts) = .ok ([], ts.drop 4) := by
    rw [hleft₁]
    cbv
  obtain ⟨c₂, hc₂, hleft₂⟩ := (hcalls c₁).2.2.1.of_ok hbraces (by rw [hleft₁]; decide)
  have hskip : skipNewlines (c₂.left ts) = [sign .rightParen ")" 3] := by
    rw [hleft₂]
    rfl
  obtain ⟨-, -, c₃, hleft₃, hbranch⟩ := hrestores 1 (.name "a") [] c₁ c₂ hc₁ hc₂ (by
    rw [hskip]
    rintro t rest ⟨⟩
    decide)
  have hpos₂ : c₂.pos = 4 := by
    have := hlen c₂
    rw [hleft₂, show (ts.drop 4).length = 3 from rfl] at this
    omega
  have hpos₃ : c₃.pos = 6 := by
    have := hlen c₃
    rw [hleft₃, hskip, show [sign .rightParen ")" 3].length = 1 from rfl] at this
    omega
  refine ⟨c₁, c₂, c₃, hc₁, hc₂, hpos₂, hpos₃, ?_⟩
  rw [← hpos₂]
  exact ((hcalls .start).2.2.2.2 _ _ rfl rfl _ _).2 hbranch

end Walk

end Parlance.Reader
