import Parlance.Proofs.Grammar.Statement
import Parlance.Proofs.Reader.Completion

/-!
# Every script is read

On statements of the grammar the readers build those statements, unless they stop at the limit for
nesting. A statement is read up to its end if nothing that follows goes on with it: no operator, no
parenthesis and, past line ends, no `elif` or `else`. What ends a statement is of that sort.
-/

namespace Parlance.Grammar

open Reader (front endsStatement skipNewlines skipNewlines_cons Calm Unbranched Still)
open Reader.Plain

variable {last : Int} {room : Nat}

/-! ## Expressions -/

theorem Parts.of_calm {rest : List Token} (h : Calm rest) : Parts .or rest := by
  intro t ts hts
  refine ⟨?_, h.leftParen t ts hts⟩
  rw [pull, h.joining t ts hts]
  exact Nat.zero_le _

theorem Derives.read {used rest : List Token} {e : Expr} (h : Derives .or used e) (hc : Calm rest) :
    Yields (expression last room 0 (used ++ rest)) (.ok (e, rest)) := by
  rw [← joined_calm hc.joining]
  exact h.complete room 0 rest (Nat.zero_le _) (.of_calm hc)

/-- No expression starts with a name and the sign of an assignment. -/
theorem Derives.not_assigns {t sign : Token} {ts : List Token} {e : Expr}
    (h : Derives .or (t :: sign :: ts) e) (ht : t.kind = .identifier) :
    assigns sign.kind = false := by
  refine Bool.eq_false_iff.2 fun hs => ?_
  -- Otherwise the name alone is read, and the derivation says that everything is.
  have hsign : sign.kind ≠ .leftParen ∧ Op.joining? sign.kind = none := by
    cases hk : sign.kind <;> rw [hk] at hs <;> first | exact ⟨by decide, rfl⟩ | cases hs
  have hname : expression 0 0 0 (t :: sign :: ts) = .ok (.name t.lexeme, sign :: ts) := by
    rw [expression_eq, andThen_of_ok (operand_name ht (by rintro _ _ ⟨⟩; exact hsign.1))]
    exact joined_calm (by rintro _ _ ⟨⟩; exact hsign.2)
  have hall : Yields (expression 0 0 0 (t :: sign :: ts ++ [])) (.ok (e, [])) :=
    h.read Reader.still_nil.1
  rw [List.append_nil, hname] at hall
  rcases hall with hall | ⟨line, hall⟩
  · cases hall
  · cases hall

theorem expressionStatement_complete {t : Token} {ts rest : List Token} {e : Expr}
    (h : Derives .or (t :: ts) e) (hc : Calm rest) :
    Yields (statement last room (t :: ts ++ rest)) (.ok (.expr e t.line, rest)) := by
  have hread : Yields (expressionStatement last room t.line (t :: ts ++ rest))
      (.ok (.expr e t.line, rest)) := (h.read hc).andThen
  by_cases hk : t.kind = .identifier
  · rw [List.cons_append, statement_name hk]
    · exact hread
    · intro sign more hts
      match ts, hts with
      | [], hts => exact hc.assigns sign more hts
      | _ :: _, hts =>
        obtain ⟨rfl, -⟩ := List.cons.inj hts
        exact h.not_assigns hk
  · rw [List.cons_append, statement_expression]
    · exact hread
    · obtain ⟨u, us, hts, hopen⟩ := h.opens
      obtain ⟨rfl, -⟩ := List.cons.inj hts
      cases hkind : t.kind <;> rw [hkind] at hopen hk <;> first | rfl | exact absurd rfl hk | cases hopen

theorem declaration_complete {name : String} {value : Expr → Expr} {fresh : Bool} {line : Int}
    {ts rest : List Token} {e : Expr} (h : Derives .or ts e) (hc : Calm rest) :
    Yields (declaration last room name value fresh line (ts ++ rest))
      (.ok (.declare name (value e) fresh line, rest)) :=
  (h.read hc).andThen

/-! ## What may follow a statement -/

theorem calm_of_endsStatement {rest : List Token} (h : endsStatement (front last rest).kind = true) :
    Calm rest := by
  rintro t ts rfl
  have ht : endsStatement t.kind = true := h
  cases hk : t.kind <;> rw [hk] at ht <;> first | rfl | cases ht

theorem unbranched_cons {t : Token} (h : t.kind ≠ .newline ∧ t.kind ≠ .elifWord ∧ t.kind ≠ .elseWord)
    (ts : List Token) : Unbranched (t :: ts) := by
  rw [Unbranched, skipNewlines_cons h.1]
  rintro _ _ ⟨⟩
  exact h.2

theorem unbranched_lines {ls rest : List Token} (hl : Lines ls) (h : Unbranched rest) :
    Unbranched (ls ++ rest) := by
  unfold Unbranched
  rw [skipNewlines_lines_append hl]
  exact h

theorem endsStatement_lines {ls rest : List Token} (hl : Lines ls)
    (h : ls ≠ [] ∨ endsStatement (front last rest).kind = true) :
    endsStatement (front last (ls ++ rest)).kind = true := by
  match ls with
  | [] => exact h.resolve_left fun hne => hne rfl
  | t :: ls =>
    rw [List.cons_append, front, hl t (by simp)]
    rfl

theorem calm_of_brace {t : Token} {ts : List Token} (h : t.kind = .leftBrace) : Calm (t :: ts) := by
  rintro _ _ ⟨⟩
  rw [h]
  rfl

/-- A statement and the line ends after it. -/
theorem statementLine_complete {used rest : List Token} {s : Stmt}
    (h : Still rest → Yields (statement last room (used ++ rest)) (.ok (s, rest)))
    (hends : endsStatement (front last rest).kind = true) (hu : Unbranched rest) :
    Yields (statementLine last room (used ++ rest)) (.ok (s, skipNewlines rest)) := by
  refine (h ⟨calm_of_endsStatement hends, hu⟩).andThen.trans ?_
  rw [if_pos hends]
  exact .rfl

/-- A statement before line ends and another statement. -/
theorem statementLine_before {used ls us rest : List Token} {s : Stmt} {ss : List Stmt}
    (h : ∀ rest, Still rest → Yields (statement last room (used ++ rest)) (.ok (s, rest)))
    (hl : Lines ls) (hne : ls ≠ []) (hs : DerivesSeq us ss) :
    Yields (statementLine last room (used ++ (ls ++ us) ++ rest)) (.ok (s, us ++ rest)) := by
  obtain ⟨t, more, rfl, ht⟩ := hs.starts
  obtain ⟨hnewline, -, -, helif, helse⟩ := ne_of_starts ht
  have hskip : skipNewlines (ls ++ (t :: more ++ rest)) = t :: more ++ rest := by
    rw [skipNewlines_lines_append hl, List.cons_append, skipNewlines_cons hnewline]
  have hline := statementLine_complete (h (ls ++ (t :: more ++ rest)))
    (endsStatement_lines hl (.inl hne))
    (unbranched_lines hl (unbranched_cons ⟨hnewline, helif, helse⟩ _))
  rw [hskip] at hline
  rw [List.append_assoc, List.append_assoc]
  exact hline

/-- The last statement, before line ends and what closes them. -/
theorem statementLine_last {used ls rest : List Token} {s : Stmt}
    (h : ∀ rest, Still rest → Yields (statement last room (used ++ rest)) (.ok (s, rest)))
    (hl : Lines ls)
    (hrest : (front last rest).kind = .endOfInput ∨ (front last rest).kind = .rightBrace) :
    Yields (statementLine last room (used ++ (ls ++ rest))) (.ok (s, rest)) := by
  have hends : endsStatement (front last rest).kind = true := by
    rcases hrest with hrest | hrest <;> rw [hrest] <;> rfl
  have hquiet : skipNewlines rest = rest ∧ Unbranched rest := by
    match rest, hrest with
    | [], _ => exact ⟨rfl, Reader.still_nil.2⟩
    | t :: rest, hrest =>
      have ht : t.kind ≠ .newline ∧ t.kind ≠ .elifWord ∧ t.kind ≠ .elseWord := by
        rcases hrest with hrest | hrest <;> rw [show t.kind = _ from hrest] <;> decide
      exact ⟨skipNewlines_cons ht.1, unbranched_cons ht rest⟩
  have hline := statementLine_complete (h (ls ++ rest)) (endsStatement_lines hl (.inr hends))
    (unbranched_lines hl hquiet.2)
  rw [skipNewlines_lines_append hl, hquiet.1] at hline
  exact hline

/-! ## Statements -/

/-- A condition and a block. -/
theorem condition_complete {α : Type} {cs bs rest : List Token} {condition : Expr} {ss : List Stmt}
    {k : Expr → List Stmt → Reader.Plain α} (hc : Derives .or cs condition) (hb : DerivesBlock bs ss)
    (h : Yields (block last room (bs ++ rest)) (.ok (ss, rest))) :
    Yields (((expression last room 0).andThen fun e => (block last room).andThen (k e))
      (cs ++ (bs ++ rest))) (k condition ss rest) := by
  obtain ⟨opener, more, rfl, ho⟩ := hb.opens
  exact (hc.read (calm_of_brace ho)).andThen.trans h.andThen

/-- A block goes on with a statement if one stands next. -/
theorem DerivesStmt.body_eq {ts : List Token} {s : Stmt} (h : DerivesStmt ts s) (rest : List Token) :
    body last room (ts ++ rest) =
      ((statementLine last room).andThen fun s =>
        (body last room).andThen fun ss => give (s :: ss)) (ts ++ rest) := by
  obtain ⟨t, more, rfl, ht⟩ := h.starts
  obtain ⟨-, hend, hclose, -, -⟩ := ne_of_starts ht
  exact body_statement hclose hend

mutual
theorem DerivesStmt.complete {used : List Token} {s : Stmt} :
    DerivesStmt used s → ∀ (room : Nat) (rest : List Token), Still rest →
      Yields (statement last room (used ++ rest)) (.ok (s, rest))
  | @DerivesStmt.introduce t x sign ts e ht hx hs h, room, rest, hstill => by
    simp only [List.cons_append]
    rw [statement_let ht, introduction, andThen_of_ok (token_cons last hx),
      andThen_of_ok (token_cons last hs)]
    exact declaration_complete h hstill.1
  | @DerivesStmt.assign x sign ts e hx hs h, room, rest, hstill => by
    simp only [List.cons_append]
    rw [statement_assign hx hs]
    exact declaration_complete h hstill.1
  | @DerivesStmt.add x sign ts e hx hs h, room, rest, hstill => by
    simp only [List.cons_append]
    rw [statement_assigning hx (show Op.assigning? sign.kind = some .plus by rw [hs]; rfl)]
    exact declaration_complete h hstill.1
  | @DerivesStmt.subtract x sign ts e hx hs h, room, rest, hstill => by
    simp only [List.cons_append]
    rw [statement_assigning hx (show Op.assigning? sign.kind = some .minus by rw [hs]; rfl)]
    exact declaration_complete h hstill.1
  | @DerivesStmt.print t ts e ht h, room, rest, hstill => by
    rw [List.cons_append, statement_print ht]
    exact (h.read hstill.1).andThen
  | @DerivesStmt.loop t cs bs condition body ht hc hb, room, rest, hstill => by
    rw [List.cons_append, List.append_assoc, statement_while ht]
    exact condition_complete hc hb (hb.complete room rest)
  | @DerivesStmt.branch t ts s ht h, room, rest, hstill => by
    rw [List.cons_append, statement_if ht]
    exact h.complete room rest hstill.2
  | .expr h, room, rest, hstill => expressionStatement_complete h hstill.1

theorem DerivesBranch.complete {line : Int} {used : List Token} {s : Stmt} :
    DerivesBranch line used s → ∀ (room : Nat) (rest : List Token), Unbranched rest →
      Yields (branching last room line (used ++ rest)) (.ok (s, rest))
  | @DerivesBranch.alone line cs ys condition yes hc hy, room, rest, hu => by
    rw [branching_eq, List.append_assoc]
    refine (condition_complete hc hy (hy.complete room rest)).trans ?_
    rw [alternative_none hu]
    exact .rfl
  | @DerivesBranch.elif line cs ys ls ts t condition yes no hc hy hl ht h, room, rest, hu => by
    have hskip : skipNewlines (ls ++ t :: (ts ++ rest)) = t :: (ts ++ rest) := by
      rw [skipNewlines_lines_append hl, skipNewlines_cons (by rw [ht]; decide)]
    simp only [branching_eq, List.append_assoc, List.cons_append]
    refine (condition_complete hc hy (hy.complete room _)).trans ?_
    rw [alternative_elif hskip ht]
    exact (Yields.within fun inside => h.complete inside rest hu).andThen
  | @DerivesBranch.otherwise line cs ys ls ns t condition yes no hc hy hl ht hn, room, rest, hu => by
    have hskip : skipNewlines (ls ++ t :: (ns ++ rest)) = t :: (ns ++ rest) := by
      rw [skipNewlines_lines_append hl, skipNewlines_cons (by rw [ht]; decide)]
    simp only [branching_eq, List.append_assoc, List.cons_append]
    refine (condition_complete hc hy (hy.complete room _)).trans ?_
    rw [alternative_else hskip ht]
    exact (hn.complete room rest).andThen

theorem DerivesBlock.complete {used : List Token} {ss : List Stmt} :
    DerivesBlock used ss → ∀ (room : Nat) (rest : List Token),
      Yields (block last room (used ++ rest)) (.ok (ss, rest))
  | @DerivesBlock.braces opener closer ts ss ho h hc, room, rest => by
    simp only [List.cons_append, List.append_assoc, List.nil_append]
    rw [block_eq, andThen_of_ok (token_cons last ho)]
    exact .within fun inside => h.complete inside closer rest hc

theorem DerivesBody.complete {used : List Token} {ss : List Stmt} :
    DerivesBody used ss → ∀ (room : Nat) (closer : Token) (rest : List Token),
      closer.kind = .rightBrace →
        Yields (body last room (skipNewlines (used ++ closer :: rest))) (.ok (ss, rest))
  | .none hl, room, closer, rest, hc => by
    rw [skipNewlines_lines_append hl, skipNewlines_cons (by rw [hc]; decide), body_close hc]
    exact .rfl
  | @DerivesBody.some ls ts ls' ss hl h hl', room, closer, rest, hc => by
    obtain ⟨t, more, hts, ht⟩ := h.starts
    have hskip : skipNewlines (ls ++ (ts ++ ls') ++ closer :: rest) = ts ++ (ls' ++ closer :: rest) := by
      rw [List.append_assoc, skipNewlines_lines_append hl, hts, List.append_assoc, List.cons_append,
        skipNewlines_cons (ne_of_starts ht).1]
    rw [hskip]
    exact h.complete room ls' closer rest hl' hc

theorem DerivesSeq.complete {used : List Token} {ss : List Stmt} :
    DerivesSeq used ss → ∀ (room : Nat) (ls : List Token) (closer : Token) (rest : List Token),
      Lines ls → closer.kind = .rightBrace →
        Yields (body last room (used ++ (ls ++ closer :: rest))) (.ok (ss, rest))
  | .last h, room, ls, closer, rest, hl, hc => by
    rw [h.body_eq]
    have hrest : (front last (closer :: rest)).kind = .rightBrace := hc
    refine (statementLine_last (h.complete room) hl (.inr hrest)).andThen.trans ?_
    rw [andThen_of_ok (body_close hc)]
    exact .rfl
  | .more h hl' hne hs, room, ls, closer, rest, hl, hc => by
    rw [List.append_assoc, h.body_eq, ← List.append_assoc]
    refine (statementLine_before (h.complete room) hl' hne hs).andThen.trans ?_
    exact (hs.complete room ls closer rest hl hc).andThen
end

end Parlance.Grammar
