import Parlance.Proofs.Grammar.Statement

/-!
# What is read is a script

Whatever the readers take for statements derives in the grammar, with the statements that they build.
The induction follows the readers. A statement may end before a brace or at the end of the input, where
no line end stands; `Tail.cons` says why this never lets two statements stand on one line: what comes
next after such a token is no statement.
-/

namespace Parlance.Grammar

open Reader (front endsStatement skipNewlines)
open Reader.Plain

variable {last : Int}

/-- Nothing, or statements and the line ends after them. -/
def Tail (ts : List Token) (ss : List Stmt) : Prop :=
  (ts = [] ∧ ss = []) ∨ ∃ seq ls, ts = seq ++ ls ∧ DerivesSeq seq ss ∧ Lines ls

theorem Tail.body {ls ts : List Token} {ss : List Stmt} (h : Tail ts ss) (hl : Lines ls) :
    DerivesBody (ls ++ ts) ss := by
  rcases h with ⟨rfl, rfl⟩ | ⟨seq, ls', rfl, hseq, hl'⟩
  · rw [List.append_nil]
    exact .none hl
  · exact .some hl hseq hl'

/-- A statement before other statements. -/
theorem Tail.cons {ts left us rest : List Token} {s : Stmt} {ss : List Stmt} (hs : DerivesStmt ts s)
    (hends : endsStatement (front last left).kind = true) (hskip : skipNewlines left = us ++ rest)
    (h : Tail us ss) : ∃ vs, ts ++ left = vs ++ rest ∧ Tail vs (s :: ss) := by
  obtain ⟨ls, hl, hleft⟩ := exists_lines left
  rw [hskip] at hleft
  refine ⟨ts ++ (ls ++ us), by rw [hleft]; simp, ?_⟩
  rcases h with ⟨rfl, rfl⟩ | ⟨seq, ls', rfl, hseq, hl'⟩
  · exact .inr ⟨ts, ls, by rw [List.append_nil], .last hs, hl⟩
  · refine .inr ⟨ts ++ (ls ++ seq), ls', by simp, .more hs hl ?_ hseq, hl'⟩
    -- Without a line end the next statement would start with a token at which this one may end.
    rintro rfl
    obtain ⟨t, more, rfl, ht⟩ := hseq.starts
    rw [hleft] at hends
    exact absurd hends (by rw [show front last _ = t from rfl, not_endsStatement_of_starts ht]; decide)

theorem expression_used {room : Nat} {ts rest : List Token} {e : Expr}
    (h : expression last room 0 ts = .ok (e, rest)) : ∃ used, ts = used ++ rest ∧ Derives .or used e :=
  (expression_sound (Nat.zero_le _) h).loosest

theorem declaration_sound {room : Nat} {name : String} {value : Expr → Expr} {fresh : Bool}
    {line : Int} {ts rest : List Token} {s : Stmt}
    (h : declaration last room name value fresh line ts = .ok (s, rest)) :
    ∃ used e, ts = used ++ rest ∧ Derives .or used e ∧ s = .declare name (value e) fresh line := by
  obtain ⟨e, mid, he, hgive⟩ := andThen_eq_ok h
  obtain ⟨rfl, rfl⟩ := Prod.mk.inj (Except.ok.inj hgive)
  obtain ⟨used, hts, hd⟩ := expression_used he
  exact ⟨used, e, hts, hd, rfl⟩

theorem introduction_sound {room : Nat} {t : Token} {ts rest : List Token} {s : Stmt}
    (ht : t.kind = .letWord) (h : introduction last room t.line ts = .ok (s, rest)) :
    ∃ used, t :: ts = used ++ rest ∧ DerivesStmt used s := by
  obtain ⟨x, mid, hname, hafter⟩ := andThen_eq_ok h
  obtain ⟨sign, mid', hassign, hvalue⟩ := andThen_eq_ok hafter
  obtain ⟨hx, rfl⟩ := token_eq_ok hname
  obtain ⟨hsign, rfl⟩ := token_eq_ok hassign
  obtain ⟨used, e, rfl, hd, rfl⟩ := declaration_sound hvalue
  exact ⟨t :: x :: sign :: used, rfl, .introduce ht hx hsign hd⟩

theorem expressionStatement_sound {room : Nat} {t : Token} {ts rest : List Token} {s : Stmt}
    (h : expressionStatement last room t.line (t :: ts) = .ok (s, rest)) :
    ∃ used, t :: ts = used ++ rest ∧ DerivesStmt used s := by
  obtain ⟨e, mid, he, hgive⟩ := andThen_eq_ok h
  obtain ⟨rfl, rfl⟩ := Prod.mk.inj (Except.ok.inj hgive)
  obtain ⟨used, hts, hd⟩ := expression_used he
  obtain ⟨u, us, rfl, -⟩ := hd.opens
  obtain ⟨rfl, rfl⟩ := List.cons.inj hts
  exact ⟨t :: us, rfl, .expr hd⟩

/-- A statement that starts with a name. -/
theorem named_sound {room : Nat} {x : Token} {ts rest : List Token} {s : Stmt}
    (hx : x.kind = .identifier) (h : statement last room (x :: ts) = .ok (s, rest)) :
    ∃ used, x :: ts = used ++ rest ∧ DerivesStmt used s := by
  by_cases hsign : ∃ sign more, ts = sign :: more ∧ assigns sign.kind = true
  · obtain ⟨sign, more, rfl, hsign⟩ := hsign
    cases hk : sign.kind with
    | assign =>
      rw [statement_assign hx hk] at h
      obtain ⟨used, e, rfl, hd, rfl⟩ := declaration_sound h
      exact ⟨x :: sign :: used, rfl, .assign hx hk hd⟩
    | plusAssign =>
      rw [statement_assigning hx (show Op.assigning? sign.kind = some .plus by rw [hk]; rfl)] at h
      obtain ⟨used, e, rfl, hd, rfl⟩ := declaration_sound h
      exact ⟨x :: sign :: used, rfl, .add hx hk hd⟩
    | minusAssign =>
      rw [statement_assigning hx (show Op.assigning? sign.kind = some .minus by rw [hk]; rfl)] at h
      obtain ⟨used, e, rfl, hd, rfl⟩ := declaration_sound h
      exact ⟨x :: sign :: used, rfl, .subtract hx hk hd⟩
    | _ =>
      rw [hk] at hsign
      cases hsign
  · rw [statement_name hx fun sign more hts =>
      Bool.eq_false_iff.2 fun ha => hsign ⟨sign, more, hts, ha⟩] at h
    exact expressionStatement_sound h

mutual
theorem statement_sound {room : Nat} {ts rest : List Token} {s : Stmt}
    (h : statement last room ts = .ok (s, rest)) : ∃ used, ts = used ++ rest ∧ DerivesStmt used s := by
  match ts with
  | [] =>
    rw [statement_nil, expressionStatement, expression_eq,
      andThen_of_error (andThen_of_error (operand_nil last room))] at h
    cases h
  | t :: ts =>
    cases hk : t.kind with
    | letWord =>
      rw [statement_let hk] at h
      exact introduction_sound hk h
    | printWord =>
      rw [statement_print hk] at h
      obtain ⟨e, mid, he, hgive⟩ := andThen_eq_ok h
      obtain ⟨rfl, rfl⟩ := Prod.mk.inj (Except.ok.inj hgive)
      obtain ⟨used, rfl, hd⟩ := expression_used he
      exact ⟨t :: used, rfl, .print hk hd⟩
    | ifWord =>
      rw [statement_if hk] at h
      obtain ⟨used, rfl, hd⟩ := branching_sound h
      exact ⟨t :: used, rfl, .branch hk hd⟩
    | whileWord =>
      rw [statement_while hk] at h
      obtain ⟨condition, mid, hcondition, hblock⟩ := andThen_eq_ok h
      obtain ⟨body, mid', hbody, hgive⟩ := andThen_eq_ok hblock
      obtain ⟨rfl, rfl⟩ := Prod.mk.inj (Except.ok.inj hgive)
      have hlt : mid.length < ts.length := Reader.Reading.shorter_of_plain hcondition
      obtain ⟨cs, rfl, hc⟩ := expression_used hcondition
      obtain ⟨bs, rfl, hb⟩ := block_sound hbody
      exact ⟨t :: (cs ++ bs), by simp, .loop hk hc hb⟩
    | identifier => exact named_sound hk h
    | _ =>
      rw [statement_expression (by rw [hk]; rfl)] at h
      exact expressionStatement_sound h
termination_by (ts.length, 0)

theorem branching_sound {room : Nat} {line : Int} {ts rest : List Token} {s : Stmt}
    (h : branching last room line ts = .ok (s, rest)) :
    ∃ used, ts = used ++ rest ∧ DerivesBranch line used s := by
  rw [branching_eq] at h
  obtain ⟨condition, mid, hcondition, hblock⟩ := andThen_eq_ok h
  obtain ⟨yes, mid', hyes, helse⟩ := andThen_eq_ok hblock
  have hlt : mid.length < ts.length := Reader.Reading.shorter_of_plain hcondition
  have hlt' : mid'.length < mid.length := Reader.Reading.shorter_of_plain hyes
  obtain ⟨cs, rfl, hc⟩ := expression_used hcondition
  obtain ⟨ys, rfl, hy⟩ := block_sound hyes
  obtain ⟨ls, hl, hlines⟩ := exists_lines mid'
  by_cases hnone : ∀ t more, skipNewlines mid' = t :: more → t.kind ≠ .elifWord ∧ t.kind ≠ .elseWord
  · rw [alternative_none hnone] at helse
    obtain ⟨rfl, rfl⟩ := Prod.mk.inj (Except.ok.inj helse)
    exact ⟨cs ++ ys, by simp, .alone hc hy⟩
  · obtain ⟨t, more, hskip, ht⟩ : ∃ t more, skipNewlines mid' = t :: more ∧
        (t.kind = .elifWord ∨ t.kind = .elseWord) := by
      simpa only [Classical.not_forall, Decidable.not_and_iff_not_or_not, Decidable.not_not,
        exists_prop] using hnone
    rw [hskip] at hlines
    have hmore : more.length < mid'.length := by
      rw [hlines, List.length_append, List.length_cons]
      omega
    rcases ht with ht | ht
    · rw [alternative_elif hskip ht] at helse
      obtain ⟨no, left, hno, hgive⟩ := andThen_eq_ok helse
      obtain ⟨rfl, rfl⟩ := Prod.mk.inj (Except.ok.inj hgive)
      obtain ⟨inside, -, hno⟩ := within_eq_ok hno
      obtain ⟨us, rfl, hd⟩ := branching_sound hno
      exact ⟨cs ++ (ys ++ (ls ++ t :: us)), by rw [hlines]; simp, .elif hc hy hl ht hd⟩
    · rw [alternative_else hskip ht] at helse
      obtain ⟨no, left, hno, hgive⟩ := andThen_eq_ok helse
      obtain ⟨rfl, rfl⟩ := Prod.mk.inj (Except.ok.inj hgive)
      obtain ⟨ns, rfl, hd⟩ := block_sound hno
      exact ⟨cs ++ (ys ++ (ls ++ t :: ns)), by rw [hlines]; simp, .otherwise hc hy hl ht hd⟩
termination_by (ts.length, 0)

theorem block_sound {room : Nat} {ts rest : List Token} {ss : List Stmt}
    (h : block last room ts = .ok (ss, rest)) : ∃ used, ts = used ++ rest ∧ DerivesBlock used ss := by
  rw [block_eq] at h
  obtain ⟨opener, mid, hopen, hinner⟩ := andThen_eq_ok h
  obtain ⟨ho, rfl⟩ := token_eq_ok hopen
  obtain ⟨inside, -, hbody⟩ := within_eq_ok hinner
  have hlt : (skipNewlines mid).length < (opener :: mid).length :=
    Nat.lt_succ_of_le (Reader.skipNewlines_length_le mid)
  obtain ⟨used, closer, hskip, hc, htail⟩ := body_sound hbody
  obtain ⟨ls, hl, hlines⟩ := exists_lines mid
  rw [hskip] at hlines
  exact ⟨opener :: (ls ++ used ++ [closer]), by rw [hlines]; simp, .braces ho (htail.body hl) hc⟩
termination_by (ts.length, 0)

theorem body_sound {room : Nat} {ts rest : List Token} {ss : List Stmt}
    (h : body last room ts = .ok (ss, rest)) :
    ∃ used closer, ts = used ++ closer :: rest ∧ closer.kind = .rightBrace ∧ Tail used ss := by
  match ts with
  | [] =>
    rw [body_nil] at h
    cases h
  | t :: ts =>
    by_cases hclose : t.kind = .rightBrace
    · rw [body_close hclose] at h
      obtain ⟨rfl, rfl⟩ := Prod.mk.inj (Except.ok.inj h)
      exact ⟨[], t, rfl, hclose, .inl ⟨rfl, rfl⟩⟩
    · by_cases hend : t.kind = .endOfInput
      · rw [body_end hend] at h
        cases h
      · rw [body_statement hclose hend] at h
        obtain ⟨s, mid, hline, hrest⟩ := andThen_eq_ok h
        obtain ⟨more, mid', hbody, hgive⟩ := andThen_eq_ok hrest
        obtain ⟨rfl, rfl⟩ := Prod.mk.inj (Except.ok.inj hgive)
        have hlt : mid.length < (t :: ts).length := statementLine_shorter hline
        obtain ⟨left, hs, hends, rfl⟩ := statementLine_eq_ok hline
        obtain ⟨used, closer, hskip, hc, htail⟩ := body_sound hbody
        obtain ⟨stmt, hts, hd⟩ := statement_sound hs
        obtain ⟨vs, hvs, htail⟩ := htail.cons hd hends hskip
        exact ⟨vs, closer, hts.trans hvs, hc, htail⟩
termination_by (ts.length, 1)
end

theorem program_sound {room : Nat} {ts : List Token} {ss : List Stmt}
    (h : Reader.program last room ts = .ok ss) :
    ∃ used rest, ts = used ++ rest ∧ (front last rest).kind = .endOfInput ∧ Tail used ss := by
  rcases program_eq_ok h with ⟨hend, rfl⟩ | ⟨s, mid, more, hline, hrest, rfl⟩
  · exact ⟨[], ts, rfl, hend, .inl ⟨rfl, rfl⟩⟩
  · have hlt : mid.length < ts.length := statementLine_shorter hline
    obtain ⟨left, hs, hends, rfl⟩ := statementLine_eq_ok hline
    obtain ⟨used, rest, hskip, hend, htail⟩ := program_sound hrest
    obtain ⟨stmt, hts, hd⟩ := statement_sound hs
    obtain ⟨vs, hvs, htail⟩ := htail.cons hd hends hskip
    exact ⟨vs, rest, hts.trans hvs, hend, htail⟩
termination_by ts.length

end Parlance.Grammar
