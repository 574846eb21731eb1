import Parlance.Proofs.Grammar.Sound
import Parlance.Proofs.Reader.Statement

/-!
# What a reading ends with

Readers skip line ends only on the way to a token that they go on with, so the last token of an
expression or a statement is never a line end. A line end at the end of the input is therefore left
by every statement.
-/

namespace Parlance

/-- A phrase does not end at a line end. -/
theorem Grammar.Derives.exists_last {tier : Grammar.Tier} {ts : List Token} {e : Expr} :
    Derives tier ts e → ∃ used t, ts = used ++ [t] ∧ t.kind ≠ .newline
  | .pass _ h => h.exists_last
  | @Derives.join _ _ ls _ t _ _ _ _ _ _ hr => by
    obtain ⟨used, u, rfl, hu⟩ := hr.exists_last
    exact ⟨ls ++ t :: used, u, by simp, hu⟩
  | @Derives.minus t _ _ _ h => by
    obtain ⟨used, u, rfl, hu⟩ := h.exists_last
    exact ⟨t :: used, u, rfl, hu⟩
  | @Derives.bang t _ _ _ h => by
    obtain ⟨used, u, rfl, hu⟩ := h.exists_last
    exact ⟨t :: used, u, rfl, hu⟩
  | .index _ _ _ hc => ⟨_, _, rfl, by rw [hc]; decide⟩
  | @Derives.field t x ls _ _ _ hx => ⟨ls ++ [t], x, by simp, by rw [hx]; decide⟩
  | .number ht => ⟨[], _, rfl, by rw [ht]; decide⟩
  | .string ht => ⟨[], _, rfl, by rw [ht]; decide⟩
  | .trueWord ht => ⟨[], _, rfl, by rw [ht]; decide⟩
  | .falseWord ht => ⟨[], _, rfl, by rw [ht]; decide⟩
  | .name hx => ⟨[], _, rfl, by rw [hx]; decide⟩
  | .call _ _ _ hc => ⟨_, _, rfl, by rw [hc]; decide⟩
  | .paren _ _ hc => ⟨_, _, rfl, by rw [hc]; decide⟩
  | .array _ _ hc => ⟨_, _, rfl, by rw [hc]; decide⟩

namespace Reader

/-- `rest` is what a reader left of `ts`, and the last token that it took is no line end. -/
def Leaves (ts rest : List Token) : Prop := ∃ used t, ts = used ++ t :: rest ∧ t.kind ≠ .newline

namespace Leaves

variable {ts us rest : List Token} {t : Token}

theorem cons (h : Leaves ts rest) : Leaves (t :: ts) rest := by
  obtain ⟨used, u, rfl, hu⟩ := h
  exact ⟨t :: used, u, rfl, hu⟩

theorem of_suffix (h : Leaves us rest) (hs : us <:+ ts) : Leaves ts rest := by
  obtain ⟨used, u, rfl, hu⟩ := h
  obtain ⟨before, rfl⟩ := hs
  exact ⟨before ++ used, u, by simp, hu⟩

theorem suffix (h : Leaves ts rest) : rest <:+ ts := by
  obtain ⟨used, u, rfl, -⟩ := h
  exact ⟨used ++ [u], by simp⟩

theorem trans (h : Leaves ts us) (h' : Leaves us rest) : Leaves ts rest := h'.of_suffix h.suffix

/-- A line end at the end of the tokens is left. -/
theorem ne_nil (h : Leaves ts rest) {line : Token} {before : List Token} (hts : ts = before ++ [line])
    (hline : line.kind = .newline) : rest ≠ [] := by
  rintro rfl
  obtain ⟨used, u, rfl, hu⟩ := h
  obtain ⟨-, rfl⟩ := List.append_inj' hts rfl |>.imp_right List.singleton_inj.1
  exact hu hline

end Leaves

namespace Plain

variable {last : Int}

theorem expression_leaves {room : Nat} {ts rest : List Token} {e : Expr}
    (h : expression last room 0 ts = .ok (e, rest)) : Leaves ts rest := by
  obtain ⟨used, rfl, hd⟩ := (Grammar.expression_sound (Nat.zero_le _) h).loosest
  obtain ⟨before, t, rfl, ht⟩ := hd.exists_last
  exact ⟨before, t, by simp, ht⟩

theorem token_leaves {kind : Kind} {wanted : Wanted} {ts rest : List Token} {t : Token}
    (h : token last kind wanted ts = .ok (t, rest)) (hk : kind ≠ .newline) : Leaves ts rest := by
  obtain ⟨ht, rfl⟩ := token_eq_ok h
  exact ⟨[], t, rfl, fun hn => hk (ht.symm.trans hn)⟩

theorem declaration_leaves {room : Nat} {name : String} {value : Expr → Expr} {fresh : Bool}
    {line : Int} {ts rest : List Token} {s : Stmt}
    (h : declaration last room name value fresh line ts = .ok (s, rest)) : Leaves ts rest := by
  obtain ⟨e, mid, he, hgive⟩ := andThen_eq_ok h
  obtain ⟨-, rfl⟩ := Prod.mk.inj (Except.ok.inj hgive)
  exact expression_leaves he

theorem introduction_leaves {room : Nat} {line : Int} {ts rest : List Token} {s : Stmt}
    (h : introduction last room line ts = .ok (s, rest)) : Leaves ts rest := by
  obtain ⟨x, mid, hx, h⟩ := andThen_eq_ok h
  obtain ⟨sign, mid', hsign, h⟩ := andThen_eq_ok h
  have hmid := token_leaves hsign (by decide)
  exact (token_leaves hx (by decide)).trans (hmid.trans (declaration_leaves h))

theorem expressionStatement_leaves {room : Nat} {line : Int} {ts rest : List Token} {s : Stmt}
    (h : expressionStatement last room line ts = .ok (s, rest)) : Leaves ts rest := by
  obtain ⟨e, mid, he, hgive⟩ := andThen_eq_ok h
  obtain ⟨-, rfl⟩ := Prod.mk.inj (Except.ok.inj hgive)
  exact expression_leaves he

mutual
theorem statement_leaves {room : Nat} {ts rest : List Token} {s : Stmt}
    (h : statement last room ts = .ok (s, rest)) : Leaves ts rest := by
  match ts with
  | [] =>
    rw [statement_nil] at h
    exact expressionStatement_leaves h
  | t :: ts =>
    cases hk : t.kind with
    | letWord =>
      rw [statement_let hk] at h
      exact (introduction_leaves h).cons
    | printWord =>
      rw [statement_print hk] at h
      obtain ⟨e, mid, he, hgive⟩ := andThen_eq_ok h
      obtain ⟨-, rfl⟩ := Prod.mk.inj (Except.ok.inj hgive)
      exact (expression_leaves he).cons
    | ifWord =>
      rw [statement_if hk] at h
      exact (branching_leaves h).cons
    | whileWord =>
      rw [statement_while hk] at h
      obtain ⟨condition, mid, hcondition, hblock⟩ := andThen_eq_ok h
      obtain ⟨body, mid', hbody, hgive⟩ := andThen_eq_ok hblock
      obtain ⟨-, rfl⟩ := Prod.mk.inj (Except.ok.inj hgive)
      have hlt : mid.length < ts.length := Reading.shorter_of_plain hcondition
      exact ((expression_leaves hcondition).trans (block_leaves hbody)).cons
    | identifier =>
      match ts with
      | [] =>
        rw [statement_name hk (by rintro _ _ ⟨⟩)] at h
        exact expressionStatement_leaves h
      | sign :: ts =>
        cases naming sign.kind with
        | assign hs =>
          rw [statement_assign hk hs] at h
          exact (declaration_leaves h).cons.cons
        | assigning hs =>
          rw [statement_assigning hk hs] at h
          exact (declaration_leaves h).cons.cons
        | value hs =>
          rw [statement_name hk (by rintro _ _ ⟨⟩; exact hs)] at h
          exact expressionStatement_leaves h
    | _ =>
      rw [statement_expression (by rw [hk]; rfl)] at h
      exact expressionStatement_leaves h
termination_by (ts.length, 0)

theorem branching_leaves {room : Nat} {line : Int} {ts rest : List Token} {s : Stmt}
    (h : branching last room line ts = .ok (s, rest)) : Leaves ts rest := by
  rw [branching_eq] at h
  obtain ⟨condition, mid, hcondition, h⟩ := andThen_eq_ok h
  obtain ⟨yes, mid', hyes, h⟩ := andThen_eq_ok h
  have hlt : mid.length < ts.length := Reading.shorter_of_plain hcondition
  have hlt' : mid'.length < mid.length := Reading.shorter_of_plain hyes
  have hblock := (expression_leaves hcondition).trans (block_leaves hyes)
  rcases alternative_leaves h with rfl | h
  · exact hblock
  · exact hblock.trans h
termination_by (ts.length, 0)

theorem alternative_leaves {room : Nat} {condition : Expr} {yes : List Stmt} {line : Int}
    {ts rest : List Token} {s : Stmt}
    (h : alternative last room condition yes line ts = .ok (s, rest)) :
    rest = ts ∨ Leaves ts rest := by
  cases hskip : skipNewlines ts with
  | nil =>
    rw [alternative_none (by rw [hskip]; nofun)] at h
    exact .inl (Prod.mk.inj (Except.ok.inj h)).2.symm
  | cons t left =>
    have hs : t :: left <:+ ts := hskip ▸ skipNewlines_suffix ts
    have hlt : left.length < ts.length := hs.length_le
    by_cases helif : t.kind = .elifWord
    · rw [alternative_elif hskip helif] at h
      obtain ⟨no, mid, hno, hgive⟩ := andThen_eq_ok h
      obtain ⟨-, rfl⟩ := Prod.mk.inj (Except.ok.inj hgive)
      obtain ⟨inside, -, hno⟩ := within_eq_ok hno
      exact .inr ((branching_leaves hno).cons.of_suffix hs)
    · by_cases helse : t.kind = .elseWord
      · rw [alternative_else hskip helse] at h
        obtain ⟨no, mid, hno, hgive⟩ := andThen_eq_ok h
        obtain ⟨-, rfl⟩ := Prod.mk.inj (Except.ok.inj hgive)
        exact .inr ((block_leaves hno).cons.of_suffix hs)
      · rw [alternative_none (by rw [hskip]; rintro _ _ ⟨⟩; exact ⟨helif, helse⟩)] at h
        exact .inl (Prod.mk.inj (Except.ok.inj h)).2.symm
termination_by (ts.length, 0)

theorem block_leaves {room : Nat} {ts rest : List Token} {ss : List Stmt}
    (h : block last room ts = .ok (ss, rest)) : Leaves ts rest := by
  rw [block_eq] at h
  obtain ⟨opener, mid, hopen, hinner⟩ := andThen_eq_ok h
  obtain ⟨-, rfl⟩ := token_eq_ok hopen
  obtain ⟨inside, -, hbody⟩ := within_eq_ok hinner
  have hlt : (skipNewlines mid).length < (opener :: mid).length :=
    Nat.lt_succ_of_le (skipNewlines_length_le mid)
  exact ((body_leaves hbody).of_suffix (skipNewlines_suffix mid)).cons
termination_by (ts.length, 0)

theorem body_leaves {room : Nat} {ts rest : List Token} {ss : List Stmt}
    (h : body last room ts = .ok (ss, rest)) : Leaves ts rest := by
  match ts with
  | [] =>
    rw [body_nil] at h
    cases h
  | t :: ts =>
    by_cases hclose : t.kind = .rightBrace
    · rw [body_close hclose] at h
      obtain ⟨-, rfl⟩ := Prod.mk.inj (Except.ok.inj h)
      exact ⟨[], t, rfl, by rw [hclose]; decide⟩
    · by_cases hend : t.kind = .endOfInput
      · rw [body_end hend] at h
        cases h
      · rw [body_statement hclose hend] at h
        obtain ⟨s, mid, hline, hrest⟩ := andThen_eq_ok h
        obtain ⟨ss', mid', hbody, hgive⟩ := andThen_eq_ok hrest
        obtain ⟨-, rfl⟩ := Prod.mk.inj (Except.ok.inj hgive)
        have hlt : mid.length < (t :: ts).length := statementLine_shorter hline
        obtain ⟨rest, hs, -, rfl⟩ := statementLine_eq_ok hline
        exact (body_leaves hbody).of_suffix
          ((skipNewlines_suffix rest).trans (statement_leaves hs).suffix)
termination_by (ts.length, 1)
end

end Plain

end Reader

end Parlance
