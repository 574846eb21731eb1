import Parlance.Proofs.Expr.WellFormed
import Parlance.Proofs.Grammar.Script
import Parlance.Proofs.Reader.Joined
import Parlance.Proofs.Run.Moments

/-!
# Where statements are written

Every statement of a program that was read, however deep in blocks, has its tokens in the text
(`parseProgram_written`), and is on the line of the first of them. For a conditional that is the word `if`
or `elif`, for a loop the word `while`. Lines count from one, so no such statement is without a line.
-/

namespace Parlance

namespace Grammar

open Stmt

/-- A statement is written among the tokens `ts`, from the token `t` on: as a statement, or as what comes
after the word `elif`. -/
def Written (ts : List Token) (t : Token) (s : Stmt) : Prop :=
  ∃ used, t :: used <:+: ts ∧
    (DerivesStmt (t :: used) s ∨ t.kind = .elifWord ∧ DerivesBranch t.line used s)

variable {ts us : List Token} {t : Token} {s : Stmt}

theorem Written.mono (h : Written ts t s) (hpart : ts <:+: us) : Written us t s := by
  obtain ⟨used, hused, hderives⟩ := h
  exact ⟨used, hused.trans hpart, hderives⟩

theorem Written.mem (h : Written ts t s) : t ∈ ts := by
  obtain ⟨used, hused, -⟩ := h
  exact hused.subset (List.mem_cons_self ..)

theorem DerivesBranch.eq_branch {line : Int} (h : DerivesBranch line ts s) :
    ∃ condition yes no, s = .branch condition yes no line := by
  cases h <;> exact ⟨_, _, _, rfl⟩

/-- A statement is on the line of its first token. -/
theorem Written.line_eq (h : Written ts t s) : s.line = t.line := by
  obtain ⟨used, -, h | ⟨-, h⟩⟩ := h
  · cases h with
    | branch _ h =>
      obtain ⟨condition, yes, no, rfl⟩ := h.eq_branch
      rfl
    | _ => rfl
  · obtain ⟨condition, yes, no, rfl⟩ := h.eq_branch
    rfl

theorem Written.kind_of_branch {condition : Expr} {yes no : List Stmt} {line : Int}
    (h : Written ts t (.branch condition yes no line)) : t.kind = .ifWord ∨ t.kind = .elifWord := by
  obtain ⟨used, -, h | ⟨hword, -⟩⟩ := h
  · cases h with
    | branch ht _ => exact .inl ht
  · exact .inr hword

theorem Written.kind_of_loop {condition : Expr} {body : List Stmt} {line : Int}
    (h : Written ts t (.loop condition body line)) : t.kind = .whileWord := by
  obtain ⟨used, -, h | ⟨-, h⟩⟩ := h
  · cases h with
    | loop ht _ _ => exact ht
    | branch _ h =>
      obtain ⟨_, _, _, hs⟩ := h.eq_branch
      cases hs
  · obtain ⟨_, _, _, hs⟩ := h.eq_branch
    cases hs

theorem DerivesStmt.written (h : DerivesStmt ts s) : ∃ t, Written ts t s := by
  obtain ⟨t, used, rfl, -⟩ := h.starts
  exact ⟨t, used, List.infix_refl _, .inl h⟩

/-- Each of these statements is written among the tokens. -/
def WrittenIn (ts : List Token) (ss : List Stmt) : Prop := ∀ s ∈ ss, ∃ t, Written ts t s

theorem WrittenIn.mono {ss : List Stmt} (h : WrittenIn ts ss) (hpart : ts <:+: us) :
    WrittenIn us ss := by
  intro s hs
  obtain ⟨t, ht⟩ := h s hs
  exact ⟨t, ht.mono hpart⟩

theorem WrittenIn.cons {ss : List Stmt} (h : ∃ t, Written ts t s) (hss : WrittenIn ts ss) :
    WrittenIn ts (s :: ss) :=
  List.forall_mem_cons.2 ⟨h, hss⟩

theorem WrittenIn.append {ss ss' : List Stmt} (h : WrittenIn ts ss) (h' : WrittenIn ts ss') :
    WrittenIn ts (ss ++ ss') :=
  List.forall_mem_append.2 ⟨h, h'⟩

mutual
theorem DerivesStmt.parts_written {ts : List Token} {s : Stmt} :
    DerivesStmt ts s → WrittenIn ts s.parts
  | .introduce ht hx hs h => .cons (DerivesStmt.introduce ht hx hs h).written (by simp [WrittenIn])
  | .assign hx hs h => .cons (DerivesStmt.assign hx hs h).written (by simp [WrittenIn])
  | .add hx hs h => .cons (DerivesStmt.add hx hs h).written (by simp [WrittenIn])
  | .subtract hx hs h => .cons (DerivesStmt.subtract hx hs h).written (by simp [WrittenIn])
  | .print ht h => .cons (DerivesStmt.print ht h).written (by simp [WrittenIn])
  | .expr h => .cons (DerivesStmt.expr h).written (by simp [WrittenIn])
  | .loop ht hc hb =>
    .cons (DerivesStmt.loop ht hc hb).written
      (hb.parts_written.mono (List.IsSuffix.isInfix ⟨_ :: _, rfl⟩))
  | @DerivesStmt.branch t ts _ ht h => by
    have hblocks := h.parts_written.mono (List.suffix_cons t ts).isInfix
    have hself := (DerivesStmt.branch ht h).written
    obtain ⟨condition, yes, no, rfl⟩ := h.eq_branch
    exact .cons hself hblocks

/-- The statements in the blocks of a conditional; the conditional itself starts before its tokens. -/
theorem DerivesBranch.parts_written {line : Int} {ts : List Token} {s : Stmt} :
    DerivesBranch line ts s → WrittenIn ts s.parts.tail
  | @DerivesBranch.alone _ cs _ _ _ _ hy => by
    have hyes := hy.parts_written.mono (List.suffix_append cs _).isInfix
    exact hyes.append (by simp [WrittenIn, allParts])
  | @DerivesBranch.elif _ cs ys ls ts t _ _ _ _ hy _ ht h => by
    have hyes := hy.parts_written.mono (List.infix_append' cs ys (ls ++ t :: ts))
    have hword : t :: ts <:+: cs ++ (ys ++ (ls ++ t :: ts)) :=
      List.IsSuffix.isInfix ⟨cs ++ (ys ++ ls), by simp⟩
    -- the `elif` is a conditional of its own, from its word on
    have hblocks := h.parts_written.mono (List.suffix_cons t ts).isInfix
    have hself : ∃ t', Written (t :: ts) t' _ := ⟨t, ts, List.infix_refl _, .inr ⟨ht, h⟩⟩
    obtain ⟨condition, yes, no, rfl⟩ := h.eq_branch
    have hno := (WrittenIn.cons hself hblocks).mono hword
    refine hyes.append ?_
    rw [allParts, allParts, List.append_nil]
    exact hno
  | @DerivesBranch.otherwise _ cs ys ls ns t _ _ _ _ hy _ _ hn => by
    have hyes := hy.parts_written.mono (List.infix_append' cs ys (ls ++ t :: ns))
    have hblock : ns <:+: cs ++ (ys ++ (ls ++ t :: ns)) :=
      List.IsSuffix.isInfix ⟨cs ++ (ys ++ (ls ++ [t])), by simp⟩
    exact hyes.append (hn.parts_written.mono hblock)

theorem DerivesBlock.parts_written {ts : List Token} {ss : List Stmt} :
    DerivesBlock ts ss → WrittenIn ts (allParts ss)
  | @DerivesBlock.braces opener closer _ _ _ h _ =>
    h.parts_written.mono ⟨[opener], [closer], by simp⟩

theorem DerivesBody.parts_written {ts : List Token} {ss : List Stmt} :
    DerivesBody ts ss → WrittenIn ts (allParts ss)
  | .none _ => by simp [WrittenIn, allParts]
  | @DerivesBody.some ls ts ls' _ _ h _ => h.parts_written.mono (List.infix_append' ls ts ls')

theorem DerivesSeq.parts_written {ts : List Token} {ss : List Stmt} :
    DerivesSeq ts ss → WrittenIn ts (allParts ss)
  | .last h => by
    rw [allParts, allParts, List.append_nil]
    exact h.parts_written
  | @DerivesSeq.more ts ls us _ _ h _ _ hs => by
    have hfirst := h.parts_written.mono (List.prefix_append ts (ls ++ us)).isInfix
    have hrest : us <:+: ts ++ (ls ++ us) := List.IsSuffix.isInfix ⟨ts ++ ls, by simp⟩
    exact hfirst.append (hs.parts_written.mono hrest)
end

end Grammar

/-! ## Programs that were read -/

/-- The scan counts lines upwards. -/
theorem Token.scanFrom_le_line {line : Int} {cs : List Char} {ts : List Token}
    (h : scanFrom line cs = .ok ts) : ∀ t ∈ ts, line ≤ t.line := by
  fun_induction scanFrom line cs generalizing ts with
  | case1 line =>
    cases h
    simp [endOfInput]
  | case2 line c rest hblank ih => exact ih h
  | case3 line c rest hblank hcomment ih => exact ih h
  | case4 line c rest hblank hcomment hm => cases h
  | case5 line c rest hblank hcomment kind count hm lexeme => cases h
  | case6 line c rest hblank hcomment kind count hm lexeme literal hl tokens hscan =>
    rename_i ih
    cases h
    intro t ht
    rcases List.mem_cons.1 ht with rfl | ht
    · exact Int.le_refl _
    · have hle := ih hscan t ht
      omega
  | case7 line c rest hblank hcomment kind count hm lexeme literal hl e hscan => cases h

/-- **Every statement of a program that was read is written in the text**, on a line from one on. -/
theorem parseProgram_written {source : String} {program : List Stmt}
    (h : parseProgram source = .ok program) : ∃ ts, scan source = .ok ts ∧
      ∀ s ∈ Stmt.allParts program, ∃ t, Grammar.Written ts t s ∧ s.line? = some t.line := by
  obtain ⟨ts, hscan, hread⟩ := parseProgram_eq_ok h
  refine ⟨ts, hscan, fun s hs => ?_⟩
  obtain ⟨text, tail, rfl, hbody, -⟩ := Grammar.script_of_readProgram (endsOnce_of_scan hscan) hread
  obtain ⟨t, ht⟩ := hbody.parts_written.mono (List.prefix_append text tail).isInfix s hs
  have hline : 1 ≤ t.line := Token.scanFrom_le_line hscan t ht.mem
  refine ⟨t, ht, ?_⟩
  rw [Stmt.line?, ht.line_eq, if_neg (by omega)]

end Parlance
