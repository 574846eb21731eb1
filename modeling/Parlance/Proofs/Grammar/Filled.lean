import Parlance.Proofs.Expr.WellFormed
import Parlance.Proofs.Grammar.Script
import Parlance.Proofs.Reader.Joined
import Parlance.Proofs.Run.Failing
import Parlance.Proofs.Run.Moments

/-!
# What is read is filled in

No derivation of the grammar gives a blank statement, at any depth, and from proper tokens the
expressions in all statements are well formed. So it is with the statements of every text that can be
read (`parseProgram_formed`).
-/

namespace Parlance

namespace Stmt

/-- The expression of a statement, not counting those in its blocks. -/
def expr? : Stmt → Option Expr
  | .expr e _ | .print e _ | .declare _ e _ _ | .branch e _ _ _ | .loop e _ _ => some e
  | .blank => none

/-- The statement has an expression, and that is well formed. -/
def Formed (s : Stmt) : Prop := ∃ e, s.expr? = some e ∧ e.WellFormed

mutual
theorem filled_of_parts : (s : Stmt) → (∀ s' ∈ s.parts, s'.Formed) → s.filled = true
  | .expr .., _ | .print .., _ | .declare .., _ => by rw [filled] <;> simp
  | .branch condition yes no line, h => by
    rw [filled, allFilled_of_allParts yes fun s hs => h s (by simp [parts, hs]),
      allFilled_of_allParts no fun s hs => h s (by simp [parts, hs])]
    rfl
  | .loop condition body line, h => by
    rw [filled, allFilled_of_allParts body fun s hs => h s (by simp [parts, hs])]
  | .blank, h => by
    obtain ⟨e, he, -⟩ := h .blank (mem_parts_self _)
    cases he
theorem allFilled_of_allParts : (ss : List Stmt) → (∀ s ∈ allParts ss, s.Formed) → allFilled ss = true
  | [], _ => rfl
  | s :: ss, h => by
    rw [allFilled, filled_of_parts s fun s' hs' => h s' (by simp [allParts, hs']),
      allFilled_of_allParts ss fun s' hs' => h s' (by simp [allParts, hs'])]
    rfl
end

end Stmt

namespace Grammar

open Stmt

mutual
theorem DerivesStmt.formed {ts : List Token} {s : Stmt} :
    DerivesStmt ts s → (∀ t ∈ ts, t.Proper) → ∀ s' ∈ s.parts, s'.Formed
  | .introduce _ _ _ h, hts => by
    simpa [parts, Formed, expr?] using h.wellFormed fun t hmem => hts t (by simp [hmem])
  | .assign _ _ h, hts => by
    simpa [parts, Formed, expr?] using h.wellFormed fun t hmem => hts t (by simp [hmem])
  | .add hx _ h, hts => by
    have hname : Expr.WellFormed (.name _) := .name ((hts _ (by simp)).name hx)
    have he := h.wellFormed fun t hmem => hts t (by simp [hmem])
    simpa [parts, Formed, expr?] using .between rfl hname he
  | .subtract hx _ h, hts => by
    have hname : Expr.WellFormed (.name _) := .name ((hts _ (by simp)).name hx)
    have he := h.wellFormed fun t hmem => hts t (by simp [hmem])
    simpa [parts, Formed, expr?] using .between rfl hname he
  | .print _ h, hts => by
    simpa [parts, Formed, expr?] using h.wellFormed fun t hmem => hts t (by simp [hmem])
  | .loop _ hc hb, hts => by
    have hcondition := hc.wellFormed fun t hmem => hts t (by simp [hmem])
    have hbody := hb.formed fun t hmem => hts t (by simp [hmem])
    rw [parts, List.forall_mem_cons]
    exact ⟨⟨_, rfl, hcondition⟩, hbody⟩
  | .branch _ h, hts => h.formed fun t hmem => hts t (by simp [hmem])
  | .expr h, hts => by
    simpa [parts, Formed, expr?] using h.wellFormed hts

theorem DerivesBranch.formed {line : Int} {ts : List Token} {s : Stmt} :
    DerivesBranch line ts s → (∀ t ∈ ts, t.Proper) → ∀ s' ∈ s.parts, s'.Formed
  | .alone hc hy, hts => by
    have hcondition := hc.wellFormed fun t hmem => hts t (by simp [hmem])
    have hyes := hy.formed fun t hmem => hts t (by simp [hmem])
    rw [parts, List.forall_mem_cons, List.forall_mem_append]
    exact ⟨⟨_, rfl, hcondition⟩, hyes, by simp [allParts]⟩
  | .elif hc hy _ _ h, hts => by
    have hcondition := hc.wellFormed fun t hmem => hts t (by simp [hmem])
    have hyes := hy.formed fun t hmem => hts t (by simp [hmem])
    have hno := h.formed fun t hmem => hts t (by simp [hmem])
    rw [parts, List.forall_mem_cons, List.forall_mem_append]
    exact ⟨⟨_, rfl, hcondition⟩, hyes, by simpa [allParts] using hno⟩
  | .otherwise hc hy _ _ hn, hts => by
    have hcondition := hc.wellFormed fun t hmem => hts t (by simp [hmem])
    have hyes := hy.formed fun t hmem => hts t (by simp [hmem])
    have hno := hn.formed fun t hmem => hts t (by simp [hmem])
    rw [parts, List.forall_mem_cons, List.forall_mem_append]
    exact ⟨⟨_, rfl, hcondition⟩, hyes, hno⟩

theorem DerivesBlock.formed {ts : List Token} {ss : List Stmt} :
    DerivesBlock ts ss → (∀ t ∈ ts, t.Proper) → ∀ s ∈ allParts ss, s.Formed
  | .braces _ h _, hts => h.formed fun t hmem => hts t (by simp [hmem])

theorem DerivesBody.formed {ts : List Token} {ss : List Stmt} :
    DerivesBody ts ss → (∀ t ∈ ts, t.Proper) → ∀ s ∈ allParts ss, s.Formed
  | .none _, _ => by simp [allParts]
  | .some _ h _, hts => h.formed fun t hmem => hts t (by simp [hmem])

theorem DerivesSeq.formed {ts : List Token} {ss : List Stmt} :
    DerivesSeq ts ss → (∀ t ∈ ts, t.Proper) → ∀ s ∈ allParts ss, s.Formed
  | .last h, hts => by
    simpa [allParts] using h.formed hts
  | .more h _ _ hs, hts => by
    rw [allParts, List.forall_mem_append]
    exact ⟨h.formed fun t hmem => hts t (by simp [hmem]), hs.formed fun t hmem => hts t (by simp [hmem])⟩
end

end Grammar

theorem parseProgram_formed {source : String} {program : List Stmt}
    (h : parseProgram source = .ok program) : ∀ s ∈ Stmt.allParts program, s.Formed := by
  obtain ⟨ts, hscan, hread⟩ := parseProgram_eq_ok h
  obtain ⟨text, tail, rfl, hbody, -⟩ := Grammar.script_of_readProgram (endsOnce_of_scan hscan) hread
  exact hbody.formed fun t ht => proper_of_scan hscan t (List.mem_append_left _ ht)

theorem parseProgram_filled {source : String} {program : List Stmt}
    (h : parseProgram source = .ok program) : Stmt.allFilled program = true :=
  Stmt.allFilled_of_allParts program (parseProgram_formed h)

end Parlance
