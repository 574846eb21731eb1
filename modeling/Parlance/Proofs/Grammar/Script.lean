import Parlance.Proofs.Grammar.Phrase
import Parlance.Proofs.Grammar.StatementComplete
import Parlance.Proofs.Grammar.StatementSound
import Parlance.Proofs.Reader.StatementRefusal

/-!
# Programs are read exactly as the grammar says

A list of tokens in which the end of the input stands last or nowhere is read as a program if and
only if it is a script of the grammar, and then as the statements of the script
(`readProgram_eq_ok_iff_script`). In particular the grammar gives no list two programs.
-/

namespace Parlance.Grammar

open Reader (front lastLine skipNewlines skipNewlines_cons)
open Reader.Plain

/-! ## What is read is a script -/

theorem script_of_readProgram {limit : Nat} {ts : List Token} {ss : List Stmt} (honce : EndsOnce ts)
    (h : readProgram limit ts = .ok ss) : Script ts ss := by
  obtain ⟨used, rest, hskip, hend, htail⟩ := program_sound h
  obtain ⟨ls, hl, hts⟩ := exists_lines ts
  rw [hskip, ← List.append_assoc] at hts
  exact ⟨ls ++ used, rest, hts, htail.body hl, tail_of_endsOnce (hts ▸ honce) hend⟩

/-! ## A script is read -/

section Complete

variable {last : Int} {room : Nat}

theorem program_cons {ts mid : List Token} {s : Stmt} {ss : List Stmt}
    (hfront : (front last ts).kind ≠ .endOfInput)
    (hline : Yields (statementLine last room ts) (.ok (s, mid)))
    (hrest : Yields (Reader.program last room mid) (.ok ss)) :
    Yields (Reader.program last room ts) (.ok (s :: ss)) := by
  rcases hline with hline | ⟨line, hline⟩
  · rw [program_of_ok hfront hline]
    rcases hrest with hrest | ⟨line, hrest⟩
    · exact .inl (by rw [hrest]; rfl)
    · exact .inr ⟨line, by rw [hrest]; rfl⟩
  · exact .inr ⟨line, program_of_error hfront hline⟩

theorem DerivesStmt.front_ne {ts : List Token} {s : Stmt} (h : DerivesStmt ts s)
    (rest : List Token) : (front last (ts ++ rest)).kind ≠ .endOfInput := by
  obtain ⟨t, more, rfl, ht⟩ := h.starts
  exact (ne_of_starts ht).2.1

theorem DerivesSeq.program {used ls tail : List Token} {ss : List Stmt} (hl : Lines ls)
    (htail : (front last tail).kind = .endOfInput) :
    DerivesSeq used ss → Yields (Reader.program last room (used ++ (ls ++ tail))) (.ok ss)
  | .last h =>
    program_cons (h.front_ne _) (statementLine_last (h.complete room) hl (.inl htail))
      (.inl (program_end htail))
  | .more h hl' hne hs => by
    refine program_cons ?_ (statementLine_before (h.complete room) hl' hne hs) (hs.program hl htail)
    rw [List.append_assoc]
    exact h.front_ne _

theorem DerivesBody.program {used tail : List Token} {ss : List Stmt} (h : DerivesBody used ss)
    (htail : (front last tail).kind = .endOfInput) :
    Yields (Reader.program last room (skipNewlines (used ++ tail))) (.ok ss) := by
  cases h with
  | none hl =>
    rw [skipNewlines_lines_append hl, Reader.skipNewlines_of_end htail]
    exact .inl (program_end htail)
  | @some ls ts ls' _ hl h hl' =>
    obtain ⟨t, more, hts, ht⟩ := h.starts
    have hskip : skipNewlines (ls ++ (ts ++ ls') ++ tail) = ts ++ (ls' ++ tail) := by
      rw [List.append_assoc, skipNewlines_lines_append hl, hts, List.append_assoc, List.cons_append,
        skipNewlines_cons (ne_of_starts ht).1]
    rw [hskip]
    exact h.program hl' htail

end Complete

theorem readProgram_of_script {ts : List Token} {ss : List Stmt} (h : Script ts ss) (limit : Nat) :
    Yields (readProgram limit ts) (.ok ss) := by
  obtain ⟨text, tail, rfl, hbody, htail⟩ := h
  refine hbody.program ?_
  rcases htail with rfl | ⟨t, rfl, ht⟩
  · rfl
  · exact ht

theorem readProgram_fault {limit : Nat} {ts : List Token} {e : Error}
    (h : readProgram limit ts = .error e) : Reader.Fault limit ts.length e :=
  (program_fault h).mono (Reader.skipNewlines_length_le ts)

/-- **Reading programs is exact**: with the end of the input last or nowhere, and unless the limit
for nesting is reached (which takes more tokens than the limit), the reader returns statements if
and only if the tokens are a script with those statements, and otherwise fails with an error of
reading. -/
theorem readProgram_eq_ok_iff_script (limit : Nat) (ts : List Token) (honce : EndsOnce ts) :
    (ts.length ≤ limit → ¬ StopsAtLimit (readProgram limit ts)) ∧
      (¬ StopsAtLimit (readProgram limit ts) →
        (∀ ss, readProgram limit ts = .ok ss ↔ Script ts ss) ∧
        ((∀ ss, ¬ Script ts ss) →
          ∃ err, readProgram limit ts = .error err ∧ err.cause.kind = .parse)) := by
  refine ⟨?_, fun hlimit => ⟨fun ss => ⟨script_of_readProgram honce, fun h => ?_⟩, fun hno => ?_⟩⟩
  · rintro hle ⟨line, h⟩
    rcases readProgram_fault h with ⟨wanted, found, hc⟩ | ⟨-, hlt⟩
    · nomatch hc
    · omega
  · exact (readProgram_of_script h limit).resolve_right hlimit
  · cases h : readProgram limit ts with
    | ok ss => exact absurd (script_of_readProgram honce h) (hno ss)
    | error err => exact ⟨err, rfl, (readProgram_fault h).kind⟩

/-- The tokens of `if a { }`, of `elif b { x += c }` two lines below and of `print x`, and the
statements that the grammar gives them. -/
theorem readProgram_elif_below :
    let word (x : String) (line : Int) : Token := ⟨.identifier, x, .nothing, line⟩
    let sign (kind : Kind) (line : Int) : Token := ⟨kind, "", .nothing, line⟩
    let ts := [sign .newline 1,
      sign .ifWord 2, word "a" 2, sign .leftBrace 2, sign .rightBrace 2, sign .newline 2, sign .newline 3,
      sign .elifWord 4, word "b" 4, sign .leftBrace 4, sign .newline 4,
      word "x" 5, sign .plusAssign 5, word "c" 5, sign .rightBrace 5, sign .newline 5,
      sign .printWord 6, word "x" 6, .endOfInput 6]
    EndsOnce ts ∧ readProgram nestingLimit ts =
      .ok [.branch (.name "a") []
          [.branch (.name "b") [.declare "x" (.apply .plus [.name "x", .name "c"]) false 5] [] 4] 2,
        .print (.name "x") 6] := by
  intro word sign ts
  have honce : EndsOnce ts := by unfold EndsOnce; decide
  refine ⟨honce, ?_⟩
  obtain ⟨hroom, hexact⟩ := readProgram_eq_ok_iff_script nestingLimit ts honce
  refine ((hexact (hroom (by decide))).1 _).2 ⟨ts.dropLast, [.endOfInput 6], rfl, ?_, .inr ⟨_, rfl, rfl⟩⟩
  have hname (x : String) (line : Int) : Derives .or [word x line] (.name x) :=
    Derives.loosen (.name rfl : Derives .prim _ _) (by decide)
  have hnil : Lines [] := by simp [Lines]
  have hline (line : Int) : Lines [sign .newline line] := by simp [Lines, sign]
  have hlines : Lines [sign .newline 2, sign .newline 3] := by simp [Lines, sign]
  have hempty : DerivesBlock [sign .leftBrace 2, sign .rightBrace 2] [] :=
    @DerivesBlock.braces (sign .leftBrace 2) (sign .rightBrace 2) _ _ rfl (.none hnil) rfl
  have hadd : DerivesBlock
      [sign .leftBrace 4, sign .newline 4, word "x" 5, sign .plusAssign 5, word "c" 5, sign .rightBrace 5]
      [.declare "x" (.apply .plus [.name "x", .name "c"]) false 5] :=
    @DerivesBlock.braces (sign .leftBrace 4) (sign .rightBrace 5) _ _ rfl
      (.some (hline 4) (.last (@DerivesStmt.add (word "x" 5) (sign .plusAssign 5) _ _ rfl rfl
        (hname "c" 5))) hnil) rfl
  have hif := @DerivesStmt.branch (sign .ifWord 2) _ _ rfl
    (@DerivesBranch.elif 2 _ _ _ _ (sign .elifWord 4) _ _ _ (hname "a" 2) hempty hlines rfl
      (.alone (hname "b" 4) hadd))
  have hprint : DerivesStmt [sign .printWord 6, word "x" 6] (.print (.name "x") 6) :=
    .print rfl (hname "x" 6)
  exact .some (hline 1) (.more hif (hline 5) (by simp) (.last hprint)) hnil

end Parlance.Grammar
