import Parlance.Proofs.Prompt.Step
import Parlance.Proofs.Reader.Joined
import Parlance.Proofs.Reader.LineEnd
import Parlance.Proofs.Token.LineEnd

/-!
# Lines that stop too early

The prompt reads a line together with its line end, and waits for the next line only if that ends
too early. A line that by itself ends too early need not: behind an operator, an open parenthesis or
a condition the reader meets the line end, which it refuses, and not the end. The prompt goes on
with such a line if and only if the line stops between the statements of a block
(`Session.run_unfinished`).
-/

namespace Parlance

/-- A scan that stops asks for no more input. -/
theorem Token.scanFrom_not_incomplete {line : Int} {cs : List Char} {e : Error}
    (h : scanFrom line cs = .error e) : e.cause.incomplete = false := by
  fun_induction scanFrom line cs with
  | case1 line => cases h
  | case2 line c rest hblank ih => exact ih h
  | case3 line c rest hblank hcomment ih => exact ih h
  | case4 line c rest hblank hcomment hm =>
    cases h
    unfold strayCharacter
    split <;> rfl
  | case5 line c rest hblank hcomment kind count hm lexeme =>
    cases h
    rfl
  | case6 line c rest hblank hcomment kind count hm lexeme literal hl tokens hscan => cases h
  | case7 line c rest hblank hcomment kind count hm lexeme literal hl e hscan ih =>
    cases h
    exact ih hscan

namespace Reader

/-- The error of an input that ends with a line end, where without the line end something was wanted
at its end, on this line. -/
def lineEndError (last : Int) (wanted : Wanted) : Error :=
  if wanted = .closedBlock then meeting .closedBlock (.endOfInput (last + 1))
  else meeting wanted (.lineEnd last)

theorem incomplete_lineEndError {last : Int} {wanted : Wanted} :
    (lineEndError last wanted).cause.incomplete = true ↔ wanted = .closedBlock := by
  unfold lineEndError
  split
  · exact ⟨fun _ => ‹_›, fun _ => rfl⟩
  · exact ⟨fun h => (nomatch h), fun h => absurd h ‹_›⟩

end Reader

open Reader Reader.Plain

/-- **An input that ends too early, and the same input with a line end.** -/
theorem readProgram_lineEnd {limit : Nat} {ts : List Token} {last : Int} {e : Error}
    (hno : ∀ t ∈ ts, t.kind ≠ .endOfInput) (he : e.cause.incomplete = true)
    (h : readProgram limit (ts ++ [Token.endOfInput last]) = .error e) :
    ∃ wanted, e = meeting wanted (.endOfInput last) ∧
      readProgram limit (ts ++ [Token.lineEnd last, .endOfInput (last + 1)]) =
        .error (lineEndError last wanted) := by
  let b : Splice :=
    ⟨id, last, last + 1, [.endOfInput last], [Token.lineEnd last, .endOfInput (last + 1)], rfl⟩
  have hb : b.Breaks := ⟨rfl, rfl⟩
  have hnew : b.new ts = ts ++ [Token.lineEnd last, .endOfInput (last + 1)] := by
    unfold Splice.new
    rw [show b.move = id from rfl, Token.map_moved_id]
  have hlast : lastLine (b.new ts) = b.last' := by
    rw [hnew, show ts ++ [Token.lineEnd last, .endOfInput (last + 1)] =
      ts ++ [Token.lineEnd last] ++ [Token.endOfInput (last + 1)] by simp, lastLine_append]
  have hskipNo : ∀ t ∈ skipNewlines ts, t.kind ≠ .endOfInput := fun t ht =>
    hno t ((skipNewlines_suffix ts).subset ht)
  unfold readProgram at h
  rw [lastLine_append] at h
  change program b.last limit (skipNewlines (b.old ts)) = .error e at h
  rw [Splice.skipNewlines_old] at h
  have hne : skipNewlines ts ≠ [] := by
    intro hnil
    rw [hnil, program_end (show (front b.last (b.old [])).kind = _ from b.ends)] at h
    cases h
  rcases program_error (Nat.le_refl limit) hskipNo h with
    ⟨wanted, t, ht, rfl, -⟩ | ⟨wanted, rfl, -⟩ | ⟨line, rfl⟩
  · exact absurd he (not_incomplete_of_mem hskipNo ht)
  · refine ⟨wanted, rfl, ?_⟩
    have hstalls := program_stalls hb hskipNo h
    rw [← hnew]
    unfold readProgram
    rw [hlast, Splice.skipNewlines_new hne, hstalls]
    rfl
  · cases he

/-- A text that ends too early scans. -/
theorem scan_of_incomplete {text : String} {e : Error} (h : parseProgram text = .error e)
    (he : e.cause.incomplete = true) : ∃ us, scan text = .ok us := by
  unfold parseProgram at h
  cases hscan : scan text with
  | ok us => exact ⟨us, rfl⟩
  | error e' =>
    rw [hscan] at h
    obtain rfl := Except.error.inj h
    rw [Token.scanFrom_not_incomplete hscan] at he
    cases he

theorem parseProgram_lineEnd {text : String} {e : Error} (h : parseProgram text = .error e)
    (he : e.cause.incomplete = true) :
    ∃ wanted last, e = meeting wanted (.endOfInput last) ∧
      parseProgram (text ++ "\n") = .error (lineEndError last wanted) := by
  obtain ⟨us, hscan⟩ := scan_of_incomplete h he
  obtain ⟨ts, last, rfl, hno, hline⟩ := scan_line hscan
  unfold parseProgram at h ⊢
  rw [hscan] at h
  obtain ⟨wanted, hmet, hread⟩ := readProgram_lineEnd hno he h
  refine ⟨wanted, last, hmet, ?_⟩
  rw [hline]
  exact hread

namespace Session

theorem take_of_error {σ : Setting} {fuel : Nat} {line : String} {s : Session} {e : Error}
    (hexit : s.buffer = "" → isExit line = false)
    (h : parseProgram (s.put line).buffer = .error e) :
    take σ fuel line s =
      some (.goesOn (if e.cause.incomplete then s.put line else s.clear.tell (.reported e))) := by
  have hgoes : ¬ (s.buffer.isEmpty && isExit line) = true := by
    rw [Bool.and_eq_true, String.isEmpty_iff]
    rintro ⟨hempty, hline⟩
    rw [hexit hempty] at hline
    cases hline
  have hparse : parseProgram (s.buffer ++ line ++ "\n") = .error e := h
  unfold take
  rw [if_neg hgoes]
  dsimp only
  rw [hparse]
  dsimp only
  split <;> rfl

/-- **What becomes of a line that stops too early.** The text was read to its end, where something
was wanted. With the line end behind it it ends too early again if and only if what was wanted is a
statement of a block or the brace after the last, and then the prompt puts the line into its buffer
and asks for the next. Otherwise the line end is refused, and the prompt reports that and drops the
text. -/
theorem run_unfinished {text : String} {e : Error} (h : parseProgram text = .error e)
    (he : e.cause.incomplete = true) :
    ∃ wanted last, e = meeting wanted (.endOfInput last) ∧
      parseProgram (text ++ "\n") = .error (lineEndError last wanted) ∧
      ((lineEndError last wanted).cause.incomplete = true ↔ wanted = .closedBlock) ∧
      ∀ σ fuel line rest (s : Session), s.held = none → s.buffer ++ line = text →
        (s.buffer = "" → isExit line = false) →
        run σ fuel (line :: rest) s =
          run σ fuel rest (if wanted = .closedBlock then s.ask.put line
            else s.ask.clear.tell (.reported (lineEndError last wanted))) := by
  obtain ⟨wanted, last, hmet, hparse⟩ := parseProgram_lineEnd h he
  refine ⟨wanted, last, hmet, hparse, incomplete_lineEndError, ?_⟩
  rintro σ fuel line rest s hheld rfl hexit
  have htake : take σ fuel line s.ask = _ := take_of_error hexit hparse
  simp only [incomplete_lineEndError] at htake
  have hstep : step σ fuel line s.ask = take σ fuel line s.ask := by
    unfold step
    rw [show s.ask.held = none from hheld]
  rw [run, hstep, htake]

/-- A loop whose block is open stays in the buffer, and the next line is asked for. -/
theorem run_unfinished_open_block :
    let line := "while x \x7b"
    parseProgram line = .error (meeting .closedBlock (.endOfInput 1)) ∧
      ∀ σ fuel rest, run σ fuel (line :: rest) .start = run σ fuel rest (start.ask.put line) := by
  intro line
  have hparse : parseProgram line = .error (meeting .closedBlock (.endOfInput 1)) := by cbv
  have hexit : isExit line = false := by cbv
  refine ⟨hparse, fun σ fuel rest => ?_⟩
  obtain ⟨wanted, last, hmet, -, -, hrun⟩ := run_unfinished hparse rfl
  have hwanted : Wanted.closedBlock = wanted := (Cause.unexpectedToken.inj (Error.mk.inj hmet).1).1
  rw [hrun σ fuel line rest .start rfl rfl fun _ => hexit, if_pos hwanted.symm]

/-- A line that ends in an operator stops too early. With its line end it does not, and the prompt
reports the line end. -/
theorem run_drops_dangling_operator :
    let line := "x +"
    '\n' ∉ line.toList ∧
      parseProgram line = .error (meeting .expression (.endOfInput 1)) ∧
      (meeting .expression (.endOfInput 1)).cause.incomplete = true ∧
      parseProgram (line ++ "\n") = .error (meeting .expression (.lineEnd 1)) ∧
      (meeting .expression (.lineEnd 1)).cause.incomplete = false ∧
      ∀ σ fuel rest, run σ fuel (line :: rest) .start =
        run σ fuel rest (start.ask.tell (.reported (meeting .expression (.lineEnd 1)))) := by
  intro line
  have hparse : parseProgram (line ++ "\n") = .error (meeting .expression (.lineEnd 1)) := by cbv
  have hexit : isExit line = false := by cbv
  refine ⟨by decide, by cbv, rfl, hparse, rfl, fun σ fuel rest => ?_⟩
  have htake : take σ fuel line start.ask = _ := take_of_error (fun _ => hexit) hparse
  rw [run, show step σ fuel line start.ask = take σ fuel line start.ask from rfl, htake]
  rfl

end Session

end Parlance
