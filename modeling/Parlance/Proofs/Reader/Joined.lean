import Parlance.Proofs.Reader.Continuation
import Parlance.Proofs.Token.Lexemes
import Parlance.Proofs.Token.LineEnd
import Parlance.Proofs.Token.Lines

/-!
# Programs of joined texts

Whole lines that hold a program, and a text after them that holds one by itself, together hold the
statements of both. Only the lines of the second are counted on. So do any two texts that hold programs, with
a line end put between them (`parseProgram_join`).

The second cannot go on with the last statement of the first: a line end stands between, and no
program starts with `else` or `elif`.
-/

namespace Parlance

/-! ## Lines counted from another start -/

theorem Token.scanFrom_moved {line : Int} {cs : List Char} {ts : List Token}
    (h : scanFrom line cs = .ok ts) (k : Int) :
    scanFrom (line + k) cs = .ok (ts.map (.moved (· + k))) := by
  fun_induction scanFrom line cs generalizing ts with
  | case1 line =>
    cases h
    exact scanFrom_nil (line + k)
  | case2 line c rest hblank ih =>
    rw [scanFrom_blank hblank]
    exact ih h
  | case3 line c rest hblank hcomment ih =>
    obtain rfl : c = '#' := beq_iff_eq.1 hcomment
    rw [scanFrom_comment]
    exact ih h
  | case4 line c rest hblank hcomment hm => cases h
  | case5 line c rest hblank hcomment kind count hm lexeme => cases h
  | case6 line c rest hblank hcomment kind count hm lexeme literal hl tokens hscan =>
    rename_i ih
    cases h
    have hnext : line + k + Text.lineEnds lexeme = line + Text.lineEnds lexeme + k := by omega
    rw [scanFrom_token hm hl, hnext, ih hscan]
    rfl
  | case7 line c rest hblank hcomment kind count hm lexeme literal hl e hscan => cases h

namespace Reader

open Plain

theorem program_refused {last : Int} {room : Nat} {t : Token} (rest : List Token)
    (hend : t.kind ≠ .endOfInput) (hannounces : announces t.kind = false)
    (hopens : opens t.kind = false) :
    program last room (t :: rest) = .error (refusal last .expression (t :: rest)) := by
  refine program_of_error hend (andThen_of_error ?_)
  rw [statement_expression hannounces]
  refine andThen_of_error ?_
  rw [expression_eq]
  exact andThen_of_error (operand_refused hopens)

/-- No program starts with a word that goes on with a conditional. -/
theorem unbranched_of_program {last : Int} {room : Nat} {ts : List Token} {ss : List Stmt}
    (h : program last room (skipNewlines ts) = .ok ss) : Unbranched ts := by
  intro t rest hts
  rw [hts] at h
  constructor <;> intro hk
  all_goals
    rw [program_refused rest (by rw [hk]; decide) (by rw [hk]; rfl) (by rw [hk]; rfl)] at h
    cases h

/-! ## Joined inputs -/

theorem lastLine_append (ts : List Token) (last : Int) :
    lastLine (ts ++ [Token.endOfInput last]) = last := by
  unfold lastLine
  rw [List.getLast?_concat]
  rfl

/-- The program of an input that ends, with every line moved. -/
theorem program_moved {limit : Nat} {ts : List Token} {last : Int} {ss : List Stmt}
    (move : Int → Int) (h : readProgram limit (ts ++ [Token.endOfInput last]) = .ok ss) :
    program (move last) limit (skipNewlines (ts.map (Token.moved move) ++ [Token.endOfInput (move last)])) =
      .ok (ss.map (.moved move)) := by
  let b : Splice := ⟨move, last, move last, [Token.endOfInput last], [Token.endOfInput (move last)], rfl⟩
  have hends : b.Ends := rfl
  unfold readProgram at h
  rw [lastLine_append] at h
  have hagain : program b.last' limit (b.new (skipNewlines ts)) = .ok (ss.map (.moved b.move)) :=
    program_again (Nat.le_refl limit) hends (by rw [← Splice.skipNewlines_old]; exact h)
  rwa [← Splice.skipNewlines_new_of_ends hends] at hagain

end Reader

open Reader Reader.Plain

/-- An input that holds a program, and more behind it that starts where a statement may end. -/
theorem readProgram_join {limit : Nat} {ts more : List Token} {last last' : Int} {ss ss' : List Stmt}
    (hno : ∀ t ∈ ts, t.kind ≠ .endOfInput)
    (hseam : ts ≠ [] → ProgramSeam ⟨id, last, last', [Token.endOfInput last], more, rfl⟩ ts)
    (hlast : lastLine (ts ++ more) = last')
    (h : readProgram limit (ts ++ [Token.endOfInput last]) = .ok ss)
    (hmore : program last' limit (skipNewlines more) = .ok ss') :
    readProgram limit (ts ++ more) = .ok (ss ++ ss') := by
  let b : Splice := ⟨id, last, last', [Token.endOfInput last], more, rfl⟩
  have hnew (ts : List Token) : b.new ts = ts ++ more := by
    unfold Splice.new
    rw [show b.move = id from rfl, Token.map_moved_id]
  unfold readProgram at h ⊢
  rw [lastLine_append] at h
  rw [hlast]
  change program b.last limit (skipNewlines (b.old ts)) = .ok ss at h
  rw [Splice.skipNewlines_old] at h
  show program b.last' limit (skipNewlines (ts ++ more)) = _
  by_cases hskip : skipNewlines ts = []
  · rw [hskip, program_end (show (front b.last (b.old [])).kind = _ from rfl)] at h
    cases h
    rw [skipNewlines_append_of_nil hskip]
    exact hmore
  · have hsuffix := skipNewlines_suffix ts
    have hleft : ProgramSeam b (skipNewlines ts) :=
      ProgramSeam.of_suffix (hseam fun hnil => hskip (by rw [hnil]; rfl)) hsuffix hskip
    have hboth := program_continues (b := b) (Nat.le_refl limit) (unbranched_of_program hmore)
      (fun t ht => hno t (hsuffix.subset ht)) hskip hleft h
    rw [← hnew, Splice.skipNewlines_new hskip, hboth, show b.move = id from rfl, Stmt.map_moved_id,
      show program b.last' limit (skipNewlines b.more) = _ from hmore]
    rfl

/-- **Inputs after one another**, the first of whole lines, hold the statements of both. -/
theorem readProgram_append {limit : Nat} {ts us : List Token} {last last' : Int}
    {ss ss' : List Stmt} (move : Int → Int) (hno : ∀ t ∈ ts, t.kind ≠ .endOfInput)
    (hline : ts ≠ [] → ∃ before t, ts = before ++ [t] ∧ t.kind = .newline)
    (h : readProgram limit (ts ++ [Token.endOfInput last]) = .ok ss)
    (h' : readProgram limit (us ++ [Token.endOfInput last']) = .ok ss') :
    readProgram limit (ts ++ (us.map (Token.moved move) ++ [Token.endOfInput (move last')])) =
      .ok (ss ++ ss'.map (.moved move)) := by
  refine readProgram_join hno (fun hne => .inl (hline hne)) ?_ h (program_moved move h')
  rw [← List.append_assoc, lastLine_append]

/-- **Inputs with a line end between them** hold the statements of both. -/
theorem readProgram_append_line {limit : Nat} {ts us : List Token} {last last' : Int}
    {ss ss' : List Stmt} (move : Int → Int) (hno : ∀ t ∈ ts, t.kind ≠ .endOfInput)
    (h : readProgram limit (ts ++ [Token.endOfInput last]) = .ok ss)
    (h' : readProgram limit (us ++ [Token.endOfInput last']) = .ok ss') :
    readProgram limit
        (ts ++ Token.lineEnd last :: (us.map (Token.moved move) ++ [Token.endOfInput (move last')])) =
      .ok (ss ++ ss'.map (.moved move)) := by
  have hmore : program (move last') limit (skipNewlines (Token.lineEnd last ::
      (us.map (Token.moved move) ++ [Token.endOfInput (move last')]))) = .ok (ss'.map (.moved move)) :=
    program_moved move h'
  refine readProgram_join hno (fun _ => .inr ⟨?_, rfl⟩) ?_ h hmore
  · -- a line end goes on with no expression
    rintro _ _ ⟨⟩
    rfl
  · rw [← List.cons_append, ← List.append_assoc, lastLine_append]

theorem parseProgram_eq_ok {text : String} {ss : List Stmt} (h : parseProgram text = .ok ss) :
    ∃ ts, scan text = .ok ts ∧ readProgram nestingLimit ts = .ok ss := by
  unfold parseProgram at h
  cases hscan : scan text with
  | error e =>
    rw [hscan] at h
    cases h
  | ok ts =>
    rw [hscan] at h
    exact ⟨ts, rfl, h⟩

/-- **Texts after one another**, the first of whole lines, hold the statements of both. -/
theorem parseProgram_append {text text' : String} {ss ss' : List Stmt}
    (hlines : text.toList = [] ∨ Token.EndsLine text.toList) (h : parseProgram text = .ok ss)
    (h' : parseProgram text' = .ok ss') :
    ∃ k : Int, parseProgram (text ++ text') = .ok (ss ++ ss'.map (.moved (· + k))) := by
  obtain ⟨tokens, hscan, hread⟩ := parseProgram_eq_ok h
  obtain ⟨tokens', hscan', hread'⟩ := parseProgram_eq_ok h'
  obtain ⟨ts, last, rfl, hline, hscans⟩ := Token.scanFrom_lines hlines hscan
  obtain ⟨us, last', rfl, -⟩ := Token.scanFrom_proper hscan'
  have hno := Token.kind_ne_endOfInput hscan
  have hnil : text.toList = [] → ts = [] := by
    intro hnil
    rw [scan, hnil, Token.scanFrom_nil] at hscan
    have heq : [] ++ [_] = ts ++ [Token.endOfInput last] := Except.ok.inj hscan
    exact (List.append_inj' heq rfl).1.symm
  -- The second text starts on the line where the first stops.
  have hmoved := Token.scanFrom_moved hscan' (last - 1)
  rw [show 1 + (last - 1) = last by omega] at hmoved
  refine ⟨last - 1, ?_⟩
  unfold parseProgram scan
  rw [String.toList_append, hscans text'.toList trivial, hmoved, List.map_append]
  exact readProgram_append (· + (last - 1)) hno (fun hne => hline fun h => hne (hnil h)) hread hread'

/-- **Texts with a line end between them** hold the statements of both. The lines of the second, at every
depth, are counted on from the first. -/
theorem parseProgram_join {text text' : String} {ss ss' : List Stmt} (h : parseProgram text = .ok ss)
    (h' : parseProgram text' = .ok ss') :
    parseProgram (text ++ "\n" ++ text') =
      .ok (ss ++ ss'.map (.moved (· + (1 + (Text.lineEnds text.toList : Int))))) := by
  obtain ⟨tokens, hscan, hread⟩ := parseProgram_eq_ok h
  obtain ⟨tokens', hscan', hread'⟩ := parseProgram_eq_ok h'
  obtain ⟨ts, last, rfl, hscans⟩ := Token.scanFrom_before_line hscan
  obtain ⟨us, last', rfl, -⟩ := Token.scanFrom_proper hscan'
  obtain rfl : last = 1 + Text.lineEnds text.toList := Token.last_of_scanFrom hscan
  have hmoved := Token.scanFrom_moved hscan' (1 + Text.lineEnds text.toList)
  rw [Int.add_comm 1] at hmoved
  have htext : (text ++ "\n" ++ text').toList = text.toList ++ '\n' :: text'.toList := by
    rw [String.toList_append, String.toList_append, List.append_assoc]
    rfl
  unfold parseProgram scan
  rw [htext, hscans _ ⟨text'.toList, rfl⟩, Token.scanFrom_lineEnd, hmoved, List.map_append]
  exact readProgram_append_line (· + (1 + (Text.lineEnds text.toList : Int)))
    (Token.kind_ne_endOfInput hscan) hread hread'

/-- A conditional and a comment, and below them a loop. -/
theorem parseProgram_join_loop_below_branch :
    parseProgram ("if true \x7b\nprint true \x7d #else" ++ "\n" ++ "while false \x7b\nprint false \x7d") =
      .ok [.branch (.literal (.boolean true)) [.print (.literal (.boolean true)) 2] [] 1,
        .loop (.literal (.boolean false)) [.print (.literal (.boolean false)) 4] 3] := by
  have h : parseProgram "if true \x7b\nprint true \x7d #else" =
      .ok [.branch (.literal (.boolean true)) [.print (.literal (.boolean true)) 2] [] 1] := by cbv
  have h' : parseProgram "while false \x7b\nprint false \x7d" =
      .ok [.loop (.literal (.boolean false)) [.print (.literal (.boolean false)) 2] 1] := by cbv
  have hjoined := parseProgram_join h h'
  have hlines : Text.lineEnds "if true \x7b\nprint true \x7d #else".toList = 1 := by decide +kernel
  rw [hlines] at hjoined
  simpa [Stmt.moved] using hjoined

end Parlance
