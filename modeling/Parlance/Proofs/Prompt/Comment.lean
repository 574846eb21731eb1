import Parlance.Proofs.Prompt.Alike
import Parlance.Proofs.Token.Comment

/-!
# A comment behind a line of the input

The scan drops a comment, so it is no part of the program. But the prompt looks at the line itself when it
decides whether a conditional is held back: at its last character, which may be that of the comment. A
comment behind a line is not seen in a session, unless this decision changes for a whole program that ends
in a conditional and the next line goes on with it, or the comment parts a carriage return from its line end
(`Session.run_commented`).
-/

namespace Parlance.Session

variable {σ : Setting} {fuel : Nat} {keep : Event → Bool} {line comment : String}
  {program : List Stmt} {s : Session}

/-! ## One line -/

/-- The text that is read with a line: the buffer comes first, unless it holds a program that the line
does not go on with. -/
def textWith (s : Session) (line : String) : String :=
  (if s.held.isSome && !continuesBranch line then "" else s.buffer) ++ line ++ "\n"

/-- The comment does not change whether a program that the line completes is held back. -/
def HoldsAlike (s : Session) (line comment : String) : Prop :=
  ∀ program, parseProgram (s.textWith line) = .ok program →
    holdsBack program (commented line comment) = holdsBack program line

theorem settle_textWith {mid : Session} (h : settle σ fuel line s = some (.goesOn mid)) :
    (mid.put line).buffer = s.textWith line := by
  unfold settle at h
  unfold textWith put
  cases hheld : s.held with
  | none =>
    rw [hheld] at h
    cases h
    rfl
  | some program =>
    rw [hheld] at h
    dsimp only at h
    cases hnext : continuesBranch line with
    | true =>
      rw [hnext] at h
      cases h
      rfl
    | false =>
      rw [hnext] at h
      obtain ⟨-, -, -, -, hbuffer, -⟩ := perform_shown h
      rw [hbuffer]
      rfl

theorem mem_strip {p : Char → Bool} {c : Char} {cs : List Char} (hc : c ∈ cs) (hp : p c = false) :
    c ∈ Text.strip p cs := by
  have hdrop {ds : List Char} (hd : c ∈ ds) : c ∈ ds.dropWhile p := by
    rw [← List.takeWhile_append_dropWhile (p := p) (l := ds), List.mem_append] at hd
    rcases hd with hd | hd
    · exact absurd (List.all_eq_true.1 List.all_takeWhile _ hd) (by simp [hp])
    · exact hd
  unfold Text.strip Text.dropEnd
  rw [List.mem_reverse]
  exact hdrop (List.mem_reverse.2 (hdrop hc))

theorem isExit_commented : isExit (commented line comment) = false := by
  have hmem : '#' ∈ Text.strip Text.isBlank (commented line comment).toList :=
    mem_strip (by simp [commented]) (by decide)
  unfold isExit
  rw [beq_eq_false_iff_ne]
  intro heq
  rw [heq] at hmem
  exact absurd hmem (by decide)

section Comment

variable (hexit : isExit line = false) (hquote : '"' ∉ comment.toList) (hline : '\n' ∉ comment.toList)
include hquote hline

theorem settle_commented (σ : Setting) (fuel : Nat) (s : Session) :
    settle σ fuel (commented line comment) s = settle σ fuel line s := by
  unfold settle continuesBranch
  rw [scan_commented hquote hline]

include hexit

/-- A comment behind a line, if it does not change what is held back. -/
theorem take_commented (hreturn : ¬EndsInReturn (s.put line).buffer)
    (hheld : ∀ program, parseProgram (s.put line).buffer = .ok program →
      holdsBack program (commented line comment) = holdsBack program line) :
    Option.Rel (Progress.Alike keep) (take σ fuel line s) (take σ fuel (commented line comment) s) := by
  refine take_alike_of (.refl s) (by rw [hexit, isExit_commented]) (fun more hmore => ?_) hheld
  exact scan_commented_line hquote hline hreturn hmore

/-- A comment behind a line that changes whether the program is held back, before lines that do not go on
with it. -/
theorem take_commented_released {rest : List String} (hreturn : ¬EndsInReturn (s.put line).buffer)
    (hkeep : ∀ ev, ev.isPrompt = true → keep ev = false)
    (hrest : ∀ next ∈ rest.head?, continuesBranch next = false)
    (hparse : parseProgram (s.put line).buffer = .ok program)
    (hheld : holdsBack program (commented line comment) ≠ holdsBack program line) :
    Option.Rel (Progress.Alike keep) (onward (take σ fuel line s) (run σ fuel rest))
      (onward (take σ fuel (commented line comment) s) (run σ fuel rest)) := by
  have hparse' : parseProgram (s.put (commented line comment)).buffer = .ok program := by
    have hscan : scan (s.buffer ++ commented line comment ++ "\n" ++ "") =
        scan (s.buffer ++ line ++ "\n" ++ "") := scan_commented_line hquote hline hreturn (by simp)
    rw [String.append_empty, String.append_empty] at hscan
    rw [← hparse]
    unfold parseProgram put
    rw [hscan]
  have htake {l : String} (hl : isExit l = false) (hp : parseProgram (s.put l).buffer = .ok program) :
      take σ fuel l s = if holdsBack program l then some (.goesOn { s.put l with held := some program })
        else perform σ fuel program s.clear := by
    rw [take_eq, hp, hl, Bool.and_false]
    rfl
  rw [htake hexit hparse, htake isExit_commented hparse']
  cases hback : holdsBack program line with
  | true =>
    have hnot : holdsBack program (commented line comment) = false := by simpa [hback] using hheld
    rw [hnot]
    exact run_released hkeep rfl hrest
  | false =>
    have hholds : holdsBack program (commented line comment) = true := by simpa [hback] using hheld
    rw [hholds]
    exact rel_symm (run_released hkeep rfl hrest)

/-- **A comment behind the first of the lines.** -/
theorem run_cons_commented {rest : List String} (hreturn : ¬EndsInReturn (s.textWith line))
    (h : s.HoldsAlike line comment ∨ (∀ ev, ev.isPrompt = true → keep ev = false) ∧
      ∀ next ∈ rest.head?, continuesBranch next = false) :
    Option.Rel (Progress.Alike keep) (run σ fuel (line :: rest) s)
      (run σ fuel (commented line comment :: rest) s) := by
  rw [run_cons, run_cons, step_eq, step_eq, settle_commented hquote hline, onward_assoc, onward_assoc]
  refine rel_onward_self fun mid hmid => ?_
  have htext : (mid.put line).buffer = s.textWith line := settle_textWith (s := s.ask) hmid
  unfold HoldsAlike at h
  rw [← htext] at hreturn h
  by_cases hheld : ∀ program, parseProgram (mid.put line).buffer = .ok program →
      holdsBack program (commented line comment) = holdsBack program line
  · exact rel_onward (take_commented hexit hquote hline hreturn hheld) fun _ _ _ _ hafter =>
      run_alike rest hafter
  · obtain ⟨hkeep, hrest⟩ := h.resolve_left hheld
    simp only [not_forall] at hheld
    obtain ⟨program, hparse, hne⟩ := hheld
    exact take_commented_released hexit hquote hline hreturn hkeep hrest hparse hne

end Comment

/-! ## Sessions -/

/-- The session after some lines, before it asks for the next. -/
def advance (σ : Setting) (fuel : Nat) : List String → Session → Option Progress
  | [], s => some (.goesOn s)
  | line :: rest, s => onward (step σ fuel line s.ask) (advance σ fuel rest)

theorem run_append (before rest : List String) :
    run σ fuel (before ++ rest) s = onward (advance σ fuel before s) (run σ fuel rest) := by
  induction before generalizing s with
  | nil => rfl
  | cons line before ih =>
    rw [List.cons_append, run_cons, advance, onward_assoc]
    congr 1
    funext mid
    exact ih

/-- **A comment behind a line is not seen**, unless it changes whether a conditional waits for its `else`.
Any line that does not ask for the end may get a comment without quotes and line ends. Two things are asked
of the session that has read the lines before it. No carriage return takes the line end behind the line. And
if the line completes a program, the comment does not change whether that is held back, or the next line
does not start with `else` or `elif`. Then both sessions come to an end or neither does; they fail in the
same way or not at all, they have printed, echoed and reported the same, and they leave the same state. The
prompts are the same as well if the comment does not change what is held back. -/
theorem run_commented {before rest : List String} (hexit : isExit line = false)
    (hquote : '"' ∉ comment.toList) (hline : '\n' ∉ comment.toList)
    (h : ∀ mid, advance σ fuel before s = some (.goesOn mid) → ¬EndsInReturn (mid.textWith line) ∧
      (mid.HoldsAlike line comment ∨ ∀ next ∈ rest.head?, continuesBranch next = false)) :
    let plain := run σ fuel (before ++ line :: rest) s
    let annotated := run σ fuel (before ++ commented line comment :: rest) s
    annotated.map (Progress.left fun ev => !ev.isPrompt) = plain.map (Progress.left fun ev => !ev.isPrompt) ∧
      ((∀ mid, advance σ fuel before s = some (.goesOn mid) → mid.HoldsAlike line comment) →
        annotated.map (Progress.left fun _ => true) = plain.map (Progress.left fun _ => true)) := by
  intro plain annotated
  have hrel {keep : Event → Bool} (hkeep : ∀ mid, advance σ fuel before s = some (.goesOn mid) →
      mid.HoldsAlike line comment ∨ (∀ ev, ev.isPrompt = true → keep ev = false) ∧
        ∀ next ∈ rest.head?, continuesBranch next = false) :
      Option.Rel (Progress.Alike keep) plain annotated := by
    show Option.Rel _ (run σ fuel (before ++ line :: rest) s) (run σ fuel (before ++ _ :: rest) s)
    rw [run_append, run_append]
    refine rel_onward_self fun mid hmid => ?_
    exact run_cons_commented hexit hquote hline (h mid hmid).1 (hkeep mid hmid)
  refine ⟨left_eq_of_rel (hrel fun mid hmid => ?_), fun hall => left_eq_of_rel (hrel fun mid hmid => ?_)⟩
  · refine (h mid hmid).2.imp_right fun hnext => ⟨fun ev hev => ?_, hnext⟩
    rw [hev]
    rfl
  · exact .inl (hall mid hmid)

/-- Inside an open block a comment may stand behind a conditional before its `else`. -/
theorem run_commented_open_block :
    let before := ["if true \x7b"]
    let rest := ["else \x7b print true \x7d", "\x7d"]
    let plain := run (.standard 0) 9 (before ++ "if false \x7b \x7d" :: rest) .start
    let annotated := run (.standard 0) 9 (before ++ commented "if false \x7b \x7d" " c" :: rest) .start
    isExit "if false \x7b \x7d" = false ∧
      annotated.map (Progress.left fun _ => true) = plain.map (Progress.left fun _ => true) ∧
      ∃ st, annotated.map (Progress.left fun ev => !ev.isPrompt) = some (none, [.printed "true"], st) := by
  intro before rest plain annotated
  let unclosed (line : Int) : Error := ⟨.unexpectedToken .closedBlock (.endOfInput line), some line⟩
  let inner : Stmt := .branch (.literal (.boolean false)) [] [.print (.literal (.boolean true)) 3] 2
  let program : List Stmt := [.branch (.literal (.boolean true)) [inner] [] 1]
  have hfirst : parseProgram "if true \x7b\n" = .error (unclosed 2) := by cbv
  have hsecond : parseProgram "if true \x7b\nif false \x7b \x7d\n" = .error (unclosed 3) := by cbv
  have hthird : parseProgram "if true \x7b\nif false \x7b \x7d\nelse \x7b print true \x7d\n" =
      .error (unclosed 4) := by cbv
  have hwhole : parseProgram "if true \x7b\nif false \x7b \x7d\nelse \x7b print true \x7d\n\x7d\n" =
      .ok program := by cbv
  have hincomplete (line : Int) : (unclosed line).cause.incomplete = true := rfl
  have hexit : isExit "if true \x7b" = false ∧ isExit "if false \x7b \x7d" = false := ⟨by decide, by decide⟩
  have hheld : holdsBack program "\x7d" = true := by decide
  have hrun : runProgram (.standard 0) 9 program ⟨.empty, #[], #[]⟩ =
      some ⟨.ok .nothing, ⟨.empty, #["true"], #[]⟩⟩ := rfl
  have hadvance : advance (.standard 0) 9 before .start =
      some (.goesOn ⟨"if true \x7b\n", none, .start, #[.asked ">> "]⟩) := by
    simp [advance, before, onward, step, take, ask, tell, prompt, start, hexit, hfirst, hincomplete]
  have hplain : plain = some (.ends ⟨"", none, .start,
      #[.asked ">> ", .asked ".. ", .asked ".. ", .asked ".. ", .asked ".. ", .printed "true"]⟩) := by
    simp [plain, run, before, rest, step, take, close, perform, ask, tell, prompt, clear, after, start, State.start,
      hexit, hfirst, hsecond, hthird, hwhole, hincomplete, hheld, hrun]
  have hscan : ∃ us, scan "if true \x7b\nif false \x7b \x7d" = .ok us :=
    ⟨[⟨.ifWord, "if", .nothing, 1⟩, ⟨.trueWord, "true", .nothing, 1⟩, ⟨.leftBrace, "\x7b", .nothing, 1⟩,
      ⟨.newline, "\n", .nothing, 1⟩, ⟨.ifWord, "if", .nothing, 2⟩, ⟨.falseWord, "false", .nothing, 2⟩,
      ⟨.leftBrace, "\x7b", .nothing, 2⟩, ⟨.rightBrace, "\x7d", .nothing, 2⟩, .endOfInput 2], by cbv⟩
  have hreturn : ¬EndsInReturn "if true \x7b\nif false \x7b \x7d\n" := by
    obtain ⟨us, hus⟩ := hscan
    exact not_endsInReturn hus
  have halike : ∀ mid, advance (.standard 0) 9 before .start = some (.goesOn mid) →
      ¬EndsInReturn (mid.textWith "if false \x7b \x7d") ∧ mid.HoldsAlike "if false \x7b \x7d" " c" := by
    intro mid hmid
    cases hadvance.symm.trans hmid
    refine ⟨hreturn, fun program' hprogram => ?_⟩
    cases hsecond.symm.trans hprogram
  obtain ⟨hshown, hall⟩ := @run_commented (.standard 0) 9 "if false \x7b \x7d" " c" .start before rest hexit.2
    (by decide) (by decide) fun mid hmid => (halike mid hmid).imp_right .inl
  refine ⟨hexit.2, hall fun mid hmid => (halike mid hmid).2, .start, ?_⟩
  refine hshown.trans ?_
  show plain.map _ = _
  rw [hplain]
  rfl

/-- Behind a comment, a conditional does not wait for its `else`, and a carriage return is no part of a line
end. -/
theorem run_commented_else_refused :
    isExit "if false \x7b \x7d" = false ∧ isExit "true\r" = false ∧
    (∃ s s' e,
      run (.standard 0) 9 ["if false \x7b \x7d", "else \x7b print true \x7d"] .start = some (.ends s) ∧
      run (.standard 0) 9 [commented "if false \x7b \x7d" " c", "else \x7b print true \x7d"] .start =
        some (.ends s') ∧
      s.shown = [.printed "true"] ∧ s'.shown = [.reported e]) ∧
    ∃ s s' e, run (.standard 0) 9 ["true\r"] .start = some (.ends s) ∧
      run (.standard 0) 9 [commented "true\r" " c"] .start = some (.ends s') ∧
      s.shown = [.echoed "true"] ∧ s'.shown = [.reported e] := by
  let waiting : Stmt := .branch (.literal (.boolean false)) [] [] 1
  let branch : Stmt := .branch (.literal (.boolean false)) [] [.print (.literal (.boolean true)) 2] 1
  let refusal : Error := ⟨.unexpectedToken .expression ⟨.elseWord, "else", .nothing, 1⟩, some 1⟩
  let stray : Error := ⟨.unexpectedCharacter '\r', some 1⟩
  have hexit : isExit "if false \x7b \x7d" = false ∧ isExit "if false \x7b \x7d # c" = false ∧
      isExit "else \x7b print true \x7d" = false ∧ isExit "true\r" = false ∧ isExit "true\r # c" = false :=
    ⟨by decide, by decide, by decide, by decide, by decide⟩
  have hwaiting : parseProgram "if false \x7b \x7d\n" = .ok [waiting] ∧
      parseProgram "if false \x7b \x7d # c\n" = .ok [waiting] := ⟨by cbv, by cbv⟩
  have hbranch : parseProgram "if false \x7b \x7d\nelse \x7b print true \x7d\n" = .ok [branch] := by cbv
  have hrefusal : parseProgram "else \x7b print true \x7d\n" = .error refusal := by cbv
  have htrue : parseProgram "true\r\n" = .ok [.expr (.literal (.boolean true)) 1] ∧
      parseProgram "true\r # c\n" = .error stray := ⟨by cbv, by cbv⟩
  have hheld : holdsBack [waiting] "if false \x7b \x7d" = true ∧
      holdsBack [waiting] "if false \x7b \x7d # c" = false ∧
      holdsBack [branch] "else \x7b print true \x7d" = true := ⟨by decide, by decide, by decide⟩
  have hnext : continuesBranch "else \x7b print true \x7d" = true := by cbv
  have hrun : runProgram (.standard 0) 9 [branch] ⟨.empty, #[], #[]⟩ =
        some ⟨.ok .nothing, ⟨.empty, #["true"], #[]⟩⟩ ∧
      runProgram (.standard 0) 9 [waiting] ⟨.empty, #[], #[]⟩ = some ⟨.ok .nothing, ⟨.empty, #[], #[]⟩⟩ ∧
      runProgram (.standard 0) 9 [.expr (.literal (.boolean true)) 1] ⟨.empty, #[], #[]⟩ =
        some ⟨.ok (.boolean true), ⟨.empty, #[], #[]⟩⟩ := ⟨rfl, rfl, rfl⟩
  have htext : (Value.boolean true).textWithin (Setting.standard 0).limit = .ok "true" := rfl
  have hcommented : commented "if false \x7b \x7d" " c" = "if false \x7b \x7d # c" ∧
      commented "true\r" " c" = "true\r # c" := ⟨by decide, by decide⟩
  have hplain : run (.standard 0) 9 ["if false \x7b \x7d", "else \x7b print true \x7d"] .start =
      some (.ends ⟨"", none, .start, #[.asked ">> ", .asked ".. ", .asked ".. ", .printed "true"]⟩) := by
    simp [run, step, take, close, perform, ask, tell, prompt, clear, after, start, State.start, hexit,
      hwaiting, hbranch, hheld, hnext, hrun]
  have hannotated : run (.standard 0) 9 ["if false \x7b \x7d # c", "else \x7b print true \x7d"] .start =
      some (.ends ⟨"", none, .start, #[.asked ">> ", .asked ">> ", .reported refusal, .asked ">> "]⟩) := by
    simp [run, step, take, close, perform, ask, tell, prompt, clear, after, start, State.start, hexit,
      hwaiting, hrefusal, hheld, hrun, show refusal.cause.incomplete = false from rfl]
  have hechoed : run (.standard 0) 9 ["true\r"] .start =
      some (.ends ⟨"", none, .start, #[.asked ">> ", .echoed "true", .asked ">> "]⟩) := by
    simp [run, step, take, close, perform, ask, tell, prompt, clear, after, start, State.start, hexit, htrue,
      hrun, htext, holdsBack]
  have hstray : run (.standard 0) 9 ["true\r # c"] .start =
      some (.ends ⟨"", none, .start, #[.asked ">> ", .reported stray, .asked ">> "]⟩) := by
    simp [run, step, take, close, ask, tell, prompt, clear, start, State.start, hexit, htrue,
      show stray.cause.incomplete = false from rfl]
  rw [hcommented.1, hcommented.2]
  exact ⟨hexit.1, hexit.2.2.2.1, ⟨_, _, refusal, hplain, hannotated, rfl, rfl⟩,
    _, _, stray, hechoed, hstray, rfl, rfl⟩

end Parlance.Session
