import Parlance.Proofs.Grammar.Written
import Parlance.Proofs.Run.Errors

/-!
# The lines of errors

A failure gets a line when it leaves the statement in which it arises, and keeps it through all the
statements around that one (`Moment.outcome_of_fails`). Only a function can report an error that has a line
before. So in a program that was read every error has a line: the one that a function gave it, or that of
the first token of the innermost statement (`parseProgram_error_line`).
-/

namespace Parlance

/-- A failure that has passed a statement with a line is not changed by those around it. -/
theorem Failure.locate_locate (f : Failure) (line : Int) (line' : Option Int) :
    (f.locate (some line)).locate line' = f.locate (some line) := by
  cases f with
  | error e =>
    obtain ⟨cause, own⟩ := e
    cases own <;> rfl
  | _ => rfl

/-- A failure that becomes an error when it leaves a statement: it was that error before, or it had no
line. -/
theorem Failure.locate_eq_error {f : Failure} {line : Int} {e : Error}
    (h : f.locate (some line) = .error e) :
    f = .error e ∧ e.line.isSome = true ∨
      (f = .of e.cause ∨ f = .tooDeep ∧ e.cause = .expressionTooDeep) ∧ e.line = some line := by
  cases f with
  | error e' =>
    obtain ⟨cause, own⟩ := e'
    cases own with
    | none =>
      cases h
      exact .inr ⟨.inl rfl, rfl⟩
    | some own =>
      cases h
      exact .inl ⟨rfl, rfl⟩
  | tooDeep =>
    cases h
    exact .inr ⟨.inr ⟨rfl, rfl⟩, rfl⟩
  | _ => cases h

/-- An error has a line where it arises only if a function has reported it so. -/
theorem Evaluation.Fails.reports_of_line {σ : Setting} {q : Evaluation} {e : Error}
    (h : q.Fails σ (.error e)) (hline : e.line.isSome = true) : q.Reports σ e := by
  have hnot : ¬ (Failure.error e).OfOperation := by
    rintro ⟨-, hnone⟩
    simp [hnone] at hline
  cases h with
  | name h => exact absurd (Scopes.plain_lookup _ _ _ h) hnot
  | @call s room name args vs _ hvs h =>
    rcases call_fails h with h | ⟨_, function, ⟨⟩, hfind, happly⟩
    · exact absurd h hnot
    · exact ⟨room, name, args, vs, function, rfl, rfl, hvs, hfind, happly⟩
  | access _ h => exact absurd (Value.plain_access _ _ _ h) hnot
  | binary hop _ _ h =>
    rcases Op.binary_fails hop h with h | ⟨-, ⟨⟩⟩
    exact absurd h hnot
  | unary hop _ h => exact absurd (Op.plain_unary hop _ _ h) hnot
  | unruled h => simp at hline

namespace Moment

variable {σ : Setting} {m m' : Moment} {r : Run} {f : Failure}

/-- The statement that is worked on in a moment. A loop is worked on from round to round. -/
def statement? (m : Moment) : Option Stmt :=
  match m.task with
  | .stmt s => some s
  | .loop condition body line => some (.loop condition body line)
  | .block _ | .list .. => none

/-- A function that is called in the expression of a moment reports an error. -/
def Reports (σ : Setting) (m : Moment) (e : Error) : Prop :=
  ∃ expr q, m.asks? = some expr ∧ Evaluation.Comes σ ⟨m.state.scopes, σ.limit, expr⟩ q ∧ q.Reports σ e

/-- What fails by itself is a statement. -/
theorem Fails.exists_statement (h : m.Fails σ f) :
    ∃ s, m.statement? = some s ∧ s ∈ m.task.parts := by
  cases h <;> exact ⟨_, rfl, Stmt.mem_parts_self _⟩

theorem Fails.reports_of_line {e : Error} (h : m.Fails σ (.error e)) (hline : e.line.isSome = true) :
    m.Reports σ e := by
  rcases h.origin with ⟨expr, hasks, hvalue⟩ | hplain | ⟨-, ⟨⟩⟩
  · obtain ⟨q, hq, hfails⟩ := Evaluation.evaluate_eq_error_iff.1 hvalue
    exact ⟨expr, q, hasks, hq, hfails.reports_of_line hline⟩
  · obtain ⟨-, hnone⟩ := hplain
    simp [hnone] at hline

/-! ## The way out -/

/-- What a task does to a failure that passes through it. -/
def pass (m : Moment) (f : Failure) : Failure :=
  match m.task with
  | .stmt s => f.locate s.line?
  | .block _ | .loop .. | .list .. => f

theorem outcome_finish {inner : Run} (h : inner.outcome = .error f) :
    (m.finish σ inner).outcome = .error (m.pass f) := by
  obtain ⟨task, st⟩ := m
  obtain ⟨outcome, left⟩ := inner
  cases h
  cases task <;> rfl

theorem pass_locate (m : Moment) (f : Failure) (line : Int) :
    m.pass (f.locate (some line)) = f.locate (some line) := by
  unfold pass
  split
  · exact f.locate_locate line _
  all_goals rfl

/-- **The line of a failure is that of the statement in which it arises**, wherever the run started. Only
the rounds of a loop, taken by themselves, leave a failure of their condition without a line. -/
theorem outcome_of_fails {s : Stmt} {line : Int} (hcomes : Comes σ m m') (hfails : m'.Fails σ f)
    (hs : m'.statement? = some s) (hline : s.line? = some line) (h : m.Ends σ r) :
    r.outcome = .error (f.locate (some line)) ∨
      ∃ condition body line', m.task = .loop condition body line' ∧
        s = .loop condition body line' ∧ r.outcome = .error f := by
  -- from the start on, as a failure on the way would have ended the run before `m'`
  induction hcomes using Relation.ReflTransGen.head_induction_on generalizing r with
  | refl =>
    obtain ⟨inner, rfl, hinner⟩ := hfails.finish h
    rw [outcome_finish hinner]
    obtain ⟨task, st⟩ := m'
    cases task with
    | stmt s' =>
      cases hs
      exact .inl (congrArg (fun l => Except.error (f.locate l)) hline)
    | loop condition body line' =>
      cases hs
      exact .inr ⟨condition, body, line', rfl, rfl, rfl⟩
    | block body => cases hs
    | list ss v => cases hs
  | @head m₁ m₂ hlead _ ih =>
    obtain ⟨bound, hlead⟩ := hlead
    obtain ⟨r', hends, ⟨v, hv⟩ | rfl⟩ := hlead.ends h
    · rcases ih hends with hr' | ⟨_, _, _, -, -, hr'⟩ <;> cases hv.symm.trans hr'
    · rcases ih hends with hr' | ⟨condition, body, line', htask, rfl, hr'⟩
      · rw [outcome_finish hr', pass_locate]
        exact .inl rfl
      · rw [outcome_finish hr']
        obtain ⟨task, st⟩ := m₂
        cases htask
        cases hlead with
        | rounds => exact .inl (congrArg (fun l => Except.error (f.locate l)) hline)
        | again => exact .inr ⟨condition, body, line', rfl, rfl, rfl⟩

end Moment

/-- **Errors have the right line.** Let the run of a program that was read end with an error, whatever
functions there are and whatever state it starts in. Some moment of the run fails by itself, and whichever
does, it works on a statement that is written in the text. Either a function called there has reported the
error, with the line that it has; or the failure arose without a line, and the error has the line of the
first token of that statement. That token is the word `if` or `elif` where a condition of a conditional
fails, and `while` where that of a loop does. -/
theorem parseProgram_error_line {σ : Setting} {source : String} {program : List Stmt} {st : State}
    {fuel : Nat} {r : Run} {e : Error} (hparse : parseProgram source = .ok program)
    (hrun : runProgram σ fuel program st = some r) (he : r.outcome = .error (.error e)) :
    e.line ≠ none ∧ ∃ ts, scan source = .ok ts ∧
      (∃ m f, (Moment.start program st).Comes σ m ∧ m.Fails σ f) ∧
      ∀ m f, (Moment.start program st).Comes σ m → m.Fails σ f →
        ∃ s t, m.statement? = some s ∧ s ∈ Stmt.allParts program ∧ Grammar.Written ts t s ∧
          (f = .error e ∧ m.Reports σ e ∨
            (f = .of e.cause ∨ f = .tooDeep ∧ e.cause = .expressionTooDeep) ∧ e.line = some t.line) ∧
          (∀ condition yes no line, s = .branch condition yes no line →
            t.kind = .ifWord ∨ t.kind = .elifWord) ∧
          (∀ condition body line, s = .loop condition body line → t.kind = .whileWord) := by
  have hends : (Moment.start program st).Ends σ r := ⟨fuel, hrun⟩
  obtain ⟨ts, hscan, hwritten⟩ := parseProgram_written hparse
  have hplaces (m : Moment) (f : Failure) (hcomes : (Moment.start program st).Comes σ m)
      (hfails : m.Fails σ f) : ∃ s t, m.statement? = some s ∧ s ∈ Stmt.allParts program ∧
        Grammar.Written ts t s ∧ f.locate (some t.line) = .error e := by
    obtain ⟨s, hs, hpart⟩ := hfails.exists_statement
    have hmem : s ∈ Stmt.allParts program := Moment.Comes.parts hcomes s hpart
    obtain ⟨t, ht, hline⟩ := hwritten s hmem
    refine ⟨s, t, hs, hmem, ht, ?_⟩
    rcases Moment.outcome_of_fails hcomes hfails hs hline hends with hr | ⟨_, _, _, htask, -, -⟩
    · exact Except.error.inj (hr.symm.trans he)
    · cases htask
  obtain ⟨m, f, hcomes, hfails, -⟩ := (Moment.ends_error_iff hends _).1 ⟨_, he, rfl⟩
  refine ⟨?_, ts, hscan, ⟨m, f, hcomes, hfails⟩, fun m f hcomes hfails => ?_⟩
  · obtain ⟨s, t, -, -, -, hlocate⟩ := hplaces m f hcomes hfails
    rcases Failure.locate_eq_error hlocate with ⟨-, hsome⟩ | ⟨-, hline⟩
    · exact Option.ne_none_iff_isSome.2 hsome
    · simp [hline]
  · obtain ⟨s, t, hs, hmem, ht, hlocate⟩ := hplaces m f hcomes hfails
    refine ⟨s, t, hs, hmem, ht, ?_, ?_, ?_⟩
    · rcases Failure.locate_eq_error hlocate with ⟨rfl, hsome⟩ | hnew
      · exact .inl ⟨rfl, hfails.reports_of_line hsome⟩
      · exact .inr hnew
    · rintro condition yes no line rfl
      exact ht.kind_of_branch
    · rintro condition body line rfl
      exact ht.kind_of_loop

/-- In the body of a loop, the condition of an `elif` two lines below its `if` is a string. -/
theorem parseProgram_error_line_elif_below :
    let σ : Setting := ⟨[], 10, 0⟩
    let source := "while true \x7b\nif false \x7b\n\x7d\n\nelif \"x\" \x7b\n\x7d\n\x7d\n"
    ∃ program r e, parseProgram source = .ok program ∧ runProgram σ 12 program .start = some r ∧
      r.outcome = .error (.error e) ∧ e.line = some 5 ∧
      ∃ ts m s t, scan source = .ok ts ∧ (Moment.start program .start).Comes σ m ∧
        m.statement? = some s ∧ Grammar.Written ts t s ∧ t.line = 5 ∧
        (t.kind = .ifWord ∨ t.kind = .elifWord) := by
  intro σ source
  let elif : Stmt := .branch (.literal (.string "x")) [] [] 5
  let body : List Stmt := [.branch (.literal (.boolean false)) [] [elif] 2]
  let program : List Stmt := [.loop (.literal (.boolean true)) body 1]
  let once : State := State.start.enter σ
  let twice : State := once.enter σ
  have hparse : parseProgram source = .ok program := by cbv
  have hrun : runProgram σ 12 program .start =
      some ⟨.error (.error ⟨.conditionType .branch .string, some 5⟩), .start⟩ := rfl
  have hcomes : (Moment.start program .start).Comes σ ⟨.stmt elif, twice⟩ :=
    .head ⟨0, .first⟩ <| .head ⟨0, .rounds⟩ <| .head ⟨0, .round rfl⟩ <| .head ⟨0, .inside⟩ <|
      .head ⟨0, .first⟩ <| .head ⟨0, .no rfl⟩ <| .head ⟨0, .inside⟩ <| .single ⟨0, .first⟩
  have hfails : (⟨.stmt elif, twice⟩ : Moment).Fails σ (.of (.conditionType .branch .string)) :=
    .branch rfl
  obtain ⟨-, ts, hscan, -, hall⟩ := parseProgram_error_line hparse hrun rfl
  obtain ⟨s, t, hs, -, hwritten, hline, hkind, -⟩ := hall _ _ hcomes hfails
  cases hs
  refine ⟨program, _, _, hparse, hrun, rfl, rfl, ts, _, _, t, hscan, hcomes, rfl, hwritten, ?_,
    hkind _ _ _ _ rfl⟩
  rcases hline with ⟨⟨⟩, -⟩ | ⟨-, hline⟩
  exact (Option.some.inj hline).symm

end Parlance
