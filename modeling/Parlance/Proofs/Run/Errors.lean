import Parlance.Proofs.Grammar.Filled
import Parlance.Proofs.Run.Evaluation

/-!
# The errors of programs that were read

A run evaluates the expressions of the statements that it comes to, and the expressions in them
(`Moment.Evaluates`). In a program that was read from a text all of these are well formed, so that there
is a rule for every one of them, and no statement is blank. What is left are the errors of the language
and the remainder of an infinite number (`parseProgram_run_fails`).
-/

namespace Parlance

/-! ## Well-formed expressions have a rule -/

theorem Expr.WellFormed.not_unruled {e : Expr} (h : e.WellFormed) (cause : Cause) :
    ¬ e.Unruled cause := by
  intro hunruled
  cases h with
  | leading hop _ =>
    cases hunruled with
    | front hminus hnot => exact hop.elim hminus hnot
    | other hone _ => exact hone rfl
  | between hop _ _ =>
    cases hunruled with
    | between hunruled _ => rcases hunruled with rfl | rfl <;> cases hop
    | other _ htwo => exact htwo rfl
  | index _ _ =>
    cases hunruled with
    | between hunruled _ => simp at hunruled
    | other _ htwo => exact htwo rfl
  | field _ _ =>
    cases hunruled with
    | between _ hright => exact hright rfl _ rfl
    | other _ htwo => exact htwo rfl
  | _ => cases hunruled

namespace Evaluation

variable {σ : Setting} {q q' : Evaluation}

theorem Leads.wellFormed (h : q.Leads σ q') (hq : q.expr.WellFormed) : q'.expr.WellFormed := by
  cases h with
  | item =>
    cases hq with
    | array hitems => exact hitems _ (by simp)
  | arg =>
    cases hq with
    | call _ hargs => exact hargs _ (by simp)
  | target =>
    cases hq with
    | between _ ha _ => exact ha
    | field ha _ => exact ha
  | left =>
    cases hq with
    | between _ ha _ => exact ha
    | index ha _ => exact ha
    | field ha _ => exact ha
  | right =>
    cases hq with
    | between _ _ hb => exact hb
    | index _ hb => exact hb
    | field _ hx => exact .name hx
  | operand =>
    cases hq with
    | leading _ h => exact h

theorem Comes.wellFormed (h : q.Comes σ q') (hq : q.expr.WellFormed) : q'.expr.WellFormed := by
  induction h with
  | refl => exact hq
  | tail _ hlead ih => exact hlead.wellFormed ih

end Evaluation

/-! ## What a run evaluates -/

theorem Failure.eq_noRemainder_of_bare {f : Failure} (h : f.bare = .noRemainder) : f = .noRemainder := by
  cases f with
  | noRemainder => rfl
  | _ => cases h

/-- A failure that is told apart by the cause of an unruled form is an error with that cause. -/
theorem Failure.eq_error_of_bare {f : Failure} {cause : Cause} (h : f.bare = .of cause)
    (hcause : cause.invalid = true) : ∃ e, f = .error e ∧ e.cause = cause := by
  cases f with
  | error e =>
    cases h
    exact ⟨e, rfl, rfl⟩
  | tooDeep =>
    cases h
    cases hcause
  | _ => cases h

namespace Moment

variable {σ : Setting} {m m' : Moment} {r : Run} {f : Failure} {e : Expr}

/-- The expression that a task evaluates, not counting those of tasks that it comes to. An assignment to a
name that is not bound is refused before its expression is evaluated. -/
def asks? (m : Moment) : Option Expr :=
  match m.task with
  | .stmt (.expr e _) | .stmt (.print e _) | .stmt (.branch e ..) | .loop e .. => some e
  | .stmt (.declare name e fresh _) => if fresh || m.state.scopes.binds name then some e else none
  | _ => none

/-- The evaluations that a run comes to. -/
def Evaluates (σ : Setting) (m : Moment) (q : Evaluation) : Prop :=
  ∃ m' e, m.Comes σ m' ∧ m'.asks? = some e ∧ Evaluation.Comes σ ⟨m'.state.scopes, σ.limit, e⟩ q

theorem exists_part_of_asks? (h : m.asks? = some e) : ∃ s ∈ m.task.parts, s.expr? = some e := by
  obtain ⟨task, st⟩ := m
  cases task with
  | stmt s =>
    refine ⟨s, Stmt.mem_parts_self s, ?_⟩
    cases s with
    | declare name e' fresh line =>
      unfold asks? at h
      dsimp only at h
      split at h
      · exact h
      · cases h
    | loop condition body line => cases h
    | blank => cases h
    | _ => exact h
  | block body => cases h
  | loop condition body line => exact ⟨_, Stmt.mem_parts_self (.loop condition body line), h⟩
  | list ss v => cases h

theorem Fails.origin (h : m.Fails σ f) :
    (∃ e, m.asks? = some e ∧ evaluate σ m.state.scopes e = .error f) ∨ f.OfOperation ∨
      m.task = .stmt .blank ∧ f = .blankStatement := by
  cases h with
  | expr h => exact .inl ⟨_, rfl, h⟩
  | @print e line st f h =>
    rcases State.print_fails σ _ h with h | h
    · rw [State.begin_scopes] at h
      exact .inl ⟨e, rfl, h⟩
    · exact .inr (.inl h)
  | @declare name e fresh line st f h =>
    rcases State.declare_fails σ _ h with ⟨hmay, h⟩ | h
    · rw [State.begin_scopes] at hmay h
      exact .inl ⟨e, if_pos hmay, h⟩
    · exact .inr (.inl h)
  | @branch condition yes no line st f h =>
    rcases State.test_fails σ _ h with h | h
    · rw [State.begin_scopes] at h
      exact .inl ⟨condition, rfl, h⟩
    · exact .inr (.inl h)
  | @loop condition body line st f h =>
    rcases State.test_fails σ _ h with h | h
    · exact .inl ⟨condition, rfl, h⟩
    · exact .inr (.inl h)
  | blank => exact .inr (.inr ⟨rfl, rfl⟩)

theorem fails_of_asks? (h : m.asks? = some e) (hf : evaluate σ m.state.scopes e = .error f) :
    m.Fails σ f := by
  obtain ⟨task, st⟩ := m
  cases task with
  | stmt s =>
    cases s with
    | expr e' line =>
      cases h
      exact .expr hf
    | print e' line =>
      cases h
      refine .print ?_
      unfold State.print
      rw [State.begin_scopes, hf]
      rfl
    | declare name e' fresh line =>
      unfold asks? at h
      dsimp only at h
      split at h
      · rename_i hmay
        cases h
        refine .declare ?_
        unfold State.declare
        rw [State.begin_scopes, hf, if_neg (by revert hmay; cases fresh <;> simp)]
      · cases h
    | branch condition yes no line =>
      cases h
      refine .branch ?_
      unfold State.test
      rw [State.begin_scopes, hf]
    | loop condition body line => cases h
    | blank => cases h
  | block body => cases h
  | loop condition body line =>
    cases h
    refine .loop ?_
    unfold State.test
    rw [hf]
  | list ss v => cases h

/-- A run that ends has evaluated a remainder of an infinite number if and only if it fails for want of
it. -/
theorem ends_noRemainder_iff (h : m.Ends σ r) :
    r.outcome = .error .noRemainder ↔ ∃ q, m.Evaluates σ q ∧ q.InfiniteRemainder σ := by
  constructor
  · intro hr
    obtain ⟨m', f, hcomes, hfails, hbare⟩ := (ends_error_iff h .noRemainder).1 ⟨_, hr, rfl⟩
    obtain rfl := Failure.eq_noRemainder_of_bare hbare
    rcases hfails.origin with ⟨e, he, hvalue⟩ | hplain | ⟨-, ⟨⟩⟩
    · obtain ⟨q, hq, hfails⟩ := Evaluation.evaluate_eq_error_iff.1 hvalue
      exact ⟨q, ⟨m', e, hcomes, he, hq⟩, Evaluation.fails_noRemainder_iff.1 hfails⟩
    · exact hplain.elim
  · rintro ⟨q, ⟨m', e, hcomes, he, hq⟩, hremainder⟩
    have hvalue : evaluate σ m'.state.scopes e = .error .noRemainder :=
      Evaluation.evaluate_eq_error_iff.2 ⟨q, hq, Evaluation.fails_noRemainder_iff.2 hremainder⟩
    obtain ⟨f, hf, hbare⟩ :=
      (ends_error_iff h .noRemainder).2 ⟨m', _, hcomes, fails_of_asks? he hvalue, rfl⟩
    rw [hf, Failure.eq_noRemainder_of_bare hbare]

/-- The cause of an unruled form comes from such a form that the run has evaluated, or from a function that
it has called. -/
theorem ends_invalid {err : Error} (h : m.Ends σ r) (hr : r.outcome = .error (.error err))
    (herr : err.cause.invalid = true) :
    ∃ q, m.Evaluates σ q ∧ (q.expr.Unruled err.cause ∨
      ∃ err', q.Reports σ err' ∧ err'.cause = err.cause) := by
  obtain ⟨m', f, hcomes, hfails, hbare⟩ := (ends_error_iff h (.of err.cause)).1 ⟨_, hr, rfl⟩
  obtain ⟨err', rfl, hcause⟩ := Failure.eq_error_of_bare hbare herr
  rw [← hcause] at herr ⊢
  rcases hfails.origin with ⟨e, he, hvalue⟩ | hplain | ⟨-, ⟨⟩⟩
  · obtain ⟨q, hq, hfails⟩ := Evaluation.evaluate_eq_error_iff.1 hvalue
    refine ⟨q, ⟨m', e, hcomes, he, hq⟩, ?_⟩
    exact (hfails.of_invalid herr).imp_right fun hreports => ⟨err', hreports, rfl⟩
  · exact absurd (hplain.1.symm.trans herr) Bool.false_ne_true

end Moment

/-! ## Programs that were read -/

section Parsed

variable {σ : Setting} {source : String} {program : List Stmt} {st : State}
  (hparse : parseProgram source = .ok program)
include hparse

theorem formed_of_comes {m : Moment} (h : (Moment.start program st).Comes σ m) :
    ∀ s ∈ m.task.parts, s.Formed :=
  fun s hs => parseProgram_formed hparse s (Moment.Comes.parts h s hs)

theorem wellFormed_of_evaluates {q : Evaluation} (h : (Moment.start program st).Evaluates σ q) :
    q.expr.WellFormed := by
  obtain ⟨m, e, hcomes, he, hq⟩ := h
  obtain ⟨s, hs, hexpr⟩ := Moment.exists_part_of_asks? he
  obtain ⟨e', he', hformed⟩ := formed_of_comes hparse hcomes s hs
  cases hexpr.symm.trans he'
  exact Evaluation.Comes.wellFormed hq hformed

end Parsed

/-- **Only the documented errors leave a program that was read.** Whatever functions there are and
whatever state the program starts in, its run comes to no blank statement and evaluates no expression
whose form has no rule. If the run ends with a failure, that is an error of the language or the want of a
remainder; an error with the cause of an unruled form is one that a called function has reported. A
remainder is wanting exactly if the run has evaluated one of an infinite number by a number that is
neither zero nor NaN. -/
theorem parseProgram_run_fails {σ : Setting} {source : String} {program : List Stmt} {st : State}
    (hparse : parseProgram source = .ok program) :
    (∀ m, (Moment.start program st).Comes σ m → m.task ≠ .stmt .blank) ∧
    (∀ q cause, (Moment.start program st).Evaluates σ q → ¬ q.expr.Unruled cause) ∧
    ∀ fuel r, runProgram σ fuel program st = some r →
      (∀ f, r.outcome = .error f → (∃ e, f = .error e) ∨ f = .noRemainder) ∧
      (∀ e, r.outcome = .error (.error e) → e.cause.invalid = true →
        ∃ q e', (Moment.start program st).Evaluates σ q ∧ q.Reports σ e' ∧ e'.cause = e.cause) ∧
      (r.outcome = .error .noRemainder ↔
        ∃ q, (Moment.start program st).Evaluates σ q ∧ q.InfiniteRemainder σ) := by
  have hruled (q : Evaluation) (cause : Cause) (hq : (Moment.start program st).Evaluates σ q) :
      ¬ q.expr.Unruled cause := (wellFormed_of_evaluates hparse hq).not_unruled cause
  refine ⟨fun m hcomes hblank => ?_, hruled, fun fuel r hrun => ?_⟩
  · obtain ⟨e, he, -⟩ := formed_of_comes hparse hcomes .blank (by simp [hblank, Task.parts, Stmt.parts])
    cases he
  · have hends : (Moment.start program st).Ends σ r := ⟨fuel, hrun⟩
    refine ⟨fun f => runProgram_fails (parseProgram_filled hparse) hrun, fun e he hinvalid => ?_,
      Moment.ends_noRemainder_iff hends⟩
    obtain ⟨q, hq, hunruled | ⟨e', hreports, hcause⟩⟩ := Moment.ends_invalid hends he hinvalid
    · exact absurd hunruled (hruled q _ hq)
    · exact ⟨q, e', hq, hreports, hcause⟩

/-- An infinite number is assigned its own remainder in a block. -/
theorem parseProgram_run_fails_infinite_name :
    let σ : Setting := ⟨[], 10, 0⟩
    let st : State := ⟨⟨[("x", .number (Number.infinity true))], []⟩, #[], #[]⟩
    ∃ program r, parseProgram "if true \x7b\nx = x % x\n\x7d\n" = .ok program ∧
      runProgram σ 8 program st = some r ∧ r.outcome = .error .noRemainder ∧
      ∃ q, (Moment.start program st).Evaluates σ q ∧ q.InfiniteRemainder σ := by
  intro σ st
  let value : Expr := .apply .mod [.name "x", .name "x"]
  let body : List Stmt := [.declare "x" value false 2]
  let program : List Stmt := [.branch (.literal (.boolean true)) body [] 1]
  have hparse : parseProgram "if true \x7b\nx = x % x\n\x7d\n" = .ok program := by cbv
  have hmod : Value.modulus (.number (Number.infinity true)) (.number (Number.infinity true)) =
      .error .noRemainder :=
    Value.modulus_eq_noRemainder_iff.2
      ⟨_, _, rfl, rfl, ⟨true, by decide +kernel⟩, by decide +kernel, by decide⟩
  have hvalue : evaluate σ (st.enter σ).scopes value = .error .noRemainder := hmod
  have hassign : execute σ 4 (.declare "x" value false 2) (st.enter σ) =
      some ⟨.error .noRemainder, st.enter σ⟩ := by
    have hdeclare : (st.enter σ).declare σ "x" value false = ⟨.error .noRemainder, st.enter σ⟩ := by
      unfold State.declare
      rw [hvalue]
      rfl
    rw [execute_begin]
    show some (((st.enter σ).declare σ "x" value false).locate (some 2)) = _
    rw [hdeclare]
    rfl
  have hblock : executeBlock σ 6 body st = some ⟨.error .noRemainder, st⟩ := by
    rw [executeBlock, executeAll_cons, hassign]
    rfl
  have hbranch : execute σ 7 (.branch (.literal (.boolean true)) body [] 1) st =
      some ⟨.error .noRemainder, st⟩ := by
    rw [execute_begin]
    show (executeBlock σ 6 body st).map _ = _
    rw [hblock]
    rfl
  have hrun : runProgram σ 8 program st = some ⟨.error .noRemainder, st⟩ := by
    rw [runProgram, executeAll_cons, hbranch]
    rfl
  obtain ⟨-, -, hends⟩ := @parseProgram_run_fails σ _ program st hparse
  exact ⟨program, _, hparse, hrun, rfl, (hends 8 _ hrun).2.2.1 rfl⟩

end Parlance
