import Parlance.Run

/-!
# Bounds on runs

A run that ends within a bound ends the same way within every greater one, so the bound says only
how long to wait. Statements after one another run as the first part and then, from where that
leaves the state, the second (`executeAll_append`).
-/

namespace Parlance

/-! ## One run after another -/

/-- A run and, if it succeeds, another after it. -/
def Run.followed (run : Option Run) (next : Value → State → Option Run) : Option Run :=
  match run with
  | some ⟨.ok v, st⟩ => next v st
  | run => run

theorem Run.followed_eq_some {run : Option Run} {next : Value → State → Option Run} {r : Run} :
    followed run next = some r ↔
      (∃ f st, run = some ⟨.error f, st⟩ ∧ r = ⟨.error f, st⟩) ∨
        ∃ v st, run = some ⟨.ok v, st⟩ ∧ next v st = some r := by
  cases run with
  | none => simp [followed]
  | some run =>
    obtain ⟨outcome, st⟩ := run
    cases outcome with
    | error f =>
      constructor
      · exact fun h => .inl ⟨f, st, rfl, (Option.some.inj h).symm⟩
      · rintro (⟨f, st, ⟨⟩, rfl⟩ | ⟨v, st, ⟨⟩, -⟩)
        rfl
    | ok v =>
      constructor
      · exact fun h => .inr ⟨v, st, rfl, h⟩
      · rintro (⟨f, st, ⟨⟩, -⟩ | ⟨v, st, ⟨⟩, h⟩)
        exact h

section Equations

variable (σ : Setting) (fuel : Nat)

/-- What a statement does, from when it is noted until it is left. -/
def perform (s : Stmt) (st : State) : Option Run :=
  match s with
  | .expr e _ => some ⟨evaluate σ st.scopes e, st⟩
  | .print e _ => some (st.print σ e)
  | .declare name e fresh _ => some (st.declare σ name e fresh)
  | .branch condition yes no _ =>
    match st.test σ .branch condition with
    | (.error f, st) => some ⟨.error f, st⟩
    | (.ok true, st) => executeBlock σ fuel yes st
    | (.ok false, st) => executeBlock σ fuel no st
  | .loop condition body _ => executeLoop σ fuel condition body st
  | .blank => some ⟨.error .blankStatement, st⟩

theorem execute_eq (s : Stmt) (st : State) :
    execute σ (fuel + 1) s st =
      (perform σ fuel s (st.note σ.level (.statement s.line? s.label))).map (.locate s.line?) := by
  rw [execute.eq_def]
  rfl

theorem executeAll_cons (s : Stmt) (ss : List Stmt) (v : Value) (st : State) :
    executeAll σ (fuel + 1) (s :: ss) v st =
      Run.followed (execute σ fuel s st) (executeAll σ fuel ss) := by
  rw [executeAll]
  rfl

theorem executeLoop_eq (condition : Expr) (body : List Stmt) (st : State) :
    executeLoop σ (fuel + 1) condition body st =
      match st.test σ .loop condition with
      | (.error f, st) => some ⟨.error f, st⟩
      | (.ok false, st) => some ⟨.ok .nothing, st⟩
      | (.ok true, st) =>
        Run.followed (executeBlock σ fuel body st) fun _ st => executeLoop σ fuel condition body st := by
  rw [executeLoop]
  rfl

end Equations

/-! ## Greater bounds -/

/-- Whatever ends within the bound `fuel` ends the same way within `fuel'`. -/
structure Keeps (σ : Setting) (fuel fuel' : Nat) : Prop where
  stmt {s : Stmt} {st : State} {r : Run} :
    execute σ fuel s st = some r → execute σ fuel' s st = some r
  block {body : List Stmt} {st : State} {r : Run} :
    executeBlock σ fuel body st = some r → executeBlock σ fuel' body st = some r
  loop {condition : Expr} {body : List Stmt} {st : State} {r : Run} :
    executeLoop σ fuel condition body st = some r →
      executeLoop σ fuel' condition body st = some r
  list {ss : List Stmt} {v : Value} {st : State} {r : Run} :
    executeAll σ fuel ss v st = some r → executeAll σ fuel' ss v st = some r

namespace Keeps

variable {σ : Setting} {fuel fuel' : Nat}

theorem zero : Keeps σ 0 fuel' where
  stmt h := by simp [execute] at h
  block h := by simp [executeBlock] at h
  loop h := by simp [executeLoop] at h
  list h := by simp [executeAll] at h

section Step

variable (h : Keeps σ fuel fuel')
include h

theorem execute_succ {s : Stmt} {st : State} {r : Run} (hr : execute σ (fuel + 1) s st = some r) :
    execute σ (fuel' + 1) s st = some r := by
  rw [execute_eq] at hr ⊢
  obtain ⟨inner, hinner, hlocate⟩ := Option.map_eq_some_iff.1 hr
  refine Option.map_eq_some_iff.2 ⟨inner, ?_, hlocate⟩
  cases s with
  | branch condition yes no line =>
    unfold perform at hinner ⊢
    dsimp only at hinner ⊢
    split at hinner
    · exact hinner
    · exact h.block hinner
    · exact h.block hinner
  | loop condition body line => exact h.loop hinner
  | expr e line => exact hinner
  | print e line => exact hinner
  | declare name value fresh line => exact hinner
  | blank => exact hinner

theorem executeBlock_succ {body : List Stmt} {st : State} {r : Run}
    (hr : executeBlock σ (fuel + 1) body st = some r) :
    executeBlock σ (fuel' + 1) body st = some r := by
  rw [executeBlock] at hr ⊢
  obtain ⟨inner, hinner, hleave⟩ := Option.map_eq_some_iff.1 hr
  exact Option.map_eq_some_iff.2 ⟨inner, h.list hinner, hleave⟩

theorem executeLoop_succ {condition : Expr} {body : List Stmt} {st : State} {r : Run}
    (hr : executeLoop σ (fuel + 1) condition body st = some r) :
    executeLoop σ (fuel' + 1) condition body st = some r := by
  rw [executeLoop_eq] at hr ⊢
  split at hr
  · exact hr
  · exact hr
  · rcases Run.followed_eq_some.1 hr with ⟨f, st, hrun, hend⟩ | ⟨v, st, hrun, hnext⟩
    · exact Run.followed_eq_some.2 (.inl ⟨f, st, h.block hrun, hend⟩)
    · exact Run.followed_eq_some.2 (.inr ⟨v, st, h.block hrun, h.loop hnext⟩)

theorem executeAll_succ {ss : List Stmt} {v : Value} {st : State} {r : Run}
    (hr : executeAll σ (fuel + 1) ss v st = some r) :
    executeAll σ (fuel' + 1) ss v st = some r := by
  cases ss with
  | nil => exact hr
  | cons s ss =>
    rw [executeAll_cons] at hr ⊢
    rcases Run.followed_eq_some.1 hr with ⟨f, st, hrun, hend⟩ | ⟨v, st, hrun, hnext⟩
    · exact Run.followed_eq_some.2 (.inl ⟨f, st, h.stmt hrun, hend⟩)
    · exact Run.followed_eq_some.2 (.inr ⟨v, st, h.stmt hrun, h.list hnext⟩)

theorem succ : Keeps σ (fuel + 1) (fuel' + 1) :=
  ⟨h.execute_succ, h.executeBlock_succ, h.executeLoop_succ, h.executeAll_succ⟩

end Step

/-- **A greater bound never changes how a run ends.** -/
theorem of_le {fuel fuel' : Nat} (hle : fuel ≤ fuel') : Keeps σ fuel fuel' := by
  induction fuel generalizing fuel' with
  | zero => exact zero
  | succ fuel ih =>
    obtain ⟨fuel', rfl⟩ := Nat.exists_eq_add_of_le' (Nat.le_trans (Nat.le_add_left 1 fuel) hle)
    exact (ih (Nat.le_of_succ_le_succ hle)).succ

end Keeps

/-- **Statements after one another**: the first run as they do by themselves, the others from where
these leave the state, with what is left of the bound. -/
theorem executeAll_append {σ : Setting} {fuel : Nat} {ss : List Stmt} {v w : Value} {st st' : State}
    (h : executeAll σ fuel ss v st = some ⟨.ok w, st'⟩) :
    ss.length < fuel ∧ ∀ more extra, executeAll σ (fuel + extra) (ss ++ more) v st =
      executeAll σ (fuel + extra - ss.length) more w st' := by
  induction ss generalizing fuel v st with
  | nil =>
    cases fuel with
    | zero => simp [executeAll] at h
    | succ fuel =>
      cases h
      exact ⟨Nat.succ_pos fuel, fun more extra => rfl⟩
  | cons s ss ih =>
    cases fuel with
    | zero => simp [executeAll] at h
    | succ fuel =>
      rw [executeAll_cons] at h
      rcases Run.followed_eq_some.1 h with ⟨f, st, -, hend⟩ | ⟨u, mid, hrun, hnext⟩
      · cases hend
      · obtain ⟨hlt, hmore⟩ := ih hnext
        refine ⟨Nat.succ_lt_succ hlt, fun more extra => ?_⟩
        rw [Nat.succ_add, List.cons_append, executeAll_cons,
          (Keeps.of_le (Nat.le_add_right fuel extra)).stmt hrun]
        show executeAll σ (fuel + extra) (ss ++ more) u mid = _
        rw [hmore, List.length_cons, Nat.succ_sub_succ]

end Parlance
