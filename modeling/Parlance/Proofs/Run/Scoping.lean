import Parlance.Proofs.Run.Bound
import Parlance.Proofs.Scopes.Names

/-!
# Runs and the names of scopes

A statement leaves the stack as deep as it was, and every scope of it with its names in their order.
Only a declaration brings a name that was not there, one, at the end of the current scope. This holds
however the statement ends: a block that fails is left like one that succeeds, so nothing that it
introduced stays behind (`execute_names`).

Statements one after another may bring many names to the current scope (`Scopes.Extends`). In a block
that is the scope of the block, which is dropped with them (`Scopes.Extends.names_cut`).
-/

namespace Parlance

/-! ## The scopes of a state -/

namespace State

variable (σ : Setting) (st : State)

@[simp]
theorem note_scopes (level : Nat) (n : Note) : (st.note level n).scopes = st.scopes := by
  unfold note
  split <;> rfl

@[simp]
theorem enter_scopes : (st.enter σ).scopes = st.scopes.push := by
  unfold enter
  rw [note_scopes]

theorem print_scopes (e : Expr) : (st.print σ e).state.scopes = st.scopes := by
  unfold print
  split <;> rfl

theorem tellBinding_scopes (name : String) (v : Value) :
    (st.tellBinding σ name v).state.scopes = st.scopes := by
  unfold tellBinding
  split
  · split
    · exact note_scopes ..
    · rfl
  · rfl

theorem tellCondition_scopes {guard : Guard} {condition : Expr} {v : Value} {told : State}
    (h : st.tellCondition σ guard condition v = .ok told) : told.scopes = st.scopes := by
  unfold tellCondition at h
  split at h
  · split at h
    · cases h
      exact note_scopes ..
    · cases h
  · cases h
    rfl

theorem test_scopes (guard : Guard) (condition : Expr) :
    (st.test σ guard condition).2.scopes = st.scopes := by
  unfold test
  split
  · rfl
  · split
    · rfl
    · rename_i htold
      split <;> exact tellCondition_scopes σ st htold

end State

namespace Run

@[simp]
theorem locate_state (line : Option Int) (run : Run) : (run.locate line).state = run.state := by
  unfold locate
  split <;> rfl

theorem leave_scopes (level depth : Nat) (run : Run) :
    (run.leave level depth).state.scopes = run.state.scopes.cut depth := by
  unfold leave
  dsimp only
  split
  · exact State.note_scopes ..
  · rfl

end Run

/-! ## Stacks with more names -/

namespace Scopes

/-- The scopes of `t` are those of `s`, the current one with names more at its end. -/
structure Extends (s t : Scopes) : Prop where
  inner : s.inner.names <+: t.inner.names
  outer : t.outer.map Scope.names = s.outer.map Scope.names

namespace Extends

variable {s t u : Scopes}

theorem of_names (h : t.names = s.names) : s.Extends t := by
  rw [names_eq_cons, names_eq_cons] at h
  obtain ⟨hinner, houter⟩ := List.cons.inj h
  exact ⟨hinner ▸ List.prefix_refl _, houter⟩

theorem of_scopes (h : t = s) : s.Extends t := of_names (congrArg names h)

theorem trans (h : s.Extends t) (h' : t.Extends u) : s.Extends u :=
  ⟨h.inner.trans h'.inner, h'.outer.trans h.outer⟩

theorem length_outer (h : s.Extends t) : t.outer.length = s.outer.length := by
  have hlength := congrArg List.length h.outer
  rwa [List.length_map, List.length_map] at hlength

theorem depth_eq (h : s.Extends t) : t.depth = s.depth := congrArg (· + 1) h.length_outer

/-- A block drops its scope and no other. -/
theorem frames_cut (h : s.push.Extends t) : (t.cut s.depth).frames = t.outer := by
  have houter : t.outer.length = s.depth := h.length_outer
  have hdrop : t.depth - max s.depth 1 = 1 := by
    have hdepth : t.depth = t.outer.length + 1 := rfl
    have hpos : s.depth = s.outer.length + 1 := rfl
    omega
  rw [Scopes.frames_cut, hdrop]
  rfl

/-- A block drops what came to its scope, and leaves the scopes around it with their names. -/
theorem names_cut (h : s.push.Extends t) : (t.cut s.depth).names = s.names := by
  unfold names
  rw [h.frames_cut]
  exact h.outer

end Extends

end Scopes

/-- What a statement may do to the names of a stack: nothing, or introduce the name of a
declaration. -/
def Stmt.Introduces (stmt : Stmt) (s t : Scopes) : Prop :=
  t.names = s.names ∨ ∃ name value line, stmt = .declare name value true line ∧
    s.binds name = false ∧ t.names = (s.inner.names ++ [name]) :: s.outer.map Scope.names

theorem Stmt.Introduces.extends {stmt : Stmt} {s t : Scopes} (h : stmt.Introduces s t) :
    s.Extends t := by
  rcases h with hnames | ⟨name, value, line, -, -, hnames⟩
  · exact .of_names hnames
  · obtain ⟨hinner, houter⟩ := List.cons.inj hnames
    exact ⟨hinner ▸ List.prefix_append _ _, houter⟩

theorem State.declare_introduces (σ : Setting) (st : State) (name : String) (value : Expr)
    (fresh : Bool) (line : Int) :
    (Stmt.declare name value fresh line).Introduces st.scopes
      (st.declare σ name value fresh).state.scopes := by
  unfold State.declare
  split
  · exact .inl rfl
  · split
    · exact .inl rfl
    · split
      · exact .inl rfl
      · rename_i hdeclare
        rw [tellBinding_scopes]
        rcases Scopes.names_declare hdeclare with hnames | ⟨rfl, hbinds, hnames⟩
        · exact .inl hnames
        · exact .inr ⟨name, value, line, rfl, hbinds, hnames⟩

/-! ## Every run -/

/-- What runs within the bound `fuel` do to the names of the stack. -/
structure Scoped (σ : Setting) (fuel : Nat) : Prop where
  stmt {s : Stmt} {st : State} {r : Run} :
    execute σ fuel s st = some r → s.Introduces st.scopes r.state.scopes
  block {body : List Stmt} {st : State} {r : Run} :
    executeBlock σ fuel body st = some r → r.state.scopes.names = st.scopes.names
  loop {condition : Expr} {body : List Stmt} {st : State} {r : Run} :
    executeLoop σ fuel condition body st = some r → r.state.scopes.names = st.scopes.names
  list {ss : List Stmt} {v : Value} {st : State} {r : Run} :
    executeAll σ fuel ss v st = some r → st.scopes.Extends r.state.scopes

namespace Scoped

variable {σ : Setting} {fuel : Nat}

theorem zero : Scoped σ 0 where
  stmt h := by simp [execute] at h
  block h := by simp [executeBlock] at h
  loop h := by simp [executeLoop] at h
  list h := by simp [executeAll] at h

section Step

variable (h : Scoped σ fuel) {st : State} {r : Run}
include h

/-- Only a declaration that succeeds reaches the stack itself; what else changes names is in a
block. -/
theorem perform_introduces {s : Stmt} (hr : perform σ fuel s st = some r) :
    s.Introduces st.scopes r.state.scopes := by
  cases s with
  | expr e line =>
    cases hr
    exact .inl rfl
  | print e line =>
    cases hr
    exact .inl (by rw [State.print_scopes])
  | declare name value fresh line =>
    cases hr
    exact st.declare_introduces σ name value fresh line
  | branch condition yes no line =>
    have htest := st.test_scopes σ .branch condition
    unfold perform at hr
    dsimp only at hr
    split at hr
    · rename_i htested
      rw [htested] at htest
      cases hr
      exact .inl (congrArg Scopes.names htest)
    all_goals
      rename_i htested
      rw [htested] at htest
      exact .inl ((h.block hr).trans (congrArg Scopes.names htest))
  | loop condition body line => exact .inl (h.loop hr)
  | blank =>
    cases hr
    exact .inl rfl

theorem execute_succ {s : Stmt} (hr : execute σ (fuel + 1) s st = some r) :
    s.Introduces st.scopes r.state.scopes := by
  rw [execute_eq] at hr
  obtain ⟨inner, hinner, rfl⟩ := Option.map_eq_some_iff.1 hr
  rw [Run.locate_state]
  have hnames := h.perform_introduces hinner
  rwa [State.note_scopes] at hnames

theorem executeBlock_succ {body : List Stmt} (hr : executeBlock σ (fuel + 1) body st = some r) :
    r.state.scopes.names = st.scopes.names := by
  rw [executeBlock] at hr
  obtain ⟨inner, hinner, rfl⟩ := Option.map_eq_some_iff.1 hr
  have hextends := h.list hinner
  rw [State.enter_scopes] at hextends
  rw [Run.leave_scopes]
  exact hextends.names_cut

theorem executeLoop_succ {condition : Expr} {body : List Stmt}
    (hr : executeLoop σ (fuel + 1) condition body st = some r) :
    r.state.scopes.names = st.scopes.names := by
  have htest := st.test_scopes σ .loop condition
  rw [executeLoop_eq] at hr
  split at hr
  all_goals
    rename_i htested
    rw [htested] at htest
    have hnames := congrArg Scopes.names htest
  · cases hr
    exact hnames
  · cases hr
    exact hnames
  · rcases Run.followed_eq_some.1 hr with ⟨f, left, hblock, rfl⟩ | ⟨v, left, hblock, hagain⟩
    · exact (h.block hblock).trans hnames
    · exact (h.loop hagain).trans ((h.block hblock).trans hnames)

theorem executeAll_succ {ss : List Stmt} {v : Value}
    (hr : executeAll σ (fuel + 1) ss v st = some r) : st.scopes.Extends r.state.scopes := by
  cases ss with
  | nil =>
    cases hr
    exact .of_scopes rfl
  | cons s ss =>
    rw [executeAll_cons] at hr
    rcases Run.followed_eq_some.1 hr with ⟨f, left, hs, rfl⟩ | ⟨w, left, hs, hrest⟩
    · exact (h.stmt hs).extends
    · exact (h.stmt hs).extends.trans (h.list hrest)

end Step

theorem all (fuel : Nat) : Scoped σ fuel := by
  induction fuel with
  | zero => exact zero
  | succ fuel h => exact ⟨h.execute_succ, h.executeBlock_succ, h.executeLoop_succ, h.executeAll_succ⟩

end Scoped

/-- A program leaves the stack as deep as it was, with the names that it had. -/
theorem runProgram_extends {σ : Setting} {fuel : Nat} {program : List Stmt} {st : State} {r : Run}
    (h : runProgram σ fuel program st = some r) : st.scopes.Extends r.state.scopes :=
  (Scoped.all fuel).list h

/-- **Scopes are kept on every way out of a statement.** However a statement ends, the stack is as
deep as before, and every scope has the names that it had, in their order. A declaration may put its
name behind those of the current scope, if nothing bound it; no other statement brings a name, so
that after it the same names are bound as before. -/
theorem execute_names {σ : Setting} {fuel : Nat} {s : Stmt} {st : State} {r : Run}
    (h : execute σ fuel s st = some r) :
    r.state.scopes.depth = st.scopes.depth ∧
    (∀ name value fresh line, s = .declare name value fresh line →
      r.state.scopes.names = st.scopes.names ∨
        fresh = true ∧ st.scopes.binds name = false ∧
          r.state.scopes.names = (st.scopes.inner.names ++ [name]) :: st.scopes.outer.map Scope.names) ∧
    ((∀ name value fresh line, s ≠ .declare name value fresh line) →
      r.state.scopes.names = st.scopes.names ∧
        ∀ name, r.state.scopes.binds name = st.scopes.binds name) := by
  have hnames := (Scoped.all fuel).stmt h
  refine ⟨hnames.extends.depth_eq, ?_, fun hs => ?_⟩
  · rintro name value fresh line rfl
    rcases hnames with hnames | ⟨name, value, line, ⟨⟩, hbinds, hnames⟩
    · exact .inl hnames
    · exact .inr ⟨rfl, hbinds, hnames⟩
  · rcases hnames with hnames | ⟨name, value, line, rfl, -⟩
    · exact ⟨hnames, Scopes.binds_eq_of_names hnames⟩
    · exact absurd rfl (hs name value true line)

/-- A name that is not bound is met in a loop inside a conditional. Both blocks have introduced a name
by then, and neither name stays. -/
theorem execute_names_unbound_in_loop :
    let σ : Setting := ⟨[], 10, 0⟩
    let st : State := ⟨⟨[("a", .boolean true)], [[("a", .boolean false), ("b", .nothing)]]⟩, #[], #[]⟩
    let s : Stmt := .branch (.name "a")
      [.declare "x" (.name "a") true 2,
        .loop (.name "x") [.declare "y" (.name "x") true 4, .print (.name "z") 5] 3] [] 1
    ∃ r, execute σ 12 s st = some r ∧ (∃ f, r.outcome = .error f) ∧
      r.state.scopes.names = [["a"], ["a", "b"]] ∧
      r.state.scopes.binds "x" = false ∧ r.state.scopes.binds "y" = false := by
  intro σ st s
  have hrun : execute σ 12 s st = some ⟨.error (.error ⟨.undefinedVariable "z"
      ⟨[("y", .boolean true)], [("x", .boolean true)] :: st.scopes.frames⟩, some 5⟩), st⟩ := rfl
  obtain ⟨-, -, hkept⟩ := execute_names hrun
  obtain ⟨hnames, hbinds⟩ := hkept (by simp [s])
  refine ⟨_, hrun, ⟨_, rfl⟩, hnames, ?_, ?_⟩
  · rw [hbinds]
    decide
  · rw [hbinds]
    decide

end Parlance
