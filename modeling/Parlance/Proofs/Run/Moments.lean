import Mathlib.Logic.Relation
import Parlance.Proofs.Run.Scoping

/-!
# The moments of a run

A run has tasks: statements, blocks, loops and lists of statements. A moment is a task and the state in
which it is taken up, and one moment leads to another if its task comes to that one. So the moments of a
run are told whether the run ends or not, and the states that it comes by are those in which its tasks
are taken up and those that they leave (`Moment.Passes`).

A failure passes through all tasks around the one that fails; it only gets a line on the way. So a run
ends with a failure if and only if one of its moments fails by itself (`Moment.ends_error_iff`).
-/

namespace Parlance

namespace Stmt

mutual
/-- A statement and those in its blocks, at any depth. -/
def parts : Stmt → List Stmt
  | .branch condition yes no line => .branch condition yes no line :: (allParts yes ++ allParts no)
  | .loop condition body line => .loop condition body line :: allParts body
  | s => [s]
def allParts : List Stmt → List Stmt
  | [] => []
  | s :: ss => s.parts ++ allParts ss
end

theorem mem_parts_self (s : Stmt) : s ∈ s.parts := by
  cases s <;> simp [parts]

theorem mem_allParts {s : Stmt} {ss : List Stmt} (h : s ∈ ss) : s ∈ allParts ss := by
  induction ss with
  | nil => cases h
  | cons first rest ih =>
    rw [allParts, List.mem_append]
    rcases List.mem_cons.1 h with rfl | h
    · exact .inl (mem_parts_self _)
    · exact .inr (ih h)

end Stmt

/-- The state in which the work of a statement begins. -/
def State.begin (σ : Setting) (st : State) (s : Stmt) : State :=
  st.note σ.level (.statement s.line? s.label)

@[simp]
theorem State.begin_scopes (σ : Setting) (st : State) (s : Stmt) :
    (st.begin σ s).scopes = st.scopes := note_scopes ..

theorem State.scopes_of_test {σ : Setting} {st mid : State} {guard : Guard} {condition : Expr}
    {answer : Except Failure Bool} (h : st.test σ guard condition = (answer, mid)) :
    mid.scopes = st.scopes := by
  have hscopes := st.test_scopes σ guard condition
  rwa [h] at hscopes

theorem execute_begin (σ : Setting) (fuel : Nat) (s : Stmt) (st : State) :
    execute σ (fuel + 1) s st = (perform σ fuel s (st.begin σ s)).map (.locate s.line?) :=
  execute_eq σ fuel s st

section Ended

variable {σ : Setting} {fuel : Nat} {st : State} {r : Run}

theorem exists_perform {s : Stmt} (h : execute σ (fuel + 1) s st = some r) :
    ∃ inner, perform σ fuel s (st.begin σ s) = some inner ∧ inner.locate s.line? = r := by
  rw [execute_begin] at h
  exact Option.map_eq_some_iff.1 h

theorem exists_inside {body : List Stmt} (h : executeBlock σ (fuel + 1) body st = some r) :
    ∃ inner, executeAll σ fuel body .nothing (st.enter σ) = some inner ∧
      inner.leave σ.level st.scopes.depth = r := by
  rw [executeBlock] at h
  exact Option.map_eq_some_iff.1 h

/-- A loop whose condition holds ends with a round that fails, or goes on where the round has left the
state. -/
theorem round_cases {condition : Expr} {body : List Stmt} {mid : State}
    (htest : st.test σ .loop condition = (.ok true, mid))
    (h : executeLoop σ (fuel + 1) condition body st = some r) :
    (∃ f left, executeBlock σ fuel body mid = some ⟨.error f, left⟩ ∧ r = ⟨.error f, left⟩) ∨
      ∃ v next, executeBlock σ fuel body mid = some ⟨.ok v, next⟩ ∧
        executeLoop σ fuel condition body next = some r := by
  rw [executeLoop_eq, htest] at h
  exact Run.followed_eq_some.1 h

theorem first_cases {s : Stmt} {ss : List Stmt} {v : Value}
    (h : executeAll σ (fuel + 1) (s :: ss) v st = some r) :
    (∃ f left, execute σ fuel s st = some ⟨.error f, left⟩ ∧ r = ⟨.error f, left⟩) ∨
      ∃ w next, execute σ fuel s st = some ⟨.ok w, next⟩ ∧ executeAll σ fuel ss w next = some r := by
  rw [executeAll_cons] at h
  exact Run.followed_eq_some.1 h

end Ended

/-- What a run does. -/
inductive Task where
  | stmt (s : Stmt)
  | block (body : List Stmt)
  /-- The rounds of a loop that are left. -/
  | loop (condition : Expr) (body : List Stmt) (line : Int)
  /-- The statements that are left; `v` is the value of the one before. -/
  | list (ss : List Stmt) (v : Value)

namespace Task

def run (σ : Setting) (fuel : Nat) : Task → State → Option Run
  | stmt s, st => execute σ fuel s st
  | block body, st => executeBlock σ fuel body st
  | loop condition body _, st => executeLoop σ fuel condition body st
  | list ss v, st => executeAll σ fuel ss v st

/-- The statements of a task, at any depth. -/
def parts : Task → List Stmt
  | stmt s => s.parts
  | block body => Stmt.allParts body
  | loop condition body line => (Stmt.loop condition body line).parts
  | list ss _ => Stmt.allParts ss

theorem run_mono {σ : Setting} {fuel fuel' : Nat} {task : Task} {st : State} {r : Run}
    (hle : fuel ≤ fuel') (h : task.run σ fuel st = some r) : task.run σ fuel' st = some r := by
  cases task with
  | stmt s => exact (Keeps.of_le hle).stmt h
  | block body => exact (Keeps.of_le hle).block h
  | loop condition body line => exact (Keeps.of_le hle).loop h
  | list ss v => exact (Keeps.of_le hle).list h

theorem run_unique {σ : Setting} {fuel fuel' : Nat} {task : Task} {st : State} {r r' : Run}
    (h : task.run σ fuel st = some r) (h' : task.run σ fuel' st = some r') : r = r' := by
  have hmax := run_mono (Nat.le_max_left fuel fuel') h
  rw [run_mono (Nat.le_max_right fuel fuel') h'] at hmax
  exact (Option.some.inj hmax).symm

end Task

/-- A task and the state in which it is taken up. -/
structure Moment where
  task : Task
  state : State

namespace Moment

/-- The moment at which a program starts. -/
def start (program : List Stmt) (st : State) : Moment := ⟨.list program .nothing, st⟩

/-- The task of one moment comes to that of another. A task that it has done before ended within the
bound `fuel`. -/
inductive Leads (σ : Setting) (fuel : Nat) : Moment → Moment → Prop where
  | yes {condition : Expr} {yes no : List Stmt} {line : Int} {st mid : State}
      (h : (st.begin σ (.branch condition yes no line)).test σ .branch condition = (.ok true, mid)) :
      Leads σ fuel ⟨.stmt (.branch condition yes no line), st⟩ ⟨.block yes, mid⟩
  | no {condition : Expr} {yes no : List Stmt} {line : Int} {st mid : State}
      (h : (st.begin σ (.branch condition yes no line)).test σ .branch condition = (.ok false, mid)) :
      Leads σ fuel ⟨.stmt (.branch condition yes no line), st⟩ ⟨.block no, mid⟩
  | rounds {condition : Expr} {body : List Stmt} {line : Int} {st : State} :
      Leads σ fuel ⟨.stmt (.loop condition body line), st⟩
        ⟨.loop condition body line, st.begin σ (.loop condition body line)⟩
  | round {condition : Expr} {body : List Stmt} {line : Int} {st mid : State}
      (h : st.test σ .loop condition = (.ok true, mid)) :
      Leads σ fuel ⟨.loop condition body line, st⟩ ⟨.block body, mid⟩
  | again {condition : Expr} {body : List Stmt} {line : Int} {st mid next : State} {v : Value}
      (h : st.test σ .loop condition = (.ok true, mid))
      (hround : executeBlock σ fuel body mid = some ⟨.ok v, next⟩) :
      Leads σ fuel ⟨.loop condition body line, st⟩ ⟨.loop condition body line, next⟩
  | inside {body : List Stmt} {st : State} :
      Leads σ fuel ⟨.block body, st⟩ ⟨.list body .nothing, st.enter σ⟩
  | first {s : Stmt} {ss : List Stmt} {v : Value} {st : State} :
      Leads σ fuel ⟨.list (s :: ss) v, st⟩ ⟨.stmt s, st⟩
  | next {s : Stmt} {ss : List Stmt} {v w : Value} {st mid : State}
      (h : execute σ fuel s st = some ⟨.ok w, mid⟩) :
      Leads σ fuel ⟨.list (s :: ss) v, st⟩ ⟨.list ss w, mid⟩

/-- The moments that a moment comes to. -/
abbrev Comes (σ : Setting) : Moment → Moment → Prop :=
  Relation.ReflTransGen fun m m' => ∃ fuel, Leads σ fuel m m'

/-- The task of a moment ends with a run. -/
def Ends (σ : Setting) (m : Moment) (r : Run) : Prop := ∃ fuel, m.task.run σ fuel m.state = some r

/-- The states that the task of a moment comes by: those in which one of its tasks is taken up, and
those that one of them leaves, however it ends. -/
def Passes (σ : Setting) (m : Moment) (st : State) : Prop :=
  ∃ m', Comes σ m m' ∧ (st = m'.state ∨ ∃ r, m'.Ends σ r ∧ st = r.state)

/-- A moment comes only to statements that stand in its task. -/
theorem Leads.parts {σ : Setting} {fuel : Nat} {m m' : Moment} (h : Leads σ fuel m m') :
    ∀ s ∈ m'.task.parts, s ∈ m.task.parts := by
  intro s hs
  cases h with
  | yes => exact List.mem_cons_of_mem _ (List.mem_append_left _ hs)
  | no => exact List.mem_cons_of_mem _ (List.mem_append_right _ hs)
  | rounds => exact hs
  | round => exact List.mem_cons_of_mem _ hs
  | again => exact hs
  | inside => exact hs
  | first => exact List.mem_append_left _ hs
  | next => exact List.mem_append_right _ hs

theorem Comes.parts {σ : Setting} {m m' : Moment} (h : Comes σ m m') :
    ∀ s ∈ m'.task.parts, s ∈ m.task.parts := by
  induction h with
  | refl => exact fun s hs => hs
  | tail _ hlead ih =>
    obtain ⟨fuel, hlead⟩ := hlead
    exact fun s hs => ih s (hlead.parts s hs)

/-! ## Failures -/

/-- A moment fails by itself, not in a task that it leads to. -/
inductive Fails (σ : Setting) : Moment → Failure → Prop where
  | expr {e : Expr} {line : Int} {st : State} {f : Failure} (h : evaluate σ st.scopes e = .error f) :
      Fails σ ⟨.stmt (.expr e line), st⟩ f
  | print {e : Expr} {line : Int} {st : State} {f : Failure}
      (h : ((st.begin σ (.print e line)).print σ e).outcome = .error f) :
      Fails σ ⟨.stmt (.print e line), st⟩ f
  | declare {name : String} {e : Expr} {fresh : Bool} {line : Int} {st : State} {f : Failure}
      (h : ((st.begin σ (.declare name e fresh line)).declare σ name e fresh).outcome = .error f) :
      Fails σ ⟨.stmt (.declare name e fresh line), st⟩ f
  | branch {condition : Expr} {yes no : List Stmt} {line : Int} {st : State} {f : Failure}
      (h : ((st.begin σ (.branch condition yes no line)).test σ .branch condition).1 = .error f) :
      Fails σ ⟨.stmt (.branch condition yes no line), st⟩ f
  | loop {condition : Expr} {body : List Stmt} {line : Int} {st : State} {f : Failure}
      (h : (st.test σ .loop condition).1 = .error f) : Fails σ ⟨.loop condition body line, st⟩ f
  | blank {st : State} : Fails σ ⟨.stmt .blank, st⟩ .blankStatement

/-- What a task makes of the run of its last part. -/
def finish (σ : Setting) (m : Moment) (r : Run) : Run :=
  match m.task with
  | .stmt s => r.locate s.line?
  | .block _ => r.leave σ.level m.state.scopes.depth
  | .loop .. | .list .. => r

/-- A declaration binds its name to the value of its expression. -/
def Binds (σ : Setting) (m : Moment) (scopes : Scopes) : Prop :=
  ∃ name e fresh line v, m.task = .stmt (.declare name e fresh line) ∧
    evaluate σ m.state.scopes e = .ok v ∧ m.state.scopes.declare σ.limit name v fresh = .ok scopes

/-- A task comes to a run without another task. -/
structure Itself (σ : Setting) (m : Moment) (r : Run) : Prop where
  fails (f : Failure) : r.outcome = .error f → m.Fails σ f
  scopes : r.state.scopes = m.state.scopes ∨ m.Binds σ r.state.scopes

variable {σ : Setting} {fuel : Nat} {m m' : Moment} {r : Run} {f : Failure}

theorem itself_declare (name : String) (e : Expr) (fresh : Bool) (line : Int) (st : State) :
    Itself σ ⟨.stmt (.declare name e fresh line), st⟩
      ((st.begin σ (.declare name e fresh line)).declare σ name e fresh) where
  fails _ hf := .declare hf
  scopes := by
    unfold State.declare
    rw [State.begin_scopes]
    split
    · exact .inl (State.begin_scopes ..)
    · split
      · exact .inl (State.begin_scopes ..)
      · rename_i v hvalue
        split
        · exact .inl (State.begin_scopes ..)
        · rename_i hdeclare
          rw [State.tellBinding_scopes]
          exact .inr ⟨name, e, fresh, line, v, rfl, hvalue, hdeclare⟩

/-- A statement does what a task within it does, or comes to no other task. -/
theorem perform_cases {s : Stmt} {st : State} (h : perform σ fuel s (st.begin σ s) = some r) :
    (∃ m', Leads σ fuel ⟨.stmt s, st⟩ m' ∧ m'.task.run σ fuel m'.state = some r) ∨
      Itself σ ⟨.stmt s, st⟩ r := by
  cases s with
  | expr e line =>
    cases h
    refine .inr ⟨fun f hf => .expr ?_, .inl (State.begin_scopes ..)⟩
    rwa [State.begin_scopes] at hf
  | print e line =>
    cases h
    refine .inr ⟨fun f hf => .print hf, .inl ?_⟩
    rw [State.print_scopes, State.begin_scopes]
  | declare name e fresh line =>
    cases h
    exact .inr (itself_declare name e fresh line st)
  | branch condition yes no line =>
    unfold perform at h
    dsimp only at h
    split at h
    all_goals rename_i htested
    · cases h
      refine .inr ⟨?_, .inl ((State.scopes_of_test htested).trans (State.begin_scopes ..))⟩
      rintro f ⟨⟩
      exact .branch (congrArg Prod.fst htested)
    · exact .inl ⟨_, .yes htested, h⟩
    · exact .inl ⟨_, .no htested, h⟩
  | loop condition body line => exact .inl ⟨_, .rounds, h⟩
  | blank =>
    cases h
    refine .inr ⟨?_, .inl (State.begin_scopes ..)⟩
    rintro f ⟨⟩
    exact .blank

/-- A loop does what its last round does, or its condition ends it. -/
theorem loop_cases {condition : Expr} {body : List Stmt} {line : Int} {st : State}
    (h : executeLoop σ (fuel + 1) condition body st = some r) :
    (∃ m', Leads σ fuel ⟨.loop condition body line, st⟩ m' ∧ m'.task.run σ fuel m'.state = some r) ∨
      Itself σ ⟨.loop condition body line, st⟩ r := by
  obtain ⟨⟨answer, mid⟩, htest⟩ : ∃ tested, st.test σ .loop condition = tested := ⟨_, rfl⟩
  have hscopes := State.scopes_of_test htest
  match answer with
  | .error g =>
    rw [executeLoop_eq, htest] at h
    cases h
    refine .inr ⟨?_, .inl hscopes⟩
    rintro f ⟨⟩
    exact .loop (congrArg Prod.fst htest)
  | .ok false =>
    rw [executeLoop_eq, htest] at h
    cases h
    exact .inr ⟨by rintro f ⟨⟩, .inl hscopes⟩
  | .ok true =>
    rcases round_cases htest h with ⟨g, left, hround, rfl⟩ | ⟨v, next, hround, hagain⟩
    · exact .inl ⟨_, .round htest, hround⟩
    · exact .inl ⟨_, .again htest hround, hagain⟩

/-- **What a task does**: it is the run of the last task that it comes to, or it comes to no other. -/
theorem run_cases (h : m.task.run σ (fuel + 1) m.state = some r) :
    ∃ inner, r = m.finish σ inner ∧
      ((∃ m', Leads σ fuel m m' ∧ m'.task.run σ fuel m'.state = some inner) ∨ m.Itself σ inner) := by
  obtain ⟨task, st⟩ := m
  cases task with
  | stmt s =>
    obtain ⟨inner, hinner, rfl⟩ := exists_perform h
    exact ⟨inner, rfl, perform_cases hinner⟩
  | block body =>
    obtain ⟨inner, hinner, rfl⟩ := exists_inside h
    exact ⟨inner, rfl, .inl ⟨_, .inside, hinner⟩⟩
  | loop condition body line => exact ⟨r, rfl, loop_cases h⟩
  | list ss v =>
    refine ⟨r, rfl, ?_⟩
    cases ss with
    | nil =>
      cases h
      exact .inr ⟨by rintro f ⟨⟩, .inl rfl⟩
    | cons s ss =>
      rcases first_cases (v := v) h with ⟨g, left, hs, rfl⟩ | ⟨w, next, hs, hrest⟩
      · exact .inl ⟨_, .first, hs⟩
      · exact .inl ⟨_, .next hs, hrest⟩

theorem run_zero (m : Moment) : m.task.run σ 0 m.state = none := by
  obtain ⟨task, st⟩ := m
  cases task <;> simp [Task.run, execute, executeBlock, executeLoop, executeAll]

namespace Ends

variable {st : State}

theorem exists_succ (h : m.Ends σ r) : ∃ fuel, m.task.run σ (fuel + 1) m.state = some r := by
  obtain ⟨_ | fuel, hrun⟩ := h
  · cases (run_zero m).symm.trans hrun
  · exact ⟨fuel, hrun⟩

theorem unique {r' : Run} (h : m.Ends σ r) (h' : m.Ends σ r') : r = r' := by
  obtain ⟨fuel, hrun⟩ := h
  obtain ⟨fuel', hrun'⟩ := h'
  exact Task.run_unique hrun hrun'

theorem stmt {s : Stmt} (h : Ends σ ⟨.stmt s, st⟩ r) :
    ∃ fuel inner, perform σ fuel s (st.begin σ s) = some inner ∧ inner.locate s.line? = r := by
  obtain ⟨fuel, hrun⟩ := h.exists_succ
  exact ⟨fuel, exists_perform hrun⟩

theorem block {body : List Stmt} (h : Ends σ ⟨.block body, st⟩ r) :
    ∃ inner, Ends σ ⟨.list body .nothing, st.enter σ⟩ inner ∧
      inner.leave σ.level st.scopes.depth = r := by
  obtain ⟨fuel, hrun⟩ := h.exists_succ
  obtain ⟨inner, hinner, hleave⟩ := exists_inside hrun
  exact ⟨inner, ⟨fuel, hinner⟩, hleave⟩

theorem loop {condition : Expr} {body : List Stmt} {line : Int} {mid : State}
    (htest : st.test σ .loop condition = (.ok true, mid)) (h : Ends σ ⟨.loop condition body line, st⟩ r) :
    (∃ f left, Ends σ ⟨.block body, mid⟩ ⟨.error f, left⟩ ∧ r = ⟨.error f, left⟩) ∨
      ∃ v next, Ends σ ⟨.block body, mid⟩ ⟨.ok v, next⟩ ∧ Ends σ ⟨.loop condition body line, next⟩ r := by
  obtain ⟨fuel, hrun⟩ := h.exists_succ
  rcases round_cases htest hrun with ⟨f, left, hround, hr⟩ | ⟨v, next, hround, hagain⟩
  · exact .inl ⟨f, left, ⟨fuel, hround⟩, hr⟩
  · exact .inr ⟨v, next, ⟨fuel, hround⟩, ⟨fuel, hagain⟩⟩

theorem list {s : Stmt} {ss : List Stmt} {v : Value} (h : Ends σ ⟨.list (s :: ss) v, st⟩ r) :
    (∃ f left, Ends σ ⟨.stmt s, st⟩ ⟨.error f, left⟩ ∧ r = ⟨.error f, left⟩) ∨
      ∃ w next, Ends σ ⟨.stmt s, st⟩ ⟨.ok w, next⟩ ∧ Ends σ ⟨.list ss w, next⟩ r := by
  obtain ⟨fuel, hrun⟩ := h.exists_succ
  rcases first_cases (v := v) hrun with ⟨f, left, hs, hr⟩ | ⟨w, next, hs, hrest⟩
  · exact .inl ⟨f, left, ⟨fuel, hs⟩, hr⟩
  · exact .inr ⟨w, next, ⟨fuel, hs⟩, ⟨fuel, hrest⟩⟩

end Ends

/-- A run that ends has ended the tasks that it came to. They succeeded, but for the last one, which
tells how the run ends. -/
theorem Leads.ends {bound : Nat} (hlead : Leads σ bound m m') (h : m.Ends σ r) :
    ∃ r', m'.Ends σ r' ∧ ((∃ v, r'.outcome = .ok v) ∨ r = m.finish σ r') := by
  cases hlead with
  | yes htest =>
    obtain ⟨fuel, inner, hinner, rfl⟩ := h.stmt
    rw [perform, htest] at hinner
    exact ⟨inner, ⟨fuel, hinner⟩, .inr rfl⟩
  | no htest =>
    obtain ⟨fuel, inner, hinner, rfl⟩ := h.stmt
    rw [perform, htest] at hinner
    exact ⟨inner, ⟨fuel, hinner⟩, .inr rfl⟩
  | rounds =>
    obtain ⟨fuel, inner, hinner, rfl⟩ := h.stmt
    exact ⟨inner, ⟨fuel, hinner⟩, .inr rfl⟩
  | round htest =>
    rcases h.loop htest with ⟨f, left, hround, rfl⟩ | ⟨v, next, hround, -⟩
    · exact ⟨_, hround, .inr rfl⟩
    · exact ⟨_, hround, .inl ⟨v, rfl⟩⟩
  | @again condition body line st mid next v htest hround =>
    have hblock : Ends σ ⟨.block body, mid⟩ ⟨.ok v, next⟩ := ⟨bound, hround⟩
    rcases h.loop htest with ⟨f, left, hround', rfl⟩ | ⟨w, left, hround', hagain⟩
    · cases hblock.unique hround'
    · cases hblock.unique hround'
      exact ⟨_, hagain, .inr rfl⟩
  | inside =>
    obtain ⟨inner, hinner, rfl⟩ := h.block
    exact ⟨inner, hinner, .inr rfl⟩
  | first =>
    rcases h.list with ⟨f, left, hs, rfl⟩ | ⟨w, left, hs, -⟩
    · exact ⟨_, hs, .inr rfl⟩
    · exact ⟨_, hs, .inl ⟨w, rfl⟩⟩
  | @next s ss v w st mid hs =>
    have hstmt : Ends σ ⟨.stmt s, st⟩ ⟨.ok w, mid⟩ := ⟨bound, hs⟩
    rcases h.list with ⟨f, left, hs', rfl⟩ | ⟨u, left, hs', hrest⟩
    · cases hstmt.unique hs'
    · cases hstmt.unique hs'
      exact ⟨_, hrest, .inr rfl⟩

end Moment

/-! ## Where failures come from -/

/-- A failure as it leaves a statement, without the line. -/
def Failure.bare (f : Failure) : Failure :=
  match f with
  | .error e => .of e.cause
  | .tooDeep => .of .expressionTooDeep
  | f => f

theorem Failure.bare_locate (f : Failure) (line : Option Int) : (f.locate line).bare = f.bare := by
  cases f with
  | error e =>
    obtain ⟨cause, line'⟩ := e
    cases line' <;> rfl
  | _ => rfl

namespace Moment

variable {σ : Setting} {fuel : Nat} {m m' : Moment} {r : Run} {f : Failure}

/-- A task gives a failure of its last part a line, and changes nothing else about it. -/
theorem finish_error {inner : Run} {b : Failure} :
    (∃ f, (m.finish σ inner).outcome = .error f ∧ f.bare = b) ↔
      ∃ g, inner.outcome = .error g ∧ g.bare = b := by
  obtain ⟨task, st⟩ := m
  obtain ⟨outcome, left⟩ := inner
  cases outcome with
  | ok v => cases task <;> simp [finish, Run.locate, Run.leave]
  | error g => cases task <;> simp [finish, Run.locate, Run.leave, Failure.bare_locate]

/-- A failure has a moment that fails by itself. -/
theorem exists_fails (h : m.task.run σ fuel m.state = some r) (hf : r.outcome = .error f) :
    ∃ m' g, Comes σ m m' ∧ m'.Fails σ g ∧ g.bare = f.bare := by
  induction fuel generalizing m r f with
  | zero => cases (run_zero m).symm.trans h
  | succ fuel ih =>
    obtain ⟨inner, rfl, hinner⟩ := run_cases h
    obtain ⟨g, hg, hbare⟩ := finish_error.1 ⟨f, hf, rfl⟩
    rcases hinner with ⟨m', hlead, hrun⟩ | hitself
    · obtain ⟨m'', g', hcomes, hfails, hbare'⟩ := ih hrun hg
      exact ⟨m'', g', hcomes.head ⟨fuel, hlead⟩, hfails, hbare'.trans hbare⟩
    · exact ⟨m, g, .refl, hitself.fails g hg, hbare⟩

/-- A moment that fails by itself makes a run of its failure. -/
theorem Fails.finish (hf : m.Fails σ f) (h : m.Ends σ r) :
    ∃ inner, r = m.finish σ inner ∧ inner.outcome = .error f := by
  cases hf with
  | expr hf =>
    obtain ⟨fuel, inner, hinner, rfl⟩ := h.stmt
    cases hinner
    exact ⟨_, rfl, by rwa [State.begin_scopes]⟩
  | print hf =>
    obtain ⟨fuel, inner, hinner, rfl⟩ := h.stmt
    cases hinner
    exact ⟨_, rfl, hf⟩
  | declare hf =>
    obtain ⟨fuel, inner, hinner, rfl⟩ := h.stmt
    cases hinner
    exact ⟨_, rfl, hf⟩
  | @branch condition yes no line st _ hf =>
    obtain ⟨fuel, inner, hinner, rfl⟩ := h.stmt
    obtain ⟨mid, htest⟩ : ∃ mid, (st.begin σ _).test σ .branch condition = (.error f, mid) :=
      ⟨_, Prod.ext hf rfl⟩
    rw [perform, htest] at hinner
    cases hinner
    exact ⟨⟨.error f, mid⟩, rfl, rfl⟩
  | @loop condition body line st _ hf =>
    obtain ⟨fuel, hrun⟩ := h.exists_succ
    have hloop : executeLoop σ (fuel + 1) condition body st = some r := hrun
    obtain ⟨mid, htest⟩ : ∃ mid, st.test σ .loop condition = (.error f, mid) :=
      ⟨_, Prod.ext hf rfl⟩
    rw [executeLoop_eq, htest] at hloop
    cases hloop
    exact ⟨⟨.error f, mid⟩, rfl, rfl⟩
  | blank =>
    obtain ⟨fuel, inner, hinner, rfl⟩ := h.stmt
    cases hinner
    exact ⟨⟨.error .blankStatement, _⟩, rfl, rfl⟩

/-- A moment that fails by itself ends with its failure. -/
theorem Fails.ends (hf : m.Fails σ f) (h : m.Ends σ r) :
    ∃ g, r.outcome = .error g ∧ g.bare = f.bare := by
  obtain ⟨inner, rfl, houtcome⟩ := hf.finish h
  exact finish_error.2 ⟨f, houtcome, rfl⟩

/-- **A run fails where one of its moments fails by itself**, and the failure is that of the moment. -/
theorem ends_error_iff (h : m.Ends σ r) (b : Failure) :
    (∃ f, r.outcome = .error f ∧ f.bare = b) ↔
      ∃ m' f, Comes σ m m' ∧ m'.Fails σ f ∧ f.bare = b := by
  constructor
  · rintro ⟨f, hf, rfl⟩
    obtain ⟨fuel, hrun⟩ := h
    exact exists_fails hrun hf
  · rintro ⟨m', f, hcomes, hfails, rfl⟩
    -- from the start on: a task that failed on the way would have ended the run before `m'`
    induction hcomes using Relation.ReflTransGen.head_induction_on generalizing r with
    | refl => exact hfails.ends h
    | head hlead _ ih =>
      obtain ⟨bound, hlead⟩ := hlead
      obtain ⟨r', hends, ⟨v, hv⟩ | rfl⟩ := hlead.ends h
      · obtain ⟨g, hg, -⟩ := ih hends
        cases hv.symm.trans hg
      · exact finish_error.2 (ih hends)

end Moment

end Parlance
