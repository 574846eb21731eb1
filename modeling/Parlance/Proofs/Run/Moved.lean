import Parlance.Proofs.Reader.Splice
import Parlance.Proofs.Run.Bound

/-!
# Runs of moved statements

The lines of statements, the lines printed before and the trace have no part in how a run succeeds.
Statements that succeed from one state succeed from every state with the same scopes, with the same
value, and print the same lines.
-/

namespace Parlance

/-- The same scopes; the second state has printed some lines first. -/
structure State.Alike (before : Array String) (st st' : State) : Prop where
  scopes : st'.scopes = st.scopes
  printed : st'.printed = before ++ st.printed

/-- Where the first run succeeds, so does the second, with the same value. -/
def Run.Repeats (before : Array String) (run run' : Option Run) : Prop :=
  ∀ v st, run = some ⟨.ok v, st⟩ → ∃ st', run' = some ⟨.ok v, st'⟩ ∧ st.Alike before st'

variable {σ : Setting} {before : Array String}

namespace State.Alike

variable {st st' : State} (h : st.Alike before st')
include h

theorem note (level : Nat) (n n' : Note) : (st.note level n).Alike before (st'.note level n') := by
  unfold State.note
  split <;> split <;> exact ⟨h.scopes, h.printed⟩

theorem rescoped (scopes : Scopes) :
    ({ st with scopes := scopes } : State).Alike before { st' with scopes := scopes } :=
  ⟨rfl, h.printed⟩

theorem enter : (st.enter σ).Alike before (st'.enter σ) := by
  unfold State.enter
  rw [h.scopes]
  exact (h.rescoped _).note ..

theorem print (e : Expr) : Run.Repeats before (some (st.print σ e)) (some (st'.print σ e)) := by
  intro v left hprint
  unfold State.print at hprint ⊢
  rw [h.scopes]
  cases htext : evaluate σ st.scopes e >>= Value.textWithin σ.limit with
  | error f =>
    rw [htext] at hprint
    cases hprint
  | ok line =>
    rw [htext] at hprint
    cases hprint
    refine ⟨_, rfl, rfl, ?_⟩
    show st'.printed.push line = before ++ st.printed.push line
    rw [h.printed, Array.append_push]

theorem tellBinding (name : String) (value : Value) :
    Run.Repeats before (some (st.tellBinding σ name value)) (some (st'.tellBinding σ name value)) := by
  intro v left htell
  unfold State.tellBinding at htell ⊢
  split at htell
  · rw [if_pos ‹_›]
    split at htell
    · cases htell
      exact ⟨_, rfl, h.note ..⟩
    · cases htell
  · rw [if_neg ‹_›]
    cases htell
    exact ⟨_, rfl, h⟩

theorem declare (name : String) (e : Expr) (fresh : Bool) :
    Run.Repeats before (some (st.declare σ name e fresh)) (some (st'.declare σ name e fresh)) := by
  intro v left hdeclare
  unfold State.declare at hdeclare ⊢
  rw [h.scopes]
  split at hdeclare
  · cases hdeclare
  · rw [if_neg ‹_›]
    split at hdeclare
    · cases hdeclare
    · split at hdeclare
      · cases hdeclare
      · exact (h.rescoped _).tellBinding name _ v left hdeclare

theorem tellCondition {guard : Guard} {condition : Expr} {value : Value} {left : State}
    (htell : st.tellCondition σ guard condition value = .ok left) :
    ∃ left', st'.tellCondition σ guard condition value = .ok left' ∧ left.Alike before left' := by
  unfold State.tellCondition at htell ⊢
  split at htell
  · rw [if_pos ‹_›]
    split at htell
    · cases htell
      exact ⟨_, rfl, h.note ..⟩
    · cases htell
  · rw [if_neg ‹_›]
    cases htell
    exact ⟨_, rfl, h⟩

theorem test {guard : Guard} {condition : Expr} {b : Bool} {left : State}
    (htest : st.test σ guard condition = (.ok b, left)) :
    ∃ left', st'.test σ guard condition = (.ok b, left') ∧ left.Alike before left' := by
  unfold State.test at htest ⊢
  rw [h.scopes]
  split at htest
  · cases htest
  · split at htest
    · cases htest
    · rename_i told htold
      obtain ⟨told', htold', halike⟩ := h.tellCondition htold
      rw [htold']
      split at htest
      · cases htest
        exact ⟨told', rfl, halike⟩
      · cases htest

end State.Alike

namespace Run.Repeats

variable {run run' : Option Run} (h : Repeats before run run')
include h

/-- Lines tell apart only runs that fail. -/
theorem locate (line line' : Option Int) :
    Repeats before (run.map (.locate line)) (run'.map (.locate line')) := by
  intro v st hlocate
  obtain ⟨⟨outcome, inner⟩, rfl, hinner⟩ := Option.map_eq_some_iff.1 hlocate
  cases outcome with
  | error f => cases hinner
  | ok w =>
    cases hinner
    obtain ⟨st', rfl, halike⟩ := h v st rfl
    exact ⟨st', rfl, halike⟩

theorem leave (level depth : Nat) :
    Repeats before (run.map (.leave level depth)) (run'.map (.leave level depth)) := by
  intro v st hleave
  obtain ⟨⟨outcome, inner⟩, rfl, hinner⟩ := Option.map_eq_some_iff.1 hleave
  cases outcome with
  | error f => cases hinner
  | ok w =>
    obtain ⟨inner', rfl, halike⟩ := h w inner rfl
    cases hinner
    refine ⟨_, rfl, ?_⟩
    rw [halike.scopes]
    exact (halike.rescoped _).note ..

theorem followed {next next' : Value → State → Option Run}
    (hnext : ∀ v st st', st.Alike before st' → Repeats before (next v st) (next' v st')) :
    Repeats before (Run.followed run next) (Run.followed run' next') := by
  intro v st hrun
  rcases Run.followed_eq_some.1 hrun with ⟨f, left, -, hend⟩ | ⟨w, left, rfl, hafter⟩
  · cases hend
  · obtain ⟨left', rfl, halike⟩ := h w left rfl
    exact hnext w left left' halike v st hafter

end Run.Repeats

/-! ## Every statement -/

/-- Within the bound `fuel`, what succeeds succeeds again with its lines moved. -/
structure Moves (σ : Setting) (before : Array String) (move : Int → Int) (fuel : Nat) : Prop where
  stmt (s : Stmt) {st st' : State} (h : st.Alike before st') :
    Run.Repeats before (execute σ fuel s st) (execute σ fuel (s.moved move) st')
  block (body : List Stmt) {st st' : State} (h : st.Alike before st') :
    Run.Repeats before (executeBlock σ fuel body st) (executeBlock σ fuel (body.map (.moved move)) st')
  loop (condition : Expr) (body : List Stmt) {st st' : State} (h : st.Alike before st') :
    Run.Repeats before (executeLoop σ fuel condition body st)
      (executeLoop σ fuel condition (body.map (.moved move)) st')
  list (ss : List Stmt) (v : Value) {st st' : State} (h : st.Alike before st') :
    Run.Repeats before (executeAll σ fuel ss v st) (executeAll σ fuel (ss.map (.moved move)) v st')

namespace Moves

variable {move : Int → Int} {fuel : Nat}

theorem zero : Moves σ before move 0 where
  stmt s _ _ _ := by rintro v st ⟨⟩
  block body _ _ _ := by rintro v st ⟨⟩
  loop condition body _ _ _ := by rintro v st ⟨⟩
  list ss w _ _ _ := by rintro v st ⟨⟩

section Step

variable (m : Moves σ before move fuel) {st st' : State} (h : st.Alike before st')
include m h

theorem executeBlock_moved (body : List Stmt) :
    Run.Repeats before (executeBlock σ (fuel + 1) body st)
      (executeBlock σ (fuel + 1) (body.map (.moved move)) st') := by
  rw [executeBlock, executeBlock, h.scopes]
  exact (m.list body .nothing h.enter).leave _ _

theorem executeLoop_moved (condition : Expr) (body : List Stmt) :
    Run.Repeats before (executeLoop σ (fuel + 1) condition body st)
      (executeLoop σ (fuel + 1) condition (body.map (.moved move)) st') := by
  intro v left hrun
  rw [executeLoop_eq] at hrun ⊢
  split at hrun
  · cases hrun
  · rename_i htest
    cases hrun
    obtain ⟨left', htest', halike⟩ := h.test htest
    rw [htest']
    exact ⟨left', rfl, halike⟩
  · rename_i inner htest
    obtain ⟨inner', htest', halike⟩ := h.test htest
    rw [htest']
    exact (m.block body halike).followed (fun _ _ _ halike => m.loop condition body halike) v left hrun

theorem executeAll_moved (ss : List Stmt) (v : Value) :
    Run.Repeats before (executeAll σ (fuel + 1) ss v st)
      (executeAll σ (fuel + 1) (ss.map (.moved move)) v st') := by
  cases ss with
  | nil =>
    rintro w left ⟨⟩
    exact ⟨st', rfl, h⟩
  | cons s ss =>
    rw [List.map_cons, executeAll_cons, executeAll_cons]
    exact (m.stmt s h).followed fun v _ _ halike => m.list ss v halike

theorem execute_moved (s : Stmt) :
    Run.Repeats before (execute σ (fuel + 1) s st) (execute σ (fuel + 1) (s.moved move) st') := by
  rw [execute_eq, execute_eq]
  refine Run.Repeats.locate ?_ _ _
  have hnoted := h.note σ.level (.statement s.line? s.label)
    (.statement (s.moved move).line? (s.moved move).label)
  generalize st.note .. = noted at hnoted ⊢
  generalize st'.note .. = noted' at hnoted ⊢
  cases s with
  | expr e line =>
    intro v left hrun
    obtain ⟨hvalue, rfl⟩ := Run.mk.inj (Option.some.inj hrun)
    refine ⟨noted', ?_, hnoted⟩
    rw [Stmt.moved, perform, hnoted.scopes, hvalue]
  | print e line =>
    rw [Stmt.moved]
    exact hnoted.print e
  | declare name e fresh line =>
    rw [Stmt.moved]
    exact hnoted.declare name e fresh
  | branch condition yes no line =>
    intro v left hrun
    rw [Stmt.moved, perform]
    unfold perform at hrun
    dsimp only at hrun
    split at hrun
    · cases hrun
    all_goals
      rename_i htest
      obtain ⟨inner', htest', halike⟩ := hnoted.test htest
      rw [htest']
      exact m.block _ halike v left hrun
  | loop condition body line =>
    rw [Stmt.moved]
    exact m.loop condition body hnoted
  | blank => rintro v left ⟨⟩

end Step

/-- **What succeeds succeeds again** from a state with the same scopes, whatever its lines. -/
theorem all (move : Int → Int) (fuel : Nat) : Moves σ before move fuel := by
  induction fuel with
  | zero => exact zero
  | succ fuel m =>
    exact ⟨fun s _ _ h => m.execute_moved h s, fun body _ _ h => m.executeBlock_moved h body,
      fun condition body _ _ h => m.executeLoop_moved h condition body,
      fun ss v _ _ h => m.executeAll_moved h ss v⟩

end Moves

/-! ## Programs after one another -/

/-- The value before the first statement matters only where there is none. -/
theorem executeAll_value {fuel : Nat} {ss : List Stmt} {v w : Value} {st left : State}
    (h : executeAll σ fuel ss v st = some ⟨.ok w, left⟩) (v' : Value) :
    ∃ w', executeAll σ fuel ss v' st = some ⟨.ok w', left⟩ := by
  cases fuel with
  | zero => cases h
  | succ fuel =>
    cases ss with
    | nil =>
      cases h
      exact ⟨v', rfl⟩
    | cons s ss =>
      rw [executeAll_cons] at h ⊢
      exact ⟨w, h⟩

/-- **A program that is run after another does what it would do by itself** from the scopes that the
other leaves. -/
theorem runProgram_append {fuel fuel' : Nat} {program more : List Stmt} {v w : Value}
    {st mid mid' left : State} (h : runProgram σ fuel program st = some ⟨.ok v, mid⟩)
    (h' : runProgram σ fuel' more mid' = some ⟨.ok w, left⟩) (halike : mid'.Alike before mid)
    (move : Int → Int) :
    ∃ bound u left', runProgram σ bound (program ++ more.map (.moved move)) st =
      some ⟨.ok u, left'⟩ ∧ left.Alike before left' := by
  obtain ⟨hlt, hsplit⟩ := executeAll_append h
  obtain ⟨left', hmoved, hleft⟩ := (Moves.all move fuel').list more .nothing halike w left h'
  obtain ⟨u, hvalue⟩ := executeAll_value hmoved v
  refine ⟨fuel + fuel', u, left', ?_, hleft⟩
  unfold runProgram
  rw [hsplit]
  exact (Keeps.of_le (by omega)).list hvalue

end Parlance
