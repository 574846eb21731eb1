import Mathlib.Data.Option.Basic
import Parlance.Proofs.Run.Moments

/-!
# Levels of the trace

The level of the trace has no part in what a run does. Two runs that differ in it alone take up the same
tasks, with the same scopes and the same lines printed, and what they have noted is what their levels show
of one list of notes (`State.Parallel`). They end alike, within the same bound, or both do not end
(`runProgram_atLevel`).

Telling the trace of a value can go wrong in one way: the value nests deeper than the limit. So this is said
of runs that do not come to the limit (`Moment.ReachesLimit`).
-/

namespace Parlance

/-! ## The level of a setting -/

/-- The setting with another level. -/
def Setting.atLevel (σ : Setting) (level : Nat) : Setting := { σ with level := level }

namespace Setting

variable (σ : Setting) (level : Nat)

@[simp]
theorem limit_atLevel : (σ.atLevel level).limit = σ.limit := rfl

@[simp]
theorem level_atLevel : (σ.atLevel level).level = level := rfl

end Setting

mutual
theorem evaluateIn_atLevel (σ : Setting) (level : Nat) (s : Scopes) (room : Nat) (e : Expr) :
    evaluateIn (σ.atLevel level) s room e = evaluateIn σ s room e := by
  match room with
  | 0 => rw [evaluateIn, evaluateIn]
  | inside + 1 =>
    rw [evaluateIn.eq_def, evaluateIn.eq_def σ]
    dsimp only
    split
    · rfl
    · rfl
    · rw [evaluateAll_atLevel σ level s inside]
    · rw [evaluateAll_atLevel σ level s inside]
      rfl
    · rw [evaluateIn_atLevel σ level s inside]
    · rename_i left right _
      rw [evaluateIn_atLevel σ level s inside left, evaluateIn_atLevel σ level s inside right]
      rfl
    · rw [evaluateIn_atLevel σ level s inside]
    · rfl
    · rfl

theorem evaluateAll_atLevel (σ : Setting) (level : Nat) (s : Scopes) (room : Nat) (es : List Expr) :
    evaluateAll (σ.atLevel level) s room es = evaluateAll σ s room es := by
  match es with
  | [] => rw [evaluateAll, evaluateAll]
  | e :: es =>
    rw [evaluateAll, evaluateAll, evaluateIn_atLevel σ level s room e,
      evaluateAll_atLevel σ level s room es]
end

/-- Expressions have the same value at every level. -/
@[simp]
theorem evaluate_atLevel (σ : Setting) (level : Nat) (s : Scopes) (e : Expr) :
    evaluate (σ.atLevel level) s e = evaluate σ s e :=
  evaluateIn_atLevel σ level s σ.limit e

/-! ## Parallel states -/

theorem Note.level_le (n : Note) : n.level ≤ 3 := by
  cases n <;> simp [Note.level]

namespace State

/-- The notes that were made since a state. -/
def notesSince (before st : State) : List Note := st.notes.toList.drop before.notes.size

/-- Two states at the levels `j` and `k`, on the way from one state: the same scopes, the same lines printed,
and of the notes that could have been made since each has those up to its level. -/
structure Parallel (j k : Nat) (before st st' : State) : Prop where
  scopes : st'.scopes = st.scopes
  printed : st'.printed = st.printed
  notes : ∃ all : List Note,
    st.notes.toList = before.notes.toList ++ all.filter (·.level ≤ j) ∧
      st'.notes.toList = before.notes.toList ++ all.filter (·.level ≤ k)

end State

/-- Two runs that end alike in parallel states. -/
structure Run.Parallel (j k : Nat) (before : State) (r r' : Run) : Prop where
  outcome : r'.outcome = r.outcome
  state : before.Parallel j k r.state r'.state

variable {σ : Setting} {j k : Nat} {before : State}

namespace State.Parallel

theorem refl (j k : Nat) (before : State) : before.Parallel j k before before :=
  ⟨rfl, rfl, [], by simp⟩

variable {st st' : State} (h : before.Parallel j k st st')
include h

theorem note (n : Note) : before.Parallel j k (st.note j n) (st'.note k n) := by
  obtain ⟨all, hst, hst'⟩ := h.notes
  have hshown (level : Nat) (s : State) (hs : s.notes.toList = before.notes.toList ++
      all.filter (·.level ≤ level)) :
      (s.note level n).notes.toList = before.notes.toList ++ (all ++ [n]).filter (·.level ≤ level) := by
    unfold State.note
    split <;> simp_all
  refine ⟨by simp [h.scopes], ?_, all ++ [n], hshown j st hst, hshown k st' hst'⟩
  unfold State.note
  split <;> split <;> exact h.printed

theorem rescoped (scopes : Scopes) :
    before.Parallel j k { st with scopes := scopes } { st' with scopes := scopes } :=
  ⟨rfl, h.printed, h.notes⟩

theorem enter : before.Parallel j k (st.enter (σ.atLevel j)) (st'.enter (σ.atLevel k)) := by
  unfold State.enter
  rw [h.scopes]
  exact (h.rescoped _).note _

theorem begin (s : Stmt) :
    before.Parallel j k (st.begin (σ.atLevel j) s) (st'.begin (σ.atLevel k) s) :=
  h.note _

theorem print (e : Expr) :
    (st.print (σ.atLevel j) e).Parallel j k before (st'.print (σ.atLevel k) e) := by
  simp only [State.print, evaluate_atLevel, Setting.limit_atLevel, h.scopes]
  split
  · rename_i line _
    exact ⟨rfl, rfl, congrArg (·.push line) h.printed, h.notes⟩
  · exact ⟨rfl, h⟩

end State.Parallel

/-! ## Telling the trace -/

namespace State

/-- A binding is told like any other note, unless its value is too deep. -/
theorem tellBinding_eq {st : State} {name : String} {v : Value}
    (h : (st.tellBinding (σ.atLevel j) name v).outcome ≠ .error .tooDeep) :
    st.tellBinding (σ.atLevel j) name v =
      ⟨.ok .nothing, st.note j (.declared name v.variant v.text)⟩ := by
  unfold tellBinding Value.textWithin at h ⊢
  simp only [Setting.level_atLevel, Setting.limit_atLevel] at h ⊢
  by_cases hlevel : 2 ≤ j
  · by_cases hdepth : v.depth ≤ σ.limit
    · simp only [hlevel, hdepth, if_true]
    · simp [hlevel, hdepth] at h
  · simp [hlevel, note, Note.level]

/-- A condition is told like any other note, unless its value is too deep. -/
theorem tellCondition_eq {st : State} {guard : Guard} {condition : Expr} {v : Value}
    (h : st.tellCondition (σ.atLevel j) guard condition v ≠ .error .tooDeep) :
    st.tellCondition (σ.atLevel j) guard condition v =
      .ok (st.note j (.tested guard condition v.text)) := by
  unfold tellCondition Value.textWithin at h ⊢
  simp only [Setting.level_atLevel, Setting.limit_atLevel] at h ⊢
  by_cases hlevel : 3 ≤ j
  · by_cases hdepth : v.depth ≤ σ.limit
    · simp only [hlevel, hdepth, if_true]
    · simp [hlevel, hdepth] at h
  · simp [hlevel, note, Note.level]

end State

namespace State.Parallel

variable {st st' : State} (h : before.Parallel j k st st')
include h

theorem declare {name : String} {e : Expr} {fresh : Bool}
    (hj : (st.declare (σ.atLevel j) name e fresh).outcome ≠ .error .tooDeep)
    (hk : (st'.declare (σ.atLevel k) name e fresh).outcome ≠ .error .tooDeep) :
    (st.declare (σ.atLevel j) name e fresh).Parallel j k before
      (st'.declare (σ.atLevel k) name e fresh) := by
  simp only [State.declare, evaluate_atLevel, Setting.limit_atLevel, h.scopes] at hj hk ⊢
  by_cases hbound : (!fresh && !st.scopes.binds name) = true
  · simp only [hbound, if_true]
    exact ⟨rfl, h⟩
  · rw [if_neg hbound] at hj hk ⊢
    rw [if_neg hbound]
    cases hvalue : evaluate σ st.scopes e with
    | error f => exact ⟨rfl, h⟩
    | ok v =>
      simp only [hvalue] at hj hk ⊢
      cases hscopes : st.scopes.declare σ.limit name v fresh with
      | error f => exact ⟨rfl, h⟩
      | ok scopes =>
        simp only [hscopes] at hj hk ⊢
        rw [tellBinding_eq hj, tellBinding_eq hk]
        exact ⟨rfl, (h.rescoped scopes).note _⟩

theorem test {guard : Guard} {condition : Expr}
    (hj : (st.test (σ.atLevel j) guard condition).1 ≠ .error .tooDeep)
    (hk : (st'.test (σ.atLevel k) guard condition).1 ≠ .error .tooDeep) :
    (st'.test (σ.atLevel k) guard condition).1 = (st.test (σ.atLevel j) guard condition).1 ∧
      before.Parallel j k (st.test (σ.atLevel j) guard condition).2
        (st'.test (σ.atLevel k) guard condition).2 := by
  have htell (level : Nat) (s : State) (v : Value)
      (hs : (s.test (σ.atLevel level) guard condition).1 ≠ .error .tooDeep)
      (hv : evaluate σ s.scopes condition = .ok v) :
      s.tellCondition (σ.atLevel level) guard condition v =
        .ok (s.note level (.tested guard condition v.text)) := by
    refine tellCondition_eq fun htold => hs ?_
    simp only [State.test, evaluate_atLevel, hv, htold]
  have hscopes := h.scopes
  cases hvalue : evaluate σ st.scopes condition with
  | error f =>
    simp only [State.test, evaluate_atLevel, hscopes, hvalue]
    exact ⟨trivial, h⟩
  | ok v =>
    have hst := htell j st v hj hvalue
    have hst' := htell k st' v hk (by rw [hscopes, hvalue])
    simp only [State.test, evaluate_atLevel, hscopes, hvalue, hst, hst']
    cases v <;> exact ⟨rfl, h.note _⟩

theorem exists_test {guard : Guard} {condition : Expr} {answer : Except Failure Bool} {mid : State}
    (htest : st.test (σ.atLevel j) guard condition = (answer, mid))
    (hj : (st.test (σ.atLevel j) guard condition).1 ≠ .error .tooDeep)
    (hk : (st'.test (σ.atLevel k) guard condition).1 ≠ .error .tooDeep) :
    ∃ mid', st'.test (σ.atLevel k) guard condition = (answer, mid') ∧ before.Parallel j k mid mid' := by
  have hparallel := h.test hj hk
  rw [htest] at hparallel
  exact ⟨(st'.test (σ.atLevel k) guard condition).2, Prod.ext hparallel.1 rfl, hparallel.2⟩

/-- What was noted since at one level, from what was at the third. -/
theorem notesSince_eq (hk : 3 ≤ k) :
    before.notesSince st = (before.notesSince st').filter (·.level ≤ j) := by
  obtain ⟨all, hst, hst'⟩ := h.notes
  have hall : all.filter (·.level ≤ k) = all := by
    refine List.filter_eq_self.2 fun n _ => ?_
    have := n.level_le
    simp only [decide_eq_true_eq]
    omega
  unfold State.notesSince
  rw [hst, hst', hall, ← Array.length_toList, List.drop_left, List.drop_left]

end State.Parallel

namespace Run.Parallel

variable {r r' : Run} (h : r.Parallel j k before r')
include h

theorem locate (line : Option Int) : (r.locate line).Parallel j k before (r'.locate line) := by
  obtain ⟨outcome, st⟩ := r
  obtain ⟨outcome', st'⟩ := r'
  obtain rfl : outcome' = outcome := h.outcome
  cases outcome' <;> exact ⟨rfl, h.state⟩

theorem leave (depth : Nat) : (r.leave j depth).Parallel j k before (r'.leave k depth) := by
  have houtside := h.state.rescoped (r.state.scopes.cut depth)
  simp only [Run.leave, h.outcome, h.state.scopes]
  cases r.outcome with
  | ok v => exact ⟨rfl, houtside.note _⟩
  | error f => exact ⟨rfl, houtside⟩

end Run.Parallel

/-! ## Parallel runs -/

namespace Moment

/-- A moment comes to one that fails because something nests deeper than the limit. -/
def ReachesLimit (σ : Setting) (m : Moment) : Prop := ∃ m', Comes σ m m' ∧ m'.Fails σ .tooDeep

theorem ReachesLimit.of_comes {m m' : Moment} (hcomes : Comes σ m m') (h : m'.ReachesLimit σ) :
    m.ReachesLimit σ := by
  obtain ⟨m'', hcomes', hfails⟩ := h
  exact ⟨m'', hcomes.trans hcomes', hfails⟩

theorem ReachesLimit.of_leads {fuel : Nat} {m m' : Moment} (hlead : Leads σ fuel m m')
    (h : m'.ReachesLimit σ) : m.ReachesLimit σ :=
  h.of_comes (.single ⟨fuel, hlead⟩)

/-- A run that succeeds has not come to the limit. -/
theorem Ends.not_reachesLimit {m : Moment} {r : Run} {v : Value} (hends : m.Ends σ r)
    (hok : r.outcome = .ok v) : ¬ m.ReachesLimit σ := by
  rintro ⟨m', hcomes, hfails⟩
  obtain ⟨f, hf, -⟩ := (ends_error_iff hends _).2 ⟨m', .tooDeep, hcomes, hfails, rfl⟩
  rw [hok] at hf
  cases hf

end Moment

namespace State.Parallel

variable {st st' : State} (h : before.Parallel j k st st')
include h

/-- The condition of a branch has the same answer in moments that stay within the limit. -/
theorem exists_test_branch {condition : Expr} {yes no : List Stmt} {line : Int}
    {answer : Except Failure Bool} {mid : State}
    (hj : ¬ Moment.ReachesLimit (σ.atLevel j) ⟨.stmt (.branch condition yes no line), st⟩)
    (hk : ¬ Moment.ReachesLimit (σ.atLevel k) ⟨.stmt (.branch condition yes no line), st'⟩)
    (htest : (st.begin (σ.atLevel j) (.branch condition yes no line)).test (σ.atLevel j) .branch
      condition = (answer, mid)) :
    ∃ mid', (st'.begin (σ.atLevel k) (.branch condition yes no line)).test (σ.atLevel k) .branch
      condition = (answer, mid') ∧ before.Parallel j k mid mid' := by
  refine (h.begin _).exists_test htest (fun hf => hj ?_) fun hf => hk ?_
  · exact ⟨_, .refl, .branch hf⟩
  · exact ⟨_, .refl, .branch hf⟩

theorem exists_test_loop {condition : Expr} {body : List Stmt} {line : Int}
    {answer : Except Failure Bool} {mid : State}
    (hj : ¬ Moment.ReachesLimit (σ.atLevel j) ⟨.loop condition body line, st⟩)
    (hk : ¬ Moment.ReachesLimit (σ.atLevel k) ⟨.loop condition body line, st'⟩)
    (htest : st.test (σ.atLevel j) .loop condition = (answer, mid)) :
    ∃ mid', st'.test (σ.atLevel k) .loop condition = (answer, mid') ∧
      before.Parallel j k mid mid' := by
  refine h.exists_test htest (fun hf => hj ?_) fun hf => hk ?_
  · exact ⟨_, .refl, .loop hf⟩
  · exact ⟨_, .refl, .loop hf⟩

end State.Parallel

/-- Both runs end, in parallel, or neither does. -/
abbrev Alike (j k : Nat) (before : State) : Option Run → Option Run → Prop :=
  Option.Rel (Run.Parallel j k before)

namespace Alike

variable {run run' : Option Run} (h : Alike j k before run run')
include h

theorem eq_none_iff : run = none ↔ run' = none := by
  cases h <;> simp

theorem exists_eq_some {r : Run} (hrun : run = some r) :
    ∃ r', run' = some r' ∧ r.Parallel j k before r' := by
  subst hrun
  cases h with
  | some h => exact ⟨_, rfl, h⟩

theorem exists_eq_some_ok {v : Value} {st : State} (hrun : run = some ⟨.ok v, st⟩) :
    ∃ st', run' = some ⟨.ok v, st'⟩ ∧ before.Parallel j k st st' := by
  obtain ⟨⟨outcome, st'⟩, hrun', hparallel⟩ := h.exists_eq_some hrun
  obtain rfl : outcome = .ok v := hparallel.outcome
  exact ⟨st', hrun', hparallel.state⟩

theorem map {f g : Run → Run}
    (hfg : ∀ {r r'}, r.Parallel j k before r' → (f r).Parallel j k before (g r')) :
    Alike j k before (run.map f) (run'.map g) := by
  cases h with
  | some h => exact .some (hfg h)
  | none => exact .none

theorem followed {next next' : Value → State → Option Run}
    (hnext : ∀ v st st', run = some ⟨.ok v, st⟩ → run' = some ⟨.ok v, st'⟩ →
      before.Parallel j k st st' → Alike j k before (next v st) (next' v st')) :
    Alike j k before (Run.followed run next) (Run.followed run' next') := by
  cases h with
  | none => exact .none
  | @some r r' h =>
    obtain ⟨outcome, st⟩ := r
    obtain ⟨outcome', st'⟩ := r'
    obtain rfl : outcome' = outcome := h.outcome
    cases outcome' with
    | ok v => exact hnext v st st' rfl rfl h.state
    | error f => exact .some ⟨rfl, h.state⟩

end Alike

/-- The tasks that are taken up in parallel states run alike within the bound `fuel`. -/
def RunAlike (σ : Setting) (j k : Nat) (before : State) (fuel : Nat) : Prop :=
  ∀ {task : Task} {st st' : State}, before.Parallel j k st st' →
    ¬ Moment.ReachesLimit (σ.atLevel j) ⟨task, st⟩ → ¬ Moment.ReachesLimit (σ.atLevel k) ⟨task, st'⟩ →
      Alike j k before (task.run (σ.atLevel j) fuel st) (task.run (σ.atLevel k) fuel st')

namespace RunAlike

variable {fuel : Nat} (ih : RunAlike σ j k before fuel)
include ih

/-- Two moments that stay within the limit lead to runs that are alike. -/
theorem of_leads {m m' : Moment} {task : Task} {st st' : State}
    (hj : ¬ m.ReachesLimit (σ.atLevel j)) (hk : ¬ m'.ReachesLimit (σ.atLevel k))
    (hlead : Moment.Leads (σ.atLevel j) fuel m ⟨task, st⟩)
    (hlead' : Moment.Leads (σ.atLevel k) fuel m' ⟨task, st'⟩) (h : before.Parallel j k st st') :
    Alike j k before (task.run (σ.atLevel j) fuel st) (task.run (σ.atLevel k) fuel st') :=
  ih h (fun hlimit => hj (hlimit.of_leads hlead)) fun hlimit => hk (hlimit.of_leads hlead')

variable {st st' : State} (h : before.Parallel j k st st')
include h

theorem perform {s : Stmt} (hj : ¬ Moment.ReachesLimit (σ.atLevel j) ⟨.stmt s, st⟩)
    (hk : ¬ Moment.ReachesLimit (σ.atLevel k) ⟨.stmt s, st'⟩) :
    Alike j k before (perform (σ.atLevel j) fuel s (st.begin (σ.atLevel j) s))
      (perform (σ.atLevel k) fuel s (st'.begin (σ.atLevel k) s)) := by
  have hbegin := h.begin (σ := σ) s
  cases s with
  | expr e line =>
    refine .some ⟨?_, hbegin⟩
    simp only [evaluate_atLevel, hbegin.scopes]
  | print e line => exact .some (hbegin.print e)
  | declare name e fresh line =>
    refine .some (hbegin.declare (fun hf => hj ?_) fun hf => hk ?_)
    · exact ⟨_, .refl, .declare hf⟩
    · exact ⟨_, .refl, .declare hf⟩
  | branch condition yes no line =>
    simp only [Parlance.perform]
    rcases htest : (st.begin (σ.atLevel j) _).test (σ.atLevel j) .branch condition with ⟨answer, mid⟩
    obtain ⟨mid', htest', hmid⟩ := h.exists_test_branch hj hk htest
    rw [htest']
    cases answer with
    | error f => exact .some ⟨rfl, hmid⟩
    | ok holds =>
      cases holds with
      | true => exact ih.of_leads hj hk (.yes htest) (.yes htest') hmid
      | false => exact ih.of_leads hj hk (.no htest) (.no htest') hmid
  | loop condition body line => exact ih.of_leads hj hk .rounds .rounds hbegin
  | blank => exact .some ⟨rfl, hbegin⟩

theorem executeLoop {condition : Expr} {body : List Stmt} {line : Int}
    (hj : ¬ Moment.ReachesLimit (σ.atLevel j) ⟨.loop condition body line, st⟩)
    (hk : ¬ Moment.ReachesLimit (σ.atLevel k) ⟨.loop condition body line, st'⟩) :
    Alike j k before (executeLoop (σ.atLevel j) (fuel + 1) condition body st)
      (executeLoop (σ.atLevel k) (fuel + 1) condition body st') := by
  rw [executeLoop_eq, executeLoop_eq]
  rcases htest : st.test (σ.atLevel j) .loop condition with ⟨answer, mid⟩
  obtain ⟨mid', htest', hmid⟩ := h.exists_test_loop hj hk htest
  rw [htest']
  cases answer with
  | error f => exact .some ⟨rfl, hmid⟩
  | ok holds =>
    cases holds with
    | false => exact .some ⟨rfl, hmid⟩
    | true =>
      have hround := ih.of_leads hj hk (.round htest) (.round htest') hmid
      refine hround.followed fun v next next' hended hended' hnext => ?_
      exact ih.of_leads hj hk (.again htest hended) (.again htest' hended') hnext

theorem executeAll {ss : List Stmt} {v : Value}
    (hj : ¬ Moment.ReachesLimit (σ.atLevel j) ⟨.list ss v, st⟩)
    (hk : ¬ Moment.ReachesLimit (σ.atLevel k) ⟨.list ss v, st'⟩) :
    Alike j k before (executeAll (σ.atLevel j) (fuel + 1) ss v st)
      (executeAll (σ.atLevel k) (fuel + 1) ss v st') := by
  cases ss with
  | nil => exact .some ⟨rfl, h⟩
  | cons s ss =>
    rw [executeAll_cons, executeAll_cons]
    have hfirst := ih.of_leads hj hk .first .first h
    refine hfirst.followed fun w next next' hended hended' hnext => ?_
    exact ih.of_leads hj hk (.next hended) (.next hended') hnext

end RunAlike

/-- **A task at two levels**: it ends alike within the same bound, or at neither level. -/
theorem runAlike (σ : Setting) (j k : Nat) (before : State) (fuel : Nat) :
    RunAlike σ j k before fuel := by
  induction fuel with
  | zero =>
    intro task st st' _ _ _
    rw [Moment.run_zero ⟨task, st⟩, Moment.run_zero ⟨task, st'⟩]
    exact .none
  | succ fuel ih =>
    intro task st st' h hj hk
    cases task with
    | stmt s =>
      simp only [Task.run, execute_begin]
      exact (ih.perform h hj hk).map (·.locate _)
    | block body =>
      have hinside := ih.of_leads hj hk .inside .inside h.enter
      simp only [Task.run, executeBlock, h.scopes]
      exact hinside.map (·.leave _)
    | loop condition body line => exact ih.executeLoop h hj hk
    | list ss v => exact ih.executeAll h hj hk

namespace Moment

variable {m m₁ : Moment} {st' : State}

/-- Parallel moments lead to parallel moments. -/
theorem Leads.parallel {fuel : Nat} (hlead : Leads (σ.atLevel j) fuel m m₁)
    (h : before.Parallel j k m.state st') (hj : ¬ m.ReachesLimit (σ.atLevel j))
    (hk : ¬ ReachesLimit (σ.atLevel k) ⟨m.task, st'⟩) :
    ∃ st₁, Leads (σ.atLevel k) fuel ⟨m.task, st'⟩ ⟨m₁.task, st₁⟩ ∧
      before.Parallel j k m₁.state st₁ := by
  have halike : RunAlike σ j k before fuel := runAlike σ j k before fuel
  cases hlead with
  | yes htest =>
    obtain ⟨mid', htest', hmid⟩ := h.exists_test_branch hj hk htest
    exact ⟨mid', .yes htest', hmid⟩
  | no htest =>
    obtain ⟨mid', htest', hmid⟩ := h.exists_test_branch hj hk htest
    exact ⟨mid', .no htest', hmid⟩
  | rounds => exact ⟨_, .rounds, h.begin _⟩
  | round htest =>
    obtain ⟨mid', htest', hmid⟩ := h.exists_test_loop hj hk htest
    exact ⟨mid', .round htest', hmid⟩
  | again htest hended =>
    obtain ⟨mid', htest', hmid⟩ := h.exists_test_loop hj hk htest
    have hround := halike.of_leads hj hk (.round htest) (.round htest') hmid
    obtain ⟨next', hended', hnext⟩ := hround.exists_eq_some_ok hended
    exact ⟨next', .again htest' hended', hnext⟩
  | inside => exact ⟨_, .inside, h.enter⟩
  | first => exact ⟨_, .first, h⟩
  | next hended =>
    have hfirst := halike.of_leads hj hk .first .first h
    obtain ⟨next', hended', hnext⟩ := hfirst.exists_eq_some_ok hended
    exact ⟨next', .next hended', hnext⟩

theorem Comes.parallel (hcomes : Comes (σ.atLevel j) m m₁) (h : before.Parallel j k m.state st')
    (hj : ¬ m.ReachesLimit (σ.atLevel j)) (hk : ¬ ReachesLimit (σ.atLevel k) ⟨m.task, st'⟩) :
    ∃ st₁, Comes (σ.atLevel k) ⟨m.task, st'⟩ ⟨m₁.task, st₁⟩ ∧ before.Parallel j k m₁.state st₁ := by
  induction hcomes with
  | refl => exact ⟨st', .refl, h⟩
  | tail hcomes hlead ih =>
    obtain ⟨fuel, hlead⟩ := hlead
    obtain ⟨st₁, hcomes', hst₁⟩ := ih
    obtain ⟨st₂, hlead', hst₂⟩ := hlead.parallel hst₁ (fun hlimit => hj (hlimit.of_comes hcomes))
      fun hlimit => hk (hlimit.of_comes hcomes')
    exact ⟨st₂, hcomes'.tail ⟨fuel, hlead'⟩, hst₂⟩

/-- The states that a run comes by at one level, it comes by at the other. -/
theorem Passes.parallel {st : State} (hpass : m.Passes (σ.atLevel j) st)
    (h : before.Parallel j k m.state st') (hj : ¬ m.ReachesLimit (σ.atLevel j))
    (hk : ¬ ReachesLimit (σ.atLevel k) ⟨m.task, st'⟩) :
    ∃ st₁, Passes (σ.atLevel k) ⟨m.task, st'⟩ st₁ ∧ before.Parallel j k st st₁ := by
  obtain ⟨m₁, hcomes, hst⟩ := hpass
  obtain ⟨st₁, hcomes', hst₁⟩ := hcomes.parallel h hj hk
  rcases hst with rfl | ⟨r, ⟨fuel, hrun⟩, rfl⟩
  · exact ⟨st₁, ⟨_, hcomes', .inl rfl⟩, hst₁⟩
  · have halike := runAlike σ j k before fuel hst₁ (fun hlimit => hj (hlimit.of_comes hcomes))
      fun hlimit => hk (hlimit.of_comes hcomes')
    obtain ⟨r', hrun', hr'⟩ := halike.exists_eq_some hrun
    exact ⟨r'.state, ⟨_, hcomes', .inr ⟨r', ⟨fuel, hrun'⟩, rfl⟩⟩, hr'.state⟩

end Moment

/-- **The trace does not interfere.** A program at two levels, within the limit, ends within the same bounds,
and alike: with the same value or the same failure and its line, the same lines printed and the same scopes.
On the way, and so also if it never ends, it comes by the same states; and a level notes just what the third
level notes up to it. -/
theorem runProgram_atLevel {σ : Setting} {j k : Nat} {program : List Stmt} {st : State}
    (hj : ¬ (Moment.start program st).ReachesLimit (σ.atLevel j))
    (hk : ¬ (Moment.start program st).ReachesLimit (σ.atLevel k)) :
    (∀ fuel, runProgram (σ.atLevel j) fuel program st = none ↔
      runProgram (σ.atLevel k) fuel program st = none) ∧
    (∀ fuel r r', runProgram (σ.atLevel j) fuel program st = some r →
      runProgram (σ.atLevel k) fuel program st = some r' →
        r'.outcome = r.outcome ∧ r'.state.printed = r.state.printed ∧
        r'.state.scopes = r.state.scopes ∧
        (3 ≤ k → st.notesSince r.state = (st.notesSince r'.state).filter (·.level ≤ j))) ∧
    ∀ st₁, (Moment.start program st).Passes (σ.atLevel j) st₁ →
      ∃ st₂, (Moment.start program st).Passes (σ.atLevel k) st₂ ∧
        st₂.printed = st₁.printed ∧ st₂.scopes = st₁.scopes ∧
        (3 ≤ k → st.notesSince st₁ = (st.notesSince st₂).filter (·.level ≤ j)) := by
  have hstart := State.Parallel.refl j k st
  have halike (fuel : Nat) : Alike j k st (runProgram (σ.atLevel j) fuel program st)
      (runProgram (σ.atLevel k) fuel program st) := runAlike σ j k st fuel hstart hj hk
  refine ⟨fun fuel => ?_, fun fuel r r' hr hr' => ?_, fun st₁ hpass => ?_⟩
  · exact (halike fuel).eq_none_iff
  · obtain ⟨_, hsome, h⟩ := (halike fuel).exists_eq_some hr
    cases hr'.symm.trans hsome
    exact ⟨h.outcome, h.state.printed, h.state.scopes, h.state.notesSince_eq⟩
  · obtain ⟨st₂, hpass', h⟩ := hpass.parallel hstart hj hk
    exact ⟨st₂, hpass', h.printed, h.scopes, h.notesSince_eq⟩

/-- A loop of one round, at the first level and the third. -/
theorem runProgram_atLevel_one_round :
    let σ : Setting := ⟨[], 10, 0⟩
    let program : List Stmt := [.declare "x" (.literal (.boolean true)) true 1,
      .loop (.name "x") [.print (.name "x") 3, .declare "x" (.literal (.boolean false)) false 4] 2]
    ∃ r r', runProgram (σ.atLevel 1) 9 program .start = some r ∧
      runProgram (σ.atLevel 3) 9 program .start = some r' ∧
      r.state.printed = #["true"] ∧ r'.outcome = r.outcome ∧ r'.state.printed = r.state.printed ∧
      (State.start.notesSince r.state).length = 4 ∧ (State.start.notesSince r'.state).length = 10 ∧
      State.start.notesSince r.state = (State.start.notesSince r'.state).filter (·.level ≤ 1) := by
  intro σ program
  obtain ⟨r, hr, hok, hprinted, hlength⟩ : ∃ r, runProgram (σ.atLevel 1) 9 program .start = some r ∧
      r.outcome = .ok .nothing ∧ r.state.printed = #["true"] ∧
      (State.start.notesSince r.state).length = 4 := ⟨_, rfl, rfl, rfl, rfl⟩
  obtain ⟨r', hr', hok', hlength'⟩ : ∃ r', runProgram (σ.atLevel 3) 9 program .start = some r' ∧
      r'.outcome = .ok .nothing ∧ (State.start.notesSince r'.state).length = 10 := ⟨_, rfl, rfl, rfl⟩
  have hj := Moment.Ends.not_reachesLimit (m := .start program .start) ⟨9, hr⟩ hok
  have hk := Moment.Ends.not_reachesLimit (m := .start program .start) ⟨9, hr'⟩ hok'
  obtain ⟨-, hends, -⟩ := runProgram_atLevel hj hk
  obtain ⟨houtcome, hprinted', -, hnotes⟩ := hends 9 r r' hr hr'
  exact ⟨r, r', hr, hr', hprinted, houtcome, hprinted', hlength, hlength', hnotes (by decide)⟩

end Parlance
