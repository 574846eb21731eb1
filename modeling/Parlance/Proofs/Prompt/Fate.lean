import Parlance.Proofs.Prompt.Step
import Parlance.Proofs.Run.Bound

/-!
# What becomes of what was put in

A session gathers lines into texts, and each text meets a fate: it is run, or it is refused, or the
input ends before it is whole. `Session.fates` lists the fates of a session in their order. A program
is run from the state that the session has then, which depends on the programs before it, so the list
goes on only as far as these end within the bound.

If every program that a session runs ends, each within a bound of its own, then the session comes to
its end within one bound, and the other way round (`Session.exists_run_iff`).
-/

namespace Parlance

/-- What becomes of a text. -/
inductive Fate where
  /-- It is a program, and is run from a state on. -/
  | ran (text : String) (program : List Stmt) (st : State)
  /-- It is refused. -/
  | refused (text : String) (e : Error)
  /-- It is not whole when the input ends. -/
  | dropped (text : String)

namespace Session

/-- What comes next, if the session goes on. -/
def onward (p : Option Progress) (next : Session → Option Progress) : Option Progress :=
  match p with
  | some (.goesOn s) => next s
  | p => p

/-- The fates that come next, if the session goes on. -/
def fatesOnward (p : Option Progress) (next : Session → List Fate) : List Fate :=
  match p with
  | some (.goesOn s) => next s
  | _ => []

/-- The fate that a line brings about when no program is held back, if it brings one about. -/
def takeFates (line : String) (s : Session) : List Fate :=
  if s.buffer.isEmpty && isExit line then []
  else
    match parseProgram (s.put line).buffer with
    | .error e => if e.cause.incomplete then [] else [.refused (s.put line).buffer e]
    | .ok program => if holdsBack program line then [] else [.ran (s.put line).buffer program s.state]

/-- The fates that a line brings about: that of a program held back, and its own. -/
def stepFates (σ : Setting) (fuel : Nat) (line : String) (s : Session) : List Fate :=
  match s.held with
  | none => takeFates line s
  | some program =>
    if continuesBranch line then takeFates line { s with held := none }
    else
      .ran s.buffer program s.state :: fatesOnward (perform σ fuel program s.clear) (takeFates line)

/-- The fate that the end of the input brings about, if it brings one about. -/
def closeFates (s : Session) : List Fate :=
  match s.held with
  | some program => [.ran s.buffer program s.state]
  | none => if s.buffer.isEmpty then [] else [.dropped s.buffer]

/-- The fates of all that is put in. -/
def fates (σ : Setting) (fuel : Nat) : List String → Session → List Fate
  | [], s => closeFates s.ask
  | line :: rest, s =>
    stepFates σ fuel line s.ask ++ fatesOnward (step σ fuel line s.ask) (fates σ fuel rest)

variable {σ : Setting} {line : String} {program : List Stmt} {s : Session} {p : Progress}

/-! ## Lines and their fates -/

theorem onward_eq_some {q : Option Progress} {next : Session → Option Progress}
    (h : onward q next = some p) :
    (∃ mid, q = some (.goesOn mid) ∧ next mid = some p) ∨ (q = some p ∧ ∀ mid, p ≠ .goesOn mid) := by
  unfold onward at h
  split at h
  · exact .inl ⟨_, rfl, h⟩
  · rename_i hq
    exact .inr ⟨h, fun mid hp => hq mid (hp ▸ h)⟩

theorem mem_fatesOnward {q : Option Progress} {next : Session → List Fate} {fate : Fate} :
    fate ∈ fatesOnward q next ↔ ∃ mid, q = some (.goesOn mid) ∧ fate ∈ next mid := by
  unfold fatesOnward
  split
  · simp
  · rename_i hq
    simp only [List.not_mem_nil, false_iff]
    rintro ⟨mid, rfl, -⟩
    exact hq mid rfl

/-- How a line is taken, whatever the bound, and the fates that it brings about: it ends the session,
or waits in the buffer, or is refused there, or is run with what stands before it. -/
theorem take_ways (σ : Setting) (line : String) (s : Session) :
    (takeFates line s = [] ∧ ∀ fuel, take σ fuel line s = some (.ends s)) ∨
    (takeFates line s = [] ∧
      ∃ held, (held = s.held ∨ ∃ program, held = some program ∧
          parseProgram (s.put line).buffer = .ok program) ∧
        ∀ fuel, take σ fuel line s = some (.goesOn { s.put line with held := held })) ∨
    (∃ e, takeFates line s = [.refused (s.put line).buffer e] ∧
      ∀ fuel, take σ fuel line s = some (.goesOn ((s.put line).clear.tell (.reported e)))) ∨
    ∃ program, parseProgram (s.put line).buffer = .ok program ∧
      takeFates line s = [.ran (s.put line).buffer program s.state] ∧
      ∀ fuel, take σ fuel line s = perform σ fuel program (s.put line).clear := by
  simp only [take_eq]
  unfold takeFates
  by_cases hexit : (s.buffer.isEmpty && isExit line) = true
  · simp only [if_pos hexit]
    exact .inl ⟨trivial, fun _ => trivial⟩
  · simp only [if_neg hexit]
    refine .inr ?_
    cases hparse : parseProgram (s.put line).buffer with
    | error e =>
      dsimp only
      by_cases he : e.cause.incomplete = true
      · simp only [if_pos he]
        exact .inl ⟨trivial, s.held, .inl rfl, fun _ => rfl⟩
      · simp only [if_neg he]
        exact .inr (.inl ⟨e, rfl, fun _ => rfl⟩)
    | ok program =>
      dsimp only
      by_cases hheld : holdsBack program line = true
      · simp only [if_pos hheld]
        exact .inl ⟨trivial, some program, .inr ⟨program, rfl, rfl⟩, fun _ => rfl⟩
      · simp only [if_neg hheld]
        exact .inr (.inr ⟨program, rfl, rfl, fun _ => rfl⟩)

/-- How a line is taken when a program may be held back: the line goes on with the program, or the
program is run first. -/
theorem step_ways (σ : Setting) (line : String) (s : Session) :
    (∀ fuel, stepFates σ fuel line s = takeFates line { s with held := none } ∧
      step σ fuel line s = take σ fuel line { s with held := none }) ∨
    ∃ program, s.held = some program ∧
      ∀ fuel, stepFates σ fuel line s =
          .ran s.buffer program s.state :: fatesOnward (perform σ fuel program s.clear) (takeFates line) ∧
        step σ fuel line s = onward (perform σ fuel program s.clear) (take σ fuel line) := by
  cases hheld : s.held with
  | none =>
    have hs : { s with held := none } = s := by rw [← hheld]
    refine .inl fun fuel => ⟨?_, ?_⟩
    · simp only [stepFates, hheld, hs]
    · simp only [step, hheld, hs]
  | some program =>
    by_cases hnext : continuesBranch line = true
    · refine .inl fun fuel => ⟨?_, ?_⟩
      · simp only [stepFates, hheld, if_pos hnext]
      · simp only [step, hheld, if_pos hnext]
    · refine .inr ⟨program, rfl, fun fuel => ⟨?_, ?_⟩⟩
      · simp only [stepFates, hheld, if_neg hnext]
      · simp only [step, hheld, if_neg hnext]
        rfl

theorem close_ways (σ : Setting) (s : Session) :
    ((closeFates s = [] ∨ closeFates s = [.dropped s.buffer]) ∧
      ∀ fuel, close σ fuel s = some (.ends s)) ∨
    ∃ program, s.held = some program ∧ closeFates s = [.ran s.buffer program s.state] ∧
      ∀ fuel, close σ fuel s =
        onward (perform σ fuel program s.clear) fun s => some (.ends s) := by
  unfold close closeFates
  cases hheld : s.held with
  | none =>
    refine .inl ⟨?_, fun fuel => rfl⟩
    dsimp only
    split
    · exact .inl rfl
    · exact .inr rfl
  | some program => exact .inr ⟨program, rfl, rfl, fun fuel => rfl⟩

theorem run_cons (σ : Setting) (fuel : Nat) (line : String) (rest : List String) (s : Session) :
    run σ fuel (line :: rest) s = onward (step σ fuel line s.ask) (run σ fuel rest) := by
  rw [run]
  rfl

/-! ## Greater bounds -/

/-- What comes out within a bound comes out within every greater one. -/
def Steady (q : Nat → Option Progress) : Prop :=
  ∀ ⦃fuel fuel' : Nat⦄, fuel ≤ fuel' → ∀ ⦃p⦄, q fuel = some p → q fuel' = some p

theorem steady_const (q : Option Progress) : Steady fun _ => q := fun _ _ _ _ h => h

theorem Steady.onward {q : Nat → Option Progress} {next : Nat → Session → Option Progress}
    (hq : Steady q) (hnext : ∀ s, Steady (next · s)) :
    Steady fun fuel => onward (q fuel) (next fuel) := by
  intro fuel fuel' hle p h
  rcases onward_eq_some h with ⟨mid, hmid, hp⟩ | ⟨hp, hnot⟩
  · have hmid' := hq hle hmid
    simp only [Session.onward, hmid']
    exact hnext mid hle hp
  · have hp' := hq hle hp
    cases p with
    | goesOn mid => exact absurd rfl (hnot mid)
    | ends mid => simp only [Session.onward, hp']
    | fails f mid => simp only [Session.onward, hp']

theorem steady_perform (σ : Setting) (program : List Stmt) (s : Session) :
    Steady (perform σ · program s) := by
  intro fuel fuel' hle p h
  obtain ⟨outcome, st, hrun, -⟩ := perform_cases h
  have hrun' : runProgram σ fuel' program s.state = some ⟨outcome, st⟩ := (Keeps.of_le hle).list hrun
  simp only [perform, hrun] at h
  simp only [perform, hrun']
  exact h

theorem steady_take (σ : Setting) (line : String) (s : Session) : Steady (take σ · line s) := by
  obtain ⟨-, htake⟩ | ⟨-, held, -, htake⟩ | ⟨e, -, htake⟩ | ⟨program, -, -, htake⟩ := take_ways σ line s
  · simp only [htake]
    exact steady_const _
  · simp only [htake]
    exact steady_const _
  · simp only [htake]
    exact steady_const _
  · simp only [htake]
    exact steady_perform σ program _

theorem steady_step (σ : Setting) (line : String) (s : Session) : Steady (step σ · line s) := by
  obtain hstep | ⟨program, -, hstep⟩ := step_ways σ line s
  · simp only [hstep]
    exact steady_take σ line _
  · simp only [hstep]
    exact (steady_perform σ program _).onward fun mid => steady_take σ line mid

theorem steady_close (σ : Setting) (s : Session) : Steady (close σ · s) := by
  obtain ⟨-, hclose⟩ | ⟨program, -, -, hclose⟩ := close_ways σ s
  · simp only [hclose]
    exact steady_const _
  · simp only [hclose]
    exact (steady_perform σ program _).onward fun mid => steady_const _

theorem steady_run (σ : Setting) (lines : List String) (s : Session) : Steady (run σ · lines s) := by
  induction lines generalizing s with
  | nil => exact steady_close σ s.ask
  | cons line rest ih =>
    simp only [run_cons]
    exact (steady_step σ line s.ask).onward ih

theorem mem_stepFates_mono {fuel fuel' : Nat} {fate : Fate} (hle : fuel ≤ fuel')
    (h : fate ∈ stepFates σ fuel line s) : fate ∈ stepFates σ fuel' line s := by
  obtain hstep | ⟨program, -, hstep⟩ := step_ways σ line s
  · rw [(hstep _).1] at h ⊢
    exact h
  · rw [(hstep _).1] at h ⊢
    rcases List.mem_cons.1 h with rfl | h
    · exact List.mem_cons_self
    · obtain ⟨mid, hperform, hmem⟩ := mem_fatesOnward.1 h
      have hperform' := steady_perform σ program _ hle hperform
      exact List.mem_cons_of_mem _ (mem_fatesOnward.2 ⟨mid, hperform', hmem⟩)

theorem mem_fates_mono {fuel fuel' : Nat} {lines : List String} {fate : Fate} (hle : fuel ≤ fuel')
    (h : fate ∈ fates σ fuel lines s) : fate ∈ fates σ fuel' lines s := by
  induction lines generalizing s with
  | nil => exact h
  | cons line rest ih =>
    rw [fates] at h ⊢
    rcases List.mem_append.1 h with h | h
    · exact List.mem_append_left _ (mem_stepFates_mono hle h)
    · obtain ⟨mid, hstep, hmem⟩ := mem_fatesOnward.1 h
      have hstep' := steady_step σ line _ hle hstep
      exact List.mem_append_right _ (mem_fatesOnward.2 ⟨mid, hstep', ih hmem⟩)

/-! ## Sessions whose programs end -/

/-- Every program among the fates ends, within some bound. -/
def AllEnd (σ : Setting) (fs : List Fate) : Prop :=
  ∀ text program st, Fate.ran text program st ∈ fs →
    ∃ bound r, runProgram σ bound program st = some r

theorem AllEnd.of_subset {fs fs' : List Fate} (h : AllEnd σ fs) (hsub : ∀ fate ∈ fs', fate ∈ fs) :
    AllEnd σ fs' :=
  fun text program st hmem => h text program st (hsub _ hmem)

/-- One bound for two stages, from a bound for each. -/
theorem exists_onward {q : Nat → Option Progress} {next : Nat → Session → Option Progress}
    (hq : Steady q) (hnext : ∀ s, Steady (next · s)) (h : ∃ fuel p, q fuel = some p)
    (h' : ∀ fuel mid, q fuel = some (.goesOn mid) → ∃ bound p, next bound mid = some p) :
    ∃ fuel p, onward (q fuel) (next fuel) = some p := by
  obtain ⟨fuel, p, hp⟩ := h
  cases p with
  | goesOn mid =>
    obtain ⟨bound, r, hr⟩ := h' fuel mid hp
    refine ⟨max fuel bound, r, ?_⟩
    have hmid := hq (Nat.le_max_left fuel bound) hp
    simp only [onward, hmid]
    exact hnext mid (Nat.le_max_right fuel bound) hr
  | ends mid => exact ⟨fuel, .ends mid, by simp only [onward, hp]⟩
  | fails f mid => exact ⟨fuel, .fails f mid, by simp only [onward, hp]⟩

theorem exists_perform (h : ∃ bound r, runProgram σ bound program s.state = some r) :
    ∃ fuel p, perform σ fuel program s = some p := by
  obtain ⟨bound, ⟨outcome, left⟩, hrun⟩ := h
  refine ⟨bound, ?_⟩
  unfold perform
  rw [hrun]
  dsimp only
  split
  · exact ⟨_, rfl⟩
  · exact ⟨_, rfl⟩
  · exact ⟨_, rfl⟩
  · split
    · exact ⟨_, rfl⟩
    · exact ⟨_, rfl⟩

theorem exists_take (h : AllEnd σ (takeFates line s)) : ∃ fuel p, take σ fuel line s = some p := by
  obtain ⟨-, htake⟩ | ⟨-, held, -, htake⟩ | ⟨e, -, htake⟩ | ⟨program, -, hfates, htake⟩ :=
    take_ways σ line s
  · exact ⟨0, _, htake 0⟩
  · exact ⟨0, _, htake 0⟩
  · exact ⟨0, _, htake 0⟩
  · simp only [htake]
    rw [hfates] at h
    exact exists_perform (h _ program s.state (List.mem_singleton.2 rfl))

theorem exists_step (h : ∀ fuel, AllEnd σ (stepFates σ fuel line s)) :
    ∃ fuel p, step σ fuel line s = some p := by
  obtain hstep | ⟨program, -, hstep⟩ := step_ways σ line s
  · simp only [hstep] at h ⊢
    exact exists_take (h 0)
  · simp only [hstep] at h ⊢
    refine exists_onward (steady_perform σ program _) (steady_take σ line) ?_ fun fuel mid hmid => ?_
    · exact exists_perform (h 0 _ program s.state List.mem_cons_self)
    · refine exists_take ((h fuel).of_subset fun fate hmem => ?_)
      exact List.mem_cons_of_mem _ (mem_fatesOnward.2 ⟨mid, hmid, hmem⟩)

theorem exists_close (h : AllEnd σ (closeFates s)) : ∃ fuel p, close σ fuel s = some p := by
  obtain ⟨-, hclose⟩ | ⟨program, -, hfates, hclose⟩ := close_ways σ s
  · exact ⟨0, _, hclose 0⟩
  · simp only [hclose]
    rw [hfates] at h
    have hperform : ∃ fuel p, perform σ fuel program s.clear = some p :=
      exists_perform (h _ program s.state (List.mem_singleton.2 rfl))
    exact exists_onward (steady_perform σ program _) (fun _ => steady_const _) hperform
      fun _ mid _ => ⟨0, .ends mid, rfl⟩

/-- **A session whose programs end comes to its end**, within one bound for all of them. -/
theorem exists_run {lines : List String} (h : ∀ fuel, AllEnd σ (fates σ fuel lines s)) :
    ∃ fuel p, run σ fuel lines s = some p := by
  induction lines generalizing s with
  | nil => exact exists_close (h 0)
  | cons line rest ih =>
    simp only [run_cons]
    refine exists_onward (steady_step σ line s.ask) (steady_run σ rest) ?_ fun fuel mid hmid => ?_
    · refine exists_step fun fuel => (h fuel).of_subset fun fate hmem => ?_
      exact List.mem_append_left _ hmem
    · refine ih fun bound => (h (max fuel bound)).of_subset fun fate hmem => ?_
      have hmid' := steady_step σ line _ (Nat.le_max_left fuel bound) hmid
      have hmem' := mem_fates_mono (Nat.le_max_right fuel bound) hmem
      exact List.mem_append_right _ (mem_fatesOnward.2 ⟨mid, hmid', hmem'⟩)

/-! The other way round, a session that comes to its end has run no program that does not. -/

theorem AllEnd.ran {text : String} {fuel : Nat} {fs : List Fate} {st : State} (hfs : AllEnd σ fs)
    (h : perform σ fuel program s = some p) (hst : s.state = st) :
    AllEnd σ (.ran text program st :: fs) := by
  obtain ⟨outcome, left, hrun, -⟩ := perform_cases h
  rw [hst] at hrun
  intro text program st hmem
  rcases List.mem_cons.1 hmem with heq | hmem
  · cases heq
    exact ⟨fuel, _, hrun⟩
  · exact hfs text program st hmem

theorem allEnd_nil : AllEnd σ [] := fun _ _ _ hmem => nomatch hmem

theorem allEnd_take {fuel : Nat} (h : take σ fuel line s = some p) : AllEnd σ (takeFates line s) := by
  obtain ⟨hfates, -⟩ | ⟨hfates, -⟩ | ⟨e, hfates, -⟩ | ⟨program, -, hfates, htake⟩ := take_ways σ line s
  · rw [hfates]
    exact allEnd_nil
  · rw [hfates]
    exact allEnd_nil
  · rw [hfates]
    intro text program st hmem
    cases List.mem_singleton.1 hmem
  · rw [htake] at h
    rw [hfates]
    exact allEnd_nil.ran h rfl

theorem allEnd_onward {q : Option Progress} {next : Session → Option Progress}
    {nextFates : Session → List Fate} (h : onward q next = some p)
    (hnext : ∀ mid, next mid = some p → AllEnd σ (nextFates mid)) :
    AllEnd σ (fatesOnward q nextFates) := by
  intro text program st hmem
  obtain ⟨mid, rfl, hmem⟩ := mem_fatesOnward.1 hmem
  exact hnext mid h text program st hmem

theorem allEnd_step {fuel : Nat} (h : step σ fuel line s = some p) :
    AllEnd σ (stepFates σ fuel line s) := by
  obtain hstep | ⟨program, -, hstep⟩ := step_ways σ line s
  · rw [(hstep fuel).2] at h
    rw [(hstep fuel).1]
    exact allEnd_take h
  · rw [(hstep fuel).2] at h
    rw [(hstep fuel).1]
    have hrest := allEnd_onward h fun mid => allEnd_take
    rcases onward_eq_some h with ⟨mid, hperform, -⟩ | ⟨hperform, -⟩
    · exact hrest.ran hperform rfl
    · exact hrest.ran hperform rfl

theorem allEnd_fates {fuel : Nat} {lines : List String} (h : run σ fuel lines s = some p) :
    AllEnd σ (fates σ fuel lines s) := by
  induction lines generalizing s with
  | nil =>
    obtain ⟨hfates | hfates, -⟩ | ⟨program, -, hfates, hclose⟩ := close_ways σ s.ask
    · rw [fates, hfates]
      exact allEnd_nil
    · rw [fates, hfates]
      intro text program st hmem
      cases List.mem_singleton.1 hmem
    · rw [run, hclose] at h
      rw [fates, hfates]
      rcases onward_eq_some h with ⟨mid, hperform, -⟩ | ⟨hperform, -⟩
      · exact allEnd_nil.ran hperform rfl
      · exact allEnd_nil.ran hperform rfl
  | cons line rest ih =>
    rw [run_cons] at h
    have hrest := allEnd_onward h fun mid => ih
    have hstep : AllEnd σ (stepFates σ fuel line s.ask) := by
      rcases onward_eq_some h with ⟨mid, hstep, -⟩ | ⟨hstep, -⟩
      · exact allEnd_step hstep
      · exact allEnd_step hstep
    intro text program st hmem
    rcases List.mem_append.1 hmem with hmem | hmem
    · exact hstep text program st hmem
    · exact hrest text program st hmem

/-- A session comes to its end if and only if every program that it runs does. -/
theorem exists_run_iff {lines : List String} :
    (∃ fuel p, run σ fuel lines s = some p) ↔ ∀ fuel, AllEnd σ (fates σ fuel lines s) := by
  refine ⟨?_, exists_run⟩
  rintro ⟨bound, p, h⟩ fuel
  have hrun := steady_run σ lines s (Nat.le_max_left bound fuel) h
  exact (allEnd_fates hrun).of_subset fun fate => mem_fates_mono (Nat.le_max_right bound fuel)

end Session

end Parlance
