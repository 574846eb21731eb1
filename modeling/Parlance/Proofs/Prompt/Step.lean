import Parlance.Prompt

/-!
# What a line does to a session

The ways in which a session takes a line, one lemma for each function of the prompt, and what all
of them keep: a session takes back nothing that it has told.
-/

namespace Parlance

/-- The session that a progress ends with. -/
def Progress.session : Progress → Session
  | .goesOn s => s
  | .ends s => s
  | .fails _ s => s

/-- The line that a script printed, if the event is one. -/
def Event.printed? : Event → Option String
  | .printed line => some line
  | _ => none

namespace Session

/-- The lines that scripts have printed. -/
def output (s : Session) : List String := s.events.toList.filterMap Event.printed?

/-- No error was reported. -/
def Quiet (s : Session) : Prop := ∀ e, Event.reported e ∉ s.events

/-- The session with a line put into the buffer. -/
def put (s : Session) (line : String) : Session := { s with buffer := s.buffer ++ line ++ "\n" }

variable {σ : Setting} {fuel : Nat} {line : String} {program : List Stmt} {s s' : Session}
  {p : Progress}

/-! ## The ways to go on -/

theorem perform_cases (h : perform σ fuel program s = some p) :
    ∃ outcome st, runProgram σ fuel program s.state = some ⟨outcome, st⟩ ∧
      ((∃ e, outcome = .error (.error e) ∧ p = .goesOn ((s.after st).tell (.reported e))) ∨
        (outcome = .ok .nothing ∧ p = .goesOn (s.after st)) ∨
        (∃ v text, outcome = .ok v ∧ v.textWithin σ.limit = .ok text ∧
          p = .goesOn ((s.after st).tell (.echoed text))) ∨
        ∃ f, p = .fails f (s.after st)) := by
  unfold perform at h
  split at h
  · cases h
  · rename_i outcome st hrun
    refine ⟨outcome, st, hrun, ?_⟩
    dsimp only at h
    split at h
    · cases h
      exact .inl ⟨_, rfl, rfl⟩
    · cases h
      exact .inr (.inr (.inr ⟨_, rfl⟩))
    · cases h
      exact .inr (.inl ⟨rfl, rfl⟩)
    · split at h
      · cases h
        exact .inr (.inr (.inl ⟨_, _, rfl, ‹_›, rfl⟩))
      · cases h
        exact .inr (.inr (.inr ⟨_, rfl⟩))

/-- A program that is run does not end the session. -/
theorem perform_fails_of_not_goesOn (h : perform σ fuel program s = some p)
    (hnot : ∀ s', perform σ fuel program s = some (.goesOn s') → False) :
    ∃ f s', perform σ fuel program s = some (.fails f s') ∧ p = .fails f s' := by
  obtain ⟨_, st, -, ⟨_, -, rfl⟩ | ⟨-, rfl⟩ | ⟨_, _, -, -, rfl⟩ | ⟨f, rfl⟩⟩ := perform_cases h
  · exact (hnot _ h).elim
  · exact (hnot _ h).elim
  · exact (hnot _ h).elim
  · exact ⟨f, _, h, rfl⟩

theorem take_eq (σ : Setting) (fuel : Nat) (line : String) (s : Session) : take σ fuel line s =
    if s.buffer.isEmpty && isExit line then some (.ends s)
    else match parseProgram (s.put line).buffer with
      | .error e =>
        if e.cause.incomplete then some (.goesOn (s.put line))
        else some (.goesOn ((s.put line).clear.tell (.reported e)))
      | .ok program =>
        if holdsBack program line then some (.goesOn { s.put line with held := some program })
        else perform σ fuel program (s.put line).clear := rfl

theorem take_cases (h : take σ fuel line s = some p) :
    (s.buffer = "" ∧ isExit line = true ∧ p = .ends s) ∨
    (∃ e, parseProgram (s.put line).buffer = .error e ∧
      ((e.cause.incomplete = true ∧ p = .goesOn (s.put line)) ∨
        (e.cause.incomplete = false ∧ p = .goesOn ((s.put line).clear.tell (.reported e))))) ∨
    ∃ program, parseProgram (s.put line).buffer = .ok program ∧
      ((holdsBack program line = true ∧ p = .goesOn { s.put line with held := some program }) ∨
        (holdsBack program line = false ∧ perform σ fuel program (s.put line).clear = some p)) := by
  rw [take_eq] at h
  split at h
  · rename_i hexit
    rw [Bool.and_eq_true, String.isEmpty_iff] at hexit
    cases h
    exact .inl ⟨hexit.1, hexit.2, rfl⟩
  · refine .inr ?_
    split at h
    · rename_i e hparse
      refine .inl ⟨e, hparse, ?_⟩
      split at h
      · cases h
        exact .inl ⟨‹_›, rfl⟩
      · cases h
        exact .inr ⟨Bool.eq_false_iff.2 ‹_›, rfl⟩
    · rename_i program hparse
      refine .inr ⟨program, hparse, ?_⟩
      split at h
      · cases h
        exact .inl ⟨‹_›, rfl⟩
      · exact .inr ⟨Bool.eq_false_iff.2 ‹_›, h⟩

/-- Only the word that asks for the end ends a session, and nothing else becomes of it. -/
theorem take_ends (h : take σ fuel line s = some (.ends s')) : s' = s ∧ isExit line = true := by
  obtain ⟨-, hexit, heq⟩ | ⟨e, -, ⟨-, heq⟩ | ⟨-, heq⟩⟩ | ⟨program, -, ⟨-, heq⟩ | ⟨-, hperform⟩⟩ :=
    take_cases h
  · exact ⟨Progress.ends.inj heq, hexit⟩
  · cases heq
  · cases heq
  · cases heq
  · obtain ⟨_, _, -, ⟨_, -, heq⟩ | ⟨-, heq⟩ | ⟨_, _, -, -, heq⟩ | ⟨_, heq⟩⟩ := perform_cases hperform
    all_goals cases heq

theorem step_cases (h : step σ fuel line s = some p) :
    (s.held = none ∧ take σ fuel line s = some p) ∨
    ∃ program, s.held = some program ∧
      ((continuesBranch line = true ∧ take σ fuel line { s with held := none } = some p) ∨
        (continuesBranch line = false ∧
          ((∃ s', perform σ fuel program s.clear = some (.goesOn s') ∧ take σ fuel line s' = some p) ∨
            ∃ f s', perform σ fuel program s.clear = some (.fails f s') ∧ p = .fails f s'))) := by
  unfold step at h
  split at h
  · exact .inl ⟨‹_›, h⟩
  · rename_i program hheld
    refine .inr ⟨program, hheld, ?_⟩
    split at h
    · exact .inl ⟨‹_›, h⟩
    · refine .inr ⟨Bool.eq_false_iff.2 ‹_›, ?_⟩
      split at h
      · exact .inl ⟨_, ‹_›, h⟩
      · exact .inr (perform_fails_of_not_goesOn h ‹_›)

theorem step_ends (h : step σ fuel line s = some (.ends s')) : isExit line = true := by
  obtain ⟨-, htake⟩ | ⟨program, -, ⟨-, htake⟩ | ⟨-, ⟨mid, -, htake⟩ | ⟨f, mid, -, heq⟩⟩⟩ := step_cases h
  · exact (take_ends htake).2
  · exact (take_ends htake).2
  · exact (take_ends htake).2
  · cases heq

theorem close_cases (h : close σ fuel s = some p) :
    (s.held = none ∧ p = .ends s) ∨
    ∃ program, s.held = some program ∧
      ((∃ s', perform σ fuel program s.clear = some (.goesOn s') ∧ p = .ends s') ∨
        ∃ f s', perform σ fuel program s.clear = some (.fails f s') ∧ p = .fails f s') := by
  unfold close at h
  split at h
  · cases h
    exact .inl ⟨‹_›, rfl⟩
  · rename_i program hheld
    refine .inr ⟨program, hheld, ?_⟩
    split at h
    · cases h
      exact .inl ⟨_, ‹_›, rfl⟩
    · exact .inr (perform_fails_of_not_goesOn h ‹_›)

theorem run_cons_cases {rest : List String} (h : run σ fuel (line :: rest) s = some p) :
    (∃ s', step σ fuel line s.ask = some (.goesOn s') ∧ run σ fuel rest s' = some p) ∨
      (step σ fuel line s.ask = some p ∧ ∀ s', p ≠ .goesOn s') := by
  rw [run] at h
  split at h
  · exact .inl ⟨_, ‹_›, h⟩
  · rename_i hstep
    exact .inr ⟨h, fun s' hs => hstep s' (hs ▸ h)⟩

/-! ## What was told stays told -/

/-- The events of one session come first in the other. -/
def Grows (s s' : Session) : Prop := ∃ more, s'.events = s.events ++ more

namespace Grows

theorem refl (s : Session) : s.Grows s := ⟨#[], Array.append_empty.symm⟩

theorem trans {s₁ s₂ s₃ : Session} (h : s₁.Grows s₂) (h' : s₂.Grows s₃) : s₁.Grows s₃ := by
  obtain ⟨more, hmore⟩ := h
  obtain ⟨more', hmore'⟩ := h'
  exact ⟨more ++ more', by rw [hmore', hmore, Array.append_assoc]⟩

theorem tell (h : s.Grows s') (ev : Event) : s.Grows (s'.tell ev) :=
  h.trans ⟨#[ev], rfl⟩

theorem after (s : Session) (st : State) : s.Grows (s.after st) := ⟨st.printed.map .printed, rfl⟩

theorem quiet (h : s.Grows s') (hq : s'.Quiet) : s.Quiet := by
  obtain ⟨more, hmore⟩ := h
  intro e he
  exact hq e (hmore ▸ Array.mem_append_left more he)

end Grows

theorem perform_grows (h : perform σ fuel program s = some p) : s.Grows p.session := by
  obtain ⟨_, st, -, ⟨_, -, rfl⟩ | ⟨-, rfl⟩ | ⟨_, _, -, -, rfl⟩ | ⟨f, rfl⟩⟩ := perform_cases h
  · exact (Grows.after s st).tell _
  · exact Grows.after s st
  · exact (Grows.after s st).tell _
  · exact Grows.after s st

theorem take_grows (h : take σ fuel line s = some p) : s.Grows p.session := by
  obtain ⟨-, -, rfl⟩ | ⟨e, -, ⟨-, rfl⟩ | ⟨-, rfl⟩⟩ | ⟨program, -, ⟨-, rfl⟩ | ⟨-, hperform⟩⟩ :=
    take_cases h
  · exact Grows.refl s
  · exact Grows.refl s
  · exact (Grows.refl s).tell _
  · exact Grows.refl s
  · have hgrows := perform_grows hperform
    exact hgrows

theorem step_grows (h : step σ fuel line s = some p) : s.Grows p.session := by
  obtain ⟨-, htake⟩ | ⟨program, -, ⟨-, htake⟩ | ⟨-, ⟨s', hperform, htake⟩ | ⟨f, s', hperform, rfl⟩⟩⟩ :=
    step_cases h
  · exact take_grows htake
  · have hgrows := take_grows htake
    exact hgrows
  · have hgrows := (perform_grows hperform).trans (take_grows htake)
    exact hgrows
  · have hgrows := perform_grows hperform
    exact hgrows

theorem close_grows (h : close σ fuel s = some p) : s.Grows p.session := by
  obtain ⟨-, rfl⟩ | ⟨program, -, ⟨s', hperform, rfl⟩ | ⟨f, s', hperform, rfl⟩⟩ := close_cases h
  · exact Grows.refl s
  · have hgrows := perform_grows hperform
    exact hgrows
  · have hgrows := perform_grows hperform
    exact hgrows

/-- **A session takes back nothing that it has told.** -/
theorem run_grows {lines : List String} (h : run σ fuel lines s = some p) : s.Grows p.session := by
  induction lines generalizing s with
  | nil => exact ((Grows.refl s).tell _).trans (close_grows h)
  | cons line rest ih =>
    rcases run_cons_cases h with ⟨s', hstep, hrest⟩ | ⟨hstep, -⟩
    · exact ((Grows.refl s).tell _).trans ((step_grows hstep).trans (ih hrest))
    · exact ((Grows.refl s).tell _).trans (step_grows hstep)

end Session

end Parlance
