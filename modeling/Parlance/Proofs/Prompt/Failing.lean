import Parlance.Proofs.Grammar.Filled
import Parlance.Proofs.Prompt.Fate
import Parlance.Proofs.Prompt.Replay
import Parlance.Proofs.Run.Scoping

/-!
# Failures at the prompt

A session reports the errors of what it refuses and of what it runs, in their order, and reads on. Two
things break it off: a program that wants a remainder of an infinite number, and a value that nests
too deep to be echoed. Neither is reported (`Session.run_ends_iff`).
-/

namespace Parlance

/-- The error that an event reports, if it reports one. -/
def Event.reported? : Event → Option Error
  | .reported e => some e
  | _ => none

/-- The errors that a session has reported. -/
def Session.reports (s : Session) : List Error := s.events.toList.filterMap Event.reported?

namespace Fate

/-- The error that a session reports for a fate. -/
def error? (σ : Setting) (fuel : Nat) : Fate → Option Error
  | .ran _ program st =>
    match runProgram σ fuel program st with
    | some ⟨.error (.error e), _⟩ => some e
    | _ => none
  | .refused _ e => some e
  | .dropped _ => none

/-- The fates that break a session off. -/
def Escapes (σ : Setting) (fuel : Nat) : Fate → Prop
  | .ran _ program st =>
    ∃ r, runProgram σ fuel program st = some r ∧
      (r.outcome = .error .noRemainder ∨ ∃ v, r.outcome = .ok v ∧ σ.limit < v.depth)
  | _ => False

end Fate

namespace Session

variable {σ : Setting} {fuel : Nat} {line : String} {program : List Stmt} {s mid : Session}
  {p : Progress}

@[simp]
theorem reports_tell (s : Session) (ev : Event) :
    (s.tell ev).reports = s.reports ++ ev.reported?.toList := by
  unfold reports tell
  rw [Array.toList_push, List.filterMap_append]
  cases h : ev.reported? <;> simp [h]

@[simp]
theorem reports_after (s : Session) (st : State) : (s.after st).reports = s.reports := by
  unfold reports after
  rw [Array.toList_append, List.filterMap_append, Array.toList_map, List.filterMap_map]
  have hnone : Event.reported? ∘ Event.printed = fun _ => none := rfl
  rw [hnone, List.filterMap_none, List.append_nil]

theorem perform_value {v : Value} {st : State}
    (hrun : runProgram σ fuel program s.state = some ⟨.ok v, st⟩) (hv : v ≠ .nothing) :
    perform σ fuel program s =
      match v.textWithin σ.limit with
      | .ok text => some (.goesOn ((s.after st).tell (.echoed text)))
      | .error f => some (.fails f (s.after st)) := by
  unfold perform
  rw [hrun]
  cases v with
  | nothing => exact absurd rfl hv
  | _ => rfl

/-- How a program is run that has no blank statement. -/
theorem perform_ways (hs : Stmt.allFilled program = true) (h : perform σ fuel program s = some p) :
    ∃ outcome st, runProgram σ fuel program s.state = some ⟨outcome, st⟩ ∧
      ((∃ e, outcome = .error (.error e) ∧ p = .goesOn ((s.after st).tell (.reported e))) ∨
        (outcome = .error .noRemainder ∧ p = .fails .noRemainder (s.after st)) ∨
        (∃ v, outcome = .ok v ∧ v.depth ≤ σ.limit ∧ ∃ s', p = .goesOn s' ∧
          (s' = s.after st ∨ ∃ text, s' = (s.after st).tell (.echoed text))) ∨
        ∃ v, outcome = .ok v ∧ σ.limit < v.depth ∧ p = .fails .tooDeep (s.after st)) := by
  obtain ⟨outcome, st, hrun, -⟩ := perform_cases h
  refine ⟨outcome, st, hrun, ?_⟩
  cases outcome with
  | error f =>
    simp only [perform, hrun] at h
    rcases runProgram_fails hs hrun rfl with ⟨e, rfl⟩ | rfl
    · cases h
      exact .inl ⟨e, rfl, rfl⟩
    · cases h
      exact .inr (.inl ⟨rfl, rfl⟩)
  | ok v =>
    refine .inr (.inr ?_)
    by_cases hv : v = .nothing
    · subst hv
      simp only [perform, hrun] at h
      cases h
      exact .inl ⟨.nothing, rfl, Nat.zero_le _, _, rfl, .inl rfl⟩
    · rw [perform_value hrun hv] at h
      unfold Value.textWithin at h
      by_cases hdepth : v.depth ≤ σ.limit
      · rw [if_pos hdepth] at h
        cases h
        exact .inl ⟨v, rfl, hdepth, _, rfl, .inr ⟨v.text, rfl⟩⟩
      · rw [if_neg hdepth] at h
        cases h
        exact .inr ⟨v, rfl, Nat.not_le.1 hdepth, rfl⟩

/-- Nothing that is held back has a blank statement. -/
def Filled (s : Session) : Prop :=
  ∀ program, s.held = some program → Stmt.allFilled program = true

/-! ## What a session makes of its fates -/

/-- The way from a session to where it stands after these fates. -/
structure Accounts (σ : Setting) (fuel : Nat) (fs : List Fate) (s : Session) (p : Progress) :
    Prop where
  /-- Every error is reported, each in its turn. -/
  reports : p.session.reports = s.reports ++ fs.filterMap (Fate.error? σ fuel)
  /-- The session breaks off only at a fate that breaks it off. -/
  fails : (∃ f s', p = .fails f s') ↔ ∃ fate ∈ fs, fate.Escapes σ fuel
  /-- The stack keeps its names. -/
  scopes : s.state.scopes.Extends p.session.state.scopes
  filled : p.session.Filled

namespace Accounts

variable {fs fs' : List Fate}

theorem onward (h : Accounts σ fuel fs s (.goesOn mid)) (h' : Accounts σ fuel fs' mid p) :
    Accounts σ fuel (fs ++ fs') s p where
  reports := by
    have hmid : mid.reports = _ := h.reports
    rw [h'.reports, hmid, List.filterMap_append, List.append_assoc]
  fails := by
    have hcalm : ∀ fate ∈ fs, ¬ fate.Escapes σ fuel := by
      intro fate hmem hescapes
      obtain ⟨f, s', heq⟩ := h.fails.2 ⟨fate, hmem, hescapes⟩
      cases heq
    rw [h'.fails]
    constructor
    · rintro ⟨fate, hmem, hescapes⟩
      exact ⟨fate, List.mem_append_right _ hmem, hescapes⟩
    · rintro ⟨fate, hmem, hescapes⟩
      rcases List.mem_append.1 hmem with hmem | hmem
      · exact absurd hescapes (hcalm fate hmem)
      · exact ⟨fate, hmem, hescapes⟩
  scopes := h.scopes.trans h'.scopes
  filled := h'.filled

/-- A session that goes on as it was, but for the buffer and the events that report nothing. -/
theorem quiet (hp : ∀ f s', p ≠ .fails f s') (hfs : fs.filterMap (Fate.error? σ fuel) = [])
    (hcalm : ∀ fate ∈ fs, ¬ fate.Escapes σ fuel) (hreports : p.session.reports = s.reports)
    (hstate : p.session.state = s.state) (hfilled : p.session.Filled) : Accounts σ fuel fs s p where
  reports := by rw [hreports, hfs, List.append_nil]
  fails := by
    constructor
    · rintro ⟨f, s', heq⟩
      exact absurd heq (hp f s')
    · rintro ⟨fate, hmem, hescapes⟩
      exact absurd hescapes (hcalm fate hmem)
  scopes := .of_scopes (by rw [hstate])
  filled := hfilled

theorem refused {text : String} {e : Error} :
    Accounts σ fuel [.refused text e] s (.goesOn (s.clear.tell (.reported e))) where
  reports := reports_tell s.clear (.reported e)
  fails := by
    constructor
    · rintro ⟨f, s', heq⟩
      cases heq
    · rintro ⟨fate, hmem, hescapes⟩
      cases List.mem_singleton.1 hmem
      exact hescapes.elim
  scopes := .of_scopes rfl
  filled := by rintro program ⟨⟩

/-- A program is run. -/
theorem ran {text : String} (hs : Stmt.allFilled program = true)
    (h : perform σ fuel program s.clear = some p) :
    Accounts σ fuel [.ran text program s.state] s p := by
  obtain ⟨outcome, st, hrun, hways⟩ := perform_ways hs h
  have hrun' : runProgram σ fuel program s.state = some ⟨outcome, st⟩ := hrun
  have hescapes : (∃ fate ∈ [Fate.ran text program s.state], fate.Escapes σ fuel) ↔
      outcome = .error .noRemainder ∨ ∃ v, outcome = .ok v ∧ σ.limit < v.depth := by
    simp [Fate.Escapes, hrun']
  have hscopes : s.state.scopes.Extends st.scopes := runProgram_extends hrun'
  have hafter : (s.clear.after st).reports = s.reports := reports_after s.clear st
  obtain ⟨e, rfl, rfl⟩ | ⟨rfl, rfl⟩ | ⟨v, rfl, hdepth, s', rfl, hs'⟩ | ⟨v, rfl, hdepth, rfl⟩ := hways
  · refine ⟨?_, ?_, hscopes, by rintro program ⟨⟩⟩
    · simp [Fate.error?, hrun', Progress.session, hafter, Event.reported?]
    · rw [hescapes]
      simp
  · refine ⟨?_, ?_, hscopes, by rintro program ⟨⟩⟩
    · simp [Fate.error?, hrun', Progress.session, hafter]
    · rw [hescapes]
      simp
  · have hescapes' : ¬ (Except.ok v = Except.error Failure.noRemainder ∨
        ∃ w, (Except.ok v : Result) = .ok w ∧ σ.limit < w.depth) := by
      rintro (heq | ⟨w, heq, hlt⟩)
      · cases heq
      · cases heq
        exact absurd hdepth (Nat.not_le.2 hlt)
    rw [← hescapes] at hescapes'
    rcases hs' with rfl | ⟨text, rfl⟩
    · refine ⟨?_, by simpa using hescapes', hscopes, by rintro program ⟨⟩⟩
      simp [Fate.error?, hrun', Progress.session, hafter]
    · refine ⟨?_, by simpa using hescapes', hscopes, by rintro program ⟨⟩⟩
      simp [Fate.error?, hrun', Progress.session, hafter, Event.reported?]
  · refine ⟨?_, ?_, hscopes, by rintro program ⟨⟩⟩
    · simp [Fate.error?, hrun', Progress.session, hafter]
    · rw [hescapes]
      simp [hdepth]

end Accounts

theorem accounts_take (hfilled : s.Filled) (h : take σ fuel line s = some p) :
    Accounts σ fuel (takeFates line s) s p := by
  obtain ⟨hfates, htake⟩ | ⟨hfates, held, hheld, htake⟩ | ⟨e, hfates, htake⟩ |
    ⟨program, hparse, hfates, htake⟩ := take_ways σ line s
  · rw [htake] at h
    cases h
    rw [hfates]
    exact .quiet (fun _ _ => nofun) rfl (by simp) rfl rfl hfilled
  · rw [htake] at h
    cases h
    rw [hfates]
    refine .quiet (fun _ _ => nofun) rfl (by simp) rfl rfl fun program hprogram => ?_
    have hprogram : held = some program := hprogram
    rcases hheld with rfl | ⟨program', rfl, hparse⟩
    · exact hfilled program hprogram
    · cases hprogram
      exact parseProgram_filled hparse
  · rw [htake] at h
    cases h
    rw [hfates]
    have hrefused : Accounts σ fuel [.refused (s.put line).buffer e] (s.put line) _ := .refused
    exact ⟨hrefused.reports, hrefused.fails, hrefused.scopes, hrefused.filled⟩
  · rw [htake] at h
    rw [hfates]
    have hran : Accounts σ fuel [.ran (s.put line).buffer program s.state] (s.put line) p :=
      .ran (parseProgram_filled hparse) h
    exact ⟨hran.reports, hran.fails, hran.scopes, hran.filled⟩

/-- Two stages of a session, the second as far as the first goes on. -/
theorem accounts_onward {q : Option Progress} {next : Session → Option Progress} {fs : List Fate}
    {nextFates : Session → List Fate} (h : onward q next = some p)
    (hq : ∀ p, q = some p → Accounts σ fuel fs s p)
    (hnext : ∀ mid, mid.Filled → next mid = some p → Accounts σ fuel (nextFates mid) mid p) :
    Accounts σ fuel (fs ++ fatesOnward q nextFates) s p := by
  rcases onward_eq_some h with ⟨mid, rfl, hp⟩ | ⟨rfl, hnot⟩
  · have hfirst := hq _ rfl
    exact hfirst.onward (hnext mid hfirst.filled hp)
  · have hnone : fatesOnward (some p) nextFates = [] := by
      cases p with
      | goesOn mid => exact absurd rfl (hnot mid)
      | ends mid => rfl
      | fails f mid => rfl
    rw [hnone, List.append_nil]
    exact hq p rfl

theorem accounts_step (hfilled : s.Filled) (h : step σ fuel line s = some p) :
    Accounts σ fuel (stepFates σ fuel line s) s p := by
  obtain hstep | ⟨program, hheld, hstep⟩ := step_ways σ line s
  · rw [(hstep fuel).2] at h
    rw [(hstep fuel).1]
    have htake := accounts_take (by rintro program ⟨⟩) h
    exact ⟨htake.reports, htake.fails, htake.scopes, htake.filled⟩
  · rw [(hstep fuel).2] at h
    rw [(hstep fuel).1]
    exact accounts_onward h (fun p => .ran (hfilled program hheld)) fun mid => accounts_take

theorem accounts_close (hfilled : s.Filled) (h : close σ fuel s = some p) :
    Accounts σ fuel (closeFates s) s p := by
  obtain ⟨hfates, hclose⟩ | ⟨program, hheld, hfates, hclose⟩ := close_ways σ s
  · rw [hclose] at h
    cases h
    rcases hfates with hfates | hfates
    · rw [hfates]
      exact .quiet (fun _ _ => nofun) rfl (by simp) rfl rfl hfilled
    · rw [hfates]
      exact .quiet (fun _ _ => nofun) rfl (by simp [Fate.Escapes]) rfl rfl hfilled
  · rw [hclose] at h
    rw [hfates]
    have hboth : Accounts σ fuel ([.ran s.buffer program s.state] ++
        fatesOnward (perform σ fuel program s.clear) fun _ => []) s p := by
      refine accounts_onward h (fun p => .ran (hfilled program hheld)) fun mid hmid hp => ?_
      cases hp
      exact .quiet (fun _ _ => nofun) rfl (by simp) rfl rfl hmid
    have hnone : fatesOnward (perform σ fuel program s.clear) (fun _ => []) = [] := by
      unfold fatesOnward
      split <;> rfl
    rwa [hnone, List.append_nil] at hboth

/-- The prompt that is shown reports nothing. -/
theorem Accounts.of_ask {fs : List Fate} (h : Accounts σ fuel fs s.ask p) : Accounts σ fuel fs s p where
  reports := by
    have hask : s.ask.reports = s.reports := (reports_tell s _).trans (List.append_nil _)
    rw [h.reports, hask]
  fails := h.fails
  scopes := h.scopes
  filled := h.filled

/-- **A session accounts for all its fates.** -/
theorem accounts_run {lines : List String} (hfilled : s.Filled) (h : run σ fuel lines s = some p) :
    Accounts σ fuel (fates σ fuel lines s) s p := by
  induction lines generalizing s with
  | nil =>
    have hask : s.ask.Filled := hfilled
    have hclose : close σ fuel s.ask = some p := h
    exact (accounts_close hask hclose).of_ask
  | cons line rest ih =>
    rw [run_cons] at h
    exact (accounts_onward h (fun p => accounts_step hfilled) fun mid => ih).of_ask

theorem run_ne_goesOn {lines : List String} (h : run σ fuel lines s = some p) :
    (∃ s', p = .ends s') ∨ ∃ f s', p = .fails f s' := by
  induction lines generalizing s with
  | nil =>
    obtain ⟨-, rfl⟩ | ⟨program, -, ⟨mid, -, rfl⟩ | ⟨f, mid, -, rfl⟩⟩ := close_cases h
    · exact .inl ⟨_, rfl⟩
    · exact .inl ⟨_, rfl⟩
    · exact .inr ⟨_, _, rfl⟩
  | cons line rest ih =>
    rcases run_cons_cases h with ⟨mid, -, hrest⟩ | ⟨-, hnot⟩
    · exact ih hrest
    · cases p with
      | goesOn mid => exact absurd rfl (hnot mid)
      | ends mid => exact .inl ⟨mid, rfl⟩
      | fails f mid => exact .inr ⟨f, mid, rfl⟩

/-- **When a session breaks off.** If every program that a session runs ends, the session comes to its
end. It breaks off if and only if a program wants a remainder that there is not or leaves a value that
nests too deep to be echoed. If it does not, it has read every line up to the end of the input or a
line that asks for the end. Every error, of what was refused and of what was run, is reported in its
turn, and the stack is left with its one scope. -/
theorem run_ends_iff {lines : List String} (h : ∀ fuel, AllEnd σ (fates σ fuel lines .start)) :
    ∃ fuel p, run σ fuel lines .start = some p ∧
      ((∃ s, p = .ends s) ↔ ∀ fate ∈ fates σ fuel lines .start, ¬ fate.Escapes σ fuel) ∧
      ((∃ s, p = .ends s) → ∃ unread, lines = linesRead σ fuel lines .start ++ unread ∧
        ∀ line more, unread = line :: more → isExit line = true) ∧
      p.session.reports = (fates σ fuel lines .start).filterMap (Fate.error? σ fuel) ∧
      p.session.state.scopes.depth = 1 := by
  obtain ⟨fuel, p, hrun⟩ := exists_run_iff.2 h
  have haccounts := accounts_run (by rintro program ⟨⟩) hrun
  refine ⟨fuel, p, hrun, ?_, ?_, haccounts.reports, haccounts.scopes.depth_eq⟩
  · have hfails := haccounts.fails
    rcases run_ne_goesOn hrun with ⟨s, rfl⟩ | ⟨f, s, rfl⟩
    · refine ⟨fun _ fate hmem hescapes => ?_, fun _ => ⟨s, rfl⟩⟩
      obtain ⟨f, s', heq⟩ := hfails.2 ⟨fate, hmem, hescapes⟩
      cases heq
    · obtain ⟨fate, hmem, hescapes⟩ := hfails.1 ⟨f, s, rfl⟩
      exact ⟨fun ⟨s', heq⟩ => (nomatch heq), fun hnone => absurd hescapes (hnone fate hmem)⟩
  · rintro ⟨s, rfl⟩
    exact exists_unread hrun

/-- A name that is not bound, a parenthesis too many, and then a value. -/
theorem run_ends_iff_two_errors :
    let lines := ["y", "true )", "true"]
    (∀ fuel, AllEnd (.standard 0) (fates (.standard 0) fuel lines .start)) ∧
    ∃ fuel p, run (.standard 0) fuel lines .start = some p ∧
      ((∃ s, p = .ends s) ↔
        ∀ fate ∈ fates (.standard 0) fuel lines .start, ¬ fate.Escapes (.standard 0) fuel) ∧
      ((∃ s, p = .ends s) → ∃ unread, lines = linesRead (.standard 0) fuel lines .start ++ unread ∧
        ∀ line more, unread = line :: more → isExit line = true) ∧
      p.session.reports =
        (fates (.standard 0) fuel lines .start).filterMap (Fate.error? (.standard 0) fuel) ∧
      p.session.state.scopes.depth = 1 := by
  intro lines
  let name : Stmt := .expr (.name "y") 1
  let value : Stmt := .expr (.literal (.boolean true)) 1
  have hfirst : parseProgram "y\n" = .ok [name] := by cbv
  have hsecond : parseProgram "true )\n" =
      .error ⟨.unexpectedToken .endOfStatement ⟨.rightParen, ")", .nothing, 1⟩, some 1⟩ := by cbv
  have hthird : parseProgram "true\n" = .ok [value] := by cbv
  have hheld : holdsBack [name] "y" = false ∧ holdsBack [value] "true" = false := ⟨by cbv, by cbv⟩
  have hexit : isExit "y" = false ∧ isExit "true )" = false ∧ isExit "true" = false :=
    ⟨by cbv, by cbv, by cbv⟩
  have hname : runProgram (.standard 0) 5 [name] ⟨.empty, #[], #[]⟩ =
      some ⟨.error (.error ⟨.undefinedVariable "y" .empty, some 1⟩), ⟨.empty, #[], #[]⟩⟩ := by cbv
  have hvalue : runProgram (.standard 0) 5 [value] ⟨.empty, #[], #[]⟩ =
      some ⟨.ok (.boolean true), ⟨.empty, #[], #[]⟩⟩ := by cbv
  have htext : (Value.boolean true).textWithin (Setting.standard 0).limit = .ok "true" := by cbv
  have hrun : run (.standard 0) 5 lines .start = some (.ends ⟨"", none, .start,
      #[.asked ">> ", .reported ⟨.undefinedVariable "y" .empty, some 1⟩, .asked ">> ",
        .reported ⟨.unexpectedToken .endOfStatement ⟨.rightParen, ")", .nothing, 1⟩, some 1⟩,
        .asked ">> ", .echoed "true", .asked ">> "]⟩) := by
    simp [lines, run, step, take, close, perform, ask, tell, prompt, clear, after, start, hfirst,
      hsecond, hthird, hheld, hexit, hname, hvalue, htext, Cause.incomplete, State.start]
  have hends : ∀ fuel, AllEnd (.standard 0) (fates (.standard 0) fuel lines .start) :=
    exists_run_iff.1 ⟨5, _, hrun⟩
  exact ⟨hends, run_ends_iff hends⟩

/-- A remainder of infinity breaks a session off. Nothing is reported, and the line after it is not
read. -/
theorem run_fails_infinite_remainder :
    ∃ s, run (.standard 0) 5 ["num(\"inf\") % num(\"inf\")", "print true"] .start =
        some (.fails .noRemainder s) ∧ s.reports = [] ∧ s.output = [] := by
  let infinity : Expr := .call "num" [.literal (.string "inf")]
  let program : List Stmt := [.expr (.apply .mod [infinity, infinity]) 1]
  have hparse : parseProgram "num(\"inf\") % num(\"inf\")\n" = .ok program := by cbv
  have hheld : holdsBack program "num(\"inf\") % num(\"inf\")" = false := by cbv
  have hexit : isExit "num(\"inf\") % num(\"inf\")" = false := by cbv
  have hinfinity : evaluateIn (.standard 0) .empty 399 infinity =
      .ok (.number (Number.infinity false)) := by cbv
  have hmod : Value.modulus (.number (Number.infinity false)) (.number (Number.infinity false)) =
      .error .noRemainder := by
    have hzero : (Number.infinity false == 0) = false := by decide
    have hnone : Number.remainder? (Number.infinity false) (Number.infinity false) = none := by
      decide +kernel
    simp only [Value.modulus, hzero, hnone]
    rfl
  have hvalue : evaluate (.standard 0) .empty (.apply .mod [infinity, infinity]) =
      .error .noRemainder := by
    show evaluateIn (.standard 0) .empty (399 + 1) _ = _
    rw [evaluateIn]
    · simp only [Op.binary?, hinfinity]
      exact hmod
    all_goals simp
  let blank : State := ⟨.empty, #[], #[]⟩
  have hrun : runProgram (.standard 0) 5 program blank = some ⟨.error .noRemainder, blank⟩ := by
    have hexecute : execute (.standard 0) 4 (.expr (.apply .mod [infinity, infinity]) 1) blank =
        some ⟨.error .noRemainder, blank⟩ := by
      rw [execute_eq]
      show some (Run.locate (some 1) ⟨evaluate (.standard 0) .empty _, blank⟩) = _
      rw [hvalue]
      rfl
    rw [runProgram, executeAll_cons, hexecute]
    rfl
  refine ⟨⟨"", none, blank, #[.asked ">> "]⟩, ?_, rfl, rfl⟩
  simp [run, step, take, perform, ask, tell, prompt, clear, after, start, State.start, hparse, hheld,
    hexit, hrun, blank]

end Session

end Parlance
