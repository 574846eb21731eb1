import Parlance.Proofs.Prompt.Step
import Parlance.Proofs.Reader.Joined
import Parlance.Proofs.Run.Moved

/-!
# Sessions and scripts

A session that reports no error does what the script made of its lines does. The session reads its
lines in pieces and runs each as soon as it is whole, the script reads and runs all of them at once.

The invariant is `Replays`: the text of the lines that were run is a script that leaves the names of
the session and prints what the session printed. One piece more is run
(`Replays.perform`), and what is not run yet stands in the buffer.
-/

namespace Parlance

/-- Nothing, or text whose last line ends. -/
def IsLines (text : String) : Prop := text.toList = [] ∨ Token.EndsLine text.toList

theorem isLines_put (text line : String) : IsLines (text ++ line ++ "\n") :=
  .inr ⟨text.toList ++ line.toList, by simp⟩

theorem IsLines.append {text text' : String} (h : IsLines text) (h' : IsLines text') :
    IsLines (text ++ text') := by
  unfold IsLines at *
  rw [String.toList_append]
  rcases h' with hnil | ⟨ds, hds⟩
  · rwa [hnil, List.append_nil]
  · exact .inr ⟨text.toList ++ ds, by rw [hds, List.append_assoc]⟩

namespace Session

/-- The lines with their ends, as one text. -/
def textOf (lines : List String) : String := String.join (lines.map (· ++ "\n"))

theorem textOf_cons (line : String) (lines : List String) :
    textOf (line :: lines) = line ++ "\n" ++ textOf lines := by
  unfold textOf
  rw [List.map_cons, String.join_cons]

/-- The lines that a session reads before it ends. -/
def linesRead (σ : Setting) (fuel : Nat) : List String → Session → List String
  | [], _ => []
  | line :: rest, s =>
    match step σ fuel line s.ask with
    | some (.goesOn s) => line :: linesRead σ fuel rest s
    | _ => []

/-- The lines that are not read come after a line that asks for the end. -/
theorem exists_unread {σ : Setting} {fuel : Nat} {lines : List String} {s s' : Session}
    (h : run σ fuel lines s = some (.ends s')) : ∃ unread, lines = linesRead σ fuel lines s ++ unread ∧
      ∀ line more, unread = line :: more → isExit line = true := by
  induction lines generalizing s with
  | nil => exact ⟨[], rfl, by rintro line more ⟨⟩⟩
  | cons line rest ih =>
    rcases run_cons_cases h with ⟨mid, hstep, hrest⟩ | ⟨hstep, -⟩
    · obtain ⟨unread, hunread, hexit⟩ := ih hrest
      refine ⟨unread, ?_, hexit⟩
      rw [linesRead, hstep]
      exact congrArg (line :: ·) hunread
    · refine ⟨line :: rest, ?_, ?_⟩
      · rw [linesRead, hstep]
        rfl
      · rintro _ _ ⟨⟩
        exact step_ends hstep

/-- As a script, `text` succeeds, leaves the names of the session and prints what it printed. -/
def AsScript (σ : Setting) (text : String) (s : Session) : Prop :=
  ∃ program fuel v st, parseProgram text = .ok program ∧
    runProgram σ fuel program .start = some ⟨.ok v, st⟩ ∧
    st.scopes = s.state.scopes ∧ st.printed.toList = s.output

/-- The session has run the text `done` and nothing else; what it has read since is in the buffer. -/
structure Replays (σ : Setting) (done : String) (s : Session) : Prop where
  lines : IsLines done
  script : AsScript σ done s
  buffer : IsLines s.buffer
  held (program : List Stmt) : s.held = some program → parseProgram s.buffer = .ok program
  printed : s.state.printed = #[]

variable {σ : Setting} {fuel : Nat} {line done : String} {program : List Stmt} {s s' : Session}
  {p : Progress}

theorem output_tell {ev : Event} (h : ev.printed? = none) : (s.tell ev).output = s.output := by
  unfold output tell
  rw [Array.toList_push, List.filterMap_append]
  simp [h]

theorem output_after (s : Session) (st : State) :
    (s.after st).output = s.output ++ st.printed.toList := by
  unfold output after
  rw [Array.toList_append, List.filterMap_append, Array.toList_map, List.filterMap_map]
  exact congrArg _ List.filterMap_some

namespace Replays

theorem start : Replays σ "" .start where
  lines := .inl rfl
  script := ⟨[], 1, .nothing, .start, by cbv, rfl, rfl, rfl⟩
  buffer := .inl rfl
  held _ h := by cases h
  printed := rfl

theorem tell (h : Replays σ done s) {ev : Event} (hev : ev.printed? = none) :
    Replays σ done (s.tell ev) where
  lines := h.lines
  script := by
    obtain ⟨program, fuel, v, st, hparse, hrun, hscopes, hprinted⟩ := h.script
    exact ⟨program, fuel, v, st, hparse, hrun, hscopes, by rw [hprinted, output_tell hev]⟩
  buffer := h.buffer
  held := h.held
  printed := h.printed

/-- A run that succeeds, of the program that the buffer holds. -/
theorem after (h : Replays σ done s) (hparse : parseProgram s.buffer = .ok program) {v : Value}
    {st : State} (hrun : runProgram σ fuel program s.clear.state = some ⟨.ok v, st⟩) :
    Replays σ (done ++ s.buffer) (s.clear.after st) where
  lines := h.lines.append h.buffer
  script := by
    obtain ⟨before, fuel', v', mid, hbefore, hmid, hscopes, hprinted⟩ := h.script
    obtain ⟨k, hboth⟩ := parseProgram_append h.lines hbefore hparse
    have halike : s.clear.state.Alike mid.printed mid :=
      ⟨hscopes, by rw [show s.clear.state.printed = #[] from h.printed, Array.append_empty]⟩
    obtain ⟨bound, u, left, hleft, hfinal⟩ := runProgram_append hmid hrun halike (· + k)
    refine ⟨_, bound, u, left, hboth, hleft, hfinal.scopes, ?_⟩
    rw [hfinal.printed, Array.toList_append, hprinted, output_after]
    rfl
  buffer := .inl rfl
  held _ hheld := by cases hheld
  printed := rfl

/-- The program that the buffer holds is run, and nothing is reported. -/
theorem perform (h : Replays σ done s) (hparse : parseProgram s.buffer = .ok program)
    (hperform : Session.perform σ fuel program s.clear = some (.goesOn s')) (hquiet : s'.Quiet) :
    Replays σ (done ++ s.buffer) s' ∧ s'.buffer = "" ∧ s'.held = none := by
  obtain ⟨outcome, st, hrun, ⟨e, -, heq⟩ | ⟨rfl, heq⟩ | ⟨v, text, rfl, -, heq⟩ | ⟨f, heq⟩⟩ :=
    perform_cases hperform
  · cases heq
    exact absurd (Array.mem_push_self ..) (hquiet e)
  · cases heq
    exact ⟨h.after hparse hrun, rfl, rfl⟩
  · cases heq
    exact ⟨(h.after hparse hrun).tell rfl, rfl, rfl⟩
  · cases heq

theorem put (h : Replays σ done s) (hnone : s.held = none) (line : String) :
    Replays σ done (s.put line) where
  lines := h.lines
  script := h.script
  buffer := isLines_put s.buffer line
  held _ hheld := by cases hnone.symm.trans hheld
  printed := h.printed

/-- A line that leaves the session waiting, or is run. -/
theorem take (h : Replays σ done s) (hnone : s.held = none)
    (htake : Session.take σ fuel line s = some (.goesOn s')) (hquiet : s'.Quiet) :
    ∃ done', Replays σ done' s' ∧ done' ++ s'.buffer = done ++ s.buffer ++ line ++ "\n" := by
  have hput := h.put hnone line
  have htext : done ++ (s.put line).buffer = done ++ s.buffer ++ line ++ "\n" := by
    simp only [Session.put, String.append_assoc]
  obtain ⟨-, -, heq⟩ | ⟨e, hparse, ⟨-, heq⟩ | ⟨-, heq⟩⟩ |
    ⟨program, hparse, ⟨-, heq⟩ | ⟨-, hperform⟩⟩ := take_cases htake
  · cases heq
  · cases heq
    exact ⟨done, hput, htext⟩
  · cases heq
    exact absurd (Array.mem_push_self ..) (hquiet e)
  · cases heq
    refine ⟨done, ⟨hput.lines, hput.script, hput.buffer, ?_, hput.printed⟩, htext⟩
    rintro _ ⟨⟩
    exact hparse
  · obtain ⟨hdone, hbuffer, -⟩ := hput.perform hparse hperform hquiet
    exact ⟨_, hdone, by rw [hbuffer, String.append_empty, htext]⟩

/-- A session that held a program back and goes on without it. -/
theorem release (h : Replays σ done s) : Replays σ done { s with held := none } where
  lines := h.lines
  script := h.script
  buffer := h.buffer
  held _ hheld := by cases hheld
  printed := h.printed

/-- **A line is run in its turn, or waits in the buffer.** -/
theorem step (h : Replays σ done s) (hstep : Session.step σ fuel line s = some (.goesOn s'))
    (hquiet : s'.Quiet) :
    ∃ done', Replays σ done' s' ∧ done' ++ s'.buffer = done ++ s.buffer ++ line ++ "\n" := by
  obtain ⟨hnone, htake⟩ | ⟨program, hheld, ⟨-, htake⟩ | ⟨-, ⟨mid, hperform, htake⟩ |
    ⟨f, s', -, heq⟩⟩⟩ := step_cases hstep
  · exact h.take hnone htake hquiet
  · exact h.release.take rfl htake hquiet
  · obtain ⟨hmid, hbuffer, hnone⟩ :=
      h.perform (h.held program hheld) hperform ((take_grows htake).quiet hquiet)
    obtain ⟨done', hdone', htext⟩ := hmid.take hnone htake hquiet
    refine ⟨done', hdone', ?_⟩
    rw [htext, hbuffer, String.append_empty]
  · cases heq

/-- The line that ends a session is not run, but a program that was held back is. -/
theorem step_ends (h : Replays σ done s) (hstep : Session.step σ fuel line s = some (.ends s'))
    (hquiet : s'.Quiet) : ∃ done', Replays σ done' s' ∧ done' ++ s'.buffer = done ++ s.buffer := by
  obtain ⟨hnone, htake⟩ | ⟨program, hheld, ⟨-, htake⟩ | ⟨-, ⟨mid, hperform, htake⟩ |
    ⟨f, s', -, heq⟩⟩⟩ := step_cases hstep
  · obtain ⟨rfl, -⟩ := take_ends htake
    exact ⟨done, h, rfl⟩
  · obtain ⟨rfl, -⟩ := take_ends htake
    exact ⟨done, h.release, rfl⟩
  · obtain ⟨rfl, -⟩ := take_ends htake
    obtain ⟨hdone, hbuffer, -⟩ := h.perform (h.held program hheld) hperform hquiet
    exact ⟨_, hdone, by rw [hbuffer, String.append_empty]⟩
  · cases heq

theorem close (h : Replays σ done s) (hclose : Session.close σ fuel s = some (.ends s'))
    (hquiet : s'.Quiet) : ∃ done', Replays σ done' s' ∧ done' ++ s'.buffer = done ++ s.buffer := by
  obtain ⟨-, heq⟩ | ⟨program, hheld, ⟨mid, hperform, heq⟩ | ⟨f, mid, -, heq⟩⟩ := close_cases hclose
  · cases heq
    exact ⟨done, h, rfl⟩
  · cases heq
    obtain ⟨hdone, hbuffer, -⟩ := h.perform (h.held program hheld) hperform hquiet
    exact ⟨_, hdone, by rw [hbuffer, String.append_empty]⟩
  · cases heq

/-- **A session over its lines**: all that it reads is run, but for what is left in the buffer. -/
theorem run {lines : List String} (h : Replays σ done s)
    (hrun : Session.run σ fuel lines s = some (.ends s')) (hquiet : s'.Quiet) :
    ∃ done', Replays σ done' s' ∧
      done' ++ s'.buffer = done ++ s.buffer ++ textOf (linesRead σ fuel lines s) := by
  induction lines generalizing done s with
  | nil =>
    obtain ⟨done', hdone', htext⟩ := (h.tell rfl).close hrun hquiet
    refine ⟨done', hdone', ?_⟩
    rw [htext]
    exact String.append_empty.symm
  | cons line rest ih =>
    have hask : Replays σ done s.ask := h.tell rfl
    rcases run_cons_cases hrun with ⟨mid, hstep, hrest⟩ | ⟨hstep, -⟩
    · obtain ⟨done', hdone', htext⟩ := hask.step hstep ((run_grows hrest).quiet hquiet)
      obtain ⟨done'', hdone'', htext'⟩ := ih hdone' hrest
      refine ⟨done'', hdone'', ?_⟩
      rw [htext', htext, linesRead, hstep]
      show _ = done ++ s.buffer ++ textOf (line :: linesRead σ fuel rest mid)
      rw [textOf_cons]
      simp only [ask, Session.tell, String.append_assoc]
    · obtain ⟨done', hdone', htext⟩ := hask.step_ends hstep hquiet
      refine ⟨done', hdone', ?_⟩
      rw [htext, linesRead, hstep]
      exact String.append_empty.symm

end Replays

/-- **A session that reports no error does what the script of its lines does.** The lines are those
that come before the end of the input or the line that asks for the end, and none of them is left in
the buffer. The script succeeds, leaves the same scopes and prints the same lines. -/
theorem runProgram_linesRead {lines : List String}
    (hrun : run σ fuel lines .start = some (.ends s)) (hquiet : s.Quiet) (hbuffer : s.buffer = "") :
    (∃ unread, lines = linesRead σ fuel lines .start ++ unread ∧
      ∀ line more, unread = line :: more → isExit line = true) ∧
    ∃ program, parseProgram (textOf (linesRead σ fuel lines .start)) = .ok program ∧
      ∃ fuel' v st, runProgram σ fuel' program .start = some ⟨.ok v, st⟩ ∧
        st.scopes = s.state.scopes ∧ st.printed.toList = s.output := by
  obtain ⟨done, hdone, htext⟩ := Replays.start.run hrun hquiet
  obtain ⟨program, fuel', v, st, hparse, hscript⟩ := hdone.script
  rw [hbuffer, String.append_empty] at htext
  refine ⟨exists_unread hrun, program, ?_, fuel', v, st, hscript⟩
  rw [← hparse, htext]
  exact congrArg parseProgram String.empty_append.symm

/-- A conditional waits for the line after it, which brings an `else`; the line after that is an
expression, whose value is echoed and no line of the script. -/
theorem runProgram_linesRead_else_below :
    ∃ lines s, lines = ["if true \x7b print true \x7d", "else \x7b \x7d", "true"] ∧
      run (.standard 0) 5 lines .start = some (.ends s) ∧ s.Quiet ∧ s.buffer = "" ∧
      s.output = ["true"] ∧
      (∃ unread, lines = linesRead (.standard 0) 5 lines .start ++ unread ∧
        ∀ line more, unread = line :: more → isExit line = true) ∧
      ∃ program, parseProgram (textOf (linesRead (.standard 0) 5 lines .start)) = .ok program ∧
        ∃ fuel' v st, runProgram (.standard 0) fuel' program .start = some ⟨.ok v, st⟩ ∧
          st.scopes = s.state.scopes ∧ st.printed.toList = s.output := by
  let lines := ["if true \x7b print true \x7d", "else \x7b \x7d", "true"]
  let branch : Stmt := .branch (.literal (.boolean true)) [.print (.literal (.boolean true)) 1] [] 1
  let value : Stmt := .expr (.literal (.boolean true)) 1
  have hfirst : parseProgram "if true \x7b print true \x7d\n" = .ok [branch] := by cbv
  have hsecond : parseProgram "if true \x7b print true \x7d\nelse \x7b \x7d\n" = .ok [branch] := by cbv
  have hthird : parseProgram "true\n" = .ok [value] := by cbv
  have hheld : holdsBack [branch] "if true \x7b print true \x7d" = true ∧
      holdsBack [branch] "else \x7b \x7d" = true ∧ holdsBack [value] "true" = false :=
    ⟨by cbv, by cbv, by cbv⟩
  have hnext : continuesBranch "else \x7b \x7d" = true ∧ continuesBranch "true" = false :=
    ⟨by cbv, by cbv⟩
  have hexit : ∀ line ∈ lines, isExit line = false := by
    simp only [lines, List.forall_mem_cons]
    exact ⟨by cbv, by cbv, by cbv, by simp⟩
  have hbranch : runProgram (.standard 0) 5 [branch] .start =
      some ⟨.ok .nothing, ⟨.empty, #["true"], #[]⟩⟩ := by cbv
  have hvalue : runProgram (.standard 0) 5 [value] ⟨.empty, #[], #[]⟩ =
      some ⟨.ok (.boolean true), ⟨.empty, #[], #[]⟩⟩ := by cbv
  have htext : (Value.boolean true).textWithin (Setting.standard 0).limit = .ok "true" := by cbv
  have hrun : run (.standard 0) 5 lines .start = some (.ends ⟨"", none, ⟨.empty, #[], #[]⟩,
      #[.asked ">> ", .asked ".. ", .asked ".. ", .printed "true", .echoed "true", .asked ">> "]⟩) := by
    simp only [lines, List.forall_mem_cons] at hexit
    simp [lines, run, step, take, close, perform, ask, tell, prompt, clear, after, start, hfirst,
      hsecond, hthird, hheld, hnext, hexit, hbranch, hvalue, htext]
  exact ⟨lines, _, rfl, hrun, by simp [Quiet], rfl, rfl, runProgram_linesRead hrun (by simp [Quiet]) rfl⟩

end Session

end Parlance
