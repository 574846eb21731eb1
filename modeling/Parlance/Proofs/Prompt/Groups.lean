import Parlance.Proofs.Prompt.Fate
import Parlance.Proofs.Prompt.Replay

/-!
# Groups of lines

A session that comes to its end loses, repeats and reorders nothing. The lines that it has read are
groups, one after another, and every group meets one fate: its text is run, or it is refused, or it is
the last and not whole when the input ends. What the session shows is what these fates show, in their
order, and each program runs from the state that the one before has left (`Session.run_groups`).

The invariant is `Session.Waits`: the lines read since the last fate are those in the buffer, and they
are not whole, or they are a program that is held back. A line goes on with them or settles them
(`Session.Waits.step`).
-/

namespace Parlance

/-- Is the event a prompt? -/
def Event.isPrompt : Event → Bool
  | .asked _ => true
  | _ => false

/-- What a session shows of a run: the lines that it printed, then its error or its value. -/
def Run.shown (r : Run) : List Event :=
  r.state.printed.toList.map .printed ++
    match r.outcome with
    | .error (.error e) => [.reported e]
    | .error _ | .ok .nothing => []
    | .ok v => [.echoed v.text]

namespace Session

/-- What a session has shown, its prompts apart. -/
def shown (s : Session) : List Event := s.events.toList.filter fun ev => !ev.isPrompt

end Session

namespace Fate

open Session (textOf)

/-- A group of lines meets its fate in the state `st`: what is shown of it, and the state that is left. -/
inductive Meets (σ : Setting) (group : List String) (st : State) :
    Fate → List Event → State → Prop where
  | ran {program : List Stmt} {fuel : Nat} {r : Run}
      (hparse : parseProgram (textOf group) = .ok program)
      (hrun : runProgram σ fuel program st = some r) :
      Meets σ group st (.ran (textOf group) program st) r.shown { r.state with printed := #[] }
  | refused {e : Error} (hparse : parseProgram (textOf group) = .error e)
      (he : e.cause.incomplete = false) :
      Meets σ group st (.refused (textOf group) e) [.reported e] st
  | dropped {e : Error} (hparse : parseProgram (textOf group) = .error e)
      (he : e.cause.incomplete = true) : Meets σ group st (.dropped (textOf group)) [] st

/-- Groups meet their fates one after another, each in the state that the one before has left. -/
inductive AllMeet (σ : Setting) :
    List (List String) → State → List Fate → List Event → State → Prop where
  | none {st : State} : AllMeet σ [] st [] [] st
  | more {group : List String} {groups : List (List String)} {st mid st' : State} {fate : Fate}
      {fs : List Fate} {evs evs' : List Event} (h : Meets σ group st fate evs mid)
      (hs : AllMeet σ groups mid fs evs' st') :
      AllMeet σ (group :: groups) st (fate :: fs) (evs ++ evs') st'

namespace AllMeet

variable {σ : Setting} {groups groups' : List (List String)} {st mid st' : State}
  {fs fs' : List Fate} {evs evs' : List Event}

theorem append (h : AllMeet σ groups st fs evs mid) (h' : AllMeet σ groups' mid fs' evs' st') :
    AllMeet σ (groups ++ groups') st (fs ++ fs') (evs ++ evs') st' := by
  induction h with
  | none => exact h'
  | more hfirst _ ih =>
    rw [List.append_assoc]
    exact .more hfirst (ih h')

theorem single {group : List String} {fate : Fate} (h : Meets σ group st fate evs st') :
    AllMeet σ [group] st [fate] evs st' := by
  have hmore := AllMeet.more h .none
  rwa [List.append_nil] at hmore

end AllMeet

end Fate

namespace Session

variable {σ : Setting} {fuel : Nat} {line : String} {program : List Stmt} {s s' mid : Session}
  {waiting : List String}

/-! ## What is shown -/

theorem shown_tell (s : Session) (ev : Event) :
    (s.tell ev).shown = s.shown ++ if ev.isPrompt then [] else [ev] := by
  unfold shown tell
  rw [Array.toList_push, List.filter_append]
  cases h : ev.isPrompt <;> simp [h]

theorem shown_ask (s : Session) : s.ask.shown = s.shown :=
  (shown_tell s _).trans (List.append_nil _)

theorem shown_after (s : Session) (st : State) :
    (s.after st).shown = s.shown ++ st.printed.toList.map .printed := by
  unfold shown after
  rw [Array.toList_append, List.filter_append, Array.toList_map]
  congr 1
  refine List.filter_eq_self.2 fun ev hev => ?_
  obtain ⟨text, -, rfl⟩ := List.mem_map.1 hev
  rfl

/-- A program that is run is shown once, and leaves its state to the session. -/
theorem perform_shown (h : perform σ fuel program s = some (.goesOn s')) :
    ∃ r, runProgram σ fuel program s.state = some r ∧
      s'.state = { r.state with printed := #[] } ∧ s'.shown = s.shown ++ r.shown ∧
      s'.buffer = s.buffer ∧ s'.held = s.held := by
  unfold perform at h
  split at h
  · cases h
  · rename_i outcome st hrun
    refine ⟨_, hrun, ?_⟩
    dsimp only at h
    split at h
    · cases h
      refine ⟨rfl, ?_, rfl, rfl⟩
      rw [shown_tell, shown_after, List.append_assoc]
      rfl
    · cases h
    · cases h
      refine ⟨rfl, ?_, rfl, rfl⟩
      rw [shown_after, Run.shown, List.append_nil]
    · rename_i v hv
      split at h
      · rename_i text htext
        have htext' : text = v.text := by
          unfold Value.textWithin at htext
          split at htext
          · exact (Except.ok.inj htext).symm
          · cases htext
        cases h
        refine ⟨rfl, ?_, rfl, rfl⟩
        rw [shown_tell, shown_after, List.append_assoc, htext']
        cases v with
        | nothing => exact absurd rfl hv
        | _ => rfl
      · cases h

/-! ## Lines that wait -/

theorem textOf_concat (lines : List String) (line : String) :
    textOf (lines ++ [line]) = textOf lines ++ line ++ "\n" := by
  induction lines with
  | nil => rw [List.nil_append, textOf_cons]; simp [textOf]
  | cons first rest ih =>
    rw [List.cons_append, textOf_cons, ih, textOf_cons]
    simp only [String.append_assoc]

theorem textOf_eq_empty {lines : List String} (h : textOf lines = "") : lines = [] := by
  cases lines with
  | nil => rfl
  | cons line rest =>
    rw [textOf_cons] at h
    have hlength := congrArg (fun text => text.toList.length) h
    simp at hlength

/-- A line goes on with the lines before it: their text is not whole, or it is a program that was held
back and the line goes on with its last branch. -/
def GoesOn (before : List String) (line : String) : Prop :=
  (∃ e, parseProgram (textOf before) = .error e ∧ e.cause.incomplete = true) ∨
    ∃ program, parseProgram (textOf before) = .ok program ∧ continuesBranch line = true

/-- The first line does not ask for the end, and every other goes on with those before it. -/
structure Gathered (group : List String) : Prop where
  first (line : String) (more : List String) : group = line :: more → isExit line = false
  later (before : List String) (line : String) (after : List String) :
    group = before ++ line :: after → before ≠ [] → GoesOn before line

theorem gathered_nil : Gathered [] := ⟨by rintro _ _ ⟨⟩, fun _ _ _ h => by simp at h⟩

theorem Gathered.concat {group : List String} (h : Gathered group)
    (hfirst : group = [] → isExit line = false) (hline : group ≠ [] → GoesOn group line) :
    Gathered (group ++ [line]) where
  first line' more heq := by
    cases group with
    | nil =>
      cases heq
      exact hfirst rfl
    | cons top rest =>
      obtain ⟨rfl, -⟩ := List.cons.inj heq
      exact h.first top rest rfl
  later before line' after heq hne := by
    rcases List.eq_nil_or_concat after with rfl | ⟨init, last, rfl⟩
    · obtain ⟨rfl, hlast⟩ := List.append_inj' heq rfl
      cases hlast
      exact hline hne
    · rw [List.concat_eq_append, ← List.cons_append, ← List.append_assoc] at heq
      exact h.later before line' init (List.append_inj' heq rfl).1 hne

/-- The lines in the buffer are those that wait. They are not whole, or a program that is held back. -/
structure Waits (s : Session) (waiting : List String) : Prop where
  buffer : s.buffer = textOf waiting
  gathered : Gathered waiting
  held (program : List Stmt) : s.held = some program →
    waiting ≠ [] ∧ parseProgram (textOf waiting) = .ok program
  unheld : s.held = none → waiting ≠ [] →
    ∃ e, parseProgram (textOf waiting) = .error e ∧ e.cause.incomplete = true

theorem waits_nil (hbuffer : s.buffer = "") (hheld : s.held = none) : s.Waits [] where
  buffer := hbuffer
  gathered := gathered_nil
  held _ h := by cases hheld.symm.trans h
  unheld _ hne := absurd rfl hne

/-! ## Lines that are settled -/

/-- From one session to another, `lines` are groups that meet the fates `fs`, and what is left. -/
structure Settles (σ : Setting) (lines : List String) (fs : List Fate) (s s' : Session)
    (groups : List (List String)) (left : List String) : Prop where
  split : lines = groups.flatten ++ left
  whole (group : List String) : group ∈ groups → group ≠ [] ∧ Gathered group
  meet : ∃ evs, Fate.AllMeet σ groups s.state fs evs s'.state ∧ s'.shown = s.shown ++ evs

namespace Settles

variable {lines more left left' : List String} {fs fs' : List Fate}
  {groups groups' : List (List String)}

/-- Nothing is settled yet. -/
theorem nothing (hstate : s'.state = s.state) (hshown : s'.shown = s.shown) :
    Settles σ lines [] s s' [] lines :=
  ⟨rfl, by simp, [], by rw [hstate]; exact .none, by rw [hshown, List.append_nil]⟩

/-- One group is settled, and nothing is left. -/
theorem single {fate : Fate} {evs : List Event} (hne : lines ≠ []) (hlines : Gathered lines)
    (h : Fate.Meets σ lines s.state fate evs s'.state) (hshown : s'.shown = s.shown ++ evs) :
    Settles σ lines [fate] s s' [lines] [] where
  split := by simp
  whole group hmem := by
    obtain rfl := List.mem_singleton.1 hmem
    exact ⟨hne, hlines⟩
  meet := ⟨evs, .single h, hshown⟩

/-- What is left of the first lines is settled with those that come after them. -/
theorem onward (h : Settles σ lines fs s mid groups left)
    (h' : Settles σ (left ++ more) fs' mid s' groups' left') :
    Settles σ (lines ++ more) (fs ++ fs') s s' (groups ++ groups') left' where
  split := by
    rw [h.split, List.append_assoc, h'.split, List.flatten_append, List.append_assoc]
  whole group hmem := (List.mem_append.1 hmem).elim (h.whole group) (h'.whole group)
  meet := by
    obtain ⟨evs, hmeet, hshown⟩ := h.meet
    obtain ⟨evs', hmeet', hshown'⟩ := h'.meet
    exact ⟨evs ++ evs', hmeet.append hmeet', by rw [hshown', hshown, List.append_assoc]⟩

theorem of_ask (h : Settles σ lines fs s.ask s' groups left) : Settles σ lines fs s s' groups left where
  split := h.split
  whole := h.whole
  meet := by
    obtain ⟨evs, hmeet, hshown⟩ := h.meet
    exact ⟨evs, hmeet, by rw [hshown, shown_ask]⟩

end Settles

/-- The program whose text is in the buffer is run. -/
theorem settles_perform {lines : List String} (hne : lines ≠ []) (hlines : Gathered lines)
    (hbuffer : s.buffer = textOf lines) (hparse : parseProgram s.buffer = .ok program)
    (h : perform σ fuel program s.clear = some (.goesOn s')) :
    Settles σ lines [.ran s.buffer program s.state] s s' [lines] [] ∧ s'.Waits [] := by
  obtain ⟨r, hrun, hstate, hshown, hclear, hheld⟩ := perform_shown h
  refine ⟨.single hne hlines ?_ hshown, waits_nil hclear hheld⟩
  rw [hbuffer] at hparse ⊢
  rw [hstate]
  exact .ran hparse hrun

/-- A line that goes on with those in the buffer is settled with them, or waits with them. -/
theorem settles_take (hbuffer : s.buffer = textOf waiting) (hwaiting : Gathered waiting)
    (hnone : s.held = none) (hline : waiting ≠ [] → GoesOn waiting line)
    (h : take σ fuel line s = some (.goesOn s')) :
    ∃ groups left, Settles σ (waiting ++ [line]) (takeFates line s) s s' groups left ∧ s'.Waits left := by
  have hexit : ¬ (s.buffer.isEmpty && isExit line) = true := by
    intro hexit
    rw [take, if_pos hexit] at h
    cases h
  have hfirst : waiting = [] → isExit line = false := by
    rintro rfl
    rw [String.isEmpty_iff.2 hbuffer, Bool.true_and] at hexit
    exact Bool.eq_false_iff.2 hexit
  have hne : waiting ++ [line] ≠ [] := by simp
  have hgathered : Gathered (waiting ++ [line]) := hwaiting.concat hfirst hline
  have hput : (s.put line).buffer = textOf (waiting ++ [line]) := by
    rw [textOf_concat, ← hbuffer]
    rfl
  unfold takeFates
  rw [if_neg hexit]
  obtain ⟨-, -, heq⟩ | ⟨e, hparse, ⟨he, heq⟩ | ⟨he, heq⟩⟩ |
    ⟨program, hparse, ⟨hheld, heq⟩ | ⟨hheld, hperform⟩⟩ := take_cases h
  · cases heq
  · -- The text is not whole.
    cases heq
    simp only [hparse, he, if_true]
    rw [hput] at hparse
    have hunheld : (s.put line).held = none := hnone
    refine ⟨[], _, .nothing rfl rfl, hput, hgathered, fun program hheld => ?_, fun _ _ => ⟨e, hparse, he⟩⟩
    cases hunheld.symm.trans hheld
  · cases heq
    simp only [hparse, he]
    rw [hput] at hparse ⊢
    refine ⟨[_], [], .single hne hgathered (.refused hparse he) ?_, waits_nil rfl rfl⟩
    exact shown_tell (s.put line).clear _
  · -- The program is held back.
    cases heq
    simp only [hparse, hheld, if_true]
    rw [hput] at hparse
    refine ⟨[], _, .nothing rfl rfl, hput, hgathered, ?_, by rintro ⟨⟩⟩
    rintro _ ⟨⟩
    exact ⟨hne, hparse⟩
  · simp only [hparse, hheld]
    obtain ⟨hsettles, hwaits⟩ := settles_perform hne hgathered hput hparse hperform
    exact ⟨_, _, ⟨hsettles.split, hsettles.whole, hsettles.meet⟩, hwaits⟩

theorem take_ends_empty (h : take σ fuel line s = some (.ends s')) :
    s' = s ∧ s.buffer = "" ∧ takeFates line s = [] := by
  obtain ⟨hbuffer, hexit, heq⟩ | ⟨e, -, ⟨-, heq⟩ | ⟨-, heq⟩⟩ | ⟨program, -, ⟨-, heq⟩ | ⟨-, hperform⟩⟩ :=
    take_cases h
  · refine ⟨Progress.ends.inj heq, hbuffer, ?_⟩
    rw [takeFates, hbuffer, hexit]
    rfl
  · cases heq
  · cases heq
  · cases heq
  · obtain ⟨_, _, -, ⟨_, -, heq⟩ | ⟨-, heq⟩ | ⟨_, _, -, -, heq⟩ | ⟨_, heq⟩⟩ := perform_cases hperform
    all_goals cases heq

/-! ## Lines that are dropped -/

/-- Only the last text is dropped, and only if nothing was left to read. -/
def DropsLast (fs : List Fate) (unread : List String) : Prop :=
  ∀ before text after, fs = before ++ .dropped text :: after → after = [] ∧ unread = []

theorem DropsLast.append_left {fs fs' : List Fate} {unread : List String} (h : DropsLast fs' unread)
    (hfs : ∀ text, .dropped text ∉ fs) : DropsLast (fs ++ fs') unread := by
  intro before text after heq
  rcases List.append_eq_append_iff.1 heq with ⟨skipped, rfl, hfs'⟩ | ⟨skipped, hbefore, hfs'⟩
  · exact h skipped text after hfs'
  · cases skipped with
    | nil => exact h [] text after hfs'.symm
    | cons fate skipped =>
      obtain ⟨rfl, -⟩ := List.cons.inj hfs'
      exact absurd (hbefore ▸ by simp) (hfs text)

theorem dropsLast_nil (unread : List String) : DropsLast [] unread := by
  intro before text after heq
  simp at heq

theorem dropped_not_mem_takeFates (line : String) (s : Session) (text : String) :
    .dropped text ∉ takeFates line s := by
  unfold takeFates
  split
  · simp
  · split
    · split <;> simp
    · split <;> simp

theorem dropped_not_mem_stepFates (text : String) : .dropped text ∉ stepFates σ fuel line s := by
  obtain hstep | ⟨program, -, hstep⟩ := step_ways σ line s
  · rw [(hstep fuel).1]
    exact dropped_not_mem_takeFates line _ text
  · rw [(hstep fuel).1]
    intro hmem
    rcases List.mem_cons.1 hmem with heq | hmem
    · cases heq
    · obtain ⟨mid, -, hmem⟩ := mem_fatesOnward.1 hmem
      exact dropped_not_mem_takeFates line mid text hmem

theorem dropsLast_close (s : Session) : DropsLast (closeFates s) [] := by
  intro before text after heq
  have hlength : (closeFates s).length ≤ 1 := by
    unfold closeFates
    split
    · exact Nat.le_refl 1
    · split <;> simp
  rw [heq, List.length_append, List.length_cons] at hlength
  exact ⟨List.length_eq_zero_iff.1 (by omega), rfl⟩

namespace Waits

theorem ask (h : s.Waits waiting) : s.ask.Waits waiting := ⟨h.buffer, h.gathered, h.held, h.unheld⟩

/-- The program that is held back is run. -/
theorem release (h : s.Waits waiting) (hheld : s.held = some program)
    (hperform : perform σ fuel program s.clear = some (.goesOn s')) :
    Settles σ waiting [.ran s.buffer program s.state] s s' [waiting] [] ∧ s'.Waits [] := by
  obtain ⟨hne, hparse⟩ := h.held program hheld
  rw [← h.buffer] at hparse
  exact settles_perform hne h.gathered h.buffer hparse hperform

/-- **A line is settled in its turn.** What is held back is run first, unless the line goes on with
it. -/
theorem step (h : s.Waits waiting) (hstep : Session.step σ fuel line s = some (.goesOn s')) :
    ∃ groups left, Settles σ (waiting ++ [line]) (stepFates σ fuel line s) s s' groups left ∧
      s'.Waits left := by
  unfold stepFates
  obtain ⟨hnone, htake⟩ | ⟨program, hheld, ⟨hnext, htake⟩ | ⟨hnext, ⟨mid, hperform, htake⟩ |
    ⟨f, mid, -, heq⟩⟩⟩ := step_cases hstep
  · simp only [hnone]
    exact settles_take h.buffer h.gathered hnone (fun hne => .inl (h.unheld hnone hne)) htake
  · simp only [hheld, hnext, if_true]
    have hline : GoesOn waiting line := .inr ⟨program, (h.held program hheld).2, hnext⟩
    have hbuffer : ({ s with held := none } : Session).buffer = textOf waiting := h.buffer
    obtain ⟨groups, left, hsettles, hwaits⟩ :=
      settles_take hbuffer h.gathered rfl (fun _ => hline) htake
    exact ⟨groups, left, ⟨hsettles.split, hsettles.whole, hsettles.meet⟩, hwaits⟩
  · simp only [hheld, hnext, hperform]
    obtain ⟨hfirst, hmid⟩ := h.release hheld hperform
    obtain ⟨groups, left, hsecond, hwaits⟩ := settles_take hmid.buffer hmid.gathered
      (Option.eq_none_iff_forall_ne_some.2 fun program hprogram => (hmid.held program hprogram).1 rfl)
      (absurd rfl) htake
    exact ⟨_, left, hfirst.onward hsecond, hwaits⟩
  · cases heq

/-- The line that asks for the end leaves no line that waits. -/
theorem step_ends (h : s.Waits waiting) (hstep : Session.step σ fuel line s = some (.ends s')) :
    ∃ groups, Settles σ waiting (stepFates σ fuel line s) s s' groups [] := by
  unfold stepFates
  obtain ⟨hnone, htake⟩ | ⟨program, hheld, ⟨hnext, htake⟩ | ⟨hnext, ⟨mid, hperform, htake⟩ |
    ⟨f, mid, -, heq⟩⟩⟩ := step_cases hstep
  · obtain ⟨rfl, hbuffer, hfates⟩ := take_ends_empty htake
    obtain rfl := textOf_eq_empty (h.buffer.symm.trans hbuffer)
    simp only [hnone, hfates]
    exact ⟨[], .nothing rfl rfl⟩
  · obtain ⟨-, hbuffer, -⟩ := take_ends_empty htake
    exact absurd (textOf_eq_empty (h.buffer.symm.trans hbuffer)) (h.held program hheld).1
  · obtain ⟨rfl, -, hfates⟩ := take_ends_empty htake
    simp only [hheld, hnext, hperform]
    exact ⟨[waiting], by simpa [fatesOnward, hfates] using (h.release hheld hperform).1⟩
  · cases heq

/-- At the end of the input what is held back is run, and what is not whole is dropped. -/
theorem close (h : s.Waits waiting) (hclose : Session.close σ fuel s = some (.ends s')) :
    ∃ groups, Settles σ waiting (closeFates s) s s' groups [] := by
  unfold closeFates
  obtain ⟨hnone, heq⟩ | ⟨program, hheld, ⟨mid, hperform, heq⟩ | ⟨f, mid, -, heq⟩⟩ := close_cases hclose
  · cases heq
    simp only [hnone]
    split
    · rename_i hempty
      obtain rfl := textOf_eq_empty (h.buffer.symm.trans (String.isEmpty_iff.1 hempty))
      exact ⟨[], .nothing rfl rfl⟩
    · rename_i hfull
      have hne : waiting ≠ [] := by
        rintro rfl
        exact hfull (String.isEmpty_iff.2 h.buffer)
      obtain ⟨e, hparse, he⟩ := h.unheld hnone hne
      rw [h.buffer]
      exact ⟨[waiting], .single hne h.gathered (.dropped hparse he) (List.append_nil _).symm⟩
  · cases heq
    simp only [hheld]
    exact ⟨[waiting], (h.release hheld hperform).1⟩
  · cases heq

/-- **A session over its lines**, from where some of them wait. -/
theorem run {lines : List String} (h : s.Waits waiting)
    (hrun : Session.run σ fuel lines s = some (.ends s')) :
    ∃ groups unread, Settles σ (waiting ++ lines) (fates σ fuel lines s) s s' groups unread ∧
      (∀ line more, unread = line :: more → isExit line = true) ∧
      DropsLast (fates σ fuel lines s) unread := by
  induction lines generalizing s waiting with
  | nil =>
    obtain ⟨groups, hsettles⟩ := h.ask.close hrun
    rw [List.append_nil]
    exact ⟨groups, [], hsettles.of_ask, by rintro _ _ ⟨⟩, dropsLast_close _⟩
  | cons line rest ih =>
    rw [fates]
    rcases run_cons_cases hrun with ⟨mid, hstep, hrest⟩ | ⟨hstep, -⟩
    · obtain ⟨groups, left, hfirst, hmid⟩ := h.ask.step hstep
      obtain ⟨groups', unread, hsecond, hexit, hdrops⟩ := ih hmid hrest
      rw [hstep]
      refine ⟨groups ++ groups', unread, ?_, hexit, hdrops.append_left dropped_not_mem_stepFates⟩
      have honward := hfirst.onward hsecond
      rw [List.append_assoc] at honward
      exact honward.of_ask
    · obtain ⟨groups, hsettles⟩ := h.ask.step_ends hstep
      rw [hstep]
      have hnone : Settles σ ([] ++ line :: rest) [] s' s' [] (line :: rest) := .nothing rfl rfl
      refine ⟨groups ++ [], line :: rest, (hsettles.onward hnone).of_ask, ?_, ?_⟩
      · rintro _ _ ⟨⟩
        exact Session.step_ends hstep
      · exact (dropsLast_nil _).append_left dropped_not_mem_stepFates

end Waits

/-- **A session loses, repeats and reorders nothing.** The lines that it reads before the end of the
input, or before the first line that asks for the end where a group would start, are groups of one or
more lines that follow one another. Each group meets one fate, in the order of the groups: its text is a
program and is run once, from the state that the program before has left, however that ended; or its text
is refused and its error is reported once; or it is the last group, the input has ended, and its text is
not whole. Nothing else is shown, and nothing else changes the state. A text that is whole goes on only
with a line that starts with `else` or `elif`; so a conditional that is held back is run when any other
line follows, when the input ends, and when its end is asked for. -/
theorem run_groups {lines : List String} (h : run σ fuel lines .start = some (.ends s)) :
    ∃ groups unread, lines = groups.flatten ++ unread ∧
      (∀ line more, unread = line :: more → isExit line = true) ∧
      Fate.AllMeet σ groups .start (fates σ fuel lines .start) s.shown s.state ∧
      (∀ before text after, fates σ fuel lines .start = before ++ .dropped text :: after →
        after = [] ∧ unread = []) ∧
      ∀ group ∈ groups, group ≠ [] ∧ Gathered group := by
  have hstart : Session.start.Waits [] := waits_nil rfl rfl
  obtain ⟨groups, unread, hsettles, hexit, hdrops⟩ := hstart.run h
  obtain ⟨evs, hmeet, hshown⟩ := hsettles.meet
  rw [show s.shown = evs from hshown]
  exact ⟨groups, unread, hsettles.split, hexit, hmeet, hdrops, hsettles.whole⟩

/-- A conditional is held back at the end of its second line, and run when a line comes that is refused;
the last line is not whole. -/
theorem run_groups_released_branch :
    ∃ lines s, lines = ["if true \x7b", "print true \x7d", "true )", "if true \x7b"] ∧
      run (.standard 0) 6 lines .start = some (.ends s) ∧
      (∃ e, s.shown = [.printed "true", .reported e]) ∧
      ∃ groups unread, lines = groups.flatten ++ unread ∧
        Fate.AllMeet (.standard 0) groups .start (fates (.standard 0) 6 lines .start) s.shown s.state ∧
        ∀ group ∈ groups, group ≠ [] ∧ Gathered group := by
  let lines := ["if true \x7b", "print true \x7d", "true )", "if true \x7b"]
  let branch : Stmt := .branch (.literal (.boolean true)) [.print (.literal (.boolean true)) 2] [] 1
  let refusal : Error := ⟨.unexpectedToken .endOfStatement ⟨.rightParen, ")", .nothing, 1⟩, some 1⟩
  have hopen : ∃ e, parseProgram "if true \x7b\n" = .error e ∧ e.cause.incomplete = true :=
    ⟨⟨.unexpectedToken .closedBlock ⟨.endOfInput, "", .nothing, 2⟩, some 2⟩, by cbv, rfl⟩
  have hclosed : parseProgram "if true \x7b\nprint true \x7d\n" = .ok [branch] := by cbv
  have hrefused : parseProgram "true )\n" = .error refusal ∧ refusal.cause.incomplete = false :=
    ⟨by cbv, rfl⟩
  obtain ⟨e, hparse, he⟩ := hopen
  have hheld : holdsBack [branch] "print true \x7d" = true := by cbv
  have hnext : continuesBranch "true )" = false := by cbv
  have hexit : isExit "if true \x7b" = false ∧ isExit "true )" = false := ⟨by cbv, by cbv⟩
  have hbranch : runProgram (.standard 0) 6 [branch] ⟨.empty, #[], #[]⟩ =
      some ⟨.ok .nothing, ⟨.empty, #["true"], #[]⟩⟩ := by cbv
  have hrun : run (.standard 0) 6 lines .start = some (.ends ⟨"if true \x7b\n", none, .start,
      #[.asked ">> ", .asked ".. ", .asked ".. ", .printed "true", .reported refusal, .asked ">> ",
        .asked ".. "]⟩) := by
    simp [lines, run, step, take, close, perform, ask, tell, prompt, clear, after, start, hparse, he,
      hclosed, hrefused, hheld, hnext, hexit, hbranch, State.start]
  obtain ⟨groups, unread, hsplit, -, hmeet, -, hgroups⟩ := run_groups hrun
  exact ⟨lines, _, rfl, hrun, ⟨refusal, rfl⟩, groups, unread, hsplit, hmeet, hgroups⟩

end Session

end Parlance
