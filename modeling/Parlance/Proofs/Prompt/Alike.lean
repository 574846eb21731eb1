import Parlance.Proofs.Prompt.Groups
import Parlance.Proofs.Prompt.Unfinished

/-!
# Sessions that cannot be told apart

Two sessions are alike (`Session.Alike`) if they hold the same program and the same state, their buffers
scan alike before every text, and they have told the same events of some kinds. A line leaves them alike
(`Session.step_alike`), and so do all the lines that follow (`Session.run_alike`). A program that is held
back for a line that does not go on with it is run before that line, so only a prompt comes in between
(`Session.run_released`).
-/

namespace Parlance

/-- The failure that ends a session, if one does. -/
def Progress.failure? : Progress → Option Failure
  | .fails f _ => some f
  | _ => none

namespace Session

/-- What a session has told of some kinds of events. -/
def told (keep : Event → Bool) (s : Session) : List Event := s.events.toList.filter keep

/-- The sessions have told the same and cannot be told apart by lines to come. -/
structure Alike (keep : Event → Bool) (s s' : Session) : Prop where
  held : s'.held = s.held
  state : s'.state = s.state
  told : s'.told keep = s.told keep
  isEmpty : s'.buffer.isEmpty = s.buffer.isEmpty
  scans (text : String) : scan (s'.buffer ++ text) = scan (s.buffer ++ text)

end Session

/-- The sessions end, or go on, in the same way. -/
inductive Progress.Alike (keep : Event → Bool) : Progress → Progress → Prop where
  | goesOn {s s' : Session} (h : s.Alike keep s') : Alike keep (.goesOn s) (.goesOn s')
  | ends {s s' : Session} (h : s.Alike keep s') : Alike keep (.ends s) (.ends s')
  | fails {f : Failure} {s s' : Session} (h : s.Alike keep s') : Alike keep (.fails f s) (.fails f s')

/-- What a session leaves: its failure, what it told of some kinds of events, and its state. -/
def Progress.left (keep : Event → Bool) (p : Progress) : Option Failure × List Event × State :=
  (p.failure?, p.session.told keep, p.session.state)

namespace Session

variable {σ : Setting} {fuel : Nat} {keep : Event → Bool} {line line' : String}
  {program : List Stmt} {s s' : Session} {p p' : Option Progress}

theorem told_tell (s : Session) (ev : Event) :
    (s.tell ev).told keep = s.told keep ++ [ev].filter keep := by
  unfold told tell
  rw [Array.toList_push, List.filter_append]

theorem told_after (s : Session) (st : State) :
    (s.after st).told keep = s.told keep ++ (st.printed.map Event.printed).toList.filter keep := by
  unfold told after
  rw [Array.toList_append, List.filter_append]

/-! ## Sessions that are alike -/

namespace Alike

theorem refl (s : Session) : s.Alike keep s := ⟨rfl, rfl, rfl, rfl, fun _ => rfl⟩

variable (h : s.Alike keep s')
include h

theorem symm : s'.Alike keep s :=
  ⟨h.held.symm, h.state.symm, h.told.symm, h.isEmpty.symm, fun text => (h.scans text).symm⟩

theorem tell (ev : Event) : (s.tell ev).Alike keep (s'.tell ev) :=
  ⟨h.held, h.state, by rw [told_tell, told_tell, h.told], h.isEmpty, h.scans⟩

theorem ask : s.ask.Alike keep s'.ask := by
  have hprompt : s'.prompt = s.prompt := by
    unfold prompt
    rw [h.isEmpty]
  unfold Session.ask
  rw [hprompt]
  exact h.tell _

/-- A prompt that is not looked at. -/
theorem ask_right (hkeep : ∀ ev, ev.isPrompt = true → keep ev = false) : s.Alike keep s'.ask := by
  have htold : s'.ask.told keep = s'.told keep := by
    rw [Session.ask, told_tell, List.filter_cons, hkeep _ rfl]
    simp
  exact ⟨h.held, h.state, htold.trans h.told, h.isEmpty, h.scans⟩

theorem after (st : State) : (s.after st).Alike keep (s'.after st) :=
  ⟨h.held, rfl, by rw [told_after, told_after, h.told], h.isEmpty, h.scans⟩

theorem clear : s.clear.Alike keep s'.clear := ⟨rfl, h.state, h.told, rfl, fun _ => rfl⟩

theorem hold (held : Option (List Stmt)) :
    { s with held := held }.Alike keep { s' with held := held } :=
  ⟨rfl, h.state, h.told, h.isEmpty, h.scans⟩

/-- Lines that scan alike are put into the buffers. -/
theorem put (hscans : ∀ more, scan ((s'.put line').buffer ++ more) = scan ((s.put line).buffer ++ more)) :
    (s.put line).Alike keep (s'.put line') := by
  have hne (t : Session) (l : String) : (t.put l).buffer.isEmpty = false := by simp [Session.put]
  exact ⟨h.held, h.state, h.told, by rw [hne, hne], hscans⟩

end Alike

section Onward

variable (h : Option.Rel (Progress.Alike keep) p p')
include h

theorem rel_symm : Option.Rel (Progress.Alike keep) p' p := by
  cases h with
  | none => exact .none
  | some h =>
    refine .some ?_
    cases h with
    | goesOn h => exact .goesOn h.symm
    | ends h => exact .ends h.symm
    | fails h => exact .fails h.symm

theorem rel_onward {next next' : Session → Option Progress}
    (hnext : ∀ mid mid', p = some (.goesOn mid) → p' = some (.goesOn mid') → mid.Alike keep mid' →
      Option.Rel (Progress.Alike keep) (next mid) (next' mid')) :
    Option.Rel (Progress.Alike keep) (onward p next) (onward p' next') := by
  cases h with
  | none => exact .none
  | some h =>
    cases h with
    | goesOn h => exact hnext _ _ rfl rfl h
    | ends h => exact .some (.ends h)
    | fails h => exact .some (.fails h)

theorem left_eq_of_rel : p'.map (Progress.left keep) = p.map (Progress.left keep) := by
  have hleft {s s' : Session} (f : Option Failure) (h : s.Alike keep s') :
      (f, s'.told keep, s'.state) = (f, s.told keep, s.state) := by rw [h.told, h.state]
  cases h with
  | none => rfl
  | some h =>
    refine congrArg some ?_
    cases h with
    | goesOn h => exact hleft none h
    | ends h => exact hleft none h
    | fails h => exact hleft _ h

end Onward

theorem rel_onward_self {next next' : Session → Option Progress}
    (hnext : ∀ mid, p = some (.goesOn mid) → Option.Rel (Progress.Alike keep) (next mid) (next' mid)) :
    Option.Rel (Progress.Alike keep) (onward p next) (onward p next') := by
  rcases p with _ | s | s | ⟨f, s⟩
  · exact .none
  · exact hnext s rfl
  · exact .some (.ends (.refl s))
  · exact .some (.fails (.refl s))

theorem onward_assoc (p : Option Progress) (next next' : Session → Option Progress) :
    onward (onward p next) next' = onward p fun s => onward (next s) next' := by
  rcases p with _ | s | s | ⟨f, s⟩ <;> rfl

/-! ## Lines -/

theorem perform_alike (h : s.Alike keep s') :
    Option.Rel (Progress.Alike keep) (perform σ fuel program s) (perform σ fuel program s') := by
  unfold perform
  rw [h.state]
  rcases runProgram σ fuel program s.state with _ | ⟨outcome, st⟩
  · exact .none
  · dsimp only
    have hst := h.after st
    split
    · exact .some (.goesOn (hst.tell _))
    · exact .some (.fails hst)
    · exact .some (.goesOn hst)
    · split
      · exact .some (.goesOn (hst.tell _))
      · exact .some (.fails hst)

/-- Two lines are taken alike, if both or neither ask for the end, the texts with them scan alike and the
same programs are held back. -/
theorem take_alike_of (h : s.Alike keep s')
    (hexit : (s.buffer.isEmpty && isExit line') = (s.buffer.isEmpty && isExit line))
    (hscans : ∀ more, ('"' ∈ more.toList → ∃ us, scan (s.put line).buffer = .ok us) →
      scan ((s'.put line').buffer ++ more) = scan ((s.put line).buffer ++ more))
    (hheld : ∀ program, parseProgram (s.put line).buffer = .ok program →
      holdsBack program line' = holdsBack program line) :
    Option.Rel (Progress.Alike keep) (take σ fuel line s) (take σ fuel line' s') := by
  have hparse : parseProgram (s'.put line').buffer = parseProgram (s.put line).buffer := by
    have hscan := hscans "" (by simp)
    rw [String.append_empty, String.append_empty] at hscan
    unfold parseProgram
    rw [hscan]
  have hclear : (s.put line).clear.Alike keep (s'.put line').clear := h.clear
  rw [take_eq, take_eq, hparse, h.isEmpty, hexit]
  split
  · exact .some (.ends h)
  cases hp : parseProgram (s.put line).buffer with
  | error e =>
    dsimp only
    split
    · exact .some (.goesOn (h.put fun more => hscans more fun _ => scan_of_incomplete hp ‹_›))
    · exact .some (.goesOn (hclear.tell _))
  | ok program =>
    obtain ⟨us, hscan, -⟩ := parseProgram_eq_ok hp
    dsimp only
    rw [hheld program hp]
    split
    · exact .some (.goesOn ((h.put fun more => hscans more fun _ => ⟨us, hscan⟩).hold _))
    · exact perform_alike hclear

theorem take_alike (h : s.Alike keep s') :
    Option.Rel (Progress.Alike keep) (take σ fuel line s) (take σ fuel line s') := by
  refine take_alike_of h rfl (fun more _ => ?_) fun _ _ => rfl
  have hscans := h.scans (line ++ "\n" ++ more)
  unfold put
  simpa only [String.append_assoc] using hscans

/-- What a line meets: a program that is held back and that the line does not go on with is run first. -/
def settle (σ : Setting) (fuel : Nat) (line : String) (s : Session) : Option Progress :=
  match s.held with
  | none => some (.goesOn s)
  | some program =>
    if continuesBranch line then some (.goesOn { s with held := none })
    else perform σ fuel program s.clear

theorem step_eq (σ : Setting) (fuel : Nat) (line : String) (s : Session) :
    step σ fuel line s = onward (settle σ fuel line s) (take σ fuel line) := by
  unfold step settle
  cases s.held with
  | none => rfl
  | some program =>
    dsimp only
    split <;> rfl

theorem settle_alike (h : s.Alike keep s') :
    Option.Rel (Progress.Alike keep) (settle σ fuel line s) (settle σ fuel line s') := by
  unfold settle
  rw [h.held]
  split
  · exact .some (.goesOn h)
  · split
    · exact .some (.goesOn (h.hold none))
    · exact perform_alike h.clear

theorem step_alike (h : s.Alike keep s') :
    Option.Rel (Progress.Alike keep) (step σ fuel line s) (step σ fuel line s') := by
  rw [step_eq, step_eq]
  exact rel_onward (settle_alike h) fun _ _ _ _ hmid => take_alike hmid

theorem close_alike (h : s.Alike keep s') :
    Option.Rel (Progress.Alike keep) (close σ fuel s) (close σ fuel s') := by
  unfold close
  rw [h.held]
  split
  · exact .some (.ends h)
  · exact rel_onward (perform_alike h.clear) fun _ _ _ _ hmid => .some (.ends hmid)

/-- **Sessions that are alike come to the same end**, whatever lines follow. -/
theorem run_alike (lines : List String) (h : s.Alike keep s') :
    Option.Rel (Progress.Alike keep) (run σ fuel lines s) (run σ fuel lines s') := by
  induction lines generalizing s s' with
  | nil => exact close_alike h.ask
  | cons line rest ih =>
    rw [run_cons, run_cons]
    exact rel_onward (step_alike h.ask) fun _ _ _ _ hmid => ih hmid

/-! ## Programs that are held back -/

/-- **A program that is held back is run as if it were not**, prompts apart, if no line goes on with it. -/
theorem run_released {rest : List String} (hkeep : ∀ ev, ev.isPrompt = true → keep ev = false)
    (hheld : s.held = some program) (hrest : ∀ next ∈ rest.head?, continuesBranch next = false) :
    Option.Rel (Progress.Alike keep) (run σ fuel rest s)
      (onward (perform σ fuel program s.clear) (run σ fuel rest)) := by
  have hclear : s.ask.clear.Alike keep s.clear := ((Alike.refl s).ask_right hkeep).symm.clear
  have hnone {mid : Session} (h : perform σ fuel program s.clear = some (.goesOn mid)) :
      mid.ask.held = none := by
    obtain ⟨-, -, -, -, -, hmid⟩ := perform_shown h
    exact hmid
  cases rest with
  | nil =>
    have hclose : close σ fuel s.ask =
        onward (perform σ fuel program s.ask.clear) fun mid => some (.ends mid) := by
      unfold close
      rw [show s.ask.held = some program from hheld]
      rfl
    rw [run, hclose]
    refine rel_onward (perform_alike hclear) fun mid mid' _ hmid' h => ?_
    rw [run, close, hnone hmid']
    exact .some (.ends (h.ask_right hkeep))
  | cons next rest =>
    have hstep : step σ fuel next s.ask =
        onward (perform σ fuel program s.ask.clear) (take σ fuel next) := by
      rw [step_eq, settle, show s.ask.held = some program from hheld]
      dsimp only
      rw [hrest next rfl]
      rfl
    rw [run_cons, hstep, onward_assoc]
    refine rel_onward (perform_alike hclear) fun mid mid' _ hmid' h => ?_
    rw [run_cons, step_eq, settle, hnone hmid']
    exact rel_onward (take_alike (h.ask_right hkeep)) fun _ _ _ _ hafter => run_alike rest hafter

end Session

end Parlance
