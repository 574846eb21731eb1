import Parlance.Prompt
import Parlance.Proofs.Run.Errors
import Parlance.Proofs.Run.Invariant
import Parlance.Proofs.Value.Definite

/-!
# Nothing is no value of a script

Expressions that were read have definite literals, so their values are definite where the names are bound
to definite values, and so are the bindings that a declaration makes (`kept_definite`). Only statements
other than expressions have nothing for their value, so a prompt that echoes every value but nothing
echoes the values of expressions (`parseProgram_definite`).
-/

namespace Parlance

open Value (Yields)

/-! ## Scopes -/

theorem Scope.mem_set {scope : Scope} {name x : String} {v w : Value} (h : (x, w) ∈ scope.set name v) :
    (x, w) ∈ scope ∨ w = v := by
  induction scope with
  | nil => exact .inr (congrArg Prod.snd (List.mem_singleton.1 h))
  | cons entry rest ih =>
    rw [set] at h
    split at h
    · rcases List.mem_cons.1 h with h | h
      · exact .inr (congrArg Prod.snd h)
      · exact .inl (List.mem_cons_of_mem _ h)
    · rcases List.mem_cons.1 h with h | h
      · exact .inl (h ▸ List.mem_cons_self ..)
      · exact (ih h).imp_left (List.mem_cons_of_mem _)

theorem Scope.mem_of_get? {scope : Scope} {name : String} {v : Value} (h : scope.get? name = some v) :
    (name, v) ∈ scope := by
  induction scope with
  | nil => cases h
  | cons entry rest ih =>
    obtain ⟨x, w⟩ := entry
    rw [get?_cons] at h
    split at h
    · rename_i hname
      rw [hname, Option.some.inj h]
      exact List.mem_cons_self ..
    · exact List.mem_cons_of_mem _ (ih h)

namespace Scopes

/-- No binding of any scope is nothing, or holds it. -/
def Definite (s : Scopes) : Prop := ∀ scope ∈ s.frames, ∀ x v, (x, v) ∈ scope → .nothing ∉ v.parts

theorem mem_rebindIn {scopes : List Scope} {name : String} {v : Value} {scope : Scope}
    (h : scope ∈ rebindIn name v scopes) : scope ∈ scopes ∨ ∃ old ∈ scopes, scope = old.set name v := by
  induction scopes with
  | nil => cases h
  | cons first rest ih =>
    rw [rebindIn] at h
    split at h
    · rcases List.mem_cons.1 h with rfl | h
      · exact .inr ⟨first, List.mem_cons_self .., rfl⟩
      · exact .inl (List.mem_cons_of_mem _ h)
    · rcases List.mem_cons.1 h with rfl | h
      · exact .inl (List.mem_cons_self ..)
      · rcases ih h with h | ⟨old, hold, rfl⟩
        · exact .inl (List.mem_cons_of_mem _ h)
        · exact .inr ⟨old, List.mem_cons_of_mem _ hold, rfl⟩

/-- A declaration sets its name in one scope and leaves the others. -/
theorem mem_frames_declare {s t : Scopes} {limit : Nat} {name : String} {v : Value} {fresh : Bool}
    (h : s.declare limit name v fresh = .ok t) {scope : Scope} (hscope : scope ∈ t.frames) :
    scope ∈ s.frames ∨ ∃ old ∈ s.frames, scope = old.set name v := by
  rcases declare_cases h with ⟨current, -, -, rfl⟩ | ⟨-, -, rfl⟩
  · rw [frames_rebind] at hscope
    exact mem_rebindIn hscope
  · rcases List.mem_cons.1 hscope with rfl | hscope
    · exact .inr ⟨s.inner, List.mem_cons_self .., rfl⟩
    · exact .inl (List.mem_cons_of_mem _ hscope)

namespace Definite

variable {s t : Scopes}

theorem push (h : s.Definite) : s.push.Definite := by
  intro scope hscope x v hv
  rcases List.mem_cons.1 hscope with rfl | hscope
  · cases hv
  · exact h scope hscope x v hv

theorem cut (h : s.Definite) (depth : Nat) : (s.cut depth).Definite := by
  intro scope hscope
  rw [frames_cut] at hscope
  exact h scope (List.mem_of_mem_drop hscope)

theorem declare {limit : Nat} {name : String} {v : Value} {fresh : Bool} (hs : s.Definite)
    (hv : v.Definite) (h : s.declare limit name v fresh = .ok t) : t.Definite := by
  intro scope hscope x w hw
  rcases mem_frames_declare h hscope with hscope | ⟨old, hold, rfl⟩
  · exact hs scope hscope x w hw
  · rcases Scope.mem_set hw with hw | rfl
    · exact hs old hold x w hw
    · exact Value.definite_iff.1 hv

theorem lookup (h : s.Definite) (name : String) : Yields (s.lookup name) := by
  unfold Scopes.lookup
  split
  · rename_i v hget
    obtain ⟨scope, hscope, hv⟩ := List.exists_of_findSome?_eq_some hget
    exact .ok (Value.definite_iff.2 (h scope hscope name v (Scope.mem_of_get? hv)))
  · exact .error _

end Definite

end Scopes

/-! ## Evaluations -/

section Evaluations

variable {σ : Setting} (hσ : ∀ name vs, Yields (σ.functions.call name vs))

theorem definite_evaluateAll {s : Scopes} {room : Nat} {es : List Expr} {vs : List Value}
    (hes : ∀ e ∈ es, Yields (evaluateIn σ s room e)) (h : evaluateAll σ s room es = .ok vs) :
    ∀ v ∈ vs, v.Definite := by
  induction es generalizing vs with
  | nil =>
    cases h
    exact fun v hv => nomatch hv
  | cons e es ih =>
    have ⟨he, hes⟩ := List.forall_mem_cons.1 hes
    rw [evaluateAll] at h
    obtain ⟨v, hv, h⟩ := Evaluation.bind_eq_ok.1 h
    obtain ⟨ws, hws, h⟩ := Evaluation.bind_eq_ok.1 h
    cases h
    exact List.forall_mem_cons.2 ⟨he v hv, ih hes hws⟩

include hσ

/-- Where the names are bound to definite values, a well-formed expression has no other value. -/
theorem yields_evaluateIn {s : Scopes} (hs : s.Definite) (room : Nat) {e : Expr} (he : e.WellFormed) :
    Yields (evaluateIn σ s room e) := by
  induction room generalizing e with
  | zero =>
    rw [evaluateIn]
    exact .error _
  | succ room ih =>
    have hjoined {op : Op} {left right : Expr} (hop : op.joins = true ∨ op = .index)
        (hl : left.WellFormed) (hr : right.WellFormed) :
        Yields (evaluateIn σ s (room + 1) (.apply op [left, right])) := by
      obtain ⟨g, hg⟩ : ∃ g, op.binary? σ.limit = some g := by
        refine Option.ne_none_iff_exists'.1 fun hnone => ?_
        rcases Op.eq_of_binary?_eq_none hnone with rfl | rfl <;> simp [Op.joins] at hop
      intro v hv
      rw [Evaluation.evaluateIn_binary hg] at hv
      obtain ⟨a, ha, hv⟩ := Evaluation.bind_eq_ok.1 hv
      obtain ⟨b, hb, hv⟩ := Evaluation.bind_eq_ok.1 hv
      exact Op.yields_binary hg (ih hl a ha) (ih hr b hb) v hv
    cases he with
    | boolean b => exact .ok (.boolean b)
    | string _ => exact .ok (.string _)
    | number _ => exact .ok (.number _)
    | name _ => exact hs.lookup _
    | array hes =>
      intro v hv
      rw [Evaluation.evaluateIn_array] at hv
      obtain ⟨vs, hvs, hv⟩ := Evaluation.bind_eq_ok.1 hv
      cases hv
      exact .array (definite_evaluateAll (fun e he => ih (hes e he)) hvs)
    | call _ _ =>
      intro v hv
      rw [Evaluation.evaluateIn_call] at hv
      obtain ⟨vs, -, hv⟩ := Evaluation.bind_eq_ok.1 hv
      exact hσ _ _ v hv
    | @leading op e hop he =>
      obtain ⟨g, hg⟩ : ∃ g, op.unary? = some g := by rcases hop with rfl | rfl <;> exact ⟨_, rfl⟩
      intro v hv
      rw [Evaluation.evaluateIn_unary hg] at hv
      obtain ⟨a, -, hv⟩ := Evaluation.bind_eq_ok.1 hv
      exact Op.yields_unary hg a v hv
    | between hop hl hr => exact hjoined (.inl hop) hl hr
    | index hl hr => exact hjoined (.inr rfl) hl hr
    | field ha _ =>
      intro v hv
      rw [Evaluation.evaluateIn_field] at hv
      obtain ⟨a, hvalue, hv⟩ := Evaluation.bind_eq_ok.1 hv
      exact Value.yields_access (ih ha a hvalue) _ v hv

/-- Blocks and declarations of well-formed expressions keep the bindings definite. -/
theorem kept_definite {parts : List Stmt} (hparts : ∀ s ∈ parts, s.Formed) :
    Kept σ parts Scopes.Definite where
  push := .push
  cut _ ht := ht.cut _
  declare hmem hs hvalue hdeclare := by
    obtain ⟨e, he, hformed⟩ := hparts _ hmem
    cases he
    exact hs.declare (yields_evaluateIn hσ hs _ hformed _ hvalue) hdeclare

end Evaluations

theorem Evaluation.Comes.scopes_eq {σ : Setting} {q q' : Evaluation} (h : q.Comes σ q') :
    q'.scopes = q.scopes := by
  induction h with
  | refl => rfl
  | tail _ hlead ih =>
    rw [← ih]
    cases hlead <;> rfl

/-! ## The values of statements -/

section Outcomes

variable {σ : Setting} {fuel : Nat} {st st' : State} {v : Value}

theorem executeBlock_value {body : List Stmt} (h : executeBlock σ fuel body st = some ⟨.ok v, st'⟩) :
    v = .nothing := by
  cases fuel with
  | zero => cases h
  | succ fuel =>
    obtain ⟨⟨outcome, left⟩, -, hleave⟩ := exists_inside h
    cases outcome with
    | ok w =>
      cases hleave
      rfl
    | error f => cases hleave

theorem executeLoop_value {condition : Expr} {body : List Stmt}
    (h : executeLoop σ fuel condition body st = some ⟨.ok v, st'⟩) : v = .nothing := by
  induction fuel generalizing st with
  | zero => cases h
  | succ fuel ih =>
    rw [executeLoop_eq] at h
    split at h
    · cases h
    · cases h
      rfl
    · rcases Run.followed_eq_some.1 h with ⟨g, left, -, hr⟩ | ⟨w, left, -, hagain⟩
      · cases hr
      · exact ih hagain

theorem print_value {e : Expr} (h : (st.print σ e).outcome = .ok v) : v = .nothing := by
  unfold State.print at h
  split at h
  · cases h
    rfl
  · cases h

theorem declare_value {name : String} {e : Expr} {fresh : Bool}
    (h : (st.declare σ name e fresh).outcome = .ok v) : v = .nothing := by
  unfold State.declare at h
  split at h
  · cases h
  · split at h
    · cases h
    · split at h
      · cases h
      · unfold State.tellBinding at h
        split at h
        · split at h
          · cases h
            rfl
          · cases h
        · cases h
          rfl

/-- The value of an expression statement is that of its expression, and no other statement has a
value. -/
theorem execute_value {s : Stmt} (h : execute σ fuel s st = some ⟨.ok v, st'⟩) :
    (∃ e line, s = .expr e line ∧ st'.scopes = st.scopes ∧ evaluate σ st.scopes e = .ok v) ∨
      (∀ e line, s ≠ .expr e line) ∧ v = .nothing := by
  cases fuel with
  | zero => cases h
  | succ fuel =>
    obtain ⟨⟨outcome, left⟩, hinner, hlocate⟩ := exists_perform h
    cases outcome with
    | error f => cases hlocate
    | ok w =>
      cases hlocate
      cases s with
      | expr e line =>
        obtain ⟨hvalue, rfl⟩ := Run.mk.inj (Option.some.inj hinner)
        rw [State.begin_scopes] at hvalue
        exact .inl ⟨e, line, rfl, State.begin_scopes .., hvalue⟩
      | print e line =>
        exact .inr ⟨nofun, print_value (congrArg Run.outcome (Option.some.inj hinner))⟩
      | declare name e fresh line =>
        exact .inr ⟨nofun, declare_value (congrArg Run.outcome (Option.some.inj hinner))⟩
      | branch condition yes no line =>
        unfold perform at hinner
        dsimp only at hinner
        split at hinner
        · cases hinner
        · exact .inr ⟨nofun, executeBlock_value hinner⟩
        · exact .inr ⟨nofun, executeBlock_value hinner⟩
      | loop condition body line => exact .inr ⟨nofun, executeLoop_value hinner⟩
      | blank => cases hinner

/-- The value of a list of statements is that of the last one. -/
theorem executeAll_last {ss : List Stmt} {w : Value}
    (h : executeAll σ fuel ss w st = some ⟨.ok v, st'⟩) : ss = [] ∧ v = w ∨
      ∃ s fuel' mid, ss.getLast? = some s ∧ execute σ fuel' s mid = some ⟨.ok v, st'⟩ := by
  induction ss generalizing fuel w st with
  | nil =>
    cases fuel with
    | zero => cases h
    | succ fuel =>
      cases h
      exact .inl ⟨rfl, rfl⟩
  | cons s ss ih =>
    cases fuel with
    | zero => cases h
    | succ fuel =>
      rcases first_cases h with ⟨f, left, -, hr⟩ | ⟨u, mid, hfirst, hrest⟩
      · cases hr
      · rcases ih hrest with ⟨rfl, rfl⟩ | ⟨last, fuel', before, hlast, hrun⟩
        · -- the only statement of the list
          cases fuel with
          | zero => cases hrest
          | succ fuel =>
            cases hrest
            exact .inr ⟨s, _, st, rfl, hfirst⟩
        · refine .inr ⟨last, fuel', before, ?_, hrun⟩
          rw [List.getLast?_cons, hlast]
          rfl

/-- A run that succeeds has the value of its last statement if that is an expression, and nothing
otherwise. -/
theorem runProgram_value {program : List Stmt} (h : runProgram σ fuel program st = some ⟨.ok v, st'⟩) :
    (∃ e line, program.getLast? = some (.expr e line) ∧ evaluate σ st'.scopes e = .ok v) ∨
      (∀ e line, program.getLast? ≠ some (.expr e line)) ∧ v = .nothing := by
  rcases executeAll_last h with ⟨rfl, rfl⟩ | ⟨s, fuel', mid, hlast, hrun⟩
  · exact .inr ⟨nofun, rfl⟩
  · rw [hlast]
    rcases execute_value hrun with ⟨e, line, rfl, hscopes, hvalue⟩ | ⟨hnot, rfl⟩
    · exact .inl ⟨e, line, rfl, by rwa [hscopes]⟩
    · exact .inr ⟨fun e line hs => hnot e line (Option.some.inj hs), rfl⟩

end Outcomes

/-! ## Programs that were read -/

namespace Session

variable {σ : Setting} {fuel : Nat} {program : List Stmt} {s : Session} {v : Value} {st : State}

theorem perform_of_nothing (h : runProgram σ fuel program s.state = some ⟨.ok .nothing, st⟩) :
    s.perform σ fuel program = some (.goesOn (s.after st)) := by
  unfold perform
  rw [h]

/-- A definite value is echoed, unless it nests too deep to be told. -/
theorem perform_of_definite (h : runProgram σ fuel program s.state = some ⟨.ok v, st⟩) (hv : v.Definite) :
    (∀ text, v.textWithin σ.limit = .ok text →
      s.perform σ fuel program = some (.goesOn ((s.after st).tell (.echoed text)))) ∧
    ∀ f, v.textWithin σ.limit = .error f → s.perform σ fuel program = some (.fails f (s.after st)) := by
  unfold perform
  rw [h]
  constructor <;> intro _ htext <;> cases hv <;> dsimp only <;> rw [htext]

end Session

/-- **Nothing is no value of a script.** A program that was read runs with the functions that every script
has, from scopes in which no binding is nothing or holds it. Then no state that the run comes by has such
a binding, and every value that is evaluated on the way is a Boolean, a number, a string or an array of
such values, at every depth. A run that succeeds ends with nothing exactly if the program has no last
statement or one that is not an expression. So the prompt echoes the value of the last statement if that
is an expression, and nothing else. -/
theorem parseProgram_definite {source : String} {program : List Stmt} {st : State} {limit level n : Nat}
    (hparse : parseProgram source = .ok program) (hst : st.scopes.Definite) :
    let σ : Setting := ⟨.standard n, limit, level⟩
    (∀ st', (Moment.start program st).Passes σ st' → st'.scopes.Definite) ∧
    (∀ q v, (Moment.start program st).Evaluates σ q → q.result σ = .ok v → v.Definite) ∧
    ∀ fuel v st', runProgram σ fuel program st = some ⟨.ok v, st'⟩ →
      (v = .nothing ↔ ∀ e line, program.getLast? ≠ some (.expr e line)) ∧
      ∀ s : Session, s.state = st →
        (∀ e line, program.getLast? = some (.expr e line) →
          evaluate σ st'.scopes e = .ok v ∧
          (∀ text, v.textWithin limit = .ok text →
            s.perform σ fuel program = some (.goesOn ((s.after st').tell (.echoed text)))) ∧
          ∀ f, v.textWithin limit = .error f → s.perform σ fuel program = some (.fails f (s.after st'))) ∧
        ((∀ e line, program.getLast? ≠ some (.expr e line)) →
          s.perform σ fuel program = some (.goesOn (s.after st'))) := by
  intro σ
  have hσ : ∀ name vs, Yields (σ.functions.call name vs) := Registry.yields_call
  have hkept : Kept σ (Moment.start program st).task.parts Scopes.Definite :=
    kept_definite hσ (parseProgram_formed hparse)
  refine ⟨fun st' => hkept.passes hst, ?_, fun fuel v st' hrun => ?_⟩
  · rintro q v ⟨m, e, hcomes, hasks, hq⟩ hv
    have hscopes : q.scopes.Definite := by
      rw [hq.scopes_eq]
      exact hkept.comes (fun s hs => hs) hst hcomes
    exact yields_evaluateIn hσ hscopes _ (wellFormed_of_evaluates hparse ⟨m, e, hcomes, hasks, hq⟩) v hv
  · have hst' : st'.scopes.Definite := hkept.run (m := .start program st) (fun s hs => hs) hst hrun
    rcases runProgram_value hrun with ⟨e, line, hlast, hvalue⟩ | ⟨hlast, rfl⟩
    · have hformed : e.WellFormed := by
        have hmem : Stmt.expr e line ∈ Stmt.allParts program :=
          Stmt.mem_allParts (List.mem_of_getLast? hlast)
        obtain ⟨e', he', hformed⟩ := parseProgram_formed hparse _ hmem
        cases he'
        exact hformed
      have hv := yields_evaluateIn hσ hst' _ hformed v hvalue
      refine ⟨iff_of_false (by rintro rfl; cases hv) fun h => h e line hlast, ?_⟩
      rintro s rfl
      refine ⟨fun e' line' hlast' => ?_, fun h => absurd hlast (h e line)⟩
      cases hlast.symm.trans hlast'
      exact ⟨hvalue, Session.perform_of_definite hrun hv⟩
    · refine ⟨iff_of_true rfl hlast, ?_⟩
      rintro s rfl
      exact ⟨fun e line h => absurd h (hlast e line), fun _ => Session.perform_of_nothing hrun⟩

/-- An array grows by itself and its last item is echoed. -/
theorem parseProgram_definite_nested_array :
    let σ : Setting := ⟨.standard 9, 9, 0⟩
    let st : State := ⟨⟨[("b", .array [.string "x"])], []⟩, #[], #[]⟩
    let grown : State := ⟨⟨[("b", .array [.string "x", .array [.string "x"]])], []⟩, #[], #[]⟩
    let s : Session := ⟨"", none, st, #[]⟩
    ∃ program, parseProgram "b = b + [b]\nb.last\n" = .ok program ∧ st.scopes.Definite ∧
      runProgram σ 8 program st = some ⟨.ok (.array [.string "x"]), grown⟩ ∧ grown.scopes.Definite ∧
      s.perform σ 8 program = some (.goesOn ((s.after grown).tell (.echoed "[x]"))) := by
  intro σ st grown s
  let more : Expr := .apply .plus [.name "b", .array [.name "b"]]
  let last : Expr := .apply .field [.name "b", .name "last"]
  let program : List Stmt := [.declare "b" more false 1, .expr last 2]
  have hparse : parseProgram "b = b + [b]\nb.last\n" = .ok program := by cbv
  have hst : st.scopes.Definite := by
    intro scope hscope x v hv
    cases List.mem_singleton.1 hscope
    cases List.mem_singleton.1 hv
    simp [Value.parts, Value.allParts]
  have hrun : runProgram σ 8 program st = some ⟨.ok (.array [.string "x"]), grown⟩ := rfl
  obtain ⟨hpasses, -, hends⟩ := @parseProgram_definite _ program st 9 0 9 hparse hst
  have hgrown : grown.scopes.Definite := hpasses grown ⟨_, .refl, .inr ⟨_, ⟨8, hrun⟩, rfl⟩⟩
  have hechoes := (((hends 8 _ grown hrun).2 s rfl).1 last 2 rfl).2.1 "[x]" rfl
  exact ⟨program, hparse, hst, hrun, hgrown, hechoes⟩

end Parlance
