import Parlance.Proofs.Run.Moments
import Parlance.Proofs.Scopes.Values
import Parlance.Reader.Statement

/-!
# Statements that fail

An expression, a `print` and a declaration hold no other statement. When one of them fails, whatever it
is that fails in it, nothing has been printed, and the scopes are those from before
(`execute_simple_fails`). There is one exception. A trace of the second level tells a binding after it
was made. If the value nests too deep for its text, the declaration fails there, and its name is bound
(`State.Untold`).
-/

namespace Parlance

/-- The statements that hold no other statement. -/
def Stmt.simple : Stmt → Bool
  | .expr .. | .print .. | .declare .. => true
  | _ => false

namespace State

variable {σ : Setting} {st : State} {f : Failure}

/-- A declaration that binds its name, so that the scopes become `bound`, to a value that the trace has
to tell and that nests too deep for its text. -/
inductive Untold (σ : Setting) (st : State) : Stmt → Scopes → Prop where
  | declare {name : String} {e : Expr} {fresh : Bool} {line : Int} {v : Value} {bound : Scopes}
      (hlevel : 2 ≤ σ.level) (hvalue : evaluate σ st.scopes e = .ok v) (hdeep : σ.limit < v.depth)
      (hbound : st.scopes.declare σ.limit name v fresh = .ok bound) :
      Untold σ st (.declare name e fresh line) bound

/-! ## Printing -/

theorem print_state_of_error {e : Expr} (h : (st.print σ e).outcome = .error f) :
    (st.print σ e).state = st := by
  unfold print at h ⊢
  split at h
  · cases h
  · rfl

/-! ## Declarations -/

/-- The trace fails to tell a binding only because the text of the value nests too deep. -/
theorem tellBinding_of_error {name : String} {v : Value}
    (h : (st.tellBinding σ name v).outcome = .error f) : 2 ≤ σ.level ∧ σ.limit < v.depth := by
  unfold tellBinding at h
  split at h
  · rename_i hlevel
    refine ⟨hlevel, Nat.lt_of_not_le fun hle => ?_⟩
    have htext : v.textWithin σ.limit = .ok v.text := if_pos hle
    rw [htext] at h
    cases h
  · cases h

theorem tellBinding_tooDeep {name : String} {v : Value} (hlevel : 2 ≤ σ.level)
    (hdeep : σ.limit < v.depth) : st.tellBinding σ name v = ⟨.error .tooDeep, st⟩ := by
  have htext : v.textWithin σ.limit = .error .tooDeep := if_neg (by omega)
  unfold tellBinding
  rw [if_pos hlevel, htext]

/-- A name that can be declared passes the check that comes before the value. -/
theorem mayDeclare_of_ok {limit : Nat} {s t : Scopes} {name : String} {v : Value} {fresh : Bool}
    (h : s.declare limit name v fresh = .ok t) : (!fresh && !s.binds name) = false := by
  rcases Scopes.declare_cases h with ⟨current, hget, -, -⟩ | ⟨-, rfl, -⟩
  · rw [← Scopes.get?_isSome, hget]
    simp
  · rfl

theorem declare_of_ok {name : String} {e : Expr} {fresh : Bool} {v : Value} {bound : Scopes}
    (hvalue : evaluate σ st.scopes e = .ok v)
    (hbound : st.scopes.declare σ.limit name v fresh = .ok bound) :
    st.declare σ name e fresh = tellBinding σ { st with scopes := bound } name v := by
  unfold declare
  rw [mayDeclare_of_ok hbound, hvalue]
  simp only [Bool.false_eq_true, if_false, hbound]

/-- A declaration that fails has changed nothing, unless its name is bound and the trace cannot tell. -/
theorem declare_state_of_error {name : String} {e : Expr} {fresh : Bool} (line : Int)
    (h : (st.declare σ name e fresh).outcome = .error f) :
    (st.declare σ name e fresh).state = st ∨
      ∃ bound, Untold σ st (.declare name e fresh line) bound := by
  by_cases hbound : ∃ v bound, evaluate σ st.scopes e = .ok v ∧
      st.scopes.declare σ.limit name v fresh = .ok bound
  · obtain ⟨v, bound, hvalue, hbound⟩ := hbound
    rw [declare_of_ok hvalue hbound] at h
    obtain ⟨hlevel, hdeep⟩ := tellBinding_of_error h
    exact .inr ⟨bound, .declare hlevel hvalue hdeep hbound⟩
  · -- the scopes are written only after the value was found and could be bound
    refine .inl ?_
    unfold declare
    split
    · rfl
    · split
      · rfl
      · rename_i v hvalue
        split
        · rfl
        · rename_i bound hdeclare
          exact absurd ⟨v, bound, hvalue, hdeclare⟩ hbound

end State

open State (Untold)

variable {σ : Setting} {fuel : Nat} {s : Stmt} {st : State} {r : Run} {f : Failure}

/-! ## Statements -/

theorem State.begin_printed (σ : Setting) (st : State) (s : Stmt) :
    (st.begin σ s).printed = st.printed := by
  unfold State.begin State.note
  split <;> rfl

/-- The note of a statement does not bear on what the statement does. -/
theorem State.untold_begin {t : Stmt} {bound : Scopes} :
    Untold σ (st.begin σ t) s bound ↔ Untold σ st s bound := by
  constructor
  · rintro ⟨hlevel, hvalue, hdeep, hbound⟩
    rw [State.begin_scopes] at hvalue hbound
    exact .declare hlevel hvalue hdeep hbound
  · rintro ⟨hlevel, hvalue, hdeep, hbound⟩
    rw [← State.begin_scopes σ st t] at hvalue hbound
    exact .declare hlevel hvalue hdeep hbound

theorem perform_simple_fails (hs : s.simple = true) (hr : perform σ fuel s st = some r)
    (hf : r.outcome = .error f) : r.state = st ∨ ∃ bound, Untold σ st s bound := by
  cases s with
  | expr e line =>
    obtain rfl := Option.some.inj hr
    exact .inl rfl
  | print e line =>
    obtain rfl := Option.some.inj hr
    exact .inl (State.print_state_of_error hf)
  | declare name e fresh line =>
    obtain rfl := Option.some.inj hr
    exact State.declare_state_of_error line hf
  | branch | loop | blank => cases hs

/-- A binding that the trace cannot tell stays, and the declaration fails. -/
theorem execute_untold {bound : Scopes} (h : Untold σ st s bound) :
    execute σ (fuel + 1) s st =
      some ⟨.error (.error ⟨.expressionTooDeep, s.line?⟩), { st.begin σ s with scopes := bound }⟩ := by
  obtain ⟨hlevel, hvalue, hdeep, hbound⟩ := (State.untold_begin (t := s)).2 h
  rw [execute_begin, perform, State.declare_of_ok hvalue hbound,
    State.tellBinding_tooDeep hlevel hdeep]
  rfl

theorem Run.outcome_of_locate {line : Option Int} (h : (r.locate line).outcome = .error f) :
    ∃ g, r.outcome = .error g := by
  cases hr : r.outcome with
  | ok v => simp [Run.locate, hr] at h
  | error g => exact ⟨g, rfl⟩

/-- **A statement that fails changes nothing.** However an expression, a `print` or a declaration fails,
nothing has been printed, and the scopes are as before, but for a binding that the trace cannot tell.
Such a binding makes the declaration fail, and it stays. -/
theorem execute_simple_fails (hs : s.simple = true) :
    (∀ fuel r f, execute σ fuel s st = some r → r.outcome = .error f →
      r.state.printed = st.printed ∧
        ((∀ bound, ¬ Untold σ st s bound) → r.state.scopes = st.scopes)) ∧
    ∀ bound, Untold σ st s bound → ∀ fuel, ∃ r, execute σ (fuel + 1) s st = some r ∧
      r.outcome = .error (.error ⟨.expressionTooDeep, s.line?⟩) ∧ r.state.printed = st.printed ∧
      r.state.scopes = bound := by
  refine ⟨fun fuel r f hr hf => ?_, fun bound h fuel => ?_⟩
  · cases fuel with
    | zero => simp [execute] at hr
    | succ fuel =>
      by_cases huntold : ∃ bound, Untold σ st s bound
      · obtain ⟨bound, huntold⟩ := huntold
        rw [execute_untold huntold] at hr
        obtain rfl := Option.some.inj hr
        exact ⟨State.begin_printed σ st s, fun hno => absurd huntold (hno bound)⟩
      · rw [execute_begin] at hr
        obtain ⟨r', hr', rfl⟩ := Option.map_eq_some_iff.1 hr
        obtain ⟨g, hg⟩ := Run.outcome_of_locate hf
        have hstate : r'.state = st.begin σ s := by
          refine (perform_simple_fails hs hr' hg).resolve_right fun h => huntold ?_
          obtain ⟨bound, h⟩ := h
          exact ⟨bound, State.untold_begin.1 h⟩
        rw [Run.locate_state, hstate]
        exact ⟨State.begin_printed σ st s, fun _ => State.begin_scopes σ st s⟩
  · exact ⟨_, execute_untold h, rfl, State.begin_printed σ st s, rfl⟩

/-- At the third level an assignment of another variant fails, and `x` has its old value. -/
theorem execute_simple_fails_assigned_variant :
    let σ : Setting := ⟨.standard nestingLimit, nestingLimit, 3⟩
    let st : State := ⟨⟨[("x", .string "a")], []⟩, #["a"], #[]⟩
    let s : Stmt := .declare "x" (.literal (.boolean true)) false 2
    s.simple = true ∧ ∃ r f, execute σ 1 s st = some r ∧ r.outcome = .error f ∧
      r.state.printed = #["a"] ∧ r.state.scopes = ⟨[("x", .string "a")], []⟩ := by
  intro σ st s
  obtain ⟨r, f, hr, hf⟩ : ∃ r f, execute σ 1 s st = some r ∧ r.outcome = .error f := ⟨_, _, rfl, rfl⟩
  obtain ⟨hprinted, hscopes⟩ := (@execute_simple_fails σ s st rfl).1 1 r f hr hf
  refine ⟨rfl, r, f, hr, hf, hprinted, hscopes ?_⟩
  intro bound huntold
  -- the value `true` has a text at every limit
  obtain ⟨-, hvalue, hdeep, -⟩ :
    Untold σ st (.declare "x" (.literal (.boolean true)) false 2) bound := huntold
  cases hvalue
  exact absurd hdeep (by decide)

/-! ## A binding that the trace cannot tell -/

/-- An empty array in `n` others. -/
def Value.nest : Nat → Value
  | 0 => .array []
  | n + 1 => .array [nest n]

theorem Value.depth_nest (n : Nat) : (Value.nest n).depth = n + 1 := by
  induction n with
  | zero => simp [nest, depth, depths]
  | succ n ih => simp [nest, depth, depths, ih]

/-- With a trace of the second level, the name `a` bound as deep as the limit allows: `let b = [a]`
fails, and `b` is bound. -/
theorem execute_binds_and_fails :
    let σ : Setting := ⟨.standard nestingLimit, nestingLimit, 2⟩
    let st : State := ⟨⟨[("a", .nest 399)], []⟩, #[], #[]⟩
    let s : Stmt := .declare "b" (.array [.name "a"]) true 1
    s.simple = true ∧ ∃ r f, execute σ 1 s st = some r ∧ r.outcome = .error f ∧
      st.scopes.binds "b" = false ∧ r.state.scopes.get? "b" = some (.nest 400) := by
  intro σ st s
  have hdeep : nestingLimit < (Value.nest 400).depth := by
    rw [Value.depth_nest]
    decide
  have hvalue : evaluate σ st.scopes (.array [.name "a"]) = .ok (.nest 400) := rfl
  have hbound : st.scopes.declare σ.limit "b" (.nest 400) true =
      .ok ⟨[("a", .nest 399), ("b", .nest 400)], []⟩ := rfl
  have huntold : Untold σ st s ⟨[("a", .nest 399), ("b", .nest 400)], []⟩ :=
    .declare (Nat.le_refl 2) hvalue hdeep hbound
  exact ⟨rfl, _, _, execute_untold huntold, rfl, rfl, rfl⟩

end Parlance
