import Parlance.Proofs.Run.Bound

/-!
# How runs fail

An expression fails with an error of the language, with a remainder that there is not, or because it
nests too deep. The last becomes an error when it leaves its statement, so a statement fails with an
error or for want of a remainder, and with nothing else (`runProgram_fails`). This holds whatever
functions there are: what goes wrong inside one is an error of the call.

Only a blank statement fails otherwise. `Stmt.filled` says that there is none, at any depth.

Most of what is done with values fails in fewer ways still (`Plain`): only the remainder is special, and
only the evaluation of an expression finds that its form has no rule (`Cause.invalid`).
-/

namespace Parlance

/-! ## The failures of expressions and of statements -/

/-- The causes that an expression has whose form has no rule. -/
def Cause.invalid : Cause → Bool
  | .blankExpression _ | .operandCount .. => true
  | _ => false

/-- The failures that an operation on values may have, the remainder apart. An operation knows no line. -/
def Failure.OfOperation : Failure → Prop
  | .error e => e.cause.invalid = false ∧ e.line = none
  | .tooDeep => True
  | _ => False

/-- The failures that an expression may have. -/
def Failure.OfExpression : Failure → Prop
  | .error _ | .noRemainder | .tooDeep => True
  | _ => False

/-- The failures that a statement may have. -/
def Failure.OfStatement : Failure → Prop
  | .error _ | .noRemainder => True
  | _ => False

theorem Failure.OfOperation.ofExpression {f : Failure} (h : f.OfOperation) : f.OfExpression := by
  cases f with
  | error e => trivial
  | tooDeep => trivial
  | _ => exact h.elim

theorem Failure.OfStatement.ofExpression {f : Failure} (h : f.OfStatement) : f.OfExpression := by
  cases f with
  | error e => trivial
  | noRemainder => trivial
  | _ => exact h.elim

theorem Failure.OfExpression.locate {f : Failure} (h : f.OfExpression) (line : Option Int) :
    (f.locate line).OfStatement := by
  cases f with
  | error e => trivial
  | noRemainder => trivial
  | tooDeep => trivial
  | _ => exact h.elim

/-- A result that is no failure, or one of those of expressions. -/
def Sound {α : Type} (r : Except Failure α) : Prop := ∀ f, r = .error f → f.OfExpression

namespace Sound

variable {α β : Type}

theorem ok (a : α) : Sound (.ok a) := fun _ h => nomatch h

theorem of (cause : Cause) : Sound (.error (.of cause) : Except Failure α) := by
  rintro f ⟨⟩
  trivial

theorem bind {r : Except Failure α} {k : α → Except Failure β} (h : Sound r)
    (hk : ∀ a, Sound (k a)) : Sound (r >>= k) := by
  cases r with
  | ok a => exact hk a
  | error f =>
    rintro f ⟨⟩
    exact h f rfl

end Sound

/-- A result that is no failure, or one of those of operations. -/
def Plain {α : Type} (r : Except Failure α) : Prop := ∀ f, r = .error f → f.OfOperation

namespace Plain

variable {α : Type}

theorem ok (a : α) : Plain (.ok a) := fun _ h => nomatch h

theorem of {cause : Cause} (h : cause.invalid = false) :
    Plain (.error (.of cause) : Except Failure α) := by
  rintro f ⟨⟩
  exact ⟨h, rfl⟩

theorem tooDeep : Plain (.error .tooDeep : Except Failure α) := by
  rintro f ⟨⟩
  trivial

theorem sound {r : Except Failure α} (h : Plain r) : Sound r := fun f hf => (h f hf).ofExpression

end Plain

/-! ## Operators -/

namespace Value

variable (a b : Value)

theorem plain_mismatch (op : Op) : Plain (mismatch op a b) := .of rfl

theorem plain_add : Plain (add a b) := by
  unfold add
  split
  · exact .ok _
  · exact .ok _
  · exact .ok _
  · exact plain_mismatch _ _ _

theorem plain_subtract : Plain (subtract a b) := by
  unfold subtract
  split
  · exact .ok _
  · exact plain_mismatch _ _ _

theorem plain_multiply : Plain (multiply a b) := by
  unfold multiply
  split
  · exact .ok _
  · exact plain_mismatch _ _ _

theorem plain_divide : Plain (divide a b) := by
  unfold divide
  split
  · split
    · exact .of rfl
    · exact .ok _
  · exact plain_mismatch _ _ _

/-- The one operator that fails outside the rules of the language. -/
theorem modulus_fails {f : Failure} (h : modulus a b = .error f) : f.OfOperation ∨ f = .noRemainder := by
  unfold modulus at h
  split at h
  · split at h
    · cases h
      exact .inl ⟨rfl, rfl⟩
    · split at h
      · cases h
      · cases h
        exact .inr rfl
  · exact .inl (plain_mismatch _ _ _ f h)

theorem plain_compare (limit : Nat) (op : Op) (answer : Bool → Bool) :
    Plain (compare limit op answer a b) := by
  unfold compare
  split
  · split
    · exact .ok _
    · exact .tooDeep
  · exact plain_mismatch _ _ _

theorem plain_order (op : Op) (numbers : Number → Number → Bool) (strings : String → String → Bool) :
    Plain (order op numbers strings a b) := by
  unfold order
  split
  · exact .ok _
  · exact .ok _
  · exact plain_mismatch _ _ _

theorem plain_conjoin : Plain (conjoin a b) := by
  unfold conjoin
  split
  · exact .ok _
  · exact plain_mismatch _ _ _

theorem plain_disjoin : Plain (disjoin a b) := by
  unfold disjoin
  split
  · exact .ok _
  · exact plain_mismatch _ _ _

theorem plain_itemAt (items : List Value) (i : Number) : Plain (itemAt items i) := by
  unfold itemAt
  split
  · exact .of rfl
  · split
    · exact .ok _
    · exact .of rfl

theorem plain_index : Plain (index a b) := by
  unfold index
  split
  · exact plain_itemAt _ _
  · exact plain_itemAt _ _
  · exact .of rfl
  · exact .of rfl
  · exact .of rfl

theorem plain_negate : Plain (negate a) := by
  unfold negate
  split
  · exact .ok _
  · exact .of rfl

theorem plain_invert : Plain (invert a) := by
  unfold invert
  split
  · exact .ok _
  · exact .of rfl

theorem plain_access (field : String) : Plain (access a field) := by
  unfold access
  split
  · exact .ok _
  · split
    · exact .ok _
    · exact .of rfl
  · split
    · exact .ok _
    · exact .of rfl
  · exact .ok _
  · exact .ok _
  · exact .ok _
  · exact .of rfl

theorem plain_textWithin (limit : Nat) : Plain (textWithin limit a) := by
  unfold textWithin
  split
  · exact .ok _
  · exact .tooDeep

end Value

/-- Only the remainder fails otherwise than operations do. -/
theorem Op.binary_fails {op : Op} {limit : Nat} {f : Value → Value → Result}
    (h : op.binary? limit = some f) {a b : Value} {g : Failure} (hg : f a b = .error g) :
    g.OfOperation ∨ op = .mod ∧ g = .noRemainder := by
  cases op with
  | plus => cases h; exact .inl (a.plain_add b g hg)
  | minus => cases h; exact .inl (a.plain_subtract b g hg)
  | multiply => cases h; exact .inl (a.plain_multiply b g hg)
  | divide => cases h; exact .inl (a.plain_divide b g hg)
  | mod => cases h; exact (a.modulus_fails b hg).imp_right fun hg => ⟨rfl, hg⟩
  | equal | notEqual => cases h; exact .inl (Value.plain_compare _ _ _ _ _ g hg)
  | less | greater | lessEqual | greaterEqual =>
    cases h
    exact .inl (Value.plain_order _ _ _ _ _ g hg)
  | and => cases h; exact .inl (a.plain_conjoin b g hg)
  | or => cases h; exact .inl (a.plain_disjoin b g hg)
  | index => cases h; exact .inl (a.plain_index b g hg)
  | not | field => cases h

theorem Op.sound_binary {op : Op} {limit : Nat} {f : Value → Value → Result}
    (h : op.binary? limit = some f) (a b : Value) : Sound (f a b) := by
  intro g hg
  rcases binary_fails h hg with hg | ⟨-, rfl⟩
  · exact hg.ofExpression
  · trivial

theorem Op.plain_unary {op : Op} {f : Value → Result} (h : op.unary? = some f) (a : Value) :
    Plain (f a) := by
  cases op with
  | minus => cases h; exact a.plain_negate
  | not => cases h; exact a.plain_invert
  | _ => cases h

/-! ## Expressions -/

theorem Scopes.plain_lookup (s : Scopes) (name : String) : Plain (s.lookup name) := by
  unfold lookup
  split
  · exact .ok _
  · exact .of rfl

theorem Scopes.plain_declare (s : Scopes) (limit : Nat) (name : String) (v : Value) (fresh : Bool) :
    Plain (s.declare limit name v fresh) := by
  unfold declare
  split
  · split
    · exact .ok _
    · split
      · exact .of rfl
      · exact .tooDeep
  · split
    · exact .ok _
    · exact .of rfl

theorem Registry.sound_call (r : Registry) (name : String) (args : List Value) :
    Sound (r.call name args) := by
  unfold call
  split
  · exact .of _
  · split
    · split
      · exact .ok _
      · rintro f ⟨⟩
        trivial
      · exact .of _
    · exact .of _

mutual
theorem sound_evaluateIn (σ : Setting) (s : Scopes) (room : Nat) (e : Expr) :
    Sound (evaluateIn σ s room e) := by
  match room with
  | 0 =>
    rw [evaluateIn]
    exact Plain.tooDeep.sound
  | inside + 1 =>
    rw [evaluateIn.eq_def]
    dsimp only
    split
    · exact .ok _
    · exact (s.plain_lookup _).sound
    · exact (sound_evaluateAll σ s inside _).bind fun _ => .ok _
    · exact (sound_evaluateAll σ s inside _).bind fun _ => Registry.sound_call _ _ _
    · exact (sound_evaluateIn σ s inside _).bind fun v => (v.plain_access _).sound
    · split
      · rename_i hop
        exact (sound_evaluateIn σ s inside _).bind fun a =>
          (sound_evaluateIn σ s inside _).bind fun b => Op.sound_binary hop a b
      · exact .of _
    · split
      · rename_i hop
        exact (sound_evaluateIn σ s inside _).bind fun a => (Op.plain_unary hop a).sound
      · exact .of _
    · exact .of _
    · exact .of _

theorem sound_evaluateAll (σ : Setting) (s : Scopes) (room : Nat) (es : List Expr) :
    Sound (evaluateAll σ s room es) := by
  match es with
  | [] =>
    rw [evaluateAll]
    exact .ok _
  | e :: es =>
    rw [evaluateAll]
    exact (sound_evaluateIn σ s room e).bind fun _ =>
      (sound_evaluateAll σ s room es).bind fun _ => .ok _
end

theorem sound_evaluate (σ : Setting) (s : Scopes) (e : Expr) : Sound (evaluate σ s e) :=
  sound_evaluateIn σ s σ.limit e

/-! ## Parts of statements -/

namespace State

variable (σ : Setting) (st : State) {f : Failure}

/-- Printing fails as the expression does, or as an operation. -/
theorem print_fails {e : Expr} (h : (st.print σ e).outcome = .error f) :
    evaluate σ st.scopes e = .error f ∨ f.OfOperation := by
  unfold print at h
  cases hvalue : evaluate σ st.scopes e with
  | error g =>
    rw [hvalue] at h
    exact .inl h
  | ok v =>
    rw [hvalue] at h
    split at h
    · cases h
    · rename_i htext
      cases h
      exact .inr (v.plain_textWithin σ.limit _ htext)

theorem plain_tellBinding (name : String) (v : Value) : Plain (st.tellBinding σ name v).outcome := by
  unfold tellBinding
  split
  · split
    · exact .ok _
    · rename_i hfails
      rintro f ⟨⟩
      exact v.plain_textWithin σ.limit _ hfails
  · exact .ok _

/-- A declaration fails as its expression does, or as an operation. -/
theorem declare_fails {name : String} {e : Expr} {fresh : Bool}
    (h : (st.declare σ name e fresh).outcome = .error f) :
    (fresh || st.scopes.binds name) = true ∧ evaluate σ st.scopes e = .error f ∨ f.OfOperation := by
  unfold declare at h
  split at h
  · cases h
    exact .inr ⟨rfl, rfl⟩
  · rename_i hmay
    split at h
    · rename_i hfails
      cases h
      exact .inl ⟨by revert hmay; cases fresh <;> simp, hfails⟩
    · split at h
      · rename_i hfails
        cases h
        exact .inr (st.scopes.plain_declare σ.limit name _ fresh _ hfails)
      · exact .inr (plain_tellBinding _ _ _ _ f h)

theorem plain_tellCondition (guard : Guard) (condition : Expr) (v : Value) :
    Plain (st.tellCondition σ guard condition v) := by
  unfold tellCondition
  split
  · split
    · exact .ok _
    · rename_i hfails
      rintro f ⟨⟩
      exact v.plain_textWithin σ.limit _ hfails
  · exact .ok _

/-- A test fails as its condition does, or as an operation. -/
theorem test_fails {guard : Guard} {condition : Expr}
    (h : (st.test σ guard condition).1 = .error f) :
    evaluate σ st.scopes condition = .error f ∨ f.OfOperation := by
  unfold test at h
  split at h
  · rename_i hfails
    cases h
    exact .inl hfails
  · split at h
    · rename_i hfails
      cases h
      exact .inr (st.plain_tellCondition σ guard condition _ _ hfails)
    · split at h
      · cases h
      · cases h
        exact .inr ⟨rfl, rfl⟩

theorem sound_print (e : Expr) : Sound (st.print σ e).outcome := fun f hf =>
  (st.print_fails σ hf).elim (sound_evaluate σ st.scopes e f) (·.ofExpression)

theorem sound_declare (name : String) (e : Expr) (fresh : Bool) :
    Sound (st.declare σ name e fresh).outcome := fun f hf =>
  (st.declare_fails σ hf).elim (fun h => sound_evaluate σ st.scopes e f h.2) (·.ofExpression)

theorem sound_test (guard : Guard) (condition : Expr) : Sound (st.test σ guard condition).1 :=
  fun f hf => (st.test_fails σ hf).elim (sound_evaluate σ st.scopes condition f) (·.ofExpression)

end State

/-! ## Statements -/

namespace Stmt

mutual
/-- No statement is blank, at any depth. -/
def filled : Stmt → Bool
  | .branch _ yes no _ => allFilled yes && allFilled no
  | .loop _ body _ => allFilled body
  | .blank => false
  | _ => true
def allFilled : List Stmt → Bool
  | [] => true
  | s :: ss => filled s && allFilled ss
end

end Stmt

/-- How runs within the bound `fuel` fail. A loop tests its condition again and again inside one
statement, so that it may still nest too deep. -/
structure Failing (σ : Setting) (fuel : Nat) : Prop where
  stmt {s : Stmt} {st : State} {r : Run} : s.filled = true → execute σ fuel s st = some r →
    ∀ f, r.outcome = .error f → f.OfStatement
  block {body : List Stmt} {st : State} {r : Run} : Stmt.allFilled body = true →
    executeBlock σ fuel body st = some r → ∀ f, r.outcome = .error f → f.OfStatement
  loop {condition : Expr} {body : List Stmt} {st : State} {r : Run} : Stmt.allFilled body = true →
    executeLoop σ fuel condition body st = some r → Sound r.outcome
  list {ss : List Stmt} {v : Value} {st : State} {r : Run} : Stmt.allFilled ss = true →
    executeAll σ fuel ss v st = some r → ∀ f, r.outcome = .error f → f.OfStatement

namespace Failing

variable {σ : Setting} {fuel : Nat}

theorem zero : Failing σ 0 where
  stmt _ h := by simp [execute] at h
  block _ h := by simp [executeBlock] at h
  loop _ h := by simp [executeLoop] at h
  list _ h := by simp [executeAll] at h

section Step

variable (h : Failing σ fuel) {st : State} {r : Run}
include h

theorem sound_perform {s : Stmt} (hs : s.filled = true) (hr : perform σ fuel s st = some r) :
    Sound r.outcome := by
  cases s with
  | expr e line =>
    cases hr
    exact sound_evaluate σ st.scopes e
  | print e line =>
    cases hr
    exact st.sound_print σ e
  | declare name value fresh line =>
    cases hr
    exact st.sound_declare σ name value fresh
  | branch condition yes no line =>
    rw [Stmt.filled, Bool.and_eq_true] at hs
    have htest := st.sound_test σ .branch condition
    unfold perform at hr
    dsimp only at hr
    split at hr
    · rename_i htested
      rw [htested] at htest
      cases hr
      rintro f ⟨⟩
      exact htest _ rfl
    · exact fun f hf => (h.block hs.1 hr f hf).ofExpression
    · exact fun f hf => (h.block hs.2 hr f hf).ofExpression
  | loop condition body line =>
    rw [Stmt.filled] at hs
    exact h.loop hs hr
  | blank => cases hs

theorem execute_succ {s : Stmt} (hs : s.filled = true) (hr : execute σ (fuel + 1) s st = some r)
    (f : Failure) (hf : r.outcome = .error f) : f.OfStatement := by
  rw [execute_eq] at hr
  obtain ⟨⟨outcome, left⟩, hinner, rfl⟩ := Option.map_eq_some_iff.1 hr
  have hsound := h.sound_perform hs hinner
  cases outcome with
  | ok v => cases hf
  | error g =>
    cases hf
    exact (hsound g rfl).locate s.line?

theorem executeBlock_succ {body : List Stmt} (hs : Stmt.allFilled body = true)
    (hr : executeBlock σ (fuel + 1) body st = some r) (f : Failure) (hf : r.outcome = .error f) :
    f.OfStatement := by
  rw [executeBlock] at hr
  obtain ⟨⟨outcome, left⟩, hinner, rfl⟩ := Option.map_eq_some_iff.1 hr
  cases outcome with
  | ok v => cases hf
  | error g =>
    cases hf
    exact h.list hs hinner _ rfl

theorem executeLoop_succ {condition : Expr} {body : List Stmt} (hs : Stmt.allFilled body = true)
    (hr : executeLoop σ (fuel + 1) condition body st = some r) : Sound r.outcome := by
  have htest := st.sound_test σ .loop condition
  rw [executeLoop_eq] at hr
  split at hr
  · rename_i htested
    rw [htested] at htest
    cases hr
    rintro f ⟨⟩
    exact htest _ rfl
  · cases hr
    exact .ok _
  · rcases Run.followed_eq_some.1 hr with ⟨f, left, hblock, rfl⟩ | ⟨v, left, -, hagain⟩
    · exact fun f hf => (h.block hs hblock f hf).ofExpression
    · exact h.loop hs hagain

theorem executeAll_succ {ss : List Stmt} {v : Value} (hs : Stmt.allFilled ss = true)
    (hr : executeAll σ (fuel + 1) ss v st = some r) (f : Failure) (hf : r.outcome = .error f) :
    f.OfStatement := by
  cases ss with
  | nil =>
    cases hr
    cases hf
  | cons s ss =>
    rw [Stmt.allFilled, Bool.and_eq_true] at hs
    rw [executeAll_cons] at hr
    rcases Run.followed_eq_some.1 hr with ⟨g, left, hrun, rfl⟩ | ⟨w, left, -, hrest⟩
    · exact h.stmt hs.1 hrun f hf
    · exact h.list hs.2 hrest f hf

end Step

theorem all (fuel : Nat) : Failing σ fuel := by
  induction fuel with
  | zero => exact zero
  | succ fuel h => exact ⟨h.execute_succ, h.executeBlock_succ, h.executeLoop_succ, h.executeAll_succ⟩

end Failing

/-- **A program fails with an error of the language or for want of a remainder**, if no statement of
it is blank. -/
theorem runProgram_fails {σ : Setting} {fuel : Nat} {program : List Stmt} {st : State} {r : Run}
    (hs : Stmt.allFilled program = true) (h : runProgram σ fuel program st = some r) {f : Failure}
    (hf : r.outcome = .error f) : (∃ e, f = .error e) ∨ f = .noRemainder := by
  have hknown := (Failing.all fuel).list hs h f hf
  cases f with
  | error e => exact .inl ⟨e, rfl⟩
  | noRemainder => exact .inr rfl
  | _ => exact hknown.elim

end Parlance
