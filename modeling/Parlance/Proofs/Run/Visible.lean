import Parlance.Proofs.Run.Evaluation

/-!
# What an evaluation sees of the scopes

An evaluation looks up the names in its expression and nothing else of the scopes; how deep the stack is,
what else it binds and what is bound again further in has no part in it. Two stacks in which these names
have the same values, or none, give the same result (`evaluate_of_visible`). Only the error of a name that
is not bound tells the stacks apart, because it holds the scopes that were searched.
-/

namespace Parlance

namespace Expr

mutual
/-- The names in an expression, without those of fields. -/
def names : Expr → List String
  | .literal _ | .blank _ => []
  | .name x => [x]
  | .array items => namesOfAll items
  | .call _ args => namesOfAll args
  | .apply .field [target, .name _] => names target
  | .apply _ operands => namesOfAll operands
def namesOfAll : List Expr → List String
  | [] => []
  | e :: es => names e ++ namesOfAll es
end

theorem names_between {op : Op} {limit : Nat} {g : Value → Value → Result}
    (hop : op.binary? limit = some g) (left right : Expr) :
    names (.apply op [left, right]) = left.names ++ right.names := by
  have hall : namesOfAll [left, right] = left.names ++ right.names := by simp [namesOfAll]
  cases op with
  | not => cases hop
  | field => cases hop
  | _ => exact hall

theorem names_front (op : Op) (operand : Expr) : names (.apply op [operand]) = operand.names := by
  have hall : namesOfAll [operand] = operand.names := by simp [namesOfAll]
  cases op <;> exact hall

end Expr

/-! ## Results that agree -/

/-- Two results are the same, or both say that one of the names is bound neither in `s` nor in `t`. -/
inductive Agree (s t : Scopes) (names : List String) {α : Type} :
    Except Failure α → Except Failure α → Prop where
  | same (r : Except Failure α) : Agree s t names r r
  | unbound {x : String} (hx : x ∈ names) (hs : s.get? x = none) (ht : t.get? x = none) :
      Agree s t names (.error (.of (.undefinedVariable x s))) (.error (.of (.undefinedVariable x t)))

variable {σ : Setting} {s t : Scopes} {names : List String}

theorem Agree.bind {α β : Type} {r r' : Except Failure α} {k k' : α → Except Failure β}
    (h : Agree s t names r r') (hk : ∀ a, Agree s t names (k a) (k' a)) :
    Agree s t names (r >>= k) (r' >>= k') := by
  cases h with
  | unbound hx hs ht => exact .unbound hx hs ht
  | same r =>
    cases r with
    | ok a => exact hk a
    | error f => exact .same (.error f)

/-- Expressions one after another, if the evaluations of each of them agree. -/
theorem agree_evaluateAll {room : Nat}
    (hone : ∀ e : Expr, e.names ⊆ names → Agree s t names (evaluateIn σ s room e) (evaluateIn σ t room e))
    {es : List Expr} (hes : Expr.namesOfAll es ⊆ names) :
    Agree s t names (evaluateAll σ s room es) (evaluateAll σ t room es) := by
  induction es with
  | nil => exact .same (.ok [])
  | cons e es ih =>
    obtain ⟨he, hes⟩ := List.append_subset.1 hes
    rw [evaluateAll, evaluateAll]
    refine (hone e he).bind fun v => ?_
    exact (ih hes).bind fun vs => .same (.ok (v :: vs))

section Seen

variable (hsee : ∀ x ∈ names, s.get? x = t.get? x)
include hsee

theorem agree_lookup {x : String} (hx : x ∈ names) : Agree s t names (s.lookup x) (t.lookup x) := by
  have hget := hsee x hx
  unfold Scopes.lookup
  cases hs : s.get? x with
  | some v =>
    rw [← hget, hs]
    exact .same (.ok v)
  | none =>
    rw [← hget, hs]
    exact .unbound hx hs (hget.symm.trans hs)

/-- **Evaluations in two stacks that agree on the names of the expression agree.** -/
theorem agree_evaluateIn {room : Nat} {e : Expr} (he : e.names ⊆ names) :
    Agree s t names (evaluateIn σ s room e) (evaluateIn σ t room e) := by
  induction room generalizing e with
  | zero =>
    rw [evaluateIn, evaluateIn]
    exact .same (.error .tooDeep)
  | succ room ih =>
    have hall {es : List Expr} (hes : Expr.namesOfAll es ⊆ names) :
        Agree s t names (evaluateAll σ s room es) (evaluateAll σ t room es) :=
      agree_evaluateAll (fun _ => ih) hes
    cases e with
    | literal v => exact .same (.ok v)
    | name x => exact agree_lookup hsee (he (List.mem_singleton_self x))
    | array items =>
      rw [Evaluation.evaluateIn_array, Evaluation.evaluateIn_array]
      exact (hall he).bind fun vs => .same _
    | call function args =>
      rw [Evaluation.evaluateIn_call, Evaluation.evaluateIn_call]
      exact (hall he).bind fun vs => .same _
    | apply op operands =>
      rcases Expr.apply_cases op operands σ.limit with ⟨target, field, rfl, rfl⟩ |
        ⟨g, left, right, hop, rfl⟩ | ⟨g, operand, hop, rfl⟩ | ⟨cause, hunruled⟩
      · -- the name of the field is not looked up
        have htarget : target.names ⊆ names := he
        rw [Evaluation.evaluateIn_field, Evaluation.evaluateIn_field]
        exact (ih htarget).bind fun v => .same _
      · rw [Expr.names_between hop] at he
        obtain ⟨hleft, hright⟩ := List.append_subset.1 he
        rw [Evaluation.evaluateIn_binary hop, Evaluation.evaluateIn_binary hop]
        exact (ih hleft).bind fun a => (ih hright).bind fun b => .same _
      · rw [Expr.names_front] at he
        rw [Evaluation.evaluateIn_unary hop, Evaluation.evaluateIn_unary hop]
        exact (ih he).bind fun a => .same _
      · rw [Evaluation.evaluateIn_unruled hunruled, Evaluation.evaluateIn_unruled hunruled]
        exact .same _
    | blank form => exact .same _

end Seen

/-- **An evaluation depends only on what its names are bound to.** In two stacks, of whatever scopes, in which
every name of the expression has the same value or none, the results are the same, value or failure; or both
are the error that the same one of the names is not bound, and differ in the scopes that it holds. -/
theorem evaluate_of_visible (σ : Setting) {s t : Scopes} {e : Expr}
    (h : ∀ x ∈ e.names, s.get? x = t.get? x) :
    evaluate σ s e = evaluate σ t e ∨
      ∃ x ∈ e.names, s.get? x = none ∧ t.get? x = none ∧
        evaluate σ s e = .error (.of (.undefinedVariable x s)) ∧
        evaluate σ t e = .error (.of (.undefinedVariable x t)) := by
  have hagree : Agree s t e.names (evaluate σ s e) (evaluate σ t e) := agree_evaluateIn h fun _ hx => hx
  generalize evaluate σ s e = r at *
  generalize evaluate σ t e = r' at *
  cases hagree with
  | same r => exact .inl rfl
  | unbound hx hs ht => exact .inr ⟨_, hx, hs, ht, rfl, rfl⟩

/-- `xs.first + y`, where `xs` is bound again in the first stack and `first` in the second: the sum is the same.
-/
theorem evaluate_of_visible_shadowed :
    let xs : Value := .array [.string "a"]
    let e : Expr := .apply .plus [.apply .field [.name "xs", .name "first"], .name "y"]
    let s : Scopes := ⟨[("xs", xs)], [[("xs", .nothing), ("y", .string "b")]]⟩
    let t : Scopes := ⟨[("first", .nothing), ("y", .string "b"), ("xs", xs)], []⟩
    e.names = ["xs", "y"] ∧ evaluate ⟨[], 3, 0⟩ s e = .ok (.string "ab") ∧
      evaluate ⟨[], 3, 0⟩ t e = evaluate ⟨[], 3, 0⟩ s e := by
  intro xs e s t
  have hvalue : evaluate ⟨[], 3, 0⟩ s e = .ok (.string "ab") := rfl
  have hnames : e.names = ["xs", "y"] := rfl
  have hsee : ∀ x ∈ e.names, s.get? x = t.get? x := by
    rw [hnames]
    intro x hx
    rcases List.mem_pair.1 hx with rfl | rfl <;> rfl
  refine ⟨hnames, hvalue, ?_⟩
  rcases evaluate_of_visible ⟨[], 3, 0⟩ hsee with hsame | ⟨x, -, -, -, hs, -⟩
  · exact hsame.symm
  · cases hvalue.symm.trans hs

end Parlance
