import Mathlib.Logic.Relation
import Parlance.Proofs.Number.Bits
import Parlance.Proofs.Run.Failing

/-!
# Where evaluations fail

An evaluation comes to the operands, the items and the arguments of its expression, one after another as
long as they have values. It fails if and only if it comes to an expression that fails by itself
(`Evaluation.result_eq_error_iff`): a name that is not bound, an operation on values that have none, a
call, or a form for which there is no rule (`Expr.Unruled`).

Only a remainder fails otherwise than with an error or by its depth, and it does if the dividend is
infinite, the divisor is a number and not zero (`Value.modulus_eq_noRemainder_iff`).
-/

namespace Parlance

/-! ## Remainders -/

namespace Number

theorem beq_zero_of_shape {y : Number} {negative : Bool} {scale : Nat}
    (h : shape y = .finite negative 0 scale) : (y == 0) = true := by
  obtain ⟨hcanonical, rfl⟩ := eq_ofMagnitude h
  obtain rfl : scale = 0 := by
    by_contra hscale
    exact absurd (hcanonical.full (Nat.pos_of_ne_zero hscale)) (by decide)
  cases negative <;> decide

/-- By a number that is not zero there is a remainder, unless the dividend is infinite. -/
theorem remainder?_eq_none_iff {x y : Number} (hy : (y == 0) = false) :
    remainder? x y = none ↔ (∃ negative, shape x = .infinite negative) ∧ shape y ≠ .nan := by
  unfold remainder?
  cases hx : shape x with
  | nan => simp
  | infinite negative => cases hshape : shape y <;> simp
  | finite negative m s =>
    cases hshape : shape y with
    | nan => simp
    | infinite negative' => simp
    | finite negative' m' s' =>
      have hm' : m' ≠ 0 := by
        rintro rfl
        rw [beq_zero_of_shape hshape] at hy
        cases hy
      simp [hm']

end Number

/-- There is no remainder of an infinite number by a number that is neither zero nor NaN, and of no other
numbers. -/
theorem Value.modulus_eq_noRemainder_iff {a b : Value} :
    modulus a b = .error .noRemainder ↔ ∃ x y, a = .number x ∧ b = .number y ∧
      (∃ negative, Number.shape x = .infinite negative) ∧ Number.shape y ≠ .nan ∧ (y == 0) = false := by
  constructor
  · intro h
    unfold modulus at h
    split at h
    · rename_i x y
      split at h
      · cases h
      · rename_i hzero
        rw [Bool.not_eq_true] at hzero
        split at h
        · cases h
        · rename_i hnone
          obtain ⟨hx, hy⟩ := (Number.remainder?_eq_none_iff hzero).1 hnone
          exact ⟨x, y, rfl, rfl, hx, hy, hzero⟩
    · cases h
  · rintro ⟨x, y, rfl, rfl, hx, hy, hzero⟩
    unfold modulus
    dsimp only
    rw [if_neg (by rw [hzero]; exact Bool.false_ne_true), (Number.remainder?_eq_none_iff hzero).2 ⟨hx, hy⟩]

/-! ## Forms without a rule -/

theorem Op.eq_of_binary?_eq_none {op : Op} {limit : Nat} (h : op.binary? limit = none) :
    op = .not ∨ op = .field := by
  cases op with
  | not => exact .inl rfl
  | field => exact .inr rfl
  | _ => cases h

/-- The expressions whose form has no rule, and the cause that their evaluation gives. -/
inductive Expr.Unruled : Expr → Cause → Prop where
  | blank (form : Blank) : Unruled (.blank form) (.blankExpression form)
  | between {op : Op} {left right : Expr} (hop : op = .not ∨ op = .field)
      (hright : op = .field → ∀ x, right ≠ .name x) :
      Unruled (.apply op [left, right]) (.operandCount op 2)
  | front {op : Op} {operand : Expr} (hminus : op ≠ .minus) (hnot : op ≠ .not) :
      Unruled (.apply op [operand]) (.operandCount op 1)
  | other {op : Op} {operands : List Expr} (hone : operands.length ≠ 1) (htwo : operands.length ≠ 2) :
      Unruled (.apply op operands) (.operandCount op operands.length)

/-- An operator over operands has a rule of its own, or none. -/
theorem Expr.apply_cases (op : Op) (operands : List Expr) (limit : Nat) :
    (∃ target field, op = .field ∧ operands = [target, .name field]) ∨
    (∃ g left right, op.binary? limit = some g ∧ operands = [left, right]) ∨
    (∃ g operand, op.unary? = some g ∧ operands = [operand]) ∨
    ∃ cause, (Expr.apply op operands).Unruled cause := by
  match operands with
  | [] => exact .inr (.inr (.inr ⟨_, .other (by simp) (by simp)⟩))
  | [operand] =>
    cases hop : op.unary? with
    | some g => exact .inr (.inr (.inl ⟨g, operand, rfl, rfl⟩))
    | none =>
      refine .inr (.inr (.inr ⟨_, .front ?_ ?_⟩))
      · rintro rfl
        cases hop
      · rintro rfl
        cases hop
  | [left, right] =>
    cases hop : op.binary? limit with
    | some g => exact .inr (.inl ⟨g, left, right, rfl, rfl⟩)
    | none =>
      by_cases hfield : op = .field ∧ ∃ x, right = .name x
      · obtain ⟨rfl, x, rfl⟩ := hfield
        exact .inl ⟨left, x, rfl, rfl⟩
      · refine .inr (.inr (.inr ⟨_, .between (Op.eq_of_binary?_eq_none hop) fun hop x hright => ?_⟩))
        exact hfield ⟨hop, x, hright⟩
  | _ :: _ :: _ :: _ => exact .inr (.inr (.inr ⟨_, .other (by simp) (by simp)⟩))

/-- An expression, the scopes in which it is evaluated, and how deep it may nest. -/
structure Evaluation where
  scopes : Scopes
  room : Nat
  expr : Expr

namespace Evaluation

def result (σ : Setting) (q : Evaluation) : Result := evaluateIn σ q.scopes q.room q.expr

/-- One evaluation comes to another. -/
inductive Leads (σ : Setting) : Evaluation → Evaluation → Prop where
  | item {s : Scopes} {room : Nat} {before after : List Expr} {e : Expr} {vs : List Value}
      (h : evaluateAll σ s room before = .ok vs) :
      Leads σ ⟨s, room + 1, .array (before ++ e :: after)⟩ ⟨s, room, e⟩
  | arg {s : Scopes} {room : Nat} {name : String} {before after : List Expr} {e : Expr}
      {vs : List Value} (h : evaluateAll σ s room before = .ok vs) :
      Leads σ ⟨s, room + 1, .call name (before ++ e :: after)⟩ ⟨s, room, e⟩
  | target {s : Scopes} {room : Nat} {target : Expr} {field : String} :
      Leads σ ⟨s, room + 1, .apply .field [target, .name field]⟩ ⟨s, room, target⟩
  | left {s : Scopes} {room : Nat} {op : Op} {f : Value → Value → Result} {left right : Expr}
      (hop : op.binary? σ.limit = some f) :
      Leads σ ⟨s, room + 1, .apply op [left, right]⟩ ⟨s, room, left⟩
  | right {s : Scopes} {room : Nat} {op : Op} {f : Value → Value → Result} {left right : Expr}
      {a : Value} (hop : op.binary? σ.limit = some f) (ha : evaluateIn σ s room left = .ok a) :
      Leads σ ⟨s, room + 1, .apply op [left, right]⟩ ⟨s, room, right⟩
  | operand {s : Scopes} {room : Nat} {op : Op} {f : Value → Result} {operand : Expr}
      (hop : op.unary? = some f) : Leads σ ⟨s, room + 1, .apply op [operand]⟩ ⟨s, room, operand⟩

/-- The evaluations that an evaluation comes to. -/
abbrev Comes (σ : Setting) : Evaluation → Evaluation → Prop := Relation.ReflTransGen (Leads σ)

/-- An evaluation fails by itself, not in one that it leads to. -/
inductive Fails (σ : Setting) : Evaluation → Failure → Prop where
  | deep {s : Scopes} {e : Expr} : Fails σ ⟨s, 0, e⟩ .tooDeep
  | name {s : Scopes} {room : Nat} {x : String} {f : Failure} (h : s.lookup x = .error f) :
      Fails σ ⟨s, room + 1, .name x⟩ f
  | call {s : Scopes} {room : Nat} {name : String} {args : List Expr} {vs : List Value} {f : Failure}
      (hvs : evaluateAll σ s room args = .ok vs) (h : σ.functions.call name vs = .error f) :
      Fails σ ⟨s, room + 1, .call name args⟩ f
  | access {s : Scopes} {room : Nat} {target : Expr} {field : String} {v : Value} {f : Failure}
      (hv : evaluateIn σ s room target = .ok v) (h : v.access field = .error f) :
      Fails σ ⟨s, room + 1, .apply .field [target, .name field]⟩ f
  | binary {s : Scopes} {room : Nat} {op : Op} {g : Value → Value → Result} {left right : Expr}
      {a b : Value} {f : Failure} (hop : op.binary? σ.limit = some g)
      (ha : evaluateIn σ s room left = .ok a) (hb : evaluateIn σ s room right = .ok b)
      (h : g a b = .error f) : Fails σ ⟨s, room + 1, .apply op [left, right]⟩ f
  | unary {s : Scopes} {room : Nat} {op : Op} {g : Value → Result} {operand : Expr} {a : Value}
      {f : Failure} (hop : op.unary? = some g) (ha : evaluateIn σ s room operand = .ok a)
      (h : g a = .error f) : Fails σ ⟨s, room + 1, .apply op [operand]⟩ f
  | unruled {s : Scopes} {room : Nat} {e : Expr} {cause : Cause} (h : e.Unruled cause) :
      Fails σ ⟨s, room + 1, e⟩ (.of cause)

variable {σ : Setting} {s : Scopes} {room : Nat} {f : Failure} {q q' : Evaluation}

theorem bind_eq_error {α β : Type} {r : Except Failure α} {k : α → Except Failure β} :
    (r >>= k) = .error f ↔ r = .error f ∨ ∃ a, r = .ok a ∧ k a = .error f := by
  cases r with
  | ok a => simp [bind, Except.bind]
  | error g => simp [bind, Except.bind]

theorem bind_eq_ok {α β : Type} {r : Except Failure α} {k : α → Except Failure β} {b : β} :
    (r >>= k) = .ok b ↔ ∃ a, r = .ok a ∧ k a = .ok b := by
  cases r with
  | ok a => simp [bind, Except.bind]
  | error g => simp [bind, Except.bind]

/-! ## The rules -/

theorem evaluateIn_array (σ : Setting) (s : Scopes) (room : Nat) (items : List Expr) :
    evaluateIn σ s (room + 1) (.array items) =
      evaluateAll σ s room items >>= fun vs => .ok (.array vs) := rfl

theorem evaluateIn_call (σ : Setting) (s : Scopes) (room : Nat) (name : String) (args : List Expr) :
    evaluateIn σ s (room + 1) (.call name args) =
      evaluateAll σ s room args >>= σ.functions.call name := rfl

theorem evaluateIn_field (σ : Setting) (s : Scopes) (room : Nat) (target : Expr) (field : String) :
    evaluateIn σ s (room + 1) (.apply .field [target, .name field]) =
      evaluateIn σ s room target >>= fun v => v.access field := rfl

theorem evaluateIn_binary {op : Op} {g : Value → Value → Result} (hop : op.binary? σ.limit = some g)
    (s : Scopes) (room : Nat) (left right : Expr) :
    evaluateIn σ s (room + 1) (.apply op [left, right]) =
      evaluateIn σ s room left >>= fun a => evaluateIn σ s room right >>= g a := by
  cases op <;> cases hop <;> rfl

theorem evaluateIn_unary {op : Op} {g : Value → Result} (hop : op.unary? = some g)
    (s : Scopes) (room : Nat) (operand : Expr) :
    evaluateIn σ s (room + 1) (.apply op [operand]) = evaluateIn σ s room operand >>= g := by
  cases op <;> cases hop <;> rfl

theorem evaluateIn_unruled {e : Expr} {cause : Cause} (h : e.Unruled cause) (σ : Setting) (s : Scopes)
    (room : Nat) : evaluateIn σ s (room + 1) e = .error (.of cause) := by
  cases h with
  | blank form => rfl
  | @between op left right hop hright =>
    rcases hop with rfl | rfl
    · rfl
    · cases right with
      | name x => exact absurd rfl (hright rfl x)
      | _ => rfl
  | @front op operand hminus hnot =>
    cases op with
    | minus => exact absurd rfl hminus
    | not => exact absurd rfl hnot
    | _ => rfl
  | @other op operands hone htwo =>
    match operands with
    | [] => cases op <;> rfl
    | [_] => exact absurd rfl hone
    | [_, _] => exact absurd rfl htwo
    | _ :: _ :: _ :: _ => simp [evaluateIn]

/-- Expressions one after another fail where the first of them fails. -/
theorem evaluateAll_eq_error {es : List Expr} :
    evaluateAll σ s room es = .error f ↔ ∃ before e after vs, es = before ++ e :: after ∧
      evaluateAll σ s room before = .ok vs ∧ evaluateIn σ s room e = .error f := by
  induction es with
  | nil => simp [evaluateAll]
  | cons e es ih =>
    rw [evaluateAll, bind_eq_error]
    constructor
    · rintro (hfirst | ⟨v, hv, hrest⟩)
      · exact ⟨[], e, es, [], rfl, rfl, hfirst⟩
      · rcases bind_eq_error.1 hrest with hrest | ⟨vs, -, hok⟩
        · obtain ⟨before, e', after, vs, rfl, hbefore, hfails⟩ := ih.1 hrest
          refine ⟨e :: before, e', after, v :: vs, rfl, ?_, hfails⟩
          rw [evaluateAll, hv, hbefore]
          rfl
        · cases hok
    · rintro ⟨before, e', after, vs, hes, hbefore, hfails⟩
      cases before with
      | nil =>
        obtain ⟨rfl, rfl⟩ := List.cons.inj hes
        exact .inl hfails
      | cons first before =>
        obtain ⟨rfl, rfl⟩ := List.cons.inj hes
        rw [evaluateAll] at hbefore
        obtain ⟨v, hv, hbefore⟩ := bind_eq_ok.1 hbefore
        obtain ⟨ws, hws, -⟩ := bind_eq_ok.1 hbefore
        exact .inr ⟨v, hv, bind_eq_error.2 (.inl (ih.2 ⟨before, e', after, ws, rfl, hws, hfails⟩))⟩

/-! ## Failures -/

/-- **What an evaluation that fails does**: it leads to one that fails in the same way, or it fails by
itself. -/
theorem fails_cases (h : q.result σ = .error f) :
    (∃ q', q.Leads σ q' ∧ q'.result σ = .error f) ∨ q.Fails σ f := by
  obtain ⟨s, room, e⟩ := q
  have h' : evaluateIn σ s room e = .error f := h
  cases room with
  | zero =>
    rw [evaluateIn] at h'
    cases h'
    exact .inr .deep
  | succ room =>
    cases e with
    | literal v => cases h'
    | name x => exact .inr (.name h')
    | array items =>
      rw [evaluateIn_array] at h'
      rcases bind_eq_error.1 h' with hitems | ⟨vs, -, hok⟩
      · obtain ⟨before, e, after, vs, rfl, hbefore, hfails⟩ := evaluateAll_eq_error.1 hitems
        exact .inl ⟨_, .item hbefore, hfails⟩
      · cases hok
    | call name args =>
      rw [evaluateIn_call] at h'
      rcases bind_eq_error.1 h' with hargs | ⟨vs, hvs, hcall⟩
      · obtain ⟨before, e, after, vs, rfl, hbefore, hfails⟩ := evaluateAll_eq_error.1 hargs
        exact .inl ⟨_, .arg hbefore, hfails⟩
      · exact .inr (.call hvs hcall)
    | apply op operands =>
      rcases Expr.apply_cases op operands σ.limit with ⟨target, field, rfl, rfl⟩ |
        ⟨g, left, right, hop, rfl⟩ | ⟨g, operand, hop, rfl⟩ | ⟨cause, hunruled⟩
      · rw [evaluateIn_field] at h'
        rcases bind_eq_error.1 h' with htarget | ⟨v, hv, haccess⟩
        · exact .inl ⟨_, .target, htarget⟩
        · exact .inr (.access hv haccess)
      · rw [evaluateIn_binary hop] at h'
        rcases bind_eq_error.1 h' with hleft | ⟨a, ha, hrest⟩
        · exact .inl ⟨_, .left hop, hleft⟩
        · rcases bind_eq_error.1 hrest with hright | ⟨b, hb, hg⟩
          · exact .inl ⟨_, .right hop ha, hright⟩
          · exact .inr (.binary hop ha hb hg)
      · rw [evaluateIn_unary hop] at h'
        rcases bind_eq_error.1 h' with hoperand | ⟨a, ha, hg⟩
        · exact .inl ⟨_, .operand hop, hoperand⟩
        · exact .inr (.unary hop ha hg)
      · rw [evaluateIn_unruled hunruled] at h'
        cases h'
        exact .inr (.unruled hunruled)
    | blank form =>
      cases h'
      exact .inr (.unruled (.blank form))

theorem Leads.result_error (h : q.Leads σ q') (hf : q'.result σ = .error f) : q.result σ = .error f := by
  unfold result at hf ⊢
  cases h with
  | item hbefore =>
    rw [evaluateIn_array, evaluateAll_eq_error.2 ⟨_, _, _, _, rfl, hbefore, hf⟩]
    rfl
  | arg hbefore =>
    rw [evaluateIn_call, evaluateAll_eq_error.2 ⟨_, _, _, _, rfl, hbefore, hf⟩]
    rfl
  | target =>
    rw [evaluateIn_field]
    exact bind_eq_error.2 (.inl hf)
  | left hop =>
    rw [evaluateIn_binary hop]
    exact bind_eq_error.2 (.inl hf)
  | right hop ha =>
    rw [evaluateIn_binary hop]
    exact bind_eq_error.2 (.inr ⟨_, ha, bind_eq_error.2 (.inl hf)⟩)
  | operand hop =>
    rw [evaluateIn_unary hop]
    exact bind_eq_error.2 (.inl hf)

theorem Fails.result_error (h : q.Fails σ f) : q.result σ = .error f := by
  unfold result
  cases h with
  | deep => rw [evaluateIn]
  | name h => exact h
  | call hvs h =>
    rw [evaluateIn_call]
    exact bind_eq_error.2 (.inr ⟨_, hvs, h⟩)
  | access hv h =>
    rw [evaluateIn_field]
    exact bind_eq_error.2 (.inr ⟨_, hv, h⟩)
  | binary hop ha hb h =>
    rw [evaluateIn_binary hop]
    exact bind_eq_error.2 (.inr ⟨_, ha, bind_eq_error.2 (.inr ⟨_, hb, h⟩)⟩)
  | unary hop ha h =>
    rw [evaluateIn_unary hop]
    exact bind_eq_error.2 (.inr ⟨_, ha, h⟩)
  | unruled h => exact evaluateIn_unruled h ..

theorem Leads.room_eq (h : q.Leads σ q') : q.room = q'.room + 1 := by
  cases h <;> rfl

/-- **An evaluation fails where it comes to one that fails by itself.** -/
theorem result_eq_error_iff : q.result σ = .error f ↔ ∃ q', q.Comes σ q' ∧ q'.Fails σ f := by
  constructor
  · intro h
    -- an evaluation leads to expressions with less room
    induction hroom : q.room generalizing q with
    | zero =>
      rcases fails_cases h with ⟨q', hlead, -⟩ | hfails
      · cases hroom.symm.trans hlead.room_eq
      · exact ⟨q, .refl, hfails⟩
    | succ room ih =>
      rcases fails_cases h with ⟨q', hlead, hq'⟩ | hfails
      · obtain ⟨q'', hcomes, hfails⟩ := ih hq' (Nat.succ.inj (hlead.room_eq.symm.trans hroom))
        exact ⟨q'', hcomes.head hlead, hfails⟩
      · exact ⟨q, .refl, hfails⟩
  · rintro ⟨q', hcomes, hfails⟩
    induction hcomes using Relation.ReflTransGen.head_induction_on with
    | refl => exact hfails.result_error
    | head hlead _ ih => exact hlead.result_error ih

theorem evaluate_eq_error_iff {e : Expr} :
    evaluate σ s e = .error f ↔ ∃ q, Comes σ ⟨s, σ.limit, e⟩ q ∧ q.Fails σ f :=
  result_eq_error_iff (q := ⟨s, σ.limit, e⟩)

/-! ## Two kinds of failure -/

/-- A remainder is evaluated, of an infinite number by a number that is neither zero nor NaN. -/
def InfiniteRemainder (σ : Setting) (q : Evaluation) : Prop :=
  ∃ room left right x y, q.room = room + 1 ∧ q.expr = .apply .mod [left, right] ∧
    evaluateIn σ q.scopes room left = .ok (.number x) ∧
    evaluateIn σ q.scopes room right = .ok (.number y) ∧
    (∃ negative, Number.shape x = .infinite negative) ∧ Number.shape y ≠ .nan ∧ (y == 0) = false

/-- A function is called that reports the error itself. -/
def Reports (σ : Setting) (q : Evaluation) (e : Error) : Prop :=
  ∃ room name args vs function, q.room = room + 1 ∧ q.expr = .call name args ∧
    evaluateAll σ q.scopes room args = .ok vs ∧ σ.functions.find? name = some function ∧
    function.apply vs = .error (.error e)

/-- Calls fail with errors, and the cause of an unruled form is in none but what the function reports. -/
theorem call_fails {functions : Registry} {name : String} {vs : List Value}
    (h : functions.call name vs = .error f) :
    f.OfOperation ∨ ∃ e function, f = .error e ∧ functions.find? name = some function ∧
      function.apply vs = .error (.error e) := by
  unfold Registry.call at h
  split at h
  · cases h
    exact .inl ⟨rfl, rfl⟩
  · rename_i function hfind
    split at h
    · split at h
      · cases h
      · rename_i e happly
        cases h
        exact .inr ⟨e, function, rfl, hfind, happly⟩
      · cases h
        exact .inl ⟨rfl, rfl⟩
    · cases h
      exact .inl ⟨rfl, rfl⟩

theorem fails_noRemainder_iff : q.Fails σ .noRemainder ↔ q.InfiniteRemainder σ := by
  constructor
  · intro h
    cases h with
    | name h => exact (Scopes.plain_lookup _ _ _ h).elim
    | call _ h =>
      rcases call_fails h with h | ⟨e, function, h, -⟩
      · exact h.elim
      · cases h
    | access _ h => exact (Value.plain_access _ _ _ h).elim
    | binary hop ha hb h =>
      rcases Op.binary_fails hop h with hf | ⟨rfl, -⟩
      · exact hf.elim
      · cases hop
        obtain ⟨x, y, rfl, rfl, hxy⟩ := Value.modulus_eq_noRemainder_iff.1 h
        exact ⟨_, _, _, x, y, rfl, rfl, ha, hb, hxy⟩
    | unary hop _ h => exact (Op.plain_unary hop _ _ h).elim
  · obtain ⟨s, room, e⟩ := q
    rintro ⟨inside, left, right, x, y, hroom, hexpr, ha, hb, hxy⟩
    cases hroom
    cases hexpr
    exact .binary rfl ha hb (Value.modulus_eq_noRemainder_iff.2 ⟨x, y, rfl, rfl, hxy⟩)

/-- The cause of an unruled form comes from such a form, or from a function. -/
theorem Fails.of_invalid {e : Error} (h : q.Fails σ (.error e)) (he : e.cause.invalid = true) :
    q.expr.Unruled e.cause ∨ q.Reports σ e := by
  have hnot : ¬ (Failure.error e).OfOperation := by
    intro hplain
    exact Bool.false_ne_true (hplain.1.symm.trans he)
  cases h with
  | name h => exact absurd (Scopes.plain_lookup _ _ _ h) hnot
  | @call s room name args vs _ hvs h =>
    rcases call_fails h with h | ⟨_, function, ⟨⟩, hfind, happly⟩
    · exact absurd h hnot
    · exact .inr ⟨room, name, args, vs, function, rfl, rfl, hvs, hfind, happly⟩
  | access _ h => exact absurd (Value.plain_access _ _ _ h) hnot
  | binary hop _ _ h =>
    rcases Op.binary_fails hop h with h | ⟨-, ⟨⟩⟩
    exact absurd h hnot
  | unary hop _ h => exact absurd (Op.plain_unary hop _ _ h) hnot
  | unruled h => exact .inl h

end Evaluation

end Parlance
