import Parlance.Proofs.Run.Evaluation

/-!
# Evaluation by postfix code

The postfix code of an expression (`Expr.code`) is the code of its parts from left to right, and then one
instruction that takes their values from a stack and puts its own there. A form without a rule is one
instruction that fails; its parts have no code.

Evaluation is the run of that code (`evaluate_eq_run`): it is strict, from left to right and depth first, and
fails as the first instruction does that fails. The machine never finds too few values on its stack.
-/

namespace Parlance

/-! ## Code -/

namespace Op

/-- The operators that stand between two operands. The right side of a field is a name and no operand. -/
def isBetween : Op → Bool
  | not | field => false
  | _ => true

/-- The operators that stand in front of one operand. -/
def isFront : Op → Bool
  | minus | not => true
  | _ => false

theorem isBetween_of_binary? {op : Op} {limit : Nat} {g : Value → Value → Result}
    (h : op.binary? limit = some g) : op.isBetween = true := by
  cases op with
  | not => cases h
  | field => cases h
  | _ => rfl

theorem isFront_of_unary? {op : Op} {g : Value → Result} (h : op.unary? = some g) :
    op.isFront = true := by
  cases op with
  | minus => rfl
  | not => rfl
  | _ => cases h

end Op

inductive Instr where
  | push (v : Value)
  | load (name : String)
  | makeArray (count : Nat)
  | call (function : String) (count : Nat)
  | field (name : String)
  | between (op : Op)
  | front (op : Op)
  | trap (cause : Cause)

namespace Expr

mutual
/-- The postfix code. -/
def code : Expr → List Instr
  | .literal v => [.push v]
  | .name x => [.load x]
  | .array items => codes items ++ [.makeArray items.length]
  | .call function args => codes args ++ [.call function args.length]
  | .apply .field [target, .name field] => code target ++ [.field field]
  | .apply op [left, right] =>
    if op.isBetween then code left ++ code right ++ [.between op] else [.trap (.operandCount op 2)]
  | .apply op [operand] =>
    if op.isFront then code operand ++ [.front op] else [.trap (.operandCount op 1)]
  | .apply op operands => [.trap (.operandCount op operands.length)]
  | .blank form => [.trap (.blankExpression form)]
def codes : List Expr → List Instr
  | [] => []
  | e :: es => code e ++ codes es
end

theorem code_between {op : Op} (h : op.isBetween = true) (left right : Expr) :
    code (.apply op [left, right]) = left.code ++ right.code ++ [.between op] := by
  cases op with
  | not => cases h
  | field => cases h
  | _ => rfl

theorem code_front {op : Op} (h : op.isFront = true) (operand : Expr) :
    code (.apply op [operand]) = operand.code ++ [.front op] := by
  cases op with
  | minus => rfl
  | not => rfl
  | _ => cases h

theorem code_unruled {e : Expr} {cause : Cause} (h : e.Unruled cause) : e.code = [.trap cause] := by
  cases h with
  | blank form => rfl
  | @between op left right hop hright =>
    rcases hop with rfl | rfl
    · rfl
    · cases right with
      | name x => exact absurd rfl (hright rfl x)
      | _ => rfl
  | @front op operand hminus hnot =>
    cases op with
    | minus => exact absurd rfl hminus
    | not => exact absurd rfl hnot
    | _ => rfl
  | @other op operands hone htwo =>
    cases operands with
    | nil => cases op <;> rfl
    | cons first operands =>
      cases operands with
      | nil => exact absurd rfl hone
      | cons second operands =>
        cases operands with
        | nil => exact absurd rfl htwo
        | cons third operands => simp [code]

mutual
/-- How deep the expression nests. -/
def height : Expr → Nat
  | .literal _ | .name _ | .blank _ => 1
  | .array items => heights items + 1
  | .call _ args => heights args + 1
  | .apply _ operands => heights operands + 1
def heights : List Expr → Nat
  | [] => 0
  | e :: es => max (height e) (heights es)
end

theorem height_pos (e : Expr) : 0 < e.height := by
  cases e <;> simp [height]

end Expr

/-! ## The machine -/

namespace Machine

/-- How the machine stands after some instructions. -/
inductive Standing where
  /-- The topmost value comes first. -/
  | stack (vs : List Value)
  | failed (f : Failure)
  /-- An instruction found too few values, or an operator that has no meaning there. -/
  | stuck

namespace Standing

def of : Except Failure (List Value) → Standing
  | .ok vs => .stack vs
  | .error f => .failed f

/-- Goes on unless an instruction failed or is stuck. -/
def onward : Standing → (List Value → Standing) → Standing
  | .stack vs, next => next vs
  | stop, _ => stop

end Standing

/-- Puts a value on the stack. -/
def put (r : Result) (stack : List Value) : Standing := .of (r.map (· :: stack))

/-- Takes values from the stack, the topmost last. -/
def takeOff (count : Nat) (stack : List Value) (next : List Value → List Value → Standing) : Standing :=
  if count ≤ stack.length then next (stack.take count).reverse (stack.drop count) else .stuck

def step (σ : Setting) (s : Scopes) : Instr → List Value → Standing
  | .push v, stack => put (.ok v) stack
  | .load name, stack => put (s.lookup name) stack
  | .makeArray count, stack => takeOff count stack fun vs rest => put (.ok (.array vs)) rest
  | .call function count, stack => takeOff count stack fun vs rest => put (σ.functions.call function vs) rest
  | .field name, v :: stack => put (v.access name) stack
  | .between op, b :: a :: stack =>
    match op.binary? σ.limit with
    | some f => put (f a b) stack
    | none => .stuck
  | .front op, a :: stack =>
    match op.unary? with
    | some f => put (f a) stack
    | none => .stuck
  | .trap cause, _ => .failed (.of cause)
  | _, _ => .stuck

def run (σ : Setting) (s : Scopes) : List Instr → List Value → Standing
  | [], stack => .stack stack
  | i :: code, stack => (step σ s i stack).onward (run σ s code)

variable {σ : Setting} {s : Scopes} {stack : List Value}

theorem run_append (c d : List Instr) (stack : List Value) :
    run σ s (c ++ d) stack = (run σ s c stack).onward (run σ s d) := by
  induction c generalizing stack with
  | nil => rfl
  | cons i c ih =>
    rw [List.cons_append, run, run]
    cases step σ s i stack with
    | stack vs => exact ih vs
    | failed f => rfl
    | stuck => rfl

theorem run_singleton (i : Instr) : run σ s [i] stack = step σ s i stack := by
  rw [run]
  cases step σ s i stack <;> rfl

/-- The failure of a run is that of the first instruction that fails. -/
theorem run_eq_failed {code : List Instr} {f : Failure} :
    run σ s code stack = .failed f ↔ ∃ before i after mid, code = before ++ i :: after ∧
      run σ s before stack = .stack mid ∧ step σ s i mid = .failed f := by
  constructor
  · intro h
    induction code generalizing stack with
    | nil => cases h
    | cons i code ih =>
      rw [run] at h
      cases hstep : step σ s i stack with
      | stack vs =>
        rw [hstep] at h
        obtain ⟨before, j, after, mid, rfl, hbefore, hj⟩ := ih h
        refine ⟨i :: before, j, after, mid, rfl, ?_, hj⟩
        rw [run, hstep]
        exact hbefore
      | failed g =>
        rw [hstep] at h
        cases h
        exact ⟨[], i, code, stack, rfl, rfl, hstep⟩
      | stuck =>
        rw [hstep] at h
        cases h
  · rintro ⟨before, i, after, mid, rfl, hbefore, hi⟩
    rw [run_append, hbefore]
    show run σ s (i :: after) mid = _
    rw [run, hi]
    rfl

/-! ## Running the code of an expression -/

/-- What takes its values from the top of the stack gets them in the order in which they were put there. -/
theorem takeOff_reverse (vs : List Value) (next : List Value → List Value → Standing) :
    takeOff vs.length (vs.reverse ++ stack) next = next vs stack := by
  have hle : vs.length ≤ (vs.reverse ++ stack).length := by simp
  have htake : (vs.reverse ++ stack).take vs.length = vs.reverse := List.take_left' (by simp)
  have hdrop : (vs.reverse ++ stack).drop vs.length = stack := List.drop_left' (by simp)
  rw [takeOff, if_pos hle, htake, hdrop, List.reverse_reverse]

theorem step_between {op : Op} {g : Value → Value → Result} (hop : op.binary? σ.limit = some g)
    (a b : Value) : step σ s (.between op) (b :: a :: stack) = put (g a b) stack := by
  simp only [step, hop]

theorem step_front {op : Op} {g : Value → Result} (hop : op.unary? = some g) (a : Value) :
    step σ s (.front op) (a :: stack) = put (g a) stack := by
  simp only [step, hop]

/-- The limit for nesting is not what stops an evaluation: the expression nests no deeper than the room that
there is, or at least it does not fail for its depth. -/
def Fits {α : Type} (height room : Nat) (r : Except Failure α) : Prop :=
  height ≤ room ∨ r ≠ .error .tooDeep

theorem Fits.first {α β : Type} {height height' room room' : Nat} {r : Except Failure α}
    {k : α → Except Failure β} (h : Fits height room (r >>= k)) (hle : height ≤ room → height' ≤ room') :
    Fits height' room' r := by
  refine h.imp hle fun hne hdeep => hne ?_
  rw [hdeep]
  rfl

theorem Fits.second {α β : Type} {height room : Nat} {r : Except Failure α} {a : α}
    {k : α → Except Failure β} (h : Fits height room (r >>= k)) (hr : r = .ok a) :
    Fits height room (k a) := by
  rwa [hr] at h

/-- Code that puts the values of `r` on the stack, and an instruction after it that leaves what is below. -/
theorem run_then {α : Type} {c : List Instr} {i : Instr} {r : Except Failure α} {lay : α → List Value}
    {k : α → Result} {below : List Value} (hc : run σ s c stack = .of (r.map lay))
    (hi : ∀ a, r = .ok a → step σ s i (lay a) = put (k a) below) :
    run σ s (c ++ [i]) stack = put (r >>= k) below := by
  rw [run_append, hc]
  cases r with
  | error f => rfl
  | ok a => exact (run_singleton i).trans (hi a rfl)

theorem length_of_evaluateAll {room : Nat} {es : List Expr} {vs : List Value}
    (h : evaluateAll σ s room es = .ok vs) : vs.length = es.length := by
  induction es generalizing vs with
  | nil =>
    cases h
    rfl
  | cons e es ih =>
    rw [evaluateAll] at h
    obtain ⟨v, -, h⟩ := Evaluation.bind_eq_ok.1 h
    obtain ⟨ws, hws, h⟩ := Evaluation.bind_eq_ok.1 h
    cases h
    rw [List.length_cons, List.length_cons, ih hws]

/-- Expressions one after another, if the code of each of them puts its value on the stack. -/
theorem run_codes {room : Nat}
    (hcode : ∀ (e : Expr) (stack : List Value), Fits e.height room (evaluateIn σ s room e) →
      run σ s e.code stack = put (evaluateIn σ s room e) stack)
    {es : List Expr} (h : Fits (Expr.heights es) room (evaluateAll σ s room es)) :
    run σ s (Expr.codes es) stack = .of ((evaluateAll σ s room es).map (·.reverse ++ stack)) := by
  induction es generalizing stack with
  | nil => rfl
  | cons e es ih =>
    rw [evaluateAll, Expr.heights] at h
    rw [evaluateAll, Expr.codes, run_append, hcode e stack (h.first (by omega))]
    cases he : evaluateIn σ s room e with
    | error f => rfl
    | ok v =>
      have hrest : Fits (Expr.heights es) room (evaluateAll σ s room es) := (h.second he).first (by omega)
      have hrun : run σ s (Expr.codes es) (v :: stack) = _ := ih hrest
      refine hrun.trans ?_
      cases evaluateAll σ s room es with
      | error f => rfl
      | ok vs =>
        show Standing.stack (vs.reverse ++ v :: stack) = .stack ((v :: vs).reverse ++ stack)
        rw [List.reverse_cons, List.append_assoc, List.singleton_append]

/-- **The code of an expression puts its value on the stack**, or fails as the evaluation does. -/
theorem run_code {room : Nat} {e : Expr} (h : Fits e.height room (evaluateIn σ s room e)) :
    run σ s e.code stack = put (evaluateIn σ s room e) stack := by
  -- operands are evaluated in less room
  induction room generalizing e stack with
  | zero =>
    rcases h with hle | hne
    · exact absurd hle (Nat.not_le_of_lt e.height_pos)
    · exact absurd (by rw [evaluateIn]) hne
  | succ room ih =>
    have hall {es : List Expr} (hes : Fits (Expr.heights es) room (evaluateAll σ s room es)) :
        run σ s (Expr.codes es) stack = .of ((evaluateAll σ s room es).map (·.reverse ++ stack)) :=
      run_codes (fun _ _ => ih) hes
    cases e with
    | literal v => rfl
    | name x => exact run_singleton (.load x)
    | array items =>
      rw [Evaluation.evaluateIn_array, Expr.height] at h
      rw [Evaluation.evaluateIn_array]
      refine run_then (hall (h.first (by omega))) fun vs hvs => ?_
      rw [← length_of_evaluateAll hvs, step, takeOff_reverse]
    | call function args =>
      rw [Evaluation.evaluateIn_call, Expr.height] at h
      rw [Evaluation.evaluateIn_call]
      refine run_then (hall (h.first (by omega))) fun vs hvs => ?_
      rw [← length_of_evaluateAll hvs, step, takeOff_reverse]
    | apply op operands =>
      rw [Expr.height] at h
      rcases Expr.apply_cases op operands σ.limit with ⟨target, field, rfl, rfl⟩ |
        ⟨g, left, right, hop, rfl⟩ | ⟨g, operand, hop, rfl⟩ | ⟨cause, hunruled⟩
      · rw [Evaluation.evaluateIn_field] at h ⊢
        simp only [Expr.heights] at h
        exact run_then (ih (h.first (by omega))) fun v _ => rfl
      · rw [Evaluation.evaluateIn_binary hop] at h ⊢
        simp only [Expr.heights] at h
        rw [Expr.code_between (Op.isBetween_of_binary? hop)]
        have hleft : run σ s left.code stack = _ := ih (h.first (by omega))
        rw [List.append_assoc, run_append, hleft]
        cases ha : evaluateIn σ s room left with
        | error f => rfl
        | ok a =>
          have hright : Fits right.height room (evaluateIn σ s room right) := (h.second ha).first (by omega)
          have hrest : run σ s (right.code ++ [.between op]) (a :: stack) =
              put (evaluateIn σ s room right >>= g a) stack :=
            run_then (ih hright) fun b _ => step_between hop a b
          exact hrest
      · rw [Evaluation.evaluateIn_unary hop] at h ⊢
        simp only [Expr.heights] at h
        rw [Expr.code_front (Op.isFront_of_unary? hop)]
        exact run_then (ih (h.first (by omega))) fun a _ => step_front hop a
      · rw [Evaluation.evaluateIn_unruled hunruled, Expr.code_unruled hunruled]
        rfl
    | blank form => rfl

theorem put_eq_stack {r : Result} {v : Value} : put r stack = .stack (v :: stack) ↔ r = .ok v := by
  cases r with
  | ok w => simp [put, Standing.of, Except.map]
  | error f => simp [put, Standing.of, Except.map]

theorem put_eq_failed {r : Result} {f : Failure} : put r stack = .failed f ↔ r = .error f := by
  cases r with
  | ok w => simp [put, Standing.of, Except.map]
  | error g => simp [put, Standing.of, Except.map]

theorem run_append_failed {c : List Instr} {f : Failure} (h : run σ s c stack = .failed f)
    (d : List Instr) : run σ s (c ++ d) stack = .failed f := by
  rw [run_append, h]
  rfl

end Machine

open Machine

/-- **Evaluation is strict, from left to right and depth first**: unless the limit for nesting stops it, it
gives the value that the postfix code leaves on top of any stack, or fails as the first instruction does that
fails. So `and` and `or` fail if either operand does, whatever the other one is; and a call fails as its
arguments do before anything is said of the function. -/
theorem evaluate_eq_run {σ : Setting} {s : Scopes} {e : Expr}
    (h : e.height ≤ σ.limit ∨ evaluate σ s e ≠ .error .tooDeep) (stack : List Value) :
    (∀ v, evaluate σ s e = .ok v ↔ run σ s e.code stack = .stack (v :: stack)) ∧
    (∀ f, evaluate σ s e = .error f ↔ ∃ before i after mid, e.code = before ++ i :: after ∧
      run σ s before stack = .stack mid ∧ step σ s i mid = .failed f) ∧
    (∀ op left right f, op = .and ∨ op = .or → e = .apply op [left, right] →
      run σ s (left.code ++ right.code) stack = .failed f → evaluate σ s e = .error f) ∧
    ∀ function args f, e = .call function args →
      run σ s (Expr.codes args) stack = .failed f → evaluate σ s e = .error f := by
  have hrun : run σ s e.code stack = put (evaluate σ s e) stack := run_code h
  have hfails (f : Failure) : evaluate σ s e = .error f ↔ run σ s e.code stack = .failed f := by
    rw [hrun, put_eq_failed]
  refine ⟨fun v => ?_, fun f => ?_, ?_, ?_⟩
  · rw [hrun, put_eq_stack]
  · rw [hfails, run_eq_failed]
  · rintro op left right f hop rfl hoperands
    have hbetween : op.isBetween = true := by rcases hop with rfl | rfl <;> rfl
    rw [hfails, Expr.code_between hbetween]
    exact run_append_failed hoperands _
  · rintro function args f rfl hargs
    exact (hfails f).2 (run_append_failed hargs _)

/-- The arguments of a function that there is not: `true or y` is evaluated whole, `y` is not bound, and this
is what is reported. -/
theorem evaluate_eq_run_unbound_argument :
    let σ : Setting := ⟨[], 3, 0⟩
    let e : Expr := .call "f" [.apply .or [.literal (.boolean true), .name "y"]]
    e.height ≤ σ.limit ∧ e.code = [.push (.boolean true), .load "y", .between .or, .call "f" 1] ∧
      evaluate σ .empty e = .error (.of (.undefinedVariable "y" .empty)) := by
  intro σ e
  have hheight : e.height ≤ σ.limit := Nat.le_refl 3
  obtain ⟨-, -, -, hcall⟩ := evaluate_eq_run (s := .empty) (.inl hheight) []
  exact ⟨hheight, rfl, hcall "f" _ _ rfl rfl⟩

end Parlance
