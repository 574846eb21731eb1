import Parlance.Proofs.Reader.Plain

/-!
# How a reading fails

A reading that fails refuses a token, or gives up at the limit for nesting. It gives up only with
more tokens before it than there was room, since every level takes a token of its own.
-/

namespace Parlance

/-- The limit for nesting was reached. -/
def StopsAtLimit {α : Type} (r : Except Error α) : Prop := ∃ line, r = .error ⟨.sourceTooDeep, line⟩

/-- A token was refused. -/
def Error.IsRefusal (e : Error) : Prop := ∃ wanted found, e.cause = .unexpectedToken wanted found

theorem Error.IsRefusal.kind {e : Error} (h : e.IsRefusal) : e.cause.kind = .parse := by
  obtain ⟨wanted, found, h⟩ := h
  rw [h]
  rfl

namespace Reader

/-- An error of reading with this room from fewer than `size` tokens. -/
def Fault (room size : Nat) (e : Error) : Prop :=
  e.IsRefusal ∨ (e.cause = .sourceTooDeep ∧ room < size)

namespace Fault

variable {room size size' : Nat} {e : Error}

theorem refusal {last : Int} {wanted : Wanted} {ts : List Token} :
    Fault room size (refusal last wanted ts) :=
  .inl ⟨wanted, _, rfl⟩

theorem mono (h : Fault room size e) (hs : size ≤ size') : Fault room size' e :=
  h.imp_right fun ⟨hc, hr⟩ => ⟨hc, Nat.lt_of_lt_of_le hr hs⟩

theorem deeper (h : Fault room size e) : Fault (room + 1) (size + 1) e :=
  h.imp_right fun ⟨hc, hr⟩ => ⟨hc, Nat.succ_lt_succ hr⟩

theorem kind (h : Fault room size e) : e.cause.kind = .parse := by
  rcases h with h | ⟨h, -⟩
  · exact h.kind
  · rw [h]
    rfl

end Fault

namespace Plain

variable {α β : Type} {last : Int} {room size : Nat} {ts : List Token} {e : Error}

theorem within_fault {p : Nat → Plain α} (h : within last room p ts = .error e)
    (hp : ∀ inside, p inside ts = .error e → Fault inside size e) : Fault room (size + 1) e := by
  match room, h with
  | 0, h =>
    obtain rfl := Except.error.inj h
    exact .inr ⟨rfl, Nat.succ_pos _⟩
  | inside + 1, h => exact (hp inside h).deeper

theorem token_fault {kind : Kind} {wanted : Wanted} (h : token last kind wanted ts = .error e) :
    Fault room size e := by
  obtain ⟨rfl, -⟩ := token_eq_error h
  exact .refusal

mutual
theorem expression_fault {room least : Nat} {ts : List Token} {e : Error}
    (h : expression last room least ts = .error e) : Fault room ts.length e := by
  rw [expression_eq] at h
  rcases andThen_eq_error h with h | ⟨left, mid, hleft, h⟩
  · exact operand_fault h
  · have hlt : mid.length < ts.length := Reading.shorter_of_plain hleft
    exact (joined_fault h).mono (Nat.le_of_lt hlt)
termination_by (ts.length, 1)

theorem joined_fault {room least : Nat} {left : Expr} {ts : List Token} {e : Error}
    (h : joined last room least left ts = .error e) : Fault room ts.length e := by
  match ts with
  | [] =>
    rw [joined_nil] at h
    nomatch h
  | t :: ts =>
    cases joint least t.kind with
    | stop hn =>
      rw [joined_stop hn] at h
      nomatch h
    | index hn =>
      rw [joined_index hn] at h
      rcases andThen_eq_error h with h | ⟨i, mid, hdeep, h⟩
      · exact within_fault h fun inside h => expression_fault h
      · obtain ⟨inside, rfl, hin⟩ := within_eq_ok hdeep
        have hlt : mid.length < ts.length := Reading.shorter_of_plain hin
        rcases andThen_eq_error h with h | ⟨closer, mid', hclose, hjoin⟩
        · exact token_fault h
        · obtain ⟨-, rfl⟩ := token_eq_ok hclose
          have hlt' : mid'.length < ts.length := Nat.lt_of_succ_lt hlt
          exact (joined_fault hjoin).mono (Nat.le_succ_of_le (Nat.le_of_lt hlt'))
    | field hn =>
      rw [joined_field hn] at h
      rcases andThen_eq_error h with h | ⟨x, mid, hname, hjoin⟩
      · exact token_fault h
      · obtain ⟨-, rfl⟩ := token_eq_ok hname
        exact (joined_fault hjoin).mono (by simp only [List.length_cons]; omega)
    | join hn hi hf =>
      rw [joined_join hn hi hf] at h
      rcases andThen_eq_error h with h | ⟨right, mid, hright, h⟩
      · exact (expression_fault h).mono (Nat.le_succ _)
      · have hlt : mid.length < ts.length := Reading.shorter_of_plain hright
        exact (joined_fault h).mono (Nat.le_succ_of_le (Nat.le_of_lt hlt))
termination_by (ts.length, 0)

theorem operand_fault {room : Nat} {ts : List Token} {e : Error}
    (h : operand last room ts = .error e) : Fault room ts.length e := by
  match ts with
  | [] =>
    rw [operand_nil] at h
    obtain rfl := Except.error.inj h
    exact .refusal
  | t :: ts =>
    cases opening t.kind with
    | leading hop =>
      rw [operand_leading hop] at h
      rcases andThen_eq_error h with h | ⟨a, mid, -, h⟩
      · exact within_fault h fun inside h => expression_fault h
      · nomatch h
    | literal hk =>
      rw [operand_literal hk] at h
      nomatch h
    | trueWord hk =>
      rw [operand_true hk] at h
      nomatch h
    | falseWord hk =>
      rw [operand_false hk] at h
      nomatch h
    | identifier hk =>
      rcases call_or_name ts with ⟨p, inner, rfl, hp⟩ | hname
      · rw [operand_call hk hp] at h
        rcases andThen_eq_error h with h | ⟨es, mid, -, h⟩
        · exact (items_fault h).mono (Nat.le_succ _)
        · nomatch h
      · rw [operand_name hk hname] at h
        nomatch h
    | paren hk =>
      rw [operand_paren hk] at h
      rcases andThen_eq_error h with h | ⟨a, mid, -, h⟩
      · exact within_fault h fun inside h => expression_fault h
      · rcases andThen_eq_error h with h | ⟨closer, mid', -, h⟩
        · exact token_fault h
        · nomatch h
    | array hk =>
      rw [operand_array hk] at h
      rcases andThen_eq_error h with h | ⟨es, mid, -, h⟩
      · exact items_fault h
      · nomatch h
    | refused hk =>
      rw [operand_refused hk] at h
      obtain rfl := Except.error.inj h
      exact .refusal
termination_by (ts.length, 0)

theorem items_fault {room : Nat} {closer : Kind} {wanted : Wanted} {ts : List Token} {e : Error}
    (h : items last room closer wanted ts = .error e) : Fault room (ts.length + 1) e := by
  rw [items_eq] at h
  split at h
  · nomatch h
  · exact within_fault h fun inside h => moreItems_fault h
termination_by (ts.length, 3)

theorem moreItems_fault {room : Nat} {closer : Kind} {wanted : Wanted} {ts : List Token}
    {e : Error} (h : moreItems last room closer wanted ts = .error e) :
    Fault room ts.length e := by
  rw [moreItems_eq] at h
  rcases andThen_eq_error h with h | ⟨a, mid, hitem, h⟩
  · exact expression_fault h
  · have hlt : mid.length < ts.length := Reading.shorter_of_plain hitem
    unfold afterItem at h
    split at h
    · rcases andThen_eq_error h with h | ⟨more, mid', -, h⟩
      · have hlt' : mid.tail.length < ts.length := by rw [List.length_tail]; omega
        exact (moreItems_fault h).mono (Nat.le_of_lt hlt')
      · nomatch h
    · rcases andThen_eq_error h with h | ⟨t, mid', -, h⟩
      · exact token_fault h
      · nomatch h
termination_by (ts.length, 2)
end

end Plain

end Reader

end Parlance
