import Parlance.Proofs.Grammar.Sound
import Parlance.Proofs.Reader.Refusal

/-!
# Every phrase is read

The other direction: on a phrase of the grammar the reader builds its tree, unless it stops at the
limit for nesting. The grammar is left recursive and the reader is a loop, so the induction over
derivations says where a phrase leaves the loop: after a phrase of a tier, with a token next that
pulls no stronger than the tier, the loop goes on with the tree of the phrase on its left.
-/

namespace Parlance.Grammar

open Reader (front)
open Reader.Plain

variable {last : Int}

/-- `r` is `s`, unless it stops at the limit. -/
def Yields {α : Type} (r s : Except Error α) : Prop := r = s ∨ StopsAtLimit r

namespace Yields

variable {α β : Type} {r s q : Except Error α}

theorem rfl : Yields r r := .inl (Eq.refl r)

theorem trans (h : Yields r s) (h' : Yields s q) : Yields r q := by
  rcases h with h | h
  · exact h ▸ h'
  · exact .inr h

theorem andThen {p : Reader.Plain α} {k : α → Reader.Plain β} {ts rest : List Token} {a : α}
    (h : Yields (p ts) (.ok (a, rest))) : Yields (p.andThen k ts) (k a rest) := by
  rcases h with h | ⟨line, h⟩
  · exact .inl (andThen_of_ok h)
  · exact .inr ⟨line, andThen_of_error h⟩

theorem within {p : Nat → Reader.Plain α} {room : Nat} {ts : List Token} {s : Except Error _}
    (h : ∀ inside, Yields (p inside ts) s) : Yields (within last room p ts) s := by
  match room with
  | 0 => exact .inr ⟨_, Eq.refl _⟩
  | inside + 1 => exact h inside

end Yields

/-- What may stand behind a phrase of a tier: nothing that goes on with it. -/
def Parts (tier : Tier) (rest : List Token) : Prop :=
  ∀ t ts, rest = t :: ts → pull t.kind ≤ tier.power ∧ t.kind ≠ .leftParen

theorem Parts.tighter {tier tight : Tier} {rest : List Token} (h : Parts tier rest)
    (hn : tier.next? = some tight) : Parts tight rest := by
  intro t ts hts
  have hpow := Tier.next?_power hn
  obtain ⟨hp, hk⟩ := h t ts hts
  exact ⟨by omega, hk⟩

theorem Parts.rests {tier : Tier} {rest : List Token} (h : Parts tier rest) {least : Nat}
    (hl : tier.power < least) : Rests least rest := fun t ts hts =>
  next?_eq_none_iff.2 (.inl (Nat.lt_of_le_of_lt (h t ts hts).1 hl))

/-- The kinds behind an expression between brackets. -/
def Closes (kind : Kind) : Prop := kind = .rightParen ∨ kind = .rightBracket ∨ kind = .comma

theorem Parts.of_closes {t : Token} {ts : List Token} (h : Closes t.kind) : Parts .or (t :: ts) := by
  rintro t ts ⟨⟩
  rcases h with h | h | h <;> rw [h] <;> exact ⟨Nat.zero_le _, by decide⟩

theorem Rests.of_closes {t : Token} {ts : List Token} (h : Closes t.kind) : Rests 0 (t :: ts) := by
  rintro t ts ⟨⟩
  rcases h with h | h | h <;> rw [h] <;> rfl

theorem joined_of_rests {room least : Nat} {e : Expr} {rest : List Token} (h : Rests least rest) :
    joined last room least e rest = .ok (e, rest) := by
  match rest with
  | [] => exact joined_nil last room least e
  | t :: ts => exact joined_stop (h t ts rfl)

theorem expression_of_operand {room least : Nat} {ts rest : List Token} {e : Expr}
    (h : Yields (operand last room ts) (.ok (e, rest))) :
    Yields (expression last room least ts) (joined last room least e rest) := by
  rw [expression_eq]
  exact h.andThen

theorem Derives.opens {tier : Tier} {ts : List Token} {e : Expr} :
    Derives tier ts e → ∃ t rest, ts = t :: rest ∧ opens t.kind = true
  | .pass _ h => h.opens
  | .join _ hl _ _ | .index hl _ _ _ | .field hl _ _ => by
    obtain ⟨t, rest, rfl, ht⟩ := hl.opens
    exact ⟨t, _, rfl, ht⟩
  | .minus ht _ | .bang ht _ | .number ht | .string ht | .trueWord ht | .falseWord ht
  | .name ht | .call ht _ _ _ | .paren ht _ _ | .array ht _ _ => ⟨_, _, rfl, by rw [ht]; rfl⟩

theorem DerivesItems.opens {ts : List Token} {es : List Expr} (h : DerivesItems ts es) :
    ∃ t rest, ts = t :: rest ∧ opens t.kind = true := by
  cases h with
  | last h => exact h.opens
  | more h _ _ =>
    obtain ⟨t, rest, rfl, ht⟩ := h.opens
    exact ⟨t, _, rfl, ht⟩

theorem leading_complete {room least : Nat} {t : Token} {op : Op} {ts rest : List Token} {e : Expr}
    (ht : Op.leading? t.kind = some op)
    (h : ∀ inside, Yields (expression last inside Op.frontPower (ts ++ rest))
      (joined last inside Op.frontPower e rest)) (hp : Parts .unary rest) :
    Yields (expression last room least (t :: ts ++ rest))
      (joined last room least (.apply op [e]) rest) := by
  have hrests : Rests Op.frontPower rest := fun u us hus => by
    obtain ⟨hpull, -⟩ := hp u us hus
    exact next?_eq_none_iff.2 (.inl (pull_lt_frontPower hpull))
  refine expression_of_operand ?_
  rw [List.cons_append, operand_leading ht]
  refine Yields.andThen (Yields.within fun inside => ?_)
  rw [← joined_of_rests hrests]
  exact h inside

/-- An expression between brackets is read up to the token that closes it. -/
theorem closed_complete {inside : Nat} {ts rest : List Token} {closer : Token} {e : Expr}
    (hc : Closes closer.kind)
    (h : Parts .or (closer :: rest) → Yields (expression last inside 0 (ts ++ closer :: rest))
      (joined last inside 0 e (closer :: rest))) :
    Yields (expression last inside 0 (ts ++ closer :: rest)) (.ok (e, closer :: rest)) := by
  rw [← joined_of_rests (.of_closes hc)]
  exact h (.of_closes hc)

mutual
/-- After a phrase the loop goes on with its tree on the left. -/
theorem Derives.complete {tier : Tier} {used : List Token} {e : Expr} :
    Derives tier used e → ∀ (room least : Nat) (rest : List Token), least ≤ tier.power →
      Parts tier rest →
        Yields (expression last room least (used ++ rest)) (joined last room least e rest)
  | .pass hn h, room, least, rest, hl, hp =>
    h.complete room least rest (by have := Tier.next?_power hn; omega) (hp.tighter hn)
  | @Derives.join tier _ _ rs t _ _ _ hn hls ht hrs, room, least, rest, hl, hp => by
    have hpow := Tier.next?_power hn
    obtain ⟨hnext, hi, hf⟩ := next?_of_sign? ht hl
    have hleft := hls.complete room least (t :: (rs ++ rest)) hl (by
      rintro t ts ⟨⟩
      exact ⟨Nat.le_of_eq (pull_of_sign? ht), fun hk => by rw [hk] at ht; cases tier <;> nomatch ht⟩)
    have hright := hrs.complete room (tier.power + 1) rest (by omega) (hp.tighter hn)
    rw [joined_of_rests (hp.rests (Nat.lt_succ_self _))] at hright
    rw [List.append_assoc, List.cons_append]
    refine hleft.trans ?_
    rw [joined_join hnext hi hf]
    exact hright.andThen
  | @Derives.minus t ts e ht h, room, least, rest, hl, hp =>
    leading_complete (by rw [ht]; rfl) (fun inside => h.complete inside _ rest (Nat.le_refl _) hp) hp
  | @Derives.bang t ts e ht h, room, least, rest, hl, hp =>
    leading_complete (by rw [ht]; rfl) (fun inside => h.complete inside _ rest (Nat.le_refl _) hp) hp
  | @Derives.index t closer _ rs _ b hls ht hrs hc, room, least, rest, hl, hp => by
    have hnext : Op.next? least t.kind = some (.index, 14) := by
      rw [ht]
      exact if_neg (Nat.not_lt.2 hl)
    have hleft := hls.complete room least (t :: (rs ++ closer :: rest)) hl (by
      rintro t ts ⟨⟩
      rw [ht]
      decide)
    have hin := fun inside => closed_complete (.inr (.inl hc))
      (hrs.complete inside 0 (closer :: rest) (Nat.zero_le _))
    simp only [List.append_assoc, List.cons_append, List.nil_append]
    refine hleft.trans ?_
    rw [joined_index hnext]
    refine (Yields.andThen (.within hin)).trans ?_
    exact .andThen (.inl (token_cons last hc))
  | @Derives.field t x _ _ hls ht hx, room, least, rest, hl, hp => by
    have hnext : Op.next? least t.kind = some (.field, 14) := by
      rw [ht]
      exact if_neg (Nat.not_lt.2 hl)
    have hleft := hls.complete room least (t :: x :: rest) hl (by
      rintro t ts ⟨⟩
      rw [ht]
      decide)
    simp only [List.append_assoc, List.cons_append, List.nil_append]
    refine hleft.trans ?_
    rw [joined_field hnext]
    exact .andThen (.inl (token_cons last hx))
  | .number ht, _, _, _, _, _ => expression_of_operand (.inl (operand_literal (.inl ht)))
  | .string ht, _, _, _, _, _ => expression_of_operand (.inl (operand_literal (.inr ht)))
  | .trueWord ht, _, _, _, _, _ => expression_of_operand (.inl (operand_true ht))
  | .falseWord ht, _, _, _, _, _ => expression_of_operand (.inl (operand_false ht))
  | .name hx, _, _, _, _, hp =>
    expression_of_operand (.inl (operand_name hx fun t ts hts => (hp t ts hts).2))
  | @Derives.call x t closer ts es hx ht h hc, room, least, rest, hl, hp => by
    refine expression_of_operand ?_
    simp only [List.append_assoc, List.cons_append, List.nil_append]
    rw [operand_call hx ht, ← hc]
    exact .andThen (h.complete room _ closer rest (.inl hc))
  | @Derives.paren t closer ts e ht h hc, room, least, rest, hl, hp => by
    have hin := fun inside => closed_complete (.inl hc)
      (h.complete inside 0 (closer :: rest) (Nat.zero_le _))
    refine expression_of_operand ?_
    simp only [List.append_assoc, List.cons_append, List.nil_append]
    rw [operand_paren ht]
    refine (Yields.andThen (.within hin)).trans ?_
    exact .andThen (.inl (token_cons last hc))
  | @Derives.array t closer ts es ht h hc, room, least, rest, hl, hp => by
    refine expression_of_operand ?_
    simp only [List.append_assoc, List.cons_append, List.nil_append]
    rw [operand_array ht, ← hc]
    exact .andThen (h.complete room _ closer rest (.inr hc))

theorem DerivesArgs.complete {used : List Token} {es : List Expr} :
    DerivesArgs used es → ∀ (room : Nat) (wanted : Wanted) (closer : Token) (rest : List Token),
      (closer.kind = .rightParen ∨ closer.kind = .rightBracket) →
        Yields (items last room closer.kind wanted (used ++ closer :: rest)) (.ok (es, rest))
  | .none, room, wanted, closer, rest, hc => by
    rw [items_eq]
    exact .inl (if_pos rfl)
  | .some h, room, wanted, closer, rest, hc => by
    have hk : (front last (used ++ closer :: rest)).kind ≠ closer.kind := by
      obtain ⟨t, ts, rfl, hopen⟩ := h.opens
      intro hk
      rw [List.cons_append, front] at hk
      rw [hk] at hopen
      rcases hc with hc | hc <;> rw [hc] at hopen <;> nomatch hopen
    rw [items_eq, if_neg hk]
    exact .within fun inside => h.complete inside wanted closer rest hc

theorem DerivesItems.complete {used : List Token} {es : List Expr} :
    DerivesItems used es → ∀ (room : Nat) (wanted : Wanted) (closer : Token) (rest : List Token),
      (closer.kind = .rightParen ∨ closer.kind = .rightBracket) →
        Yields (moreItems last room closer.kind wanted (used ++ closer :: rest)) (.ok (es, rest))
  | .last h, room, wanted, closer, rest, hc => by
    have hin := closed_complete (hc.imp_right .inl)
      (h.complete room 0 (closer :: rest) (Nat.zero_le _))
    have hcomma : (front last (closer :: rest)).kind ≠ .comma := by
      rcases hc with hc | hc <;> rw [front, hc] <;> decide
    rw [moreItems_eq]
    refine hin.andThen.trans ?_
    rw [afterItem_last last hcomma]
    exact .andThen (.inl (token_cons last rfl))
  | @DerivesItems.more t _ us _ _ h ht hs, room, wanted, closer, rest, hc => by
    have hin := closed_complete (.inr (.inr ht))
      (h.complete room 0 (t :: (us ++ closer :: rest)) (Nat.zero_le _))
    rw [List.append_assoc, List.cons_append, moreItems_eq]
    refine hin.andThen.trans ?_
    rw [afterItem_comma last ht]
    exact .andThen (hs.complete room wanted closer rest hc)
end

end Parlance.Grammar
