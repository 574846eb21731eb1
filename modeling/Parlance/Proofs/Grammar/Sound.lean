import Parlance.Proofs.Grammar.Power
import Parlance.Proofs.Reader.Plain

/-!
# What is read is a phrase

Whatever the reader takes for an expression is a phrase of the grammar, and the tree that it builds
is the tree of the phrase. The induction follows the reader. `joined_sound` carries the invariant of
the loop: the phrase read so far belongs to some tier, and the next token pulls no stronger than the
operators of that tier, so that the phrase may stand on the left of the next operator.
-/

namespace Parlance.Grammar

open Reader (front)
open Reader.Plain

variable {last : Int}

theorem Rests.of_nil {least : Nat} : Rests least [] := by
  rintro t rest ⟨⟩

theorem Stops.of_rests {least bound : Nat} {ts : List Token} (h : Rests least ts)
    (hb : least ≤ bound + 1) : Stops bound ts := by
  intro t rest hts
  rcases next?_eq_none_iff.1 (h t rest hts) with hp | hp <;> omega

theorem Stops.of_le {bound : Nat} {ts : List Token} (h : 13 ≤ bound) : Stops bound ts :=
  fun t _ _ => Nat.le_trans (pull_le t.kind) h

/-- `rest` is what is left of `ts` after a phrase for `e` that binds at least as strongly as
`least`, and does not go on with it. -/
def Reads (least : Nat) (ts : List Token) (e : Expr) (rest : List Token) : Prop :=
  ∃ used tier, ts = used ++ rest ∧ Derives tier used e ∧ least ≤ tier.power ∧ Rests least rest

theorem Reads.loosest {ts rest : List Token} {e : Expr} {least : Nat} (h : Reads least ts e rest) :
    ∃ used, ts = used ++ rest ∧ Derives .or used e := by
  obtain ⟨used, tier, hts, hd, -, -⟩ := h
  exact ⟨used, hts, hd.loosen (by cases tier <;> decide)⟩

mutual
theorem expression_sound {room least : Nat} (hl : least ≤ Op.frontPower) {ts rest : List Token}
    {e : Expr} (h : expression last room least ts = .ok (e, rest)) : Reads least ts e rest := by
  rw [expression_eq] at h
  obtain ⟨left, mid, hleft, hjoin⟩ := andThen_eq_ok h
  have hlt : mid.length < ts.length := Reader.Reading.shorter_of_plain hleft
  obtain ⟨used, tier, rfl, hd, hp, hs⟩ := operand_sound hleft
  obtain ⟨more, tier', rfl, hd', hp', hr⟩ :=
    joined_sound hl hd (Nat.le_trans hl hp) hs hjoin
  exact ⟨used ++ more, tier', by rw [List.append_assoc], hd', hp', hr⟩
termination_by (ts.length, 1)

/-- The invariant of the loop. -/
theorem joined_sound {room least : Nat} (hl : least ≤ Op.frontPower) {tier : Tier}
    {used ts rest : List Token} {left e : Expr} (hd : Derives tier used left)
    (hp : least ≤ tier.power) (hs : Stops tier.power ts)
    (h : joined last room least left ts = .ok (e, rest)) :
    ∃ more tier', ts = more ++ rest ∧ Derives tier' (used ++ more) e ∧ least ≤ tier'.power ∧
      Rests least rest := by
  match ts with
  | [] =>
    rw [joined_nil] at h
    obtain ⟨rfl, rfl⟩ := Prod.mk.inj (Except.ok.inj h)
    exact ⟨[], tier, rfl, by rwa [List.append_nil], hp, .of_nil⟩
  | t :: ts =>
    cases joint least t.kind with
    | stop hn =>
      rw [joined_stop hn] at h
      obtain ⟨rfl, rfl⟩ := Prod.mk.inj (Except.ok.inj h)
      refine ⟨[], tier, rfl, by rwa [List.append_nil], hp, ?_⟩
      rintro t' rest' ⟨⟩
      exact hn
    | index hn =>
      obtain ⟨hk, hle⟩ := kind_of_next?_index hn
      have hpost : Derives .post used left := hd.loosen (by have := hs t ts rfl; rwa [hk] at this)
      rw [joined_index hn] at h
      obtain ⟨i, mid, hdeep, hrest⟩ := andThen_eq_ok h
      obtain ⟨inside, rfl, hin⟩ := within_eq_ok hdeep
      have hlt : mid.length < ts.length := Reader.Reading.shorter_of_plain hin
      obtain ⟨closer, mid', hclose, hjoin⟩ := andThen_eq_ok hrest
      obtain ⟨hc, rfl⟩ := token_eq_ok hclose
      obtain ⟨inner, rfl, hinner⟩ := (expression_sound (Nat.zero_le _) hin).loosest
      have hlt' : mid'.length < (inner ++ closer :: mid').length := Nat.lt_of_succ_lt hlt
      obtain ⟨more, tier', rfl, hd', hp', hr⟩ :=
        joined_sound hl (.index hpost hk hinner hc) hle (.of_le (Nat.le_refl _)) hjoin
      exact ⟨t :: inner ++ closer :: more, tier', by simp, by simpa using hd', hp', hr⟩
    | field hn =>
      obtain ⟨hk, hle⟩ := kind_of_next?_field hn
      have hpost : Derives .post used left := hd.loosen (by have := hs t ts rfl; rwa [hk] at this)
      rw [joined_field hn] at h
      obtain ⟨x, mid, hname, hjoin⟩ := andThen_eq_ok h
      obtain ⟨hx, rfl⟩ := token_eq_ok hname
      obtain ⟨more, tier', rfl, hd', hp', hr⟩ :=
        joined_sound hl (.field hpost hk hx) hle (.of_le (Nat.le_refl _)) hjoin
      exact ⟨t :: x :: more, tier', by simp, by simpa using hd', hp', hr⟩
    | @join op power hn hi hf =>
      obtain ⟨tight, hnext, hsign, rfl, hle⟩ := sign?_of_next? hn hi hf
      have hleft : Derives (tierOf op) used left :=
        hd.loosen (by rw [← pull_of_sign? hsign]; exact hs t ts rfl)
      rw [joined_join hn hi hf] at h
      obtain ⟨right, mid, hright, hjoin⟩ := andThen_eq_ok h
      have hlt : mid.length < ts.length := Reader.Reading.shorter_of_plain hright
      obtain ⟨rs, tierR, rfl, hdR, hpR, hrR⟩ :=
        expression_sound (Tier.power_lt_frontPower hsign) hright
      have hdR' : Derives tight rs right := hdR.loosen (Tier.power_of_lt hnext hpR)
      obtain ⟨more, tier', rfl, hd', hp', hr⟩ :=
        joined_sound hl (.join hnext hleft hsign hdR') hle (.of_rests hrR (Nat.le_refl _)) hjoin
      exact ⟨t :: rs ++ more, tier', by simp, by simpa using hd', hp', hr⟩
termination_by (ts.length, 0)

theorem operand_sound {room : Nat} {ts rest : List Token} {e : Expr}
    (h : operand last room ts = .ok (e, rest)) :
    ∃ used tier, ts = used ++ rest ∧ Derives tier used e ∧ Op.frontPower ≤ tier.power ∧
      Stops tier.power rest := by
  match ts with
  | [] =>
    rw [operand_nil] at h
    nomatch h
  | t :: ts =>
    -- Every operand but one with an operator in front is primary, and nothing pulls at it too hard.
    suffices hprim : (∃ used, t :: ts = used ++ rest ∧ Derives .prim used e) ∨
        ∃ used, t :: ts = used ++ rest ∧ Derives .unary used e ∧ Stops Tier.unary.power rest by
      rcases hprim with ⟨used, hts, hd⟩ | ⟨used, hts, hd, hs⟩
      · exact ⟨used, .prim, hts, hd, by decide, .of_le (by decide)⟩
      · exact ⟨used, .unary, hts, hd, by decide, hs⟩
    cases opening t.kind with
    | leading hop =>
      rw [operand_leading hop] at h
      obtain ⟨a, mid, hdeep, hgive⟩ := andThen_eq_ok h
      obtain ⟨inside, rfl, hin⟩ := within_eq_ok hdeep
      obtain ⟨rfl, rfl⟩ := Prod.mk.inj (Except.ok.inj hgive)
      obtain ⟨used, tier, rfl, hd, hp, hr⟩ := expression_sound (Nat.le_refl _) hin
      exact .inr ⟨t :: used, rfl, .leading hop (hd.loosen hp), .of_rests hr (Nat.le_succ _)⟩
    | literal hk =>
      rw [operand_literal hk] at h
      obtain ⟨rfl, rfl⟩ := Prod.mk.inj (Except.ok.inj h)
      exact .inl ⟨[t], rfl, hk.elim .number .string⟩
    | trueWord hk =>
      rw [operand_true hk] at h
      obtain ⟨rfl, rfl⟩ := Prod.mk.inj (Except.ok.inj h)
      exact .inl ⟨[t], rfl, .trueWord hk⟩
    | falseWord hk =>
      rw [operand_false hk] at h
      obtain ⟨rfl, rfl⟩ := Prod.mk.inj (Except.ok.inj h)
      exact .inl ⟨[t], rfl, .falseWord hk⟩
    | identifier hk =>
      rcases call_or_name ts with ⟨p, inner, rfl, hp⟩ | hname
      · rw [operand_call hk hp] at h
        obtain ⟨es, mid, hes, hgive⟩ := andThen_eq_ok h
        obtain ⟨rfl, rfl⟩ := Prod.mk.inj (Except.ok.inj hgive)
        obtain ⟨used, closer, rfl, hc, hargs⟩ := items_sound (by decide) hes
        exact .inl ⟨t :: p :: used ++ [closer], by simp, .call hk hp hargs hc⟩
      · rw [operand_name hk hname] at h
        obtain ⟨rfl, rfl⟩ := Prod.mk.inj (Except.ok.inj h)
        exact .inl ⟨[t], rfl, .name hk⟩
    | paren hk =>
      rw [operand_paren hk] at h
      obtain ⟨a, mid, hdeep, hrest⟩ := andThen_eq_ok h
      obtain ⟨inside, rfl, hin⟩ := within_eq_ok hdeep
      obtain ⟨closer, mid', hclose, hgive⟩ := andThen_eq_ok hrest
      obtain ⟨hc, rfl⟩ := token_eq_ok hclose
      obtain ⟨rfl, rfl⟩ := Prod.mk.inj (Except.ok.inj hgive)
      obtain ⟨inner, rfl, hinner⟩ := (expression_sound (Nat.zero_le _) hin).loosest
      exact .inl ⟨t :: inner ++ [closer], by simp, .paren hk hinner hc⟩
    | array hk =>
      rw [operand_array hk] at h
      obtain ⟨es, mid, hes, hgive⟩ := andThen_eq_ok h
      obtain ⟨rfl, rfl⟩ := Prod.mk.inj (Except.ok.inj hgive)
      obtain ⟨used, closer, rfl, hc, hargs⟩ := items_sound (by decide) hes
      exact .inl ⟨t :: used ++ [closer], by simp, .array hk hargs hc⟩
    | refused hk =>
      rw [operand_refused hk] at h
      nomatch h
termination_by (ts.length, 0)

theorem items_sound {room : Nat} {closer : Kind} {wanted : Wanted} (hne : closer ≠ .endOfInput)
    {ts rest : List Token} {es : List Expr}
    (h : items last room closer wanted ts = .ok (es, rest)) :
    ∃ used t, ts = used ++ t :: rest ∧ t.kind = closer ∧ DerivesArgs used es := by
  rw [items_eq] at h
  split at h
  · rename_i hk
    obtain ⟨rfl, rfl⟩ := Prod.mk.inj (Except.ok.inj h)
    match ts, hk with
    | [], hk => exact absurd hk.symm hne
    | t :: ts, hk => exact ⟨[], t, rfl, hk, .none⟩
  · obtain ⟨inside, rfl, h⟩ := within_eq_ok h
    obtain ⟨used, t, hts, hk, hd⟩ := moreItems_sound h
    exact ⟨used, t, hts, hk, .some hd⟩
termination_by (ts.length, 3)

theorem moreItems_sound {room : Nat} {closer : Kind} {wanted : Wanted} {ts rest : List Token}
    {es : List Expr} (h : moreItems last room closer wanted ts = .ok (es, rest)) :
    ∃ used t, ts = used ++ t :: rest ∧ t.kind = closer ∧ DerivesItems used es := by
  rw [moreItems_eq] at h
  obtain ⟨e, mid, hitem, hafter⟩ := andThen_eq_ok h
  have hlt : mid.length < ts.length := Reader.Reading.shorter_of_plain hitem
  obtain ⟨inner, rfl, hinner⟩ := (expression_sound (Nat.zero_le _) hitem).loosest
  unfold afterItem at hafter
  split at hafter
  · rename_i hk
    obtain ⟨more, mid', hmore, hgive⟩ := andThen_eq_ok hafter
    obtain ⟨rfl, rfl⟩ := Prod.mk.inj (Except.ok.inj hgive)
    have hlt' : mid.tail.length < (inner ++ mid).length := by rw [List.length_tail]; omega
    obtain ⟨used, t, htail, ht, hd⟩ := moreItems_sound hmore
    match mid, hk, htail with
    | comma :: _, hk, rfl =>
      exact ⟨inner ++ comma :: used, t, by simp, ht, .more hinner hk hd⟩
  · obtain ⟨t, mid', hclose, hgive⟩ := andThen_eq_ok hafter
    obtain ⟨hk, rfl⟩ := token_eq_ok hclose
    obtain ⟨rfl, rfl⟩ := Prod.mk.inj (Except.ok.inj hgive)
    exact ⟨inner, t, rfl, hk, .last hinner⟩
termination_by (ts.length, 2)
end

end Parlance.Grammar
