import Parlance.Number.Numeral
import Parlance.Proofs.Number.Bits

/-!
# What rounds to a number

The fractions that round to a magnitude are those in its window: from half a step below to half a
step above, the ends only when the mantissa is even. Below a power of two the step is half as long.
A decimal in the window of a number is read as that number (`value_of_near`).
-/

namespace Parlance.Number

/-! ## Division to the nearest -/

theorem roundDiv_eq {a b q : Nat} (hb : 0 < b) (hlow : 2 * (q * b) ≤ 2 * a + b)
    (hhigh : 2 * a ≤ 2 * (q * b) + b)
    (hodd : q % 2 = 1 → 2 * (q * b) < 2 * a + b ∧ 2 * a < 2 * (q * b) + b) :
    roundDiv a b = q := by
  have hdiv := Nat.div_add_mod' a b
  have hmod := Nat.mod_lt a hb
  unfold roundDiv
  dsimp only
  generalize a / b = d at *
  generalize a % b = r at *
  -- the quotient is `q` or the whole number before it
  have hle : d < q + 1 := by
    apply Nat.lt_of_mul_lt_mul_right (a := b)
    rw [Nat.succ_mul]
    omega
  have hge : q < d + 2 := by
    apply Nat.lt_of_mul_lt_mul_right (a := b)
    rw [Nat.add_mul]
    omega
  obtain rfl | rfl : q = d ∨ q = d + 1 := by omega
  · rw [if_neg]
    simp only [Bool.or_eq_true, Bool.and_eq_true, decide_eq_true_eq, beq_iff_eq]
    omega
  · simp only [Nat.add_mul, Nat.one_mul] at hlow hhigh hodd
    rw [if_pos]
    simp only [Bool.or_eq_true, Bool.and_eq_true, decide_eq_true_eq, beq_iff_eq]
    omega

/-! ## Windows -/

/-- How far, in quarters of the step, the window of a magnitude goes down. -/
def below (m s : Nat) : Nat := if m = 2 ^ 52 ∧ 0 < s then 1 else 2

/-- The fraction `a / b` is in the window of a magnitude. -/
structure Near (m s a b : Nat) : Prop where
  low : (4 * m - below m s) * 2 ^ s * b ≤ 4 * unitsPerOne * a
  high : 4 * unitsPerOne * a ≤ (4 * m + 2) * 2 ^ s * b
  odd : m % 2 = 1 → (4 * m - below m s) * 2 ^ s * b < 4 * unitsPerOne * a ∧
    4 * unitsPerOne * a < (4 * m + 2) * 2 ^ s * b

theorem below_le (m s : Nat) : below m s ≤ 2 := by
  unfold below
  split <;> omega

/-- The scale of `n / b` units, by the power of two below it. -/
theorem scale_eq {n b s : Nat} (hb : 0 < b) (hlow : s = 0 ∨ 2 ^ 52 * (2 ^ s * b) ≤ n)
    (hhigh : n < 2 ^ 53 * (2 ^ s * b)) : (n / b).log2 - 52 = s := by
  have hlt : n / b < 2 ^ (53 + s) := by
    rw [Nat.div_lt_iff_lt_mul hb, Nat.pow_add, Nat.mul_assoc]
    exact hhigh
  by_cases hzero : n / b = 0
  · rcases hlow with rfl | hlow
    · rw [hzero]
      decide
    · have : 2 ^ (52 + s) ≤ n / b := by
        rw [Nat.le_div_iff_mul_le hb, Nat.pow_add, Nat.mul_assoc]
        exact hlow
      have := Nat.two_pow_pos (52 + s)
      omega
  · have hlog : (n / b).log2 < 53 + s := (Nat.log2_lt hzero).2 hlt
    rcases hlow with rfl | hlow
    · omega
    · have : 52 + s ≤ (n / b).log2 := by
        rw [Nat.le_log2 hzero, Nat.le_div_iff_mul_le hb, Nat.pow_add, Nat.mul_assoc]
        exact hlow
      omega

/-- A fraction on the grid of a magnitude's scale is rounded to the mantissa. -/
theorem nearestMagnitude_of_scale {m s a b : Nat} (hb : 0 < b)
    (hfinite : s * 2 ^ 52 + m < infiniteBits)
    (hscale : (a * unitsPerOne / b).log2 - 52 = s)
    (hlow : 2 * (m * (2 ^ s * b)) ≤ 2 * (a * unitsPerOne) + 2 ^ s * b)
    (hhigh : 2 * (a * unitsPerOne) ≤ 2 * (m * (2 ^ s * b)) + 2 ^ s * b)
    (hodd : m % 2 = 1 → 2 * (m * (2 ^ s * b)) < 2 * (a * unitsPerOne) + 2 ^ s * b ∧
      2 * (a * unitsPerOne) < 2 * (m * (2 ^ s * b)) + 2 ^ s * b) :
    nearestMagnitude a b = s * 2 ^ 52 + m := by
  unfold nearestMagnitude
  dsimp only
  rw [hscale, Nat.mul_comm b, roundDiv_eq (Nat.mul_pos (Nat.two_pow_pos s) hb) hlow hhigh hodd]
  omega

/-- A power of two in its own scale and in the finer one. -/
theorem next_scale (t : Nat) : (t + 1) * 2 ^ 52 + 2 ^ 52 = t * 2 ^ 52 + 2 ^ 53 := by omega

theorem nearestMagnitude_of_near {m s a b : Nat} (hc : Canonical m s) (hb : 0 < b)
    (h : Near m s a b) : nearestMagnitude a b = s * 2 ^ 52 + m := by
  obtain ⟨hm, hfull, hfinite⟩ := hc
  obtain ⟨hlow, hhigh, hodd⟩ := h
  have hpos : 0 < 2 ^ s * b := Nat.mul_pos (Nat.two_pow_pos s) hb
  -- all in multiples of the step `2 ^ s * b`
  simp only [Nat.mul_assoc _ (2 ^ s), Nat.mul_assoc 4, Nat.mul_comm unitsPerOne, Nat.add_mul,
    Nat.sub_mul] at hlow hhigh hodd
  have hup : m * (2 ^ s * b) + 2 ^ s * b ≤ 2 ^ 53 * (2 ^ s * b) := by
    rw [← Nat.succ_mul]
    exact Nat.mul_le_mul_right _ hm
  have hbelow : below m s * (2 ^ s * b) ≤ 2 * (2 ^ s * b) :=
    Nat.mul_le_mul_right _ (below_le m s)
  by_cases hsplit : 0 < s ∧ a * unitsPerOne < 2 ^ 52 * (2 ^ s * b)
  · -- below a power of two: the fraction is on the finer grid, and rounds up to its end
    obtain ⟨hs, hless⟩ := hsplit
    have hle := hfull hs
    obtain rfl : m = 2 ^ 52 := by
      apply Nat.le_antisymm _ hle
      apply Nat.le_of_lt_succ
      apply Nat.lt_of_mul_lt_mul_right (a := 2 ^ s * b)
      rw [Nat.succ_mul]
      omega
    have hone : below (2 ^ 52) s = 1 := if_pos ⟨rfl, hs⟩
    obtain ⟨t, ht⟩ : ∃ t, s = t + 1 := ⟨s - 1, by omega⟩
    have hstep : 2 ^ s * b = 2 * (2 ^ t * b) := by rw [ht, Nat.pow_succ', Nat.mul_assoc]
    rw [ht, next_scale] at hfinite ⊢
    rw [hone] at hlow
    clear ht
    refine nearestMagnitude_of_scale hb hfinite (scale_eq hb ?_ ?_) ?_ ?_ ?_ <;> omega
  · refine nearestMagnitude_of_scale hb hfinite (scale_eq hb ?_ ?_) ?_ ?_ ?_ <;> omega

/-! ## Equal fractions -/

section Fractions

variable {a b a' b' : Nat} (hb : 0 < b) (hb' : 0 < b') (h : a * b' = a' * b)
include hb hb' h

theorem mul_le_mul_iff_of_fraction (x y : Nat) : x * b ≤ y * a ↔ x * b' ≤ y * a' := by
  have hleft : x * b * b' = x * b' * b := Nat.mul_right_comm ..
  have hright : y * a * b' = y * a' * b := by rw [Nat.mul_assoc, h, Nat.mul_assoc]
  rw [← Nat.mul_le_mul_right_iff hb', hleft, hright, Nat.mul_le_mul_right_iff hb]

theorem mul_le_mul_iff_of_fraction' (x y : Nat) : y * a ≤ x * b ↔ y * a' ≤ x * b' := by
  have hleft : x * b * b' = x * b' * b := Nat.mul_right_comm ..
  have hright : y * a * b' = y * a' * b := by rw [Nat.mul_assoc, h, Nat.mul_assoc]
  rw [← Nat.mul_le_mul_right_iff hb', hleft, hright, Nat.mul_le_mul_right_iff hb]

/-- The window depends on the fraction alone. -/
theorem Near.of_fraction {m s : Nat} (hnear : Near m s a b) : Near m s a' b' := by
  obtain ⟨hlow, hhigh, hodd⟩ := hnear
  have hle := mul_le_mul_iff_of_fraction hb hb' h
  have hge := mul_le_mul_iff_of_fraction' hb hb' h
  refine ⟨(hle _ _).1 hlow, (hge _ _).1 hhigh, fun hm => ?_⟩
  obtain ⟨hlow', hhigh'⟩ := hodd hm
  rw [← Nat.not_le] at hlow' hhigh' ⊢
  rw [← Nat.not_le]
  exact ⟨fun hcon => hlow' ((hge _ _).2 hcon), fun hcon => hhigh' ((hle _ _).2 hcon)⟩

end Fractions

/-! ## Decimals -/

/-- The decimal `digits * 10 ^ exponent` is in the window of a magnitude. -/
def NearDecimal (m s digits : Nat) (exponent : Int) : Prop :=
  Near m s (digits * 10 ^ exponent.toNat) (10 ^ (-exponent).toNat)

/-- Zeros at the end of the digits may go into the exponent. -/
theorem nearDecimal_mul_pow {m s digits k : Nat} {exponent : Int} :
    NearDecimal m s (digits * 10 ^ k) exponent ↔ NearDecimal m s digits (exponent + k) := by
  have hpos : ∀ n, 0 < 10 ^ n := fun n => Nat.pow_pos (by decide)
  have hratio : digits * 10 ^ k * 10 ^ exponent.toNat * 10 ^ (-(exponent + k)).toNat =
      digits * 10 ^ (exponent + k).toNat * 10 ^ (-exponent).toNat := by
    simp only [Nat.mul_assoc, ← Nat.pow_add]
    congr 2
    omega
  exact ⟨Near.of_fraction (hpos _) (hpos _) hratio, Near.of_fraction (hpos _) (hpos _) hratio.symm⟩

theorem two_pow_le_ten_pow (n : Nat) : 2 ^ (3 * n) ≤ 10 ^ n := by
  rw [Nat.pow_mul]
  exact Nat.pow_le_pow_left (by decide) n

/-- The exponent is kept apart, so that no proof computes the power. -/
theorem unitsPerOne_eq : ∃ u, unitsPerOne = 2 ^ u ∧ u = 1074 := ⟨_, rfl, rfl⟩

/-- A decimal in the window of a finite number has no exponent that makes it infinite. -/
theorem NearDecimal.exponent_le {m s digits : Nat} {exponent : Int} (hc : Canonical m s)
    (h : NearDecimal m s digits exponent) (hdigits : digits ≠ 0) : exponent ≤ 400 := by
  refine Decidable.byContradiction fun hcon => ?_
  have hs : s ≤ 2046 := by
    have hfinite := hc.finite
    unfold infiniteBits at hfinite
    omega
  have hone : (-exponent).toNat = 0 := by omega
  have hhigh := h.high
  rw [hone, Nat.pow_zero, Nat.mul_one] at hhigh
  obtain ⟨u, hunits, hu⟩ := unitsPerOne_eq
  rw [hunits] at hhigh
  have hle : 2 ^ u * 2 ^ (3 * exponent.toNat) ≤ 2 ^ 55 * 2 ^ s := by
    calc 2 ^ u * 2 ^ (3 * exponent.toNat)
        ≤ 4 * 2 ^ u * (digits * 10 ^ exponent.toNat) := by
          refine Nat.mul_le_mul (Nat.le_mul_of_pos_left _ (by decide)) ?_
          refine Nat.le_trans (two_pow_le_ten_pow _) ?_
          exact Nat.le_mul_of_pos_left _ (Nat.pos_of_ne_zero hdigits)
      _ ≤ (4 * m + 2) * 2 ^ s := hhigh
      _ ≤ 2 ^ 55 * 2 ^ s := by
          refine Nat.mul_le_mul_right _ ?_
          have hlt := hc.lt
          omega
  rw [← Nat.pow_add, ← Nat.pow_add, Nat.pow_le_pow_iff_right (by decide)] at hle
  omega

/-- A decimal in the window of a number other than zero has no exponent that makes it zero. -/
theorem NearDecimal.le_exponent {m s digits : Nat} {exponent : Int} (hm : m ≠ 0)
    (h : NearDecimal m s digits exponent) : -400 ≤ (Nat.repr digits).length + exponent := by
  refine Decidable.byContradiction fun hcon => ?_
  have hlen : 0 < (Nat.repr digits).length := Nat.length_repr_pos
  have hdigits : digits < 10 ^ (Nat.repr digits).length :=
    (Nat.length_repr_le_iff hlen).1 (Nat.le_refl _)
  generalize (Nat.repr digits).length = n at *
  obtain ⟨k, hk⟩ : ∃ k : Nat, (-exponent).toNat = n + k ∧ 400 < k :=
    ⟨(-exponent).toNat - n, by omega, by omega⟩
  have hzero : exponent.toNat = 0 := by omega
  have hlow := h.low
  rw [hk.1, hzero, Nat.pow_zero, Nat.mul_one, Nat.pow_add, Nat.mul_comm (10 ^ n)] at hlow
  have hbelow := below_le m s
  obtain ⟨u, hunits, hu⟩ := unitsPerOne_eq
  rw [hunits] at hlow
  have hle : 2 ^ (3 * k) * 10 ^ n ≤ 4 * 2 ^ u * 10 ^ n := by
    calc 2 ^ (3 * k) * 10 ^ n
        ≤ 10 ^ k * 10 ^ n := Nat.mul_le_mul_right _ (two_pow_le_ten_pow k)
      _ ≤ (4 * m - below m s) * 2 ^ s * (10 ^ k * 10 ^ n) :=
          Nat.le_mul_of_pos_left _ (Nat.mul_pos (by omega) (Nat.two_pow_pos s))
      _ ≤ 4 * 2 ^ u * digits := hlow
      _ ≤ 4 * 2 ^ u * 10 ^ n := Nat.mul_le_mul_left _ (Nat.le_of_lt hdigits)
  have hle' := Nat.le_of_mul_le_mul_right hle (Nat.pow_pos (by decide))
  rw [show 4 * 2 ^ u = 2 ^ (2 + u) by rw [Nat.pow_add], Nat.pow_le_pow_iff_right (by decide)] at hle'
  omega

/-- **A decimal in the window of a number is read as that number.** -/
theorem value_of_near {m s digits : Nat} {exponent : Int} (negative : Bool) (hc : Canonical m s)
    (h : NearDecimal m s digits exponent) :
    (Numeral.decimal negative digits exponent).value = ofMagnitude negative (s * 2 ^ 52 + m) := by
  have hpos : ∀ n, 0 < 10 ^ n := fun n => Nat.pow_pos (by decide)
  have hzero : digits = 0 ∨ m = 0 →
      nearest negative 0 1 = ofMagnitude negative (s * 2 ^ 52 + m) := by
    intro hor
    have hbelow := below_le m s
    have hnear : Near m s 0 1 := by
      rcases hor with rfl | rfl
      · exact Near.of_fraction (hpos _) (by decide) (by simp) h
      · exact ⟨by simp, by simp, by simp⟩
    rw [nearest, nearestMagnitude_of_near hc (by decide) hnear]
  unfold Numeral.value
  dsimp only
  split
  · exact hzero (.inl ‹_›)
  · rename_i hdigits
    have hle := h.exponent_le hc hdigits
    split
    · rw [if_neg (by omega)]
      have hnear : Near m s (digits * 10 ^ exponent.toNat) 1 := by
        refine Near.of_fraction (hpos _) (by decide) ?_ h
        have hone : (-exponent).toNat = 0 := by omega
        simp only [hone, Nat.pow_zero, Nat.mul_one]
      rw [nearest, nearestMagnitude_of_near hc (by decide) hnear]
    · split
      · refine hzero (.inr (Decidable.byContradiction fun hm => ?_))
        have := h.le_exponent hm
        omega
      · have hnear : Near m s digits (10 ^ exponent.natAbs) := by
          refine Near.of_fraction (hpos _) (hpos _) ?_ h
          rw [show (-exponent).toNat = exponent.natAbs by omega, show exponent.toNat = 0 by omega,
            Nat.pow_zero, Nat.mul_one]
        rw [nearest, nearestMagnitude_of_near hc (hpos _) hnear]

end Parlance.Number
