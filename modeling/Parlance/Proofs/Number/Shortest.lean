import Parlance.Number.Shortest
import Parlance.Proofs.Number.Rounding

/-!
# The decimal that is printed lies in the window

Points of a window are fractions with a power of ten below them, and the window holds just those
that round to its number. Whatever grid the search ends on, and also if it ends on none, the decimal
that it gives rounds to the number (`shortest_near`).
-/

namespace Parlance.Number.Window

variable {m s : Nat}

/-- The two powers of two of a window, with what was taken out of both. -/
theorem two_pow_parts (s : Nat) : ∃ c, 0 < c ∧ 2 ^ s = 2 ^ (s - 1076) * c ∧
    4 * unitsPerOne = 2 ^ (1076 - s) * c := by
  obtain ⟨u, hunits, hu⟩ := unitsPerOne_eq
  refine ⟨2 ^ min s 1076, Nat.two_pow_pos _, ?_, ?_⟩
  · rw [← Nat.pow_add, show s - 1076 + min s 1076 = s by omega]
  · rw [hunits, ← Nat.pow_add, show 1076 - s + min s 1076 = 2 + u by omega, Nat.pow_add]

/-- A point between the ends of the window, as a decimal. -/
theorem near_of_bounds {n z places : Nat}
    (hlow : (4 * m - below m s) * (2 ^ (s - 1076) * 10 ^ places) ≤ n * (2 ^ (1076 - s) * 10 ^ z))
    (hhigh : n * (2 ^ (1076 - s) * 10 ^ z) ≤ (4 * m + 2) * (2 ^ (s - 1076) * 10 ^ places))
    (hodd : m % 2 = 1 →
      (4 * m - below m s) * (2 ^ (s - 1076) * 10 ^ places) < n * (2 ^ (1076 - s) * 10 ^ z) ∧
      n * (2 ^ (1076 - s) * 10 ^ z) < (4 * m + 2) * (2 ^ (s - 1076) * 10 ^ places)) :
    NearDecimal m s n (z - places) := by
  rw [show (z : Int) - places = -(places : Int) + z from Int.add_comm .., ← nearDecimal_mul_pow]
  unfold NearDecimal
  rw [show (-(places : Int)).toNat = 0 by omega, Int.neg_neg, Int.toNat_natCast, Nat.pow_zero,
    Nat.mul_one]
  obtain ⟨c, hpos, hscale, hunits⟩ := two_pow_parts s
  generalize 2 ^ (s - 1076) = factor, 2 ^ (1076 - s) = one at *
  have hstep (x : Nat) : x * 2 ^ s * 10 ^ places = x * (factor * 10 ^ places) * c := by
    rw [hscale]
    ac_rfl
  have hpoint : 4 * unitsPerOne * (n * 10 ^ z) = n * (one * 10 ^ z) * c := by
    rw [hunits]
    ac_rfl
  constructor
  · rw [hstep, hpoint]
    exact Nat.mul_le_mul_right _ hlow
  · rw [hstep, hpoint]
    exact Nat.mul_le_mul_right _ hhigh
  · intro hm
    rw [hstep, hstep, hpoint, Nat.mul_lt_mul_right hpos, Nat.mul_lt_mul_right hpos]
    exact hodd hm

/-- A point that the window holds rounds to its number. -/
theorem near_of_holds {n z : Nat}
    (h : (ofMagnitude m s).holds (n * ((ofMagnitude m s).one * 10 ^ z)) = true) :
    NearDecimal m s n (z - (ofMagnitude m s).places) := by
  unfold holds at h
  split at h
  · rename_i heven
    rw [Bool.and_eq_true, decide_eq_true_eq, decide_eq_true_eq] at h
    have heven' : m % 2 = 0 := by simpa [ofMagnitude] using heven
    exact near_of_bounds h.1 h.2 (by omega)
  · rw [Bool.and_eq_true, decide_eq_true_eq, decide_eq_true_eq] at h
    exact near_of_bounds (Nat.le_of_lt h.1) (Nat.le_of_lt h.2) fun _ => h

theorem pick?_holds {w : Window} {grid n : Nat} (h : w.pick? grid = some n) :
    w.holds (n * grid) = true := by
  unfold pick? at h
  dsimp only at h
  split at h
  · rename_i hdown hup
    obtain rfl := Option.some.inj h
    unfold nearer
    dsimp only
    split
    · exact hdown
    · exact hup
  · obtain rfl := Option.some.inj h
    assumption
  · obtain rfl := Option.some.inj h
    assumption
  · nomatch h

theorem onGrid?_near {width count : Nat} {d : Decimal}
    (h : (ofMagnitude m s).onGrid? width count = some d) : NearDecimal m s d.digits d.exponent := by
  obtain ⟨n, hpick, rfl⟩ := Option.map_eq_some_iff.1 h
  exact near_of_holds (pick?_holds hpick)

/-- The value has enough digits before the point for the whole number below it to round to it. -/
theorem one_le_factor (hc : Canonical m s) :
    2 ^ (1076 - s) ≤ 2 ^ (s - 1076) * 10 ^ placesFor m s := by
  have hlog : m.log2 ≤ 52 := by
    by_cases hm : m = 0
    · subst hm
      decide
    · exact Nat.le_of_lt_succ ((Nat.log2_lt hm).2 hc.lt)
  unfold placesFor
  generalize hq : (1074 - (s + m.log2) + 2) / 3 = q
  calc 2 ^ (1076 - s)
      ≤ 2 ^ (56 + 3 * q) := Nat.pow_le_pow_right (by decide) (by omega)
    _ ≤ 10 ^ (17 + q) := by
        rw [Nat.pow_add, Nat.pow_add]
        exact Nat.mul_le_mul (by decide) (two_pow_le_ten_pow q)
    _ ≤ 2 ^ (s - 1076) * 10 ^ (17 + q) := Nat.le_mul_of_pos_left _ (Nat.two_pow_pos _)

/-- So does the whole number itself, when no shorter grid has a point in the window. -/
theorem whole_near (hc : Canonical m s) :
    NearDecimal m s ((ofMagnitude m s).value / (ofMagnitude m s).one)
      (-((ofMagnitude m s).places : Int)) := by
  have hfactor := one_le_factor hc
  show NearDecimal m s (4 * m * (2 ^ (s - 1076) * 10 ^ placesFor m s) / 2 ^ (1076 - s))
    (-(placesFor m s : Int))
  rw [← Int.zero_sub]
  have hone : 0 < 2 ^ (1076 - s) := Nat.two_pow_pos _
  have hpos : 0 < 2 ^ (s - 1076) * 10 ^ placesFor m s :=
    Nat.mul_pos (Nat.two_pow_pos _) (Nat.pow_pos (by decide))
  have hbelow : 2 ^ (s - 1076) * 10 ^ placesFor m s ≤
      below m s * (2 ^ (s - 1076) * 10 ^ placesFor m s) := by
    apply Nat.le_mul_of_pos_left
    unfold below
    split <;> decide
  have hdiv := Nat.div_add_mod' (4 * m * (2 ^ (s - 1076) * 10 ^ placesFor m s)) (2 ^ (1076 - s))
  have hmod := Nat.mod_lt (4 * m * (2 ^ (s - 1076) * 10 ^ placesFor m s)) hone
  refine near_of_bounds (z := 0) ?_ ?_ fun hodd => ?_ <;>
    simp only [Nat.pow_zero, Nat.mul_one, Nat.sub_mul, Nat.add_mul]
  · omega
  · omega
  · have hle := Nat.mul_le_mul_right (2 ^ (s - 1076) * 10 ^ placesFor m s) (show 1 ≤ 4 * m by omega)
    omega

/-- **The decimal that is printed rounds to the number.** -/
theorem shortest_near (hc : Canonical m s) :
    NearDecimal m s (ofMagnitude m s).shortest.digits (ofMagnitude m s).shortest.exponent := by
  unfold shortest
  dsimp only
  cases hfind : (List.range 17).findSome? fun k => (ofMagnitude m s).onGrid?
      (Nat.toDigits 10 ((ofMagnitude m s).value / (ofMagnitude m s).one)).length (k + 1) with
  | some d =>
    obtain ⟨k, -, hgrid⟩ := List.exists_of_findSome?_eq_some hfind
    exact onGrid?_near hgrid
  | none =>
    rw [Option.getD_none]
    exact whole_near hc

end Parlance.Number.Window
