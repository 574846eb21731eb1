import Parlance.Proofs.Number.Packing

/-!
# Sums and differences

A sum of finite numbers is the number nearest to the exact sum (`rounds_add`), and a difference the one
nearest to the exact difference. Whole numbers below `2 ^ 53` are numbers, so sums and differences of
whole numbers are exact as long as they stay below that.
-/

namespace Parlance.Number

open Float.Model.UnpackedFloat

/-! ## Sums -/

/-- The units of a finite number, with its sign. -/
def units? (x : Number) : Option Int :=
  match shape x with
  | .finite negative m s => some ((sign negative).apply (m * 2 ^ s : Nat))
  | _ => none

/-- An unpacked number that stands for some units. -/
inductive Holds : Float.Model.UnpackedFloat → Int → Prop where
  | zero (sign : Sign) : Holds (.zero sign) 0
  | finite (negative : Bool) {m s : Nat} (h : Normal m s) (hfinite : s * 2 ^ 52 + m < infiniteBits) :
    Holds (.finite (sign negative) m (s - 1074) h.pos) ((sign negative).apply (m * 2 ^ s : Nat))

theorem holds_unpack {x : Number} {a : Int} (h : units? x = some a) : Holds x.toModel.unpack a := by
  unfold units? at h
  split at h
  · rename_i negative m s hshape
    obtain rfl := Option.some.inj h
    obtain ⟨⟨hlt, hfull, hfinite⟩, -⟩ := eq_ofMagnitude hshape
    rw [unpack_of_shape hshape]
    by_cases hm : m = 0
    · have hzero : (sign negative).apply (m * 2 ^ s : Nat) = 0 := by
        rw [hm, Nat.zero_mul]
        cases negative <;> rfl
      rw [dif_pos hm, hzero]
      exact .zero _
    · rw [dif_neg hm]
      exact .finite negative ⟨Nat.pos_of_ne_zero hm, hlt, hfull⟩ hfinite
  · nomatch h

theorem sign_apply {n : Nat} (hn : 0 < n) (negative : Bool) :
    decide ((sign negative).apply n < 0) = negative ∧ ((sign negative).apply n).natAbs = n := by
  cases negative with
  | false => simp [sign, Sign.apply]
  | true => simpa [sign, Sign.apply] using hn

/-- A number nearest to itself. -/
theorem nearestMagnitude_self {m s : Nat} (h : Canonical m s) :
    nearestMagnitude (m * 2 ^ s) unitsPerOne = s * 2 ^ 52 + m := by
  have hunits : 4 * unitsPerOne * (m * 2 ^ s) = 4 * m * 2 ^ s * unitsPerOne := by ring
  have hpos : 0 < 2 ^ s * unitsPerOne := Nat.mul_pos (Nat.two_pow_pos s) unitsPerOne_pos
  refine nearestMagnitude_of_near h unitsPerOne_pos ⟨?_, ?_, fun hodd => ⟨?_, ?_⟩⟩
  all_goals rw [hunits, Nat.mul_assoc, Nat.mul_assoc _ _ unitsPerOne]
  · exact Nat.mul_le_mul_right _ (Nat.sub_le ..)
  · exact Nat.mul_le_mul_right _ (Nat.le_add_right ..)
  · refine Nat.mul_lt_mul_of_pos_right (Nat.sub_lt (by omega) ?_) hpos
    unfold below
    split <;> decide
  · exact Nat.mul_lt_mul_of_pos_right (Nat.lt_add_of_pos_right (by decide)) hpos

theorem Holds.neg {u : Float.Model.UnpackedFloat} {a : Int} (h : Holds u a) : Holds u.neg (-a) := by
  cases h with
  | zero => exact .zero _
  | finite negative hnormal hfinite =>
    cases negative with
    | false => exact .finite true hnormal hfinite
    | true =>
      show Holds _ (- -_)
      rw [Int.neg_neg]
      exact .finite false hnormal hfinite

/-- A mantissa at a smaller scale, with its sign. -/
theorem apply_decreaseExponent {m s k : Nat} (hk : k ≤ s) (negative : Bool) :
    (sign negative).apply (decreaseExponent m (s - 1074) (k - 1074)).1 * (2 ^ k : Nat) =
      (sign negative).apply (m * 2 ^ s : Nat) := by
  have hshift : ((s : Int) - 1074 - (k - 1074)).toNat = s - k := by omega
  have hunits : m * 2 ^ s = m * 2 ^ (s - k) * 2 ^ k := by
    rw [Nat.mul_assoc, ← Nat.pow_add, Nat.sub_add_cancel hk]
  unfold decreaseExponent
  dsimp only
  rw [hshift, Nat.shiftLeft_eq, hunits]
  cases negative with
  | false => exact (Int.natCast_mul ..).symm
  | true => exact (Int.neg_mul ..).trans (congrArg Neg.neg (Int.natCast_mul ..).symm)

theorem add_finite (sign sign' : Sign) {m m' : Nat} (e e' : Int) (hm : 0 < m) (hm' : 0 < m') :
    Float.Model.UnpackedFloat.add .binary64 (.finite sign m e hm) (.finite sign' m' e' hm') =
      Float.Model.UnpackedFloat.normalize .binary64
        (sign.apply (decreaseExponent m e (min e e')).1 +
          sign'.apply (decreaseExponent m' e' (min e e')).1) (min e e') .positive := rfl

/-- The number nearest to some units, or a zero for none. -/
structure Rounds (a : Int) (z : Number) : Prop where
  of_ne : a ≠ 0 → z = nearest (decide (a < 0)) a.natAbs unitsPerOne
  of_eq : a = 0 → ∃ negative, z = ofMagnitude negative 0

theorem rounds_pack_zero (signed : Sign) : Rounds 0 (Float.ofModel (.pack (.zero signed))) := by
  refine ⟨fun h => absurd rfl h, fun _ => ?_⟩
  cases signed with
  | negative => exact ⟨true, rfl⟩
  | positive => exact ⟨false, rfl⟩

theorem Holds.rounds {u : Float.Model.UnpackedFloat} {a : Int} (h : Holds u a) :
    Rounds a (Float.ofModel (.pack u)) := by
  cases h with
  | zero signed => exact rounds_pack_zero signed
  | @finite negative m s hnormal hfinite =>
    have hpos := Nat.mul_pos hnormal.pos (Nat.two_pow_pos s)
    obtain ⟨hsign, habs⟩ := sign_apply hpos negative
    refine ⟨fun _ => ?_, fun h => ?_⟩
    · rw [pack_normal hnormal, hsign, habs, Nat.min_eq_left (Nat.le_of_lt hfinite), nearest,
        nearestMagnitude_self ⟨hnormal.lt, hnormal.full, hfinite⟩]
    · rw [h] at habs
      exact absurd habs (Nat.ne_of_lt hpos)

theorem mul_neg_iff_neg {a b : Int} (hb : 0 < b) : a * b < 0 ↔ a < 0 := by
  simpa using Int.mul_lt_mul_right (b := a) (c := 0) hb

theorem rounds_normalize (A : Int) (k : Nat) : Rounds (A * (2 ^ k : Nat))
    (Float.ofModel (.pack (Float.Model.UnpackedFloat.normalize .binary64 A (k - 1074) .positive))) := by
  have hpos : (0 : Int) < (2 ^ k : Nat) := Int.natCast_pos.2 (Nat.two_pow_pos k)
  have hsign : A * (2 ^ k : Nat) < 0 ↔ A < 0 := mul_neg_iff_neg hpos
  unfold Float.Model.UnpackedFloat.normalize
  rcases Int.lt_trichotomy A 0 with hneg | rfl | hgt
  · have hless : compare A 0 = .lt := Int.compare_eq_lt.2 hneg
    have habs : (-A).toNat = A.natAbs := by omega
    refine ⟨fun _ => ?_, fun h => absurd h (Int.ne_of_lt (hsign.2 hneg))⟩
    rw [Int.natAbs_mul, Int.natAbs_natCast, decide_eq_true (hsign.2 hneg), hless]
    dsimp only
    rw [habs]
    exact pack_round (by omega) k true
  · rw [Int.zero_mul]
    exact rounds_pack_zero .positive
  · have hmore : compare A 0 = .gt := Int.compare_eq_gt.2 hgt
    have habs : A.toNat = A.natAbs := by omega
    refine ⟨fun _ => ?_, fun h => absurd h (Int.ne_of_gt (Int.mul_pos hgt hpos))⟩
    rw [Int.natAbs_mul, Int.natAbs_natCast, decide_eq_false (by rw [hsign]; omega), hmore]
    dsimp only
    rw [habs]
    exact pack_round (by omega) k false

theorem Holds.add {u v : Float.Model.UnpackedFloat} {a b : Int} (hu : Holds u a) (hv : Holds v b) :
    Rounds (a + b) (Float.ofModel (.pack (u.add .binary64 v))) := by
  cases hu with
  | zero signU =>
    cases hv with
    | zero signV =>
      cases signU <;> cases signV <;> exact rounds_pack_zero _
    | finite negative hnormal hfinite =>
      rw [Int.zero_add]
      exact (Holds.finite negative hnormal hfinite).rounds
  | @finite negative m s hnormal hfinite =>
    cases hv with
    | zero signV =>
      rw [Int.add_zero]
      exact (Holds.finite negative hnormal hfinite).rounds
    | @finite negative' m' s' hnormal' hfinite' =>
      -- both mantissas are moved to the smaller scale
      obtain ⟨k, hk⟩ : ∃ k, min s s' = k := ⟨_, rfl⟩
      have hmin : min ((s : Int) - 1074) (s' - 1074) = k - 1074 := by omega
      rw [← apply_decreaseExponent (show k ≤ s by omega) negative,
        ← apply_decreaseExponent (show k ≤ s' by omega) negative', ← Int.add_mul, add_finite, hmin]
      exact rounds_normalize _ k

theorem sub_eq_add_neg (u v : Float.Model.UnpackedFloat) :
    u.sub .binary64 v = u.add .binary64 v.neg := by
  have happly (signed : Sign) (n : Int) : (-signed).apply n = -signed.apply n := by
    cases signed with
    | negative => exact (Int.neg_neg n).symm
    | positive => rfl
  cases u <;> cases v <;> try rfl
  simp only [Float.Model.UnpackedFloat.sub, Float.Model.UnpackedFloat.add,
    Float.Model.UnpackedFloat.neg, happly, Int.sub_eq_add_neg]

/-- **A sum is the number nearest to the exact sum.** -/
theorem rounds_add {x y : Number} {a b : Int} (hx : units? x = some a) (hy : units? y = some b) :
    Rounds (a + b) (x + y) :=
  (holds_unpack hx).add (holds_unpack hy)

/-- **A difference is the number nearest to the exact difference.** -/
theorem rounds_sub {x y : Number} {a b : Int} (hx : units? x = some a) (hy : units? y = some b) :
    Rounds (a - b) (x - y) := by
  show Rounds (a - b) (Float.ofModel (.pack (x.toModel.unpack.sub .binary64 y.toModel.unpack)))
  rw [sub_eq_add_neg, Int.sub_eq_add_neg]
  exact (holds_unpack hx).add (holds_unpack hy).neg

/-! ## Whole numbers -/

/-- The value of a finite number. -/
def value? (x : Number) : Option ℚ := (units? x).map fun (a : Int) => (a : ℚ) / unitsPerOne

theorem units?_of_shape {x : Number} {negative : Bool} {m s : Nat}
    (h : shape x = .finite negative m s) : units? x = some ((sign negative).apply (m * 2 ^ s : Nat)) := by
  unfold units?
  rw [h]

theorem toInt?_of_shape {x : Number} {negative : Bool} {m s : Nat} (h : shape x = .finite negative m s) :
    toInt? x = if m * 2 ^ s % unitsPerOne = 0
      then some ((sign negative).apply (m * 2 ^ s / unitsPerOne : Nat)) else none := by
  unfold toInt?
  rw [h]
  cases negative <;> rfl

theorem eq_mul_iff {n u : Nat} (hu : 0 < u) (k : Int) :
    (n : Int) = k * u ↔ n % u = 0 ∧ ((n / u : Nat) : Int) = k := by
  constructor
  · intro h
    have hdvd : u ∣ n := Int.natCast_dvd_natCast.1 ⟨k, by rw [h, Int.mul_comm]⟩
    refine ⟨Nat.mod_eq_zero_of_dvd hdvd, ?_⟩
    rw [Int.natCast_ediv, h, Int.mul_ediv_cancel _ (by omega)]
  · rintro ⟨hwhole, rfl⟩
    rw [← Int.natCast_mul, Nat.div_mul_cancel (Nat.dvd_of_mod_eq_zero hwhole)]

theorem toInt?_eq_some_iff_units {x : Number} {k : Int} :
    toInt? x = some k ↔ units? x = some (k * unitsPerOne) := by
  cases h : shape x with
  | finite negative m s =>
    have hpos := unitsPerOne_pos
    rw [toInt?_of_shape h, units?_of_shape h, Option.some_inj, Option.ite_none_right_eq_some, Option.some_inj]
    generalize m * 2 ^ s = n
    generalize unitsPerOne = u at hpos
    cases negative with
    | false => exact (eq_mul_iff hpos k).symm
    | true =>
      have hneg := eq_mul_iff (n := n) hpos (-k)
      rw [Int.neg_mul] at hneg
      show n % u = 0 ∧ -((n / u : Nat) : Int) = k ↔ -(n : Int) = k * u
      rw [neg_eq_iff_eq_neg, neg_eq_iff_eq_neg]
      exact hneg.symm
  | _ =>
    have hint : toInt? x = none := by
      unfold toInt?
      rw [h]
    have hunits : units? x = none := by
      unfold units?
      rw [h]
    rw [hint, hunits]
    exact iff_of_false nofun nofun

/-- A number is the whole number `k` exactly if its value is `k`. -/
theorem toInt?_eq_some_iff {x : Number} {k : Int} : toInt? x = some k ↔ value? x = some (k : ℚ) := by
  have hpos : (unitsPerOne : ℚ) ≠ 0 := by exact_mod_cast Nat.ne_of_gt unitsPerOne_pos
  have hvalue (a : Int) : (a : ℚ) / unitsPerOne = k ↔ a = k * unitsPerOne := by
    rw [div_eq_iff hpos]
    exact_mod_cast Iff.rfl
  simp only [toInt?_eq_some_iff_units, value?, Option.map_eq_some_iff, hvalue, exists_eq_right]

/-- Whole numbers below `2 ^ 53` are numbers of the language. -/
theorem exists_canonical {n : Nat} (h : n < 2 ^ 53) :
    ∃ m s, Canonical m s ∧ m * 2 ^ s = n * unitsPerOne := by
  obtain ⟨u, hunits, hu⟩ := unitsPerOne_eq
  rw [hunits]
  rcases Nat.eq_zero_or_pos n with rfl | hpos
  · refine ⟨0, 0, ⟨by decide, fun hs => absurd hs (Nat.lt_irrefl 0), by decide⟩, ?_⟩
    rw [Nat.zero_mul, Nat.zero_mul]
  · -- shifted to the left until all 53 bits are used
    have hlog : n.log2 < 53 := (Nat.log2_lt (Nat.ne_of_gt hpos)).2 h
    obtain ⟨j, hj⟩ : ∃ j, 52 - n.log2 = j := ⟨_, rfl⟩
    have hstep := Nat.two_pow_pos j
    have hlow : 2 ^ 52 ≤ n * 2 ^ j := by
      have := Nat.mul_le_mul_right (2 ^ j) (Nat.log2_self_le (Nat.ne_of_gt hpos))
      rwa [← Nat.pow_add, show n.log2 + j = 52 by omega] at this
    have hhigh : n * 2 ^ j < 2 ^ 53 := by
      have := Nat.mul_lt_mul_of_pos_right (Nat.lt_log2_self (n := n)) hstep
      rwa [← Nat.pow_add, show n.log2 + 1 + j = 53 by omega] at this
    refine ⟨n * 2 ^ j, u - j, ⟨hhigh, fun _ => hlow, ?_⟩, ?_⟩
    · have hinf : infiniteBits = 2047 * 2 ^ 52 := rfl
      omega
    · rw [Nat.mul_assoc, ← Nat.pow_add, show j + (u - j) = u by omega]

theorem toInt?_nearest {n : Nat} (h : n < 2 ^ 53) (negative : Bool) :
    toInt? (nearest negative n 1) = some ((sign negative).apply n) := by
  obtain ⟨m, s, hcanonical, hunits⟩ := exists_canonical h
  have hshape : shape (nearest negative n 1) = .finite negative m s := by
    rw [nearest, ← nearestMagnitude_whole, ← hunits, nearestMagnitude_self hcanonical]
    exact shape_of_canonical hcanonical negative
  rw [toInt?_eq_some_iff_units, units?_of_shape hshape, hunits, Int.natCast_mul]
  cases negative with
  | false => rfl
  | true => exact congrArg some (Int.neg_mul ..).symm

theorem toInt?_ofNat {n : Nat} (h : n < 2 ^ 53) : toInt? (ofNat n) = some (n : Int) :=
  toInt?_nearest h false

/-- A whole number of ones rounds to itself. -/
theorem Rounds.eq_nearest {k : Int} {z : Number} (h : Rounds (k * unitsPerOne) z) (hk : k ≠ 0) :
    z = nearest (decide (k < 0)) k.natAbs 1 := by
  have hpos : (0 : Int) < unitsPerOne := Int.natCast_pos.2 unitsPerOne_pos
  rw [h.of_ne (Int.mul_ne_zero hk (Int.ne_of_gt hpos)), decide_eq_decide.2 (mul_neg_iff_neg hpos),
    Int.natAbs_mul, Int.natAbs_natCast, nearest, nearestMagnitude_whole, nearest]

theorem Rounds.toInt? {k : Int} {z : Number} (h : Rounds (k * unitsPerOne) z) (hk : k.natAbs < 2 ^ 53) :
    toInt? z = some k := by
  by_cases hzero : k = 0
  · obtain ⟨negative, rfl⟩ := h.of_eq (by rw [hzero, Int.zero_mul])
    have hshape : shape (ofMagnitude negative 0) = .finite negative 0 0 :=
      shape_ofMagnitude (Nat.zero_le _)
    rw [toInt?_eq_some_iff_units, units?_of_shape hshape, hzero, Int.zero_mul]
    cases negative <;> rfl
  · rw [h.eq_nearest hzero, toInt?_nearest hk]
    rcases Int.lt_or_gt_of_ne hzero with hneg | hpos
    · rw [decide_eq_true hneg]
      show some (-(k.natAbs : Int)) = _
      congr 1
      omega
    · rw [decide_eq_false (by omega)]
      show some (k.natAbs : Int) = _
      congr 1
      omega

section Whole

variable {x y : Number} {k l : Int} (hx : toInt? x = some k) (hy : toInt? y = some l)
include hx hy

theorem rounds_add_whole : Rounds ((k + l) * unitsPerOne) (x + y) := by
  rw [Int.add_mul]
  exact rounds_add (toInt?_eq_some_iff_units.1 hx) (toInt?_eq_some_iff_units.1 hy)

theorem rounds_sub_whole : Rounds ((k - l) * unitsPerOne) (x - y) := by
  rw [Int.sub_mul]
  exact rounds_sub (toInt?_eq_some_iff_units.1 hx) (toInt?_eq_some_iff_units.1 hy)

end Whole

/-- Lengths add up. -/
theorem ofNat_add_ofNat {m n : Nat} (hm : m < 2 ^ 53) (hn : n < 2 ^ 53) :
    ofNat m + ofNat n = ofNat (m + n) := by
  rcases Nat.eq_zero_or_pos (m + n) with hzero | hpos
  · obtain ⟨rfl, rfl⟩ := Nat.add_eq_zero_iff.1 hzero
    decide +kernel
  · have hsum := (rounds_add_whole (toInt?_ofNat hm) (toInt?_ofNat hn)).eq_nearest (by omega)
    rw [hsum, decide_eq_false (by omega)]
    rfl

end Parlance.Number
