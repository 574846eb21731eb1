import Parlance.Proofs.Number.Rounding

/-!
# Numbers packed and unpacked

The operations on numbers shift a mantissa to the scale of its result and round it by the last two bits
that were dropped. That is division to the nearest (`Shifted.roundedMantissa`), so what they pack is the
number nearest to the exact result (`pack_round`). Unpacked, a finite number has the mantissa and the
scale that its shape tells (`unpack_of_shape`).
-/

namespace Parlance.Number

open Float.Model (Format totalExponent)
open Float.Model.UnpackedFloat

/-! ## Rounding by shifts -/

/-- What a mantissa and its two further bits are after `a` was shifted by `t` places. -/
structure Shifted (a t : Nat) (em : ExtendedMantissa) : Prop where
  mantissa : em.mantissa = a / 2 ^ t
  roundBit : em.roundBit = true ↔ 2 ^ t ≤ 2 * (a % 2 ^ t)
  stickyBit : em.stickyBit = true ↔ 2 * (a % 2 ^ t) % 2 ^ t ≠ 0

theorem Shifted.shiftRightOne {a t : Nat} {em : ExtendedMantissa} (h : Shifted a t em) :
    Shifted a (t + 1) em.shiftRightOne := by
  obtain ⟨hmantissa, hround, hsticky⟩ := h
  have hpos := Nat.two_pow_pos t
  have hlt := Nat.mod_lt a hpos
  have hmod : a % 2 ^ (t + 1) = a % 2 ^ t + 2 ^ t * (a / 2 ^ t % 2) := by
    rw [Nat.pow_succ, Nat.mod_mul]
  have hrest : 2 * (a % 2 ^ (t + 1)) % 2 ^ (t + 1) = 2 * (a % 2 ^ t) := by
    rw [Nat.pow_succ', Nat.mul_mod_mul_left, Nat.mod_mul_left_mod]
  refine ⟨?_, ?_, ?_⟩
  · show em.mantissa / 2 = a / 2 ^ (t + 1)
    rw [hmantissa, Nat.div_div_eq_div_mul, Nat.pow_succ]
  · show (em.mantissa % 2 != 0) = true ↔ _
    rw [hmantissa, hmod, Nat.pow_succ, bne_iff_ne]
    rcases Nat.mod_two_eq_zero_or_one (a / 2 ^ t) with hbit | hbit <;> rw [hbit] <;> omega
  · show (em.roundBit || em.stickyBit) = true ↔ _
    rw [hrest, Bool.or_eq_true, hround, hsticky]
    constructor
    · rintro (hle | hne) hzero
      · omega
      · rw [hzero] at hne
        exact hne (Nat.zero_mod _)
    · intro hne
      by_cases hle : 2 ^ t ≤ 2 * (a % 2 ^ t)
      · exact .inl hle
      · rw [Nat.mod_eq_of_lt (Nat.lt_of_not_le hle)]
        exact .inr hne

theorem shifted (a t : Nat) : Shifted a t (ExtendedMantissa.ofMantissaAndAccuracy a .exact >>> t) := by
  show Shifted a t (t.repeat ExtendedMantissa.shiftRightOne _)
  induction t with
  | zero =>
    show Shifted a 0 ⟨a, false, false⟩
    constructor <;> simp [Nat.mod_one]
  | succ t ih => exact ih.shiftRightOne

/-- Shifting and then rounding by the two bits is division to the nearest. -/
theorem Shifted.roundedMantissa {a t : Nat} {em : ExtendedMantissa} (h : Shifted a t em) :
    em.roundedMantissa = roundDiv a (2 ^ t) := by
  obtain ⟨hmantissa, hround, hsticky⟩ := h
  have hlt := Nat.mod_lt a (Nat.two_pow_pos t)
  obtain ⟨m, r, s⟩ := em
  dsimp only at hmantissa hround hsticky
  unfold roundDiv
  dsimp only
  rw [← hmantissa]
  generalize a % 2 ^ t = rest at *
  generalize 2 ^ t = b at *
  cases r with
  | false =>
    have hless : 2 * rest < b := Nat.lt_of_not_le fun hle => Bool.false_ne_true (hround.2 hle)
    rw [if_neg (by simp; omega)]
    cases s <;> rfl
  | true =>
    have hle : b ≤ 2 * rest := hround.1 rfl
    have hrest : 2 * rest % b = 2 * rest - b := by
      rw [Nat.mod_eq_sub_mod hle, Nat.mod_eq_of_lt (by omega)]
    rw [hrest] at hsticky
    cases s with
    | false =>
      have heq : 2 * rest = b := by
        by_contra hne
        exact Bool.false_ne_true (hsticky.2 (by omega))
      show m + m % 2 = _
      rcases Nat.mod_two_eq_zero_or_one m with hbit | hbit <;> simp [heq, hbit]
    | true =>
      have := hsticky.1 rfl
      rw [if_pos (by simp; omega)]
      rfl

/-! ## Scales -/

/-- The power of two below a number of units, unless the number has fewer than 53 bits. -/
theorem scale_bounds (n : Nat) : n < 2 ^ 53 * 2 ^ (n.log2 - 52) ∧
    (0 < n.log2 - 52 → 2 ^ 52 * 2 ^ (n.log2 - 52) ≤ n) := by
  constructor
  · rw [← Nat.pow_add]
    exact Nat.lt_of_lt_of_le Nat.lt_log2_self (Nat.pow_le_pow_right Nat.two_pos (by omega))
  · intro hpos
    have hn : n ≠ 0 := by
      rintro rfl
      simp at hpos
    rw [← Nat.pow_add, ← Nat.le_log2 hn]
    omega

theorem roundDiv_mul {c : Nat} (hc : 0 < c) (a b : Nat) : roundDiv (a * c) (b * c) = roundDiv a b := by
  have hrest : 2 * (a % b * c) = 2 * (a % b) * c := (Nat.mul_assoc ..).symm
  unfold roundDiv
  dsimp only
  rw [Nat.mul_div_mul_right _ _ hc, Nat.mul_mod_mul_right, hrest]
  simp [Nat.mul_lt_mul_right hc, Nat.mul_left_inj (Nat.ne_of_gt hc)]

theorem unitsPerOne_pos : 0 < unitsPerOne := by
  obtain ⟨u, hu, -⟩ := unitsPerOne_eq
  rw [hu]
  exact Nat.two_pow_pos u

/-- Rounding of whole units. -/
theorem nearestMagnitude_units (n : Nat) : nearestMagnitude n unitsPerOne =
    min ((n.log2 - 52) * 2 ^ 52 + roundDiv n (2 ^ (n.log2 - 52))) infiniteBits := by
  unfold nearestMagnitude
  dsimp only
  rw [Nat.mul_div_cancel _ unitsPerOne_pos, Nat.mul_comm unitsPerOne, roundDiv_mul unitsPerOne_pos]

/-- Whole numbers round as their units. -/
theorem nearestMagnitude_whole (n : Nat) :
    nearestMagnitude (n * unitsPerOne) unitsPerOne = nearestMagnitude n 1 := by
  rw [nearestMagnitude_units]
  unfold nearestMagnitude
  dsimp only
  rw [Nat.div_one, Nat.one_mul]

/-- Mantissa and scale as rounding leaves them, before a number too great becomes infinite. -/
structure Normal (m s : Nat) : Prop where
  pos : 0 < m
  lt : m < 2 ^ 53
  full : 0 < s → 2 ^ 52 ≤ m

/-- A rounded quotient has 53 bits, or it is the power of two after them: one bit less, one scale more. -/
theorem exists_normal {R T : Nat} (hpos : 0 < R) (hle : R ≤ 2 ^ 53) (hfull : 0 < T → 2 ^ 52 ≤ R) :
    ∃ m s, Normal m s ∧ s * 2 ^ 52 + m = T * 2 ^ 52 + R ∧
      T ≤ s ∧ (R * 2 ^ T).log2 - 52 = s ∧ R / 2 ^ (s - T) = m := by
  have hstep := Nat.two_pow_pos T
  have hscale {s : Nat} (hlow : s = 0 ∨ 2 ^ 52 * 2 ^ s ≤ R * 2 ^ T) (hhigh : R * 2 ^ T < 2 ^ 53 * 2 ^ s) :
      (R * 2 ^ T).log2 - 52 = s := by
    simpa using scale_eq (b := 1) Nat.one_pos (by simpa using hlow) (by simpa using hhigh)
  rcases Nat.lt_or_eq_of_le hle with hlt | rfl
  · refine ⟨R, T, ⟨hpos, hlt, hfull⟩, rfl, Nat.le_refl T, hscale ?_ ?_, ?_⟩
    · exact (Nat.eq_zero_or_pos T).imp_right fun h => Nat.mul_le_mul_right _ (hfull h)
    · exact Nat.mul_lt_mul_of_pos_right hlt hstep
    · rw [Nat.sub_self, Nat.pow_zero, Nat.div_one]
  · refine ⟨2 ^ 52, T + 1, ⟨by decide, by decide, fun _ => Nat.le_refl _⟩, next_scale T, Nat.le_succ T,
      hscale ?_ ?_, ?_⟩
    · rw [Nat.pow_succ]
      omega
    · rw [Nat.pow_succ]
      omega
    · rw [Nat.add_sub_cancel_left]
      rfl

section Shifts

variable {M k : Nat} (hM : 0 < M)
include hM

theorem targetExponent_eq :
    Format.binary64.targetExponent (totalExponent M (k - 1074)) =
      (((M * 2 ^ k).log2 - 52 : Nat) : Int) - 1074 := by
  have hlog : (M * 2 ^ k).log2 = M.log2 + k := by
    have hpos : 0 < M * 2 ^ k := Nat.mul_pos hM (Nat.two_pow_pos k)
    rw [Nat.log2_eq_iff (Nat.ne_of_gt hpos), Nat.pow_add, Nat.add_right_comm, Nat.pow_add]
    exact ⟨Nat.mul_le_mul_right _ (Nat.log2_self_le (Nat.ne_of_gt hM)),
      Nat.mul_lt_mul_of_pos_right Nat.lt_log2_self (Nat.two_pow_pos k)⟩
  have hbits : (Format.binary64.mantissaBits : Int) = 53 := rfl
  have hleast : Format.binary64.minExponent = -1074 := by decide
  unfold Format.targetExponent totalExponent
  rw [hbits, hleast, hlog]
  omega

theorem shiftToTargetExponent_eq {T : Nat} (hT : (M * 2 ^ k).log2 - 52 = T) (hk : k ≤ T) :
    shiftToTargetExponent .binary64 M (k - 1074) .exact =
      (ExtendedMantissa.ofMantissaAndAccuracy M .exact >>> (T - k), (T : Int) - 1074) := by
  have hshift : ((T : Int) - 1074 - (k - 1074)).toNat = T - k := by omega
  unfold shiftToTargetExponent shiftToExponent
  rw [targetExponent_eq hM, hT]
  dsimp only
  rw [hshift]
  congr 1
  omega

/-- A quotient of 53 bits, rounded: it may grow to a power of two, and is never zero. -/
theorem roundDiv_bounds {T : Nat} (hT : (M * 2 ^ k).log2 - 52 = T) (hk : k ≤ T) :
    0 < roundDiv M (2 ^ (T - k)) ∧ roundDiv M (2 ^ (T - k)) ≤ 2 ^ 53 ∧
      (0 < T → 2 ^ 52 ≤ roundDiv M (2 ^ (T - k))) := by
  obtain ⟨hhigh, hlow⟩ := scale_bounds (M * 2 ^ k)
  have hsplit : 2 ^ T = 2 ^ (T - k) * 2 ^ k := by rw [← Nat.pow_add, Nat.sub_add_cancel hk]
  have hpos := Nat.two_pow_pos k
  have hstep := Nat.two_pow_pos (T - k)
  rw [hT, hsplit, ← Nat.mul_assoc] at hhigh hlow
  have hless : M / 2 ^ (T - k) < 2 ^ 53 :=
    (Nat.div_lt_iff_lt_mul hstep).2 (Nat.lt_of_mul_lt_mul_right hhigh)
  have hmore : 0 < T → 2 ^ 52 ≤ M / 2 ^ (T - k) := fun h =>
    (Nat.le_div_iff_mul_le hstep).2 (Nat.le_of_mul_le_mul_right (hlow h) hpos)
  have hround : M / 2 ^ (T - k) ≤ roundDiv M (2 ^ (T - k)) ∧
      roundDiv M (2 ^ (T - k)) ≤ M / 2 ^ (T - k) + 1 := by
    unfold roundDiv
    dsimp only
    split <;> omega
  have hzero : 0 < M / 2 ^ (T - k) := by
    rcases Nat.eq_zero_or_pos T with rfl | hT
    · simpa using hM
    · exact Nat.lt_of_lt_of_le (by decide) (hmore hT)
  exact ⟨by omega, by omega, fun h => Nat.le_trans (hmore h) hround.1⟩

theorem roundWithAccuracy_eq {T : Nat} (hT : (M * 2 ^ k).log2 - 52 = T) (hk : k ≤ T) (sign : Sign) :
    ∃ m s, ∃ h : Normal m s, s * 2 ^ 52 + m = T * 2 ^ 52 + roundDiv M (2 ^ (T - k)) ∧
      roundWithAccuracy .binary64 sign M (k - 1074) .exact = .finite sign m (s - 1074) h.pos := by
  obtain ⟨hpos, hle, hfull⟩ := roundDiv_bounds hM hT hk
  obtain ⟨m, s, hnormal, hsum, hs, hscale, hm⟩ := exists_normal hpos hle hfull
  refine ⟨m, s, hnormal, hsum, ?_⟩
  unfold roundWithAccuracy
  rw [shiftToTargetExponent_eq hM hT hk]
  dsimp only
  rw [(shifted M (T - k)).roundedMantissa, shiftToTargetExponent_eq hpos hscale hs]
  have hmantissa := (shifted (roundDiv M (2 ^ (T - k))) (s - T)).mantissa.trans hm
  simp only [hmantissa, Nat.ne_of_gt hnormal.pos, dite_false]

theorem round_eq (sign : Sign) : ∃ m s, ∃ h : Normal m s,
    min (s * 2 ^ 52 + m) infiniteBits = nearestMagnitude (M * 2 ^ k) unitsPerOne ∧
    Float.Model.UnpackedFloat.round .binary64 sign M (k - 1074) = .finite sign m (s - 1074) h.pos := by
  obtain ⟨T, hT⟩ : ∃ T, (M * 2 ^ k).log2 - 52 = T := ⟨_, rfl⟩
  -- the mantissa is first moved to the target scale, where that is the smaller one
  obtain ⟨j, hj⟩ : ∃ j, k - (k - T) = j := ⟨_, rfl⟩
  have hunits : M * 2 ^ (k - T) * 2 ^ j = M * 2 ^ k := by
    rw [Nat.mul_assoc, ← Nat.pow_add]
    congr 2
    omega
  have hmoved : decreaseExponent M (k - 1074) (T - 1074) = (M * 2 ^ (k - T), (j : Int) - 1074) := by
    have hshift : ((k : Int) - 1074 - (T - 1074)).toNat = k - T := by omega
    unfold decreaseExponent
    dsimp only
    rw [hshift, Nat.shiftLeft_eq]
    congr 1
    omega
  have hpos : 0 < M * 2 ^ (k - T) := Nat.mul_pos hM (Nat.two_pow_pos _)
  obtain ⟨m, s, hnormal, hsum, hround⟩ :=
    roundWithAccuracy_eq hpos (k := j) (T := T) (by rw [hunits, hT]) (by omega) sign
  refine ⟨m, s, hnormal, ?_, ?_⟩
  · have hj : T - j + j = T := by omega
    rw [hsum, nearestMagnitude_units, hT, ← hunits, ← roundDiv_mul (Nat.two_pow_pos j), ← Nat.pow_add, hj]
  · unfold Float.Model.UnpackedFloat.round
    rw [targetExponent_eq hM, hT]
    dsimp only
    rw [hmoved]
    exact hround

end Shifts

/-! ## Numbers unpacked -/

/-- The sign of an unpacked number. -/
def sign (negative : Bool) : Sign := if negative then .negative else .positive

theorem toNat_signPart (b : BitVec 64) : (@unpackSign .binary64 b).toNat = b.toNat / 2 ^ 63 % 2 := by
  simp [unpackSign, Nat.shiftRight_eq_div_pow]

theorem pack_unpack_model (x : Float.Model) : Float.Model.pack x.unpack = x := by
  obtain ⟨bits, hvalid⟩ := x
  simp only [Float.Model.pack, Float.Model.unpack, pack_unpack_of_valid hvalid]

theorem toNat_withImplicit (b : BitVec 52) : (1#1 ++ b).toNat = 2 ^ 52 + b.toNat := by
  rw [BitVec.toNat_append, BitVec.toNat_one (by decide), Nat.one_shiftLeft, Nat.or_comm,
    Nat.or_two_pow_eq_add_of_lt b.isLt, Nat.add_comm]

/-- The three parts of the bits of a finite number. -/
theorem bits_of_shape {x : Number} {negative : Bool} {m s : Nat}
    (h : shape x = .finite negative m s) {b : BitVec 64} (hb : x.toModel.toBits.toBitVec = b) :
    Sign.ofBitVec (@unpackSign .binary64 b) = sign negative ∧
    (@unpackExponent .binary64 b).toNat = (s * 2 ^ 52 + m) / 2 ^ 52 ∧
    (@unpackMantissa .binary64 b).toNat = m % 2 ^ 52 := by
  obtain ⟨⟨-, -, hfinite⟩, hx⟩ := eq_ofMagnitude h
  have hinf : infiniteBits = 2047 * 2 ^ 52 := rfl
  have hbits : b.toNat = signedBits negative (s * 2 ^ 52 + m) := by
    rw [← hb, hx]
    exact toNat_toBits_ofMagnitude (Nat.le_of_lt hfinite)
  rw [toNat_exponentPart, toNat_mantissaPart, hbits]
  refine ⟨?_, ?_, ?_⟩
  · have hpart := toNat_signPart b
    cases negative with
    | false =>
      refine if_pos (BitVec.eq_of_toNat_eq ?_)
      rw [hpart, hbits]
      simp [signedBits]
      omega
    | true =>
      refine if_neg fun hzero => ?_
      rw [hzero, hbits] at hpart
      simp [signedBits] at hpart
      omega
  · unfold signedBits
    split <;> omega
  · unfold signedBits
    split <;> omega

/-- A finite number unpacked: its mantissa and its scale are those of its shape. -/
theorem unpack_of_shape {x : Number} {negative : Bool} {m s : Nat}
    (h : shape x = .finite negative m s) : x.toModel.unpack =
      if hm : m = 0 then .zero (sign negative)
      else .finite (sign negative) m (s - 1074) (Nat.pos_of_ne_zero hm) := by
  obtain ⟨⟨hlt, hfull, hfinite⟩, -⟩ := eq_ofMagnitude h
  have hinf : infiniteBits = 2047 * 2 ^ 52 := rfl
  have hbias : Format.binary64.exponentBias = 1023 := by decide
  show Float.Model.UnpackedFloat.unpack .binary64 x.toModel.toBits.toBitVec = _
  generalize hb : x.toModel.toBits.toBitVec = b
  obtain ⟨hsign, hexponent, hmantissa⟩ := bits_of_shape h hb
  have hones : @unpackExponent .binary64 b ≠ -1#_ := by
    intro hones
    have : (@unpackExponent .binary64 b).toNat = 2047 := congrArg BitVec.toNat hones
    omega
  unfold Float.Model.UnpackedFloat.unpack
  dsimp only
  rw [hsign, if_neg hones]
  by_cases hsmall : m < 2 ^ 52
  · -- without the implicit bit only at the least scale
    obtain rfl : s = 0 := Nat.eq_zero_of_not_pos fun hs => by have := hfull hs; omega
    rw [Nat.zero_mul, Nat.zero_add, Nat.div_eq_of_lt hsmall] at hexponent
    rw [Nat.mod_eq_of_lt hsmall] at hmantissa
    rw [if_pos (BitVec.eq_of_toNat_eq hexponent)]
    by_cases hm : m = 0
    · have hzero : @unpackMantissa .binary64 b = 0#_ := BitVec.eq_of_toNat_eq (hmantissa.trans hm)
      rw [dif_pos hm, dif_pos hzero]
    · have hne : @unpackMantissa .binary64 b ≠ 0#_ := by
        intro hzero
        rw [hzero] at hmantissa
        exact hm hmantissa.symm
      rw [dif_neg hm, dif_neg hne]
      congr 1
      rw [hexponent, hbias]
      rfl
  · have hzero : @unpackExponent .binary64 b ≠ 0#_ := by
      intro hzero
      have : (@unpackExponent .binary64 b).toNat = 0 := congrArg BitVec.toNat hzero
      omega
    rw [if_neg hzero, dif_neg (by omega)]
    congr 1
    · rw [toNat_withImplicit, hmantissa]
      omega
    · rw [hexponent, hbias]
      omega

/-- The shape of a number is that of its magnitude. -/
theorem shape_of_canonical {m s : Nat} (h : Canonical m s) (negative : Bool) :
    shape (ofMagnitude negative (s * 2 ^ 52 + m)) = .finite negative m s := by
  obtain ⟨hlt, hfull, hfinite⟩ := h
  rw [shape_ofMagnitude (Nat.le_of_lt hfinite), if_neg (Nat.ne_of_lt hfinite)]
  by_cases hsmall : s * 2 ^ 52 + m < 2 ^ 52
  · obtain rfl : s = 0 := by omega
    rw [if_pos hsmall, Nat.zero_mul, Nat.zero_add]
  · have hmantissa : 2 ^ 52 + (s * 2 ^ 52 + m) % 2 ^ 52 = m := by
      rcases Nat.eq_zero_or_pos s with rfl | hs
      · omega
      · have := hfull hs
        omega
    have hscale : (s * 2 ^ 52 + m) / 2 ^ 52 - 1 = s := by omega
    rw [if_neg hsmall, hmantissa, hscale]

/-- A rounded mantissa and its scale packed: the magnitude is that of the shape, or infinite. -/
theorem pack_normal {m s : Nat} (h : Normal m s) (negative : Bool) :
    Float.ofModel (.pack (.finite (sign negative) m (s - 1074) h.pos)) =
      ofMagnitude negative (min (s * 2 ^ 52 + m) infiniteBits) := by
  have hinf : infiniteBits = 2047 * 2 ^ 52 := rfl
  have hlt := h.lt
  by_cases hfinite : s * 2 ^ 52 + m < infiniteBits
  · have hunpack := unpack_of_shape (shape_of_canonical ⟨hlt, h.full, hfinite⟩ negative)
    rw [dif_neg (Nat.ne_of_gt h.pos)] at hunpack
    rw [← hunpack, pack_unpack_model, Nat.min_eq_left (Nat.le_of_lt hfinite)]
  · have hpack : Float.Model.pack (.finite (sign negative) m (s - 1074) h.pos) =
        Float.Model.pack (.infinity (sign negative)) := by
      have hgreat : 2 ^ Format.binary64.exponentBits ≤
          ((s : Int) - 1074 + Format.binary64.exponentBias +
            Format.binary64.mantissaBitsWithoutImplicit).toNat + 1 := by
        show 2 ^ 11 ≤ ((s : Int) - 1074 + 1023 + 52).toNat + 1
        omega
      unfold Float.Model.pack pack
      simp only [hgreat, if_true]
    rw [hpack, Nat.min_eq_right (Nat.le_of_not_lt hfinite)]
    cases negative <;> rfl

theorem pack_round {M : Nat} (hM : 0 < M) (k : Nat) (negative : Bool) :
    Float.ofModel (.pack (Float.Model.UnpackedFloat.round .binary64 (sign negative) M (k - 1074))) =
      nearest negative (M * 2 ^ k) unitsPerOne := by
  obtain ⟨m, s, hnormal, hmagnitude, hround⟩ := round_eq hM (k := k) (sign negative)
  rw [hround, pack_normal hnormal, hmagnitude]
  rfl

end Parlance.Number
