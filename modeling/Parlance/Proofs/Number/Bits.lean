import Mathlib
import Parlance.Number.Binary

/-!
# Numbers and their bits

A number is determined by its bits, and every pattern of bits at most those of infinity is that of a
number: only the bits that stand for no number are read as other bits. So a finite number is its
sign with the magnitude `scale * 2 ^ 52 + mantissa` that its shape tells.
-/

namespace Parlance.Number

open Float.Model (Format)
open Float.Model.UnpackedFloat

/-! ## Numbers from bits -/

theorem toNat_exponentPart (b : BitVec 64) :
    (@unpackExponent .binary64 b).toNat = b.toNat / 2 ^ 52 % 2 ^ 11 := by
  simp [unpackExponent, Nat.shiftRight_eq_div_pow]

theorem toNat_mantissaPart (b : BitVec 64) :
    (@unpackMantissa .binary64 b).toNat = b.toNat % 2 ^ 52 := by
  simp [unpackMantissa]

/-- The greatest exponent has no mantissa in bits that are not above those of infinity. -/
theorem mantissaPart_eq_zero {b : BitVec 64} (h : b.toNat % 2 ^ 63 ≤ infiniteBits)
    (hones : @unpackExponent .binary64 b = -1#_) : @unpackMantissa .binary64 b = 0#_ := by
  have he := toNat_exponentPart b
  have hm := toNat_mantissaPart b
  have hones' : (@unpackExponent .binary64 b).toNat = 2047 := congrArg BitVec.toNat hones
  apply BitVec.eq_of_toNat_eq
  show (@unpackMantissa .binary64 b).toNat = 0
  unfold infiniteBits at h
  omega

/-- Only bits greater than those of infinity stand for no number. -/
theorem valid_of_le {b : BitVec 64} (h : b.toNat % 2 ^ 63 ≤ infiniteBits) :
    Format.binary64.Valid b :=
  ⟨fun hones hzero => absurd (mantissaPart_eq_zero h hones) hzero⟩

theorem toBits_ofBits {bits : UInt64} (h : bits.toNat % 2 ^ 63 ≤ infiniteBits) :
    (Float.ofBits bits).toBits = bits := by
  show UInt64.ofBitVec (pack .binary64 (unpack .binary64 bits.toBitVec)) = bits
  rw [pack_unpack_of_valid (valid_of_le h)]

/-! ## Shapes -/

/-- Mantissa and scale of a finite number: the mantissa has 53 bits, and fewer only where the scale
is the least. -/
structure Canonical (mantissa scale : Nat) : Prop where
  lt : mantissa < 2 ^ 53
  full : 0 < scale → 2 ^ 52 ≤ mantissa
  finite : scale * 2 ^ 52 + mantissa < infiniteBits

/-- The bits of a sign and a magnitude. -/
def signedBits (negative : Bool) (magnitude : Nat) : Nat :=
  if negative then 2 ^ 63 + magnitude else magnitude

theorem toNat_toBits_ofMagnitude {negative : Bool} {magnitude : Nat} (h : magnitude ≤ infiniteBits) :
    (ofMagnitude negative magnitude).toBits.toNat = signedBits negative magnitude := by
  have hinf : infiniteBits = 2047 * 2 ^ 52 := rfl
  have hnat : (UInt64.ofNat (signedBits negative magnitude)).toNat = signedBits negative magnitude := by
    rw [UInt64.toNat_ofNat']
    unfold signedBits
    split <;> omega
  have hle : (UInt64.ofNat (signedBits negative magnitude)).toNat % 2 ^ 63 ≤ infiniteBits := by
    rw [hnat]
    unfold signedBits
    split <;> omega
  show (Float.ofBits (UInt64.ofNat (signedBits negative magnitude))).toBits.toNat = _
  rw [toBits_ofBits hle, hnat]

theorem shape_ofMagnitude {negative : Bool} {magnitude : Nat} (h : magnitude ≤ infiniteBits) :
    shape (ofMagnitude negative magnitude) =
      if magnitude = infiniteBits then .infinite negative
      else if magnitude < 2 ^ 52 then .finite negative magnitude 0
      else .finite negative (2 ^ 52 + magnitude % 2 ^ 52) (magnitude / 2 ^ 52 - 1) := by
  have hinf : infiniteBits = 2047 * 2 ^ 52 := rfl
  have hsign : decide (2 ^ 63 ≤ signedBits negative magnitude) = negative := by
    unfold signedBits
    cases negative
    · simp
      omega
    · simp
  have hmod : signedBits negative magnitude % 2 ^ 63 = magnitude := by
    unfold signedBits
    split <;> omega
  unfold shape
  dsimp only
  rw [toNat_toBits_ofMagnitude h, hsign, hmod, if_neg (by omega)]

/-- A number is its top bit and the bits below it. -/
theorem eq_ofMagnitude_bits (x : Number) :
    x = ofMagnitude (decide (2 ^ 63 ≤ x.toBits.toNat)) (x.toBits.toNat % 2 ^ 63) := by
  have hlt : x.toBits.toNat < 2 ^ 64 := x.toBits.toNat_lt
  have hx : ∀ n, n = x.toBits.toNat → x = Float.ofBits (UInt64.ofNat n) := by
    rintro n rfl
    rw [UInt64.ofNat_toNat, Float.ofBits_toBits]
  refine hx _ ?_
  by_cases hneg : 2 ^ 63 ≤ x.toBits.toNat <;> simp only [hneg] <;> simp <;> omega

/-- A finite number is its sign and its magnitude. -/
theorem eq_ofMagnitude {x : Number} {negative : Bool} {m s : Nat}
    (h : shape x = .finite negative m s) :
    Canonical m s ∧ x = ofMagnitude negative (s * 2 ^ 52 + m) := by
  have hinf : infiniteBits = 2047 * 2 ^ 52 := rfl
  -- whatever branch the shape comes from, the sign is the top bit and the rest the magnitude
  have hbits : ∀ magnitude, magnitude = x.toBits.toNat % 2 ^ 63 →
      x = ofMagnitude (decide (2 ^ 63 ≤ x.toBits.toNat)) magnitude := by
    rintro magnitude rfl
    exact eq_ofMagnitude_bits x
  unfold shape at h
  dsimp only at h
  split at h
  · nomatch h
  · split at h
    · nomatch h
    · split at h
      · obtain ⟨rfl, rfl, rfl⟩ := Shape.finite.inj h
        exact ⟨⟨by omega, by omega, by omega⟩, hbits _ (by omega)⟩
      · obtain ⟨rfl, rfl, rfl⟩ := Shape.finite.inj h
        exact ⟨⟨by omega, by omega, by omega⟩, hbits _ (by omega)⟩

theorem eq_infinity {x : Number} {negative : Bool} (h : shape x = .infinite negative) :
    x = infinity negative := by
  have hx := eq_ofMagnitude_bits x
  unfold shape at h
  dsimp only at h
  split at h
  · nomatch h
  · split at h
    · rename_i hmagnitude
      obtain rfl := Shape.infinite.inj h
      rw [hmagnitude] at hx
      exact hx
    · split at h <;> nomatch h

theorem magnitude_le_of_shape {x : Number} (h : shape x ≠ .nan) :
    x.toBits.toNat % 2 ^ 63 ≤ infiniteBits := by
  refine Nat.le_of_not_lt fun hlt => h ?_
  unfold shape
  exact if_pos hlt

/-- There is one NaN only. -/
theorem eq_notANumber {x : Number} (h : shape x = .nan) : x = notANumber := by
  have hlt : infiniteBits < x.toBits.toNat % 2 ^ 63 := by
    refine Nat.lt_of_not_le fun hle => ?_
    unfold shape at h
    dsimp only at h
    rw [if_neg (Nat.not_lt.2 hle)] at h
    split at h
    · nomatch h
    · split at h <;> nomatch h
  have hinf : infiniteBits = 2047 * 2 ^ 52 := rfl
  have he := toNat_exponentPart x.toBits.toBitVec
  have hm := toNat_mantissaPart x.toBits.toBitVec
  rw [UInt64.toNat_toBitVec] at he hm
  have hbits : x.toBits.toBitVec = packedNaN .binary64 := by
    refine x.toModel.valid.eq_packedNaN ?_ fun hzero => ?_
    · apply BitVec.eq_of_toNat_eq
      show (@unpackExponent .binary64 x.toBits.toBitVec).toNat = 2047
      omega
    · have hzero' : (@unpackMantissa .binary64 x.toBits.toBitVec).toNat = 0 :=
        congrArg BitVec.toNat hzero
      omega
  have hnat : x.toBits.toNat = infiniteBits + 2 ^ 51 := congrArg BitVec.toNat hbits
  rw [eq_ofMagnitude_bits x, hnat]
  rfl

end Parlance.Number
