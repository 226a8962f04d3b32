import Mathlib
import EnvSettings.Number

namespace EnvSettings.Number

open Float.Model (Format UnpackedFloat totalExponent)
open Float.Model.UnpackedFloat

/-- Zero, or a finite float with a mantissa of so many bits at most and a bounded exponent. -/
inductive Fits (bits : ℕ) (top : ℤ) : UnpackedFloat → Prop
  | zero (s : Sign) : Fits bits top (.zero s)
  | finite {s : Sign} {m : ℕ} {e : ℤ} {hm : 0 < m} (hbits : m < 2 ^ bits) (htop : e ≤ top) :
    Fits bits top (.finite s m e hm)

variable {bits bits' m : ℕ} {top top' e : ℤ} {x y : UnpackedFloat}

/-- What fits below an exponent fits below a larger one. -/
theorem Fits.mono (hx : Fits bits top x) (htop : top ≤ top') : Fits bits top' x := by
  cases hx with
  | zero s => exact .zero s
  | finite hm he => exact .finite hm (he.trans htop)

theorem Fits.neg (hx : Fits bits top x) : Fits bits top x.neg := by
  cases hx with
  | zero s => exact .zero _
  | finite hm he => exact .finite hm he

/-- A shift to the right does not increase a mantissa. -/
theorem mantissa_shiftRight_le (em : ExtendedMantissa) (n : ℕ) :
    (em >>> n).mantissa ≤ em.mantissa := by
  change (Nat.repeat ExtendedMantissa.shiftRightOne n em).mantissa ≤ _
  induction n with
  | zero => exact le_rfl
  | succ n ih => exact (Nat.div_le_self _ 2).trans ih

theorem roundedMantissa_le (em : ExtendedMantissa) : em.roundedMantissa ≤ em.mantissa + 1 := by
  rw [ExtendedMantissa.roundedMantissa]
  unfold Accuracy.roundToNearestEven
  split <;> omega

theorem mantissa_ofMantissaAndAccuracy (m : ℕ) (a : Accuracy) :
    (ExtendedMantissa.ofMantissaAndAccuracy m a).mantissa = m := by
  unfold ExtendedMantissa.ofMantissaAndAccuracy
  split <;> rfl

/-- The total exponent is bounded by the bits of the mantissa. -/
theorem totalExponent_le (hm : m < 2 ^ bits) : totalExponent m e ≤ e + bits + 1 := by
  have hlog : m.log2 ≤ bits := by
    by_cases hzero : m = 0
    · simp [hzero]
    · exact ((Nat.log2_lt hzero).2 hm).le
  rw [totalExponent]
  omega

/-- A mantissa that is shifted to its exponent is not larger than before, nor is its exponent. -/
theorem shiftToTargetExponent_le (hm : m < 2 ^ bits) (a : Accuracy) :
    (shiftToTargetExponent .binary64 m e a).1.mantissa ≤ m ∧
      (shiftToTargetExponent .binary64 m e a).2 ≤ max (e + bits) (-1074) := by
  refine ⟨(mantissa_shiftRight_le _ _).trans_eq (mantissa_ofMantissaAndAccuracy m a), ?_⟩
  have htotal := totalExponent_le (e := e) hm
  simp only [shiftToTargetExponent, shiftToExponent, Format.targetExponent, Format.mantissaBits,
    Format.minExponent]
  omega

/-- Rounding adds a bit at most, and shifts the mantissa twice at most. -/
theorem fits_roundWithAccuracy (hm : m < 2 ^ bits) (htop : e + 2 * bits + 1 ≤ top)
    (hlow : bits - 1073 ≤ top) (s : Sign) (a : Accuracy) :
    Fits (bits + 1) top (roundWithAccuracy .binary64 s m e a) := by
  obtain ⟨hm₁, he₁⟩ := shiftToTargetExponent_le (e := e) hm a
  have hround := roundedMantissa_le (shiftToTargetExponent .binary64 m e a).1
  have hlt : (shiftToTargetExponent .binary64 m e a).1.roundedMantissa < 2 ^ (bits + 1) := by
    rw [pow_succ]
    omega
  obtain ⟨hm₂, he₂⟩ :=
    shiftToTargetExponent_le (e := (shiftToTargetExponent .binary64 m e a).2) hlt .exact
  push_cast at he₂
  simp only [roundWithAccuracy]
  split
  · exact .zero s
  · exact .finite (by omega) (by omega)

/-- A word without a sign is rounded to a float in range. -/
theorem fits_round (hm : m < 2 ^ 64) (s : Sign) :
    Fits 129 300 (round .binary64 s m 0) := by
  have hshift : (0 - Format.targetExponent .binary64 (totalExponent m 0)).toNat ≤ 64 := by
    simp only [Format.targetExponent, totalExponent, Format.mantissaBits]
    omega
  have hlt : m <<< (0 - Format.targetExponent .binary64 (totalExponent m 0)).toNat < 2 ^ 128 := by
    rw [Nat.shiftLeft_eq, show (2 : ℕ) ^ 128 = 2 ^ 64 * 2 ^ 64 from rfl]
    exact Nat.mul_lt_mul_of_lt_of_le hm (Nat.pow_le_pow_right (by decide) hshift) (by positivity)
  exact fits_roundWithAccuracy hlt (by omega) (by decide) s .exact

/-- The product of floats in range is in range, with the sum of their bits. -/
theorem Fits.mul (hx : Fits bits top x) (hy : Fits bits' top' y) (most : ℤ)
    (htop : top + top' + 2 * (bits + bits') + 1 ≤ most) (hlow : bits + bits' - 1073 ≤ most) :
    Fits (bits + bits' + 1) most (mul .binary64 x y) := by
  cases hx with
  | zero s => cases hy <;> exact .zero _
  | finite hm he =>
    cases hy with
    | zero s => exact .zero _
    | finite hm' he' =>
      refine fits_roundWithAccuracy ?_ (by push_cast; omega) (by push_cast; exact hlow) _ _
      rw [pow_add]
      exact Nat.mul_lt_mul_of_lt_of_lt hm hm'

theorem exponentBias_binary64 : Format.binary64.exponentBias = 1023 := by
  decide

/-- Only the greatest exponent stands for infinity or no number. -/
theorem fits_unpack {b : BitVec Format.binary64.numBits} (hexp : unpackExponent b ≠ -1#11) :
    Fits 53 (max (unpackExponent b).toNat 1 - 1075) (unpack .binary64 b) := by
  simp only [unpack, if_neg hexp, exponentBias_binary64]
  split
  · rename_i hzero
    split
    · exact .zero _
    · exact .finite ((unpackMantissa b).isLt.trans (by decide)) (by simp [hzero])
  · refine .finite (1#1 ++ unpackMantissa b).isLt ?_
    push_cast
    omega

/-- The packed exponent is the true one with the bias, or zero. -/
theorem Fits.unpackExponent_pack (hx : Fits bits top x) (hhigh : top ≤ 971) :
    ((unpackExponent (pack .binary64 x)).toNat : ℤ) ≤ max (top + 1075) 0 := by
  cases hx with
  | zero s =>
    rw [pack, packedZero, unpackExponent_packComponents]
    exact le_max_right _ _
  | finite hm he =>
    simp only [pack, exponentBias_binary64]
    rw [if_neg (by push_cast; omega)]
    split
    · rw [unpackExponent_packComponents, BitVec.toNat_ofNat]
      refine (Int.ofNat_le.2 (Nat.mod_le _ _)).trans ?_
      push_cast
      omega
    · rw [unpackExponent_packComponents]
      exact le_max_right _ _

/-- A float whose exponent is not too great survives packing. -/
theorem Fits.unpack_pack (hx : Fits bits top x) (hlow : -1074 ≤ top) (hhigh : top ≤ 971) :
    Fits 53 top (unpack .binary64 (pack .binary64 x)) := by
  have hexp := hx.unpackExponent_pack hhigh
  have hne : unpackExponent (pack .binary64 x) ≠ -1#11 := by
    intro heq
    rw [heq] at hexp
    have hgreatest : (2047 : ℤ) ≤ max (top + 1075) 0 := hexp
    omega
  exact (fits_unpack hne).mono (by omega)

theorem isFinite_of_fits {x : Float} (hx : Fits bits top x.toModel.unpack) : x.isFinite := by
  change x.toModel.unpack.isFinite
  generalize x.toModel.unpack = y at hx
  cases hx <;> rfl

theorem fits_one : Fits 53 (-52) (Float.ofBits 0x3FF0000000000000).toModel.unpack :=
  fits_unpack (b := 0x3FF0000000000000#64) (by decide)

/-- A word without a sign is converted to a float in range. -/
theorem fits_toFloat (n : UInt64) : Fits 53 300 n.toFloat.toModel.unpack := by
  suffices h : Fits 129 300 (normalize .binary64 n.toNat 0 .positive) from
    h.unpack_pack (by decide) (by decide)
  rw [UnpackedFloat.normalize]
  split
  · have hn := n.toNat_lt
    exact fits_round (by omega) _
  · exact .zero _
  · exact fits_round n.toNat_lt _

/-- A decimal integer that fits 64 bits is converted to a float in range. -/
theorem fits_ofScientific {n : ℕ} (hn : n < 2 ^ 64) :
    Fits 122 900 (UnpackedFloat.ofScientific .binary64 n 0) := by
  have hsmall : ¬ (0 : ℤ) < -(2 ^ Format.exponentBits .binary64 + n.log2) := by
    have hpos : (0 : ℤ) ≤ 2 ^ Format.exponentBits .binary64 := by decide
    omega
  have hn' : n <<< Format.mantissaBits .binary64 < 2 ^ 117 := by
    rw [Nat.shiftLeft_eq, show (2 : ℕ) ^ 117 = 2 ^ 64 * 2 ^ 53 from rfl]
    exact Nat.mul_lt_mul_of_pos_right hn (by decide)
  rw [UnpackedFloat.ofScientific]
  by_cases hzero : n = 0
  · rw [dif_pos hzero]
    exact .zero _
  · rw [dif_neg hzero, if_neg (by decide), if_neg hsmall, if_pos le_rfl]
    generalize_proofs hleft hright
    have hshifted : Fits 117 (-53) (.finite .positive _ (-Format.mantissaBits .binary64) hleft) :=
      .finite hn' le_rfl
    have hone : Fits 4 0 (.finite .positive (10 ^ (0 : ℤ).toNat) 0 hright) :=
      .finite (by decide) le_rfl
    exact hshifted.mul hone 900 (by decide) (by decide)

/-- A natural number that fits 64 bits is converted to a float in range. -/
theorem fits_ofNat {n : ℕ} (hn : n < 2 ^ 64) : Fits 53 900 (Float.ofNat n).toModel.unpack := by
  change Fits 53 900 (Float.ofScientific n false 0).toModel.unpack
  rw [Float.ofScientific]
  split
  · have hmul := (fits_toFloat n.toUInt64).mul fits_one 900 (by decide) (by decide)
    exact hmul.unpack_pack (by decide) (by decide)
  · exact (fits_ofScientific hn).unpack_pack (by decide) (by decide)

/-- An integer that fits 64 bits is a finite float. -/
theorem isFinite_ofInt (n : Int64) : (Float.ofInt n.toInt).isFinite := by
  have hlow := Int64.le_toInt n
  have hhigh := Int64.toInt_lt n
  generalize n.toInt = i at hlow hhigh
  cases i with
  | ofNat k =>
    have hk : k < 2 ^ 64 := by
      simp only [Int.ofNat_eq_natCast] at hhigh
      omega
    exact isFinite_of_fits (fits_ofNat hk)
  | negSucc k =>
    have hk : k + 1 < 2 ^ 64 := by omega
    exact isFinite_of_fits ((fits_ofNat hk).neg.unpack_pack (by decide) (by decide))

end EnvSettings.Number
