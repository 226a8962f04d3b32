import Mathlib
import EnvSettings.Decimal.Shortest
import EnvSettings.Proofs.Number

namespace EnvSettings.Number

open Float.Model (Format UnpackedFloat totalExponent)
open Float.Model.UnpackedFloat

variable {s t : Sign} {x y : UnpackedFloat} {m n k : ℕ} {e : ℤ}

/-- Zero, no number, or a float with the sign. -/
inductive OnSide (s : Sign) : UnpackedFloat → Prop
  | notANumber : OnSide s .notANumber
  | zero (s' : Sign) : OnSide s (.zero s')
  | infinity : OnSide s (.infinity s)
  | finite {m : ℕ} {e : ℤ} {hm : 0 < m} : OnSide s (.finite s m e hm)

theorem onSide_unpack {b : BitVec Format.binary64.numBits}
    (hsign : unpackSign b = s.toBitVec) : OnSide s (unpack .binary64 b) := by
  have hs : Sign.ofBitVec (unpackSign b) = s := by rw [hsign, Sign.ofBitVec_toBitVec]
  simp only [unpack, hs]
  split
  · split
    · exact .infinity
    · exact .notANumber
  · split
    · split
      · exact .zero s
      · exact .finite
    · exact .finite

theorem OnSide.unpack_pack (hx : OnSide s x) : OnSide s (unpack .binary64 (pack .binary64 x)) := by
  cases hx with
  | notANumber =>
    rw [pack, unpack_packedNaN]
    exact .notANumber
  | zero s' =>
    rw [pack, unpack_packedZero]
    exact .zero s'
  | infinity => exact onSide_unpack (unpackSign_packComponents _ _ _)
  | finite =>
    refine onSide_unpack ?_
    simp only [pack]
    split
    · exact unpackSign_packComponents _ _ _
    · split <;> exact unpackSign_packComponents _ _ _

theorem onSide_roundWithAccuracy (s : Sign) (m : ℕ) (e : ℤ) (a : Accuracy) :
    OnSide s (roundWithAccuracy .binary64 s m e a) := by
  simp only [roundWithAccuracy]
  split
  · exact .zero s
  · exact .finite

/-- A number is normalized to a float on its side. -/
theorem onSide_normalize {m : ℤ} (hm : 0 ≤ s.apply m) (e : ℤ) (s' : Sign) :
    OnSide s (normalize .binary64 m e s') := by
  rw [UnpackedFloat.normalize]
  split
  · rename_i hlt
    rw [Int.compare_eq_lt] at hlt
    cases s with
    | negative => exact onSide_roundWithAccuracy _ _ _ _
    | positive => exact absurd hm (not_le.2 hlt)
  · exact .zero s'
  · rename_i hgt
    rw [Int.compare_eq_gt] at hgt
    cases s with
    | negative => exact absurd (Int.neg_nonneg.1 hm) (not_le.2 hgt)
    | positive => exact onSide_roundWithAccuracy _ _ _ _

/-- The product is on the side of the product of the signs. -/
theorem OnSide.mul (hx : OnSide s x) (hy : OnSide t y) :
    OnSide (s * t) (UnpackedFloat.mul .binary64 x y) := by
  cases hx <;> cases hy
  all_goals first
    | exact .notANumber
    | exact .zero _
    | exact .infinity
    | exact onSide_roundWithAccuracy _ _ _ _

theorem apply_add_nonneg (s : Sign) (m n : ℕ) : 0 ≤ s.apply (s.apply m + s.apply n) := by
  cases s <;> simp only [Sign.apply] <;> omega

/-- A sum stays on the side that both summands are on. -/
theorem OnSide.add (hx : OnSide s x) (hy : OnSide s y) :
    OnSide s (UnpackedFloat.add .binary64 x y) := by
  cases hx with
  | notANumber => exact .notANumber
  | zero s₁ =>
    cases hy with
    | notANumber => exact .notANumber
    | zero s₂ =>
      rw [UnpackedFloat.add]
      split <;> exact .zero _
    | infinity => exact .infinity
    | finite => exact .finite
  | infinity =>
    cases hy with
    | notANumber => exact .notANumber
    | infinity =>
      rw [UnpackedFloat.add, if_pos (by simp)]
      exact .infinity
    | zero | finite => exact .infinity
  | finite =>
    cases hy with
    | notANumber => exact .notANumber
    | zero => exact .finite
    | infinity => exact .infinity
    | finite =>
      exact onSide_normalize (apply_add_nonneg s _ _) _ _

/-- An infinity, or a float of full precision that is no closer to zero than `n`. -/
inductive Beyond (s : Sign) (n : ℕ) : UnpackedFloat → Prop
  | infinity : Beyond s n (.infinity s)
  | finite {m : ℕ} {e : ℤ} {hm : 0 < m} (hfull : 2 ^ 52 ≤ m) (hbits : m < 2 ^ 53)
    (hle : n.log2 - 52 < e ∨ e = n.log2 - 52 ∧ n * 2 ^ (52 - n.log2) ≤ m) :
    Beyond s n (.finite s m e hm)

theorem log2_of_full (hfull : 2 ^ 52 ≤ m) (hbits : m < 2 ^ 53) : m.log2 = 52 :=
  (Nat.log2_eq_iff (by omega)).2 ⟨hfull, hbits⟩

theorem Beyond.neg (hx : Beyond s n x) : Beyond (-s) n x.neg := by
  cases hx with
  | infinity => exact .infinity
  | finite hfull hbits hle => exact .finite hfull hbits hle

/-- The parts of a normal float are unpacked from its bits. -/
theorem unpack_packComponents (s : Sign) {exponent : BitVec 11} (mantissa : BitVec 52)
    (hsome : exponent ≠ -1#11) (hzero : exponent ≠ 0#11) :
    ∃ hm, unpack .binary64 (packComponents .binary64 s exponent mantissa) =
      .finite s (2 ^ 52 + mantissa.toNat) (exponent.toNat - 1075) hm := by
  have hmantissa : (1#1 ++ mantissa).toNat = 2 ^ 52 + mantissa.toNat := by
    rw [BitVec.toNat_append, ← Nat.shiftLeft_add_eq_or_of_lt mantissa.isLt]
    rfl
  refine ⟨by positivity, ?_⟩
  simp only [unpack, unpackExponent_packComponents, unpackMantissa_packComponents,
    unpackSign_packComponents, Sign.ofBitVec_toBitVec, if_neg hsome, if_neg hzero, hmantissa,
    exponentBias_binary64]
  rfl

theorem unpack_packedInfinity (s : Sign) :
    unpack .binary64 (packedInfinity .binary64 s) = .infinity s := by
  cases s <;> rfl

theorem Beyond.unpack_pack (hx : Beyond s n x) :
    Beyond s n (unpack .binary64 (pack .binary64 x)) := by
  cases hx with
  | infinity =>
    rw [pack, unpack_packedInfinity]
    exact .infinity
  | @finite m e hm hfull hbits hle =>
    simp only [pack, exponentBias_binary64]
    split
    · rw [unpack_packedInfinity]
      exact .infinity
    · rename_i htop
      rw [if_pos (by rw [log2_of_full hfull hbits]; rfl)]
      have hexponent : (BitVec.ofNat 11 (e + (1023 : ℕ) + (52 : ℕ)).toNat).toNat =
          (e + 1075).toNat := by
        rw [BitVec.toNat_ofNat]
        omega
      have hsome : BitVec.ofNat 11 (e + (1023 : ℕ) + (52 : ℕ)).toNat ≠ -1#11 := fun heq => by
        rw [heq] at hexponent
        have hgreatest : 2047 = (e + 1075).toNat := hexponent
        omega
      have hzero : BitVec.ofNat 11 (e + (1023 : ℕ) + (52 : ℕ)).toNat ≠ 0#11 := fun heq => by
        rw [heq] at hexponent
        have hleast : 0 = (e + 1075).toNat := hexponent
        omega
      have hmantissa : 2 ^ 52 + (BitVec.ofNat 52 m).toNat = m := by
        rw [BitVec.toNat_ofNat]
        omega
      obtain ⟨hm', hunpack⟩ := unpack_packComponents s (BitVec.ofNat 52 m) hsome hzero
      rw [hunpack]
      refine .finite (by omega) (by omega) ?_
      rw [hexponent, hmantissa]
      omega

theorem mantissa_shiftRight (em : ExtendedMantissa) (k : ℕ) :
    (em >>> k).mantissa = em.mantissa / 2 ^ k := by
  change (Nat.repeat ExtendedMantissa.shiftRightOne k em).mantissa = _
  induction k with
  | zero => exact (Nat.div_one _).symm
  | succ k ih =>
    rw [pow_succ, ← Nat.div_div_eq_div_mul, ← ih]
    rfl

theorem le_roundedMantissa (em : ExtendedMantissa) : em.mantissa ≤ em.roundedMantissa := by
  rw [ExtendedMantissa.roundedMantissa]
  unfold Accuracy.roundToNearestEven
  split <;> omega

/-- A mantissa with at least the bits of full precision is cut down to them. -/
theorem shiftToTargetExponent_of_full (hlog : m.log2 = 52 + k) (he : -1074 ≤ e + k) :
    shiftToTargetExponent .binary64 m e .exact =
      (ExtendedMantissa.ofMantissaAndAccuracy m .exact >>> k, e + k) := by
  have htarget : Format.targetExponent .binary64 (totalExponent m e) = e + k := by
    simp only [Format.targetExponent, totalExponent, Format.mantissaBits, Format.minExponent, hlog]
    omega
  have hshift : (e + k - e).toNat = k := by omega
  simp only [shiftToTargetExponent, shiftToExponent, htarget, hshift]

/-- Rounding a mantissa with the bits of full precision does not bring the float closer to zero
than cutting its last bits off does. -/
theorem beyond_roundWithAccuracy (s : Sign) (hlog : m.log2 = 52 + k)
    (hle : n.log2 < 52 + k + e ∨ 52 + k + e = n.log2 ∧ n * 2 ^ (52 - n.log2) ≤ m / 2 ^ k) :
    Beyond s n (roundWithAccuracy .binary64 s m e .exact) := by
  have hm : m ≠ 0 := by
    rintro rfl
    simp at hlog
    omega
  obtain ⟨hlow, hhigh⟩ := (Nat.log2_eq_iff hm).1 hlog
  have hcut : 2 ^ 52 ≤ m / 2 ^ k ∧ m / 2 ^ k < 2 ^ 53 := by
    rw [Nat.le_div_iff_mul_le (by positivity), Nat.div_lt_iff_lt_mul (by positivity), ← pow_add,
      ← pow_add]
    exact ⟨hlow, hhigh.trans_eq (by ring)⟩
  have hround := le_roundedMantissa (ExtendedMantissa.ofMantissaAndAccuracy m .exact >>> k)
  have hround' := roundedMantissa_le (ExtendedMantissa.ofMantissaAndAccuracy m .exact >>> k)
  rw [mantissa_shiftRight, mantissa_ofMantissaAndAccuracy] at hround hround'
  simp only [roundWithAccuracy]
  rw [shiftToTargetExponent_of_full hlog (by omega)]
  dsimp only
  generalize (ExtendedMantissa.ofMantissaAndAccuracy m .exact >>> k).roundedMantissa = r
    at hround hround'
  -- Rounding up may carry into a further bit, which the second shift cuts off again.
  have hlast : ∃ j, r.log2 = 52 + j ∧ 2 ^ 52 ≤ r / 2 ^ j ∧ r / 2 ^ j < 2 ^ 53 ∧
      (j = 0 ∨ j = 1) := by
    obtain hlt | rfl : r < 2 ^ 53 ∨ r = 2 ^ 53 := by omega
    · exact ⟨0, log2_of_full (by omega) hlt, by omega, by omega, .inl rfl⟩
    · exact ⟨1, by decide, by decide, by decide, .inr rfl⟩
  obtain ⟨j, hlog', hfull, hbits, hj⟩ := hlast
  rw [shiftToTargetExponent_of_full hlog' (by omega)]
  dsimp only
  split
  · rename_i hzero
    rw [mantissa_shiftRight, mantissa_ofMantissaAndAccuracy] at hzero
    omega
  · refine .finite ?_ ?_ ?_ <;> rw [mantissa_shiftRight, mantissa_ofMantissaAndAccuracy]
    · exact hfull
    · exact hbits
    · obtain rfl | rfl := hj
      · rw [pow_zero, Nat.div_one]
        omega
      · omega

theorem log2_mul_two_pow (hm : m ≠ 0) (k : ℕ) : (m * 2 ^ k).log2 = m.log2 + k := by
  obtain ⟨hlow, hhigh⟩ := (Nat.log2_eq_iff hm).1 rfl
  refine (Nat.log2_eq_iff (mul_ne_zero hm (by positivity))).2 ⟨?_, ?_⟩
  · rw [pow_add]
    exact Nat.mul_le_mul_right _ hlow
  · rw [add_right_comm, pow_add]
    exact Nat.mul_lt_mul_of_pos_right hhigh (by positivity)

/-- A factor of one keeps a float beyond a number. -/
theorem Beyond.mul_one (hx : Beyond .positive n x) :
    Beyond .positive n (UnpackedFloat.mul .binary64 x
      (Float.ofBits 0x3FF0000000000000).toModel.unpack) := by
  have hone : (Float.ofBits 0x3FF0000000000000).toModel.unpack =
      .finite .positive (2 ^ 52) (-52) (by positivity) := rfl
  rw [hone]
  cases hx with
  | infinity => exact .infinity
  | @finite m e hm hfull hbits hle =>
    refine beyond_roundWithAccuracy .positive (k := 52) ?_ ?_
    · rw [log2_mul_two_pow (by omega), log2_of_full hfull hbits]
    · rw [Nat.mul_div_cancel _ (by positivity)]
      omega

/-- A word of at most 53 bits is converted to a float not less than it. -/
theorem beyond_toFloat {i : UInt64} (hn : 0 < n) (hle : n ≤ i.toNat) (hi : i.toNat < 2 ^ 53) :
    Beyond .positive n i.toFloat.toModel.unpack := by
  suffices h : Beyond .positive n (normalize .binary64 i.toNat 0 .positive) from h.unpack_pack
  have hlog : i.toNat.log2 ≤ 52 := Nat.lt_succ_iff.1 ((Nat.log2_lt (by omega)).2 hi)
  have hmono : n.log2 ≤ i.toNat.log2 :=
    (Nat.le_log2 (by omega)).2 ((Nat.log2_self_le (by omega)).trans hle)
  have htarget : Format.targetExponent .binary64 (totalExponent i.toNat 0) = i.toNat.log2 - 52 := by
    simp only [Format.targetExponent, totalExponent, Format.mantissaBits, Format.minExponent]
    omega
  have hshift : (0 - ((i.toNat.log2 : ℤ) - 52)).toNat = 52 - i.toNat.log2 := by omega
  rw [UnpackedFloat.normalize]
  split
  · rename_i hlt
    rw [Int.compare_eq_lt] at hlt
    omega
  · rename_i heq
    rw [Int.compare_eq_eq] at heq
    omega
  · simp only [UnpackedFloat.round, decreaseExponent, Int.toNat_natCast, htarget, hshift,
      Nat.shiftLeft_eq]
    refine beyond_roundWithAccuracy .positive (k := 0) ?_ ?_
    · rw [log2_mul_two_pow (by omega)]
      omega
    · rw [pow_zero, Nat.div_one]
      obtain hlt | heq := hmono.lt_or_eq
      · omega
      · rw [heq]
        exact .inr ⟨by omega, Nat.mul_le_mul_right _ hle⟩

/-- A large integer is converted to a float beyond all small ones. -/
theorem beyond_ofScientific (hn : 0 < n) (hsmall : n < 2 ^ 53) (hk : 2 ^ 53 ≤ k) :
    Beyond .positive n (UnpackedFloat.ofScientific .binary64 k 0) := by
  have hlow : ¬ (0 : ℤ) < -(2 ^ Format.exponentBits .binary64 + k.log2) := by
    have hpos : (0 : ℤ) ≤ 2 ^ Format.exponentBits .binary64 := by decide
    omega
  have hlog : 53 ≤ k.log2 := (Nat.le_log2 (by omega)).2 hk
  have hlog' : n.log2 < 53 := (Nat.log2_lt (by omega)).2 hsmall
  have hmantissa : k <<< Format.mantissaBits .binary64 * 10 ^ Int.toNat 0 = k * 2 ^ 53 := by
    rw [Int.toNat_zero, pow_zero, Nat.mul_one, Nat.shiftLeft_eq]
    rfl
  have hexponent : -(Format.mantissaBits .binary64 : ℤ) + 0 = -53 := rfl
  rw [UnpackedFloat.ofScientific, dif_neg (by omega), if_neg (by decide), if_neg hlow,
    if_pos le_rfl, UnpackedFloat.mul, hmantissa, hexponent]
  refine beyond_roundWithAccuracy .positive (k := k.log2 + 1) ?_ (.inl (by omega))
  rw [log2_mul_two_pow (by omega)]
  omega

/-- A natural number from `n` on is no closer to zero than `n` as a float. -/
theorem beyond_ofNat (hn : 0 < n) (hle : n ≤ k) (hsmall : n < 2 ^ 53) :
    Beyond .positive n (Float.ofNat k).toModel.unpack := by
  change Beyond .positive n (Float.ofScientific k false 0).toModel.unpack
  rw [Float.ofScientific]
  split
  · rename_i hk
    have hnat : k.toUInt64.toNat = k := by
      rw [Nat.toUInt64_eq, UInt64.toNat_ofNat']
      exact Nat.mod_eq_of_lt (by omega)
    exact (beyond_toFloat hn (by omega) (by omega)).mul_one.unpack_pack
  · exact (beyond_ofScientific hn hsmall (by omega)).unpack_pack

/-- An integer without a sign is converted to a float without one. -/
theorem onSide_ofScientific (k : ℕ) :
    OnSide .positive (UnpackedFloat.ofScientific .binary64 k 0) := by
  rw [UnpackedFloat.ofScientific]
  split_ifs
  · exact .zero _
  · exact .infinity
  · exact .zero _
  · exact (OnSide.mul .finite .finite : OnSide (.positive * .positive) _)
  · contradiction

/-- A natural number is converted to a float without a sign. -/
theorem onSide_ofNat (k : ℕ) : OnSide .positive (Float.ofNat k).toModel.unpack := by
  change OnSide .positive (Float.ofScientific k false 0).toModel.unpack
  have hone : OnSide .positive (Float.ofBits 0x3FF0000000000000).toModel.unpack := .finite
  rw [Float.ofScientific]
  split
  · have hfloat : OnSide .positive k.toUInt64.toFloat.toModel.unpack :=
      OnSide.unpack_pack (onSide_normalize (Int.natCast_nonneg _) _ _)
    exact (hfloat.mul hone).unpack_pack
  · exact (onSide_ofScientific k).unpack_pack

/-- The float with the bits to full precision that a natural number is. -/
def full (n : ℕ) (hn : 0 < n) : UnpackedFloat :=
  .finite .positive (n * 2 ^ (52 - n.log2)) (n.log2 - 52) (by positivity)

/-- Brought to one exponent, a full mantissa is not less than one with a lower exponent. -/
theorem shiftLeft_le_shiftLeft {m' : ℕ} {e' : ℤ} (hfull : 2 ^ 52 ≤ m) (hbits : m' < 2 ^ 53)
    (hle : e' < e ∨ e' = e ∧ m' ≤ m) :
    m' <<< (e' - min e e').toNat ≤ m <<< (e - min e e').toNat := by
  obtain ⟨j, rfl⟩ : ∃ j : ℕ, e = e' + j := ⟨(e - e').toNat, by omega⟩
  have hshift : (e' - min (e' + j) e').toNat = 0 ∧ (e' + j - min (e' + j) e').toNat = j := by omega
  rw [hshift.1, hshift.2, Nat.shiftLeft_zero, Nat.shiftLeft_eq]
  cases j with
  | zero => omega
  | succ j =>
    rw [pow_succ]
    nlinarith [Nat.one_le_two_pow (n := j)]

theorem mantissa_lt_of_unpack {b : BitVec Format.binary64.numBits} {hm : 0 < m}
    (hunpack : unpack .binary64 b = .finite s m e hm) : m < 2 ^ 53 := by
  by_cases hexp : unpackExponent b = -1#11
  · simp only [unpack, if_pos hexp] at hunpack
    split at hunpack <;> cases hunpack
  · have hfits := fits_unpack hexp
    rw [hunpack] at hfits
    cases hfits
    assumption

/-- A negative float from `-n` on down outweighs a positive one below `n`. -/
theorem Beyond.add {hn : 0 < n} (hx : Beyond .negative n x) (hy : OnSide .positive y)
    (hbits : ∀ m e hm, y = .finite .positive m e hm → m < 2 ^ 53) (hlt : y.lt (full n hn)) :
    OnSide .negative (UnpackedFloat.add .binary64 x y) := by
  cases hx with
  | infinity =>
    cases hy with
    | notANumber => exact .notANumber
    | infinity => cases hlt
    | zero | finite => exact .infinity
  | @finite m e hm hfull _ hle =>
    cases hy with
    | notANumber => exact .notANumber
    | zero => exact .finite
    | infinity => cases hlt
    | @finite m' e' hm' =>
      have hlex := beq_iff_eq.1 hlt
      rw [full, UnpackedFloat.compare, Option.some.injEq, Ordering.then_eq_lt, Int.compare_eq_lt,
        Int.compare_eq_eq, Nat.compare_eq_lt] at hlex
      have hshift : m' <<< (e' - min e e').toNat ≤ m <<< (e - min e e').toNat :=
        shiftLeft_le_shiftLeft hfull (hbits m' e' hm' rfl) (by omega)
      refine onSide_normalize ?_ _ _
      simp only [Sign.apply]
      omega

/-- The sign that the sign bit stands for. -/
def signOf (negative : Bool) : Sign :=
  if negative then .negative else .positive

theorem ofBitVec_unpackSign (b : BitVec Format.binary64.numBits) :
    Sign.ofBitVec (unpackSign b) = signOf (b.toNat.testBit 63) := by
  have hbit : unpackSign b = if b.toNat.testBit 63 then 1#1 else 0#1 := by
    rw [unpackSign_def, ← BitVec.toNat_inj, BitVec.extractLsb'_toNat]
    simp [Nat.testBit, Nat.shiftRight_eq_div_pow]
    split <;> simp_all
  rw [hbit, signOf]
  split <;> rfl

/-- A float that is decoded has the sign of its side, or is zero. -/
theorem OnSide.eq_of_ofBits {b : BitVec Format.binary64.numBits} {negative : Bool}
    (hf : OnSide s (unpack .binary64 b))
    (hdecoded : Decimal.Decoded.ofBits b.toNat = .finite negative m e) :
    m = 0 ∨ s = signOf negative := by
  have hexponent : (unpackExponent b).toNat = (b.toNat >>> 52) % 0x800 := by
    rw [unpackExponent_def, BitVec.extractLsb'_toNat]
    rfl
  have hmantissa : (unpackMantissa b).toNat = b.toNat % (1 <<< 52) := by
    rw [unpackMantissa_def, BitVec.extractLsb'_toNat]
    rfl
  simp only [Decimal.Decoded.ofBits, ← hexponent, ← hmantissa] at hdecoded
  simp only [unpack, ofBitVec_unpackSign] at hf
  split at hdecoded
  · split at hdecoded <;> cases hdecoded
  · rename_i hsome
    rw [if_neg fun heq => hsome (congrArg BitVec.toNat heq)] at hf
    split at hdecoded
    · rename_i hzero
      obtain ⟨rfl, rfl, rfl⟩ := Decimal.Decoded.finite.inj hdecoded
      rw [if_pos (BitVec.toNat_inj.1 hzero)] at hf
      split at hf
      · rename_i hnone
        exact .inl (congrArg BitVec.toNat hnone)
      · cases hf
        exact .inr rfl
    · rename_i hzero
      obtain ⟨rfl, rfl, rfl⟩ := Decimal.Decoded.finite.inj hdecoded
      rw [if_neg fun heq => hzero (congrArg BitVec.toNat heq)] at hf
      cases hf
      exact .inr rfl

/-- A float other than zero that is on a side has its sign bit set for that side. -/
theorem OnSide.eq_of_ofFloat {f : Float} {negative : Bool} (hf : OnSide s f.toModel.unpack)
    (hdecoded : Decimal.Decoded.ofFloat f = .finite negative m e) : m = 0 ∨ s = signOf negative :=
  hf.eq_of_ofBits hdecoded

end EnvSettings.Number
