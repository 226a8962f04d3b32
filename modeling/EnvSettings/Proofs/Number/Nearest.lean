import Mathlib
import EnvSettings.Decimal.Reader
import EnvSettings.Proofs.Number.Rounding

namespace EnvSettings.Number

open Decimal (Decoded Interval)
open Float.Model (Format UnpackedFloat totalExponent)
open Float.Model.UnpackedFloat

variable {s s' : Sign} {m m' : ℕ} {e e' : ℤ} {v w : ℚ} {x y : Float}

theorem finiteOf_of_pos (s : Sign) (e : ℤ) (hm : 0 < m) : finiteOf s m e = .finite s m e hm :=
  dif_neg hm.ne'

/-- Canonical parts are determined by the float they make. -/
theorem finiteOf_inj (hm : Canonical m e) (hm' : Canonical m' e')
    (heq : finiteOf s m e = finiteOf s' m' e') : s = s' ∧ m = m' ∧ e = e' := by
  have hfull := hm.full
  have hfull' := hm'.full
  simp only [finiteOf] at heq
  split_ifs at heq with hzero hzero'
  · cases heq
    exact ⟨rfl, by omega, by omega⟩
  · cases heq
    exact ⟨rfl, rfl, rfl⟩

/-- Packing keeps canonical parts whose exponent is not too large. -/
theorem unpack_pack_finiteOf (s : Sign) (hm : Canonical m e) (he : e ≤ 971) :
    unpack .binary64 (pack .binary64 (finiteOf s m e)) = finiteOf s m e := by
  have hbits := hm.bits
  have hleast := hm.least
  obtain rfl | hpos := m.eq_zero_or_pos
  · exact unpack_packedZero
  rw [finiteOf_of_pos s e hpos]
  simp only [pack, exponentBias_binary64]
  rw [if_neg (by push_cast; omega)]
  by_cases hnormal : 2 ^ 52 ≤ m
  · rw [if_pos (by rw [log2_of_full hnormal hbits]; rfl)]
    have hexponent : (BitVec.ofNat 11 (e + (1023 : ℕ) + (52 : ℕ)).toNat).toNat =
        (e + 1075).toNat := by
      rw [BitVec.toNat_ofNat]
      omega
    have hsome : BitVec.ofNat 11 (e + (1023 : ℕ) + (52 : ℕ)).toNat ≠ -1#11 := fun heq => by
      rw [heq] at hexponent
      have hgreatest : 2047 = (e + 1075).toNat := hexponent
      omega
    have hzero : BitVec.ofNat 11 (e + (1023 : ℕ) + (52 : ℕ)).toNat ≠ 0#11 := fun heq => by
      rw [heq] at hexponent
      have hleast : 0 = (e + 1075).toNat := hexponent
      omega
    obtain ⟨hm', hunpack⟩ := unpack_packComponents s (BitVec.ofNat 52 m) hsome hzero
    rw [hunpack, UnpackedFloat.finite.injEq, hexponent, BitVec.toNat_ofNat]
    exact ⟨rfl, by omega, by omega⟩
  · have hfull := hm.full
    have hlog : m.log2 < 52 := (Nat.log2_lt hpos.ne').2 (by omega)
    rw [if_neg (by simp only [Format.mantissaBits]; omega)]
    have hmantissa : (BitVec.ofNat 52 m).toNat = m := by
      rw [BitVec.toNat_ofNat]
      omega
    have hne : BitVec.ofNat 52 m ≠ 0#52 := fun heq => by
      rw [heq] at hmantissa
      have hnone : 0 = m := hmantissa
      omega
    simp only [unpack, unpackExponent_packComponents, unpackMantissa_packComponents,
      unpackSign_packComponents, Sign.ofBitVec_toBitVec, exponentBias_binary64]
    rw [if_neg (by decide), if_pos trivial, dif_neg hne, UnpackedFloat.finite.injEq]
    refine ⟨rfl, hmantissa, ?_⟩
    rw [hfull.resolve_left hnormal]
    rfl

/-- Canonical parts with a larger exponent are packed as an infinity. -/
theorem pack_finiteOf_of_lt (s : Sign) (hm : Canonical m e) (he : 971 < e) :
    pack .binary64 (finiteOf s m e) = packedInfinity .binary64 s := by
  have hfull := hm.full
  rw [finiteOf_of_pos s e (by omega)]
  simp only [pack, exponentBias_binary64]
  rw [if_pos (by push_cast; omega)]

/-- What the bits of a float say is what it unpacks to. -/
theorem unpack_eq_decoded (b : BitVec Format.binary64.numBits) :
    match Decoded.ofBits b.toNat with
    | .nan => unpack .binary64 b = .notANumber
    | .infinite negative => unpack .binary64 b = .infinity (signOf negative)
    | .finite negative m e =>
      Canonical m e ∧ e ≤ 971 ∧ unpack .binary64 b = finiteOf (signOf negative) m e := by
  have hexponent : (unpackExponent b).toNat = (b.toNat >>> 52) % 0x800 := by
    rw [unpackExponent_def, BitVec.extractLsb'_toNat]
    rfl
  have hmantissa : (unpackMantissa b).toNat = b.toNat % (1 <<< 52) := by
    rw [unpackMantissa_def, BitVec.extractLsb'_toNat]
    rfl
  have hbits : (unpackMantissa b).toNat < 2 ^ 52 := (unpackMantissa b).isLt
  have hnone : (unpackMantissa b).toNat = 0 ↔ unpackMantissa b = 0#52 :=
    BitVec.toNat_inj (y := 0#52)
  simp only [Decoded.ofBits, ← hexponent, ← hmantissa, unpack, ofBitVec_unpackSign]
  by_cases hsome : unpackExponent b = -1#11
  · have hfield : (unpackExponent b).toNat = 2047 := congrArg BitVec.toNat hsome
    rw [if_pos hsome, if_pos hfield]
    by_cases hzero : unpackMantissa b = 0#52
    · rw [if_pos hzero, if_pos (hnone.2 hzero)]
    · rw [if_neg hzero, if_neg (mt hnone.1 hzero)]
  · have hfield : (unpackExponent b).toNat ≠ 2047 := fun heq => hsome (BitVec.toNat_inj.1 heq)
    have hrange := (unpackExponent b).isLt
    change _ < 2 ^ 11 at hrange
    rw [if_neg hsome, if_neg hfield]
    by_cases hleast : unpackExponent b = 0#11
    · have hfield : (unpackExponent b).toNat = 0 := congrArg BitVec.toNat hleast
      rw [if_pos hleast, if_pos hfield]
      refine ⟨⟨by omega, le_rfl, .inr rfl⟩, by decide, ?_⟩
      by_cases hzero : unpackMantissa b = 0#52
      · rw [dif_pos hzero, finiteOf, dif_pos (hnone.2 hzero)]
      · rw [dif_neg hzero, finiteOf, dif_neg (mt hnone.1 hzero), hfield, exponentBias_binary64]
        rfl
    · have hfield : (unpackExponent b).toNat ≠ 0 := fun heq => hleast (BitVec.toNat_inj.1 heq)
      rw [if_neg hleast, if_neg hfield]
      have happend : (1#1 ++ unpackMantissa b).toNat = (unpackMantissa b).toNat + 1 <<< 52 := by
        rw [BitVec.toNat_append, ← Nat.shiftLeft_add_eq_or_of_lt (unpackMantissa b).isLt, add_comm]
        rfl
      refine ⟨⟨by omega, by omega, .inl (by omega)⟩, by omega, ?_⟩
      rw [finiteOf_of_pos _ _ (by omega), UnpackedFloat.finite.injEq, exponentBias_binary64]
      exact ⟨rfl, happend, rfl⟩

/-- The sign, the mantissa and the exponent of a finite float. -/
structure Parts (x : Float) (s : Sign) (m : ℕ) (e : ℤ) : Prop where
  canonical : Canonical m e
  greatest : e ≤ 971
  unpack_eq : x.toModel.unpack = finiteOf s m e

theorem isFinite_finiteOf (s : Sign) (m : ℕ) (e : ℤ) : (finiteOf s m e).isFinite := by
  rw [finiteOf]
  split <;> rfl

theorem signOf_inj {negative negative' : Bool} (heq : signOf negative = signOf negative') :
    negative = negative' := by
  cases negative <;> cases negative' <;> trivial

/-- A float has parts exactly if its bits say so. -/
theorem parts_iff_decoded {negative : Bool} :
    Parts x (signOf negative) m e ↔ Decoded.ofFloat x = .finite negative m e := by
  have hdecoded := unpack_eq_decoded x.toModel.toBits.toBitVec
  change match Decoded.ofFloat x with
    | .nan => x.toModel.unpack = _
    | .infinite negative => x.toModel.unpack = _
    | .finite negative m e => _ ∧ _ ∧ x.toModel.unpack = _ at hdecoded
  constructor
  · intro hx
    rw [hx.unpack_eq] at hdecoded
    have hfinite := isFinite_finiteOf (signOf negative) m e
    cases hcase : Decoded.ofFloat x with
    | nan | infinite =>
      rw [hcase] at hdecoded
      rw [hdecoded] at hfinite
      cases hfinite
    | finite negative' m' e' =>
      rw [hcase] at hdecoded
      obtain ⟨hsign, rfl, rfl⟩ := finiteOf_inj hx.canonical hdecoded.1 hdecoded.2.2
      rw [signOf_inj hsign]
  · intro hx
    rw [hx] at hdecoded
    exact ⟨hdecoded.1, hdecoded.2.1, hdecoded.2.2⟩

/-- Every finite float has parts. -/
theorem exists_parts_of_isFinite (hx : x.isFinite) :
    ∃ negative m e, Parts x (signOf negative) m e := by
  have hdecoded := unpack_eq_decoded x.toModel.toBits.toBitVec
  change match Decoded.ofFloat x with
    | .nan => x.toModel.unpack = _
    | .infinite negative => x.toModel.unpack = _
    | .finite negative m e => _ at hdecoded
  change x.toModel.unpack.isFinite = true at hx
  cases hcase : Decoded.ofFloat x with
  | nan | infinite =>
    rw [hcase] at hdecoded
    rw [hdecoded] at hx
    cases hx
  | finite negative m e => exact ⟨negative, m, e, parts_iff_decoded.2 hcase⟩

theorem Parts.isFinite (hx : Parts x s m e) : x.isFinite := by
  change x.toModel.unpack.isFinite = true
  rw [hx.unpack_eq]
  exact isFinite_finiteOf s m e

/-- A float is made of its parts. -/
theorem Parts.eq_ofModel (hx : Parts x s m e) : x = .ofModel (.pack (finiteOf s m e)) := by
  rw [← hx.unpack_eq, ← Float.toBits_inj, ← UInt64.toBitVec_inj]
  exact (pack_unpack_of_valid x.toModel.valid).symm

/-- Canonical parts with an exponent in range are those of the float they make. -/
theorem parts_ofModel (s : Sign) (hm : Canonical m e) (he : e ≤ 971) :
    Parts (.ofModel (.pack (finiteOf s m e))) s m e :=
  ⟨hm, he, unpack_pack_finiteOf s hm he⟩

/-- Negation changes the sign of the parts and nothing else. -/
theorem neg_finiteOf (s : Sign) (m : ℕ) (e : ℤ) : (finiteOf s m e).neg = finiteOf (-s) m e := by
  simp only [finiteOf]
  split <;> rfl

/-- The float of the sign that a number rounds to; an infinity if the exponent is too great. -/
def Rounds (s : Sign) (v : ℚ) (x : Float) : Prop :=
  ∃ m e, Canonical m e ∧ (Interval.around m e).Contains v ∧ x = .ofModel (.pack (finiteOf s m e))

/-- A number rounds to one float. -/
theorem Rounds.unique (hx : Rounds s v x) (hy : Rounds s v y) : x = y := by
  obtain ⟨m, e, hm, hv, rfl⟩ := hx
  obtain ⟨m', e', hm', hv', rfl⟩ := hy
  obtain ⟨rfl, rfl⟩ := hm.unique hm' hv hv'
  rfl

/-- A number in the interval of a float rounds to it. -/
theorem Parts.rounds (hx : Parts x s m e) (hv : (Interval.around m e).Contains v) : Rounds s v x :=
  ⟨m, e, hx.canonical, hv, hx.eq_ofModel⟩

/-- What a number in the interval of canonical parts rounds to has these parts. -/
theorem Rounds.parts (hx : Rounds s v x) (hm : Canonical m e) (he : e ≤ 971)
    (hv : (Interval.around m e).Contains v) : Parts x s m e := by
  obtain ⟨m', e', hm', hv', rfl⟩ := hx
  obtain ⟨rfl, rfl⟩ := hm.unique hm' hv hv'
  exact parts_ofModel s hm he

theorem Rounds.neg (hx : Rounds s v x) : Rounds (-s) v (-x) := by
  obtain ⟨m, e, hm, hv, rfl⟩ := hx
  refine ⟨m, e, hm, hv, congrArg Float.ofModel ?_⟩
  change Float.Model.pack (unpack .binary64 (pack .binary64 (finiteOf s m e))).neg = _
  obtain he | he := le_or_gt e 971
  · rw [unpack_pack_finiteOf s hm he, neg_finiteOf]
  · rw [pack_finiteOf_of_lt s hm he, unpack_packedInfinity]
    simp only [Float.Model.pack, Float.Model.mk.injEq, pack_finiteOf_of_lt (-s) hm he]
    rfl

/-- A number that a float has exactly is around the float. -/
theorem contains_self (m : ℕ) (e : ℤ) : (Interval.around m e).Contains (m * 2 ^ e) := by
  have hlow : (Interval.around m e).low ≤ 4 * m ∧
      (m % 2 = 0 ∨ (Interval.around m e).low < 4 * m) := by
    simp only [Interval.around]
    split <;> omega
  refine contains_around rfl (by exact_mod_cast hlow.1) (by linarith) ?_
  exact hlow.2.imp_right fun hless => ⟨by exact_mod_cast hless, by linarith⟩

theorem contains_zero : (Interval.around 0 (-1074)).Contains 0 := by
  have hself := contains_self 0 (-1074)
  rwa [Nat.cast_zero, zero_mul] at hself

theorem canonical_zero : Canonical 0 (-1074) :=
  ⟨by decide, le_rfl, .inr rfl⟩

/-- The product of floats is the float nearest to the product of their values. -/
theorem Parts.mul (hx : Parts x s m e) (hy : Parts y s' m' e') :
    Rounds (s * s') (m * 2 ^ e * (m' * 2 ^ e')) (x * y) := by
  have hmodel : x * y = .ofModel (.pack (UnpackedFloat.mul .binary64 x.toModel.unpack
    y.toModel.unpack)) := rfl
  rw [hmodel, hx.unpack_eq, hy.unpack_eq]
  obtain rfl | hm := m.eq_zero_or_pos
  · refine ⟨0, -1074, canonical_zero, ?_, ?_⟩
    · rw [Nat.cast_zero, zero_mul, zero_mul]
      exact contains_zero
    · obtain rfl | hm' := m'.eq_zero_or_pos
      · rfl
      · rw [finiteOf_of_pos s' e' hm']
        rfl
  obtain rfl | hm' := m'.eq_zero_or_pos
  · refine ⟨0, -1074, canonical_zero, ?_, ?_⟩
    · rw [Nat.cast_zero, zero_mul, mul_zero]
      exact contains_zero
    · rw [finiteOf_of_pos s e hm]
      rfl
  have hfull : 2 ^ 52 ≤ m * m' ∨ e + e' ≤ -1074 := by
    obtain hfull | hleast := hx.canonical.full
    · exact .inl (hfull.trans (Nat.le_mul_of_pos_right m hm'))
    · obtain hfull | hleast' := hy.canonical.full
      · exact .inl (hfull.trans (Nat.le_mul_of_pos_left m' hm))
      · omega
  obtain ⟨m₁, e₁, hcanonical, hcontains, heq⟩ := mul_contains hm hm' hfull
  refine ⟨m₁, e₁, hcanonical, hcontains, ?_⟩
  rw [finiteOf_of_pos s e hm, finiteOf_of_pos s' e' hm', heq]

/-- The quotient of floats is the float nearest to the quotient of their values. -/
theorem Parts.div (hx : Parts x s m e) (hy : Parts y s' m' e') (hm' : 0 < m') :
    Rounds (s / s') (m * 2 ^ e / (m' * 2 ^ e')) (x / y) := by
  have hmodel : x / y = .ofModel (.pack (UnpackedFloat.div .binary64 x.toModel.unpack
    y.toModel.unpack)) := rfl
  rw [hmodel, hx.unpack_eq, hy.unpack_eq]
  obtain rfl | hm := m.eq_zero_or_pos
  · refine ⟨0, -1074, canonical_zero, ?_, ?_⟩
    · rw [Nat.cast_zero, zero_mul, zero_div]
      exact contains_zero
    · rw [finiteOf_of_pos s' e' hm']
      rfl
  obtain ⟨m₁, e₁, hcanonical, hcontains, heq⟩ := div_contains hm hm'
  refine ⟨m₁, e₁, hcanonical, hcontains, ?_⟩
  rw [finiteOf_of_pos s e hm, finiteOf_of_pos s' e' hm', heq]

/-- A number rounds to a finite float whose interval it is in, or to an infinity. -/
theorem exists_parts_or_infinity (hx : Rounds s v x) :
    (∃ m e, Parts x s m e ∧ (Interval.around m e).Contains v) ∨
      x.toModel.unpack = .infinity s := by
  obtain ⟨m, e, hm, hv, rfl⟩ := hx
  obtain he | he := le_or_gt e 971
  · exact .inl ⟨m, e, parts_ofModel s hm he, hv⟩
  · refine .inr ?_
    change unpack .binary64 (pack .binary64 (finiteOf s m e)) = _
    rw [pack_finiteOf_of_lt s hm he, unpack_packedInfinity]

theorem not_parts_of_infinity (hx : x.toModel.unpack = .infinity s) : ¬Parts x s' m e := by
  intro hparts
  have hfinite := isFinite_finiteOf s' m e
  rw [← hparts.unpack_eq, hx] at hfinite
  cases hfinite

/-- A number that rounds to a finite float is in its interval. -/
theorem contains_of_parts (hx : Rounds s v x) (hparts : Parts x s' m e) :
    (Interval.around m e).Contains v := by
  obtain ⟨m', e', hparts', hv⟩ | hinfinity := exists_parts_or_infinity hx
  · obtain ⟨-, rfl, rfl⟩ := finiteOf_inj hparts.canonical hparts'.canonical
      (hparts.unpack_eq.symm.trans hparts'.unpack_eq)
    exact hv
  · exact absurd hparts (not_parts_of_infinity hinfinity)

/-- A float around a number of at least so many bits has full precision. -/
theorem full_of_le {k : ℤ} (hm : Canonical m e) (hv : (Interval.around m e).Contains v)
    (hk : -1022 ≤ k) (hle : 2 ^ k ≤ v) : 2 ^ 52 ≤ m ∧ k - 52 ≤ e := by
  have hpower : Canonical (2 ^ 52) (k - 52) := ⟨by decide, by omega, .inl le_rfl⟩
  have hself := contains_self (2 ^ 52) (k - 52)
  have hvalue : ((2 ^ 52 : ℕ) : ℚ) * 2 ^ (k - 52) = 2 ^ k := by
    rw [Nat.cast_pow, Nat.cast_ofNat, ← zpow_natCast, ← zpow_add₀ two_ne_zero]
    congr 1
    push_cast
    ring
  rw [hvalue] at hself
  have hnot : ¬Before m e (2 ^ 52) (k - 52) := fun hbefore =>
    absurd (hbefore.lt hm hpower hv hself) (not_lt.2 hle)
  have hfull := hm.full
  simp only [Before] at hnot
  omega

/-- The float is the number itself, up to its sign. -/
def Exact (s : Sign) (v : ℚ) (x : Float) : Prop :=
  ∃ m e, Parts x s m e ∧ v = m * 2 ^ e

/-- The product of exact floats is the float nearest to the product. -/
theorem Exact.mul (hx : Exact s v x) (hy : Exact s' w y) : Rounds (s * s') (v * w) (x * y) := by
  obtain ⟨m, e, hx, rfl⟩ := hx
  obtain ⟨m', e', hy, rfl⟩ := hy
  exact hx.mul hy

/-- The quotient of exact floats is the float nearest to the quotient. -/
theorem Exact.div (hx : Exact s v x) (hy : Exact s' w y) (hw : w ≠ 0) :
    Rounds (s / s') (v / w) (x / y) := by
  obtain ⟨m, e, hx, rfl⟩ := hx
  obtain ⟨m', e', hy, rfl⟩ := hy
  refine hx.div hy (Nat.pos_of_ne_zero ?_)
  rintro rfl
  simp at hw

/-- A whole number of 53 bits with trailing zeros, with its mantissa shifted to all bits. -/
theorem canonical_shifted {n : ℕ} (hpos : 0 < n) (hn : n < 2 ^ 53) (k : ℕ) :
    Canonical (n * 2 ^ (52 - n.log2)) (k - (52 - n.log2 : ℕ)) ∧
      (n : ℚ) * 2 ^ k = (n * 2 ^ (52 - n.log2) : ℕ) * 2 ^ (k - (52 - n.log2 : ℕ) : ℤ) := by
  have hlog : n.log2 < 53 := (Nat.log2_lt hpos.ne').2 hn
  have hfull : (n * 2 ^ (52 - n.log2)).log2 = 52 := by
    rw [log2_mul_two_pow hpos.ne']
    omega
  obtain ⟨hlow, hhigh⟩ := (Nat.log2_eq_iff (by positivity)).1 hfull
  refine ⟨⟨hhigh, by omega, .inl hlow⟩, ?_⟩
  rw [zpow_sub₀ two_ne_zero, zpow_natCast, zpow_natCast]
  push_cast
  field_simp

/-- Rounding leaves such a number as it is. -/
theorem Rounds.exact {n k : ℕ} (hn : n < 2 ^ 53) (hk : k ≤ 971) (hx : Rounds s (n * 2 ^ k) x) :
    Exact s (n * 2 ^ k) x := by
  obtain rfl | hpos := n.eq_zero_or_pos
  · rw [Nat.cast_zero, zero_mul] at hx ⊢
    exact ⟨0, -1074, hx.parts canonical_zero (by decide) contains_zero, by simp⟩
  · obtain ⟨hcanonical, heq⟩ := canonical_shifted hpos hn k
    refine ⟨_, _, hx.parts hcanonical (by omega) ?_, heq⟩
    rw [heq]
    exact contains_self _ _

/-- An unsigned word is converted to the float nearest to it. -/
theorem rounds_toFloat (n : UInt64) : Rounds .positive n.toNat n.toFloat := by
  have hmodel : n.toFloat =
    .ofModel (.pack (UnpackedFloat.normalize .binary64 n.toNat 0 .positive)) := rfl
  rw [hmodel, UnpackedFloat.normalize]
  obtain hzero | hpos := n.toNat.eq_zero_or_pos
  · rw [hzero]
    exact ⟨0, -1074, canonical_zero, contains_zero, rfl⟩
  · rw [Int.compare_eq_gt.2 (by omega)]
    obtain ⟨m, e, hm, hv, heq⟩ := round_contains .positive hpos 0
    rw [zpow_zero, mul_one] at hv
    exact ⟨m, e, hm, hv, congrArg (Float.ofModel ∘ Float.Model.pack) heq⟩

/-- The table of powers of ten holds the bits of the powers themselves. -/
theorem toBits_powersOfTen : ∀ k : Fin Float.exactlyRepresentablePowersOfTen.size,
    5 ^ k.val < 2 ^ 53 ∧ Float.exactlyRepresentablePowersOfTen[k].toBits =
      (Float.ofModel (.pack (finiteOf .positive (5 ^ k.val * 2 ^ (52 - (5 ^ k.val).log2))
        (k - (52 - (5 ^ k.val).log2 : ℕ))))).toBits := by
  decide +kernel

/-- The powers of ten whose digits fit a mantissa. -/
theorem exact_powerOfTen {k : ℕ} (hk : k < Float.exactlyRepresentablePowersOfTen.size) :
    Exact .positive (10 ^ k) Float.exactlyRepresentablePowersOfTen[k] := by
  obtain ⟨hbits, heq⟩ := toBits_powersOfTen ⟨k, hk⟩
  obtain ⟨hcanonical, hvalue⟩ := canonical_shifted (by positivity) hbits k
  have hmost : k ≤ 22 := Nat.lt_succ_iff.1 hk
  have htable : Float.exactlyRepresentablePowersOfTen[k] = _ := Float.toBits_inj.1 heq
  refine ⟨_, _, htable ▸ parts_ofModel .positive hcanonical (by omega), ?_⟩
  rw [← hvalue, Nat.cast_pow, Nat.cast_ofNat, ← mul_pow]
  norm_num

/-- A number of at most 53 bits is converted without rounding. -/
theorem exact_toFloat {n : ℕ} (hn : n < 2 ^ 53) : Exact .positive n n.toUInt64.toFloat := by
  have hnat : n.toUInt64.toNat = n := by
    rw [Nat.toUInt64_eq, UInt64.toNat_ofNat']
    exact Nat.mod_eq_of_lt (by omega)
  have hrounds := rounds_toFloat n.toUInt64
  rw [hnat, ← mul_one (n : ℚ), ← pow_zero 2] at hrounds
  have hexact := hrounds.exact hn (by decide)
  rwa [pow_zero, mul_one] at hexact

theorem rounds_zero : Rounds .positive 0 (.ofModel (.pack (.zero .positive))) :=
  ⟨0, -1074, canonical_zero, contains_zero, rfl⟩

/-- A natural number times a power of ten is rounded once. -/
theorem rounds_ofScientific_mul {n k : ℕ} (hk : k ≤ 400) :
    Rounds .positive (n * 10 ^ k) (Float.ofScientific n false k) := by
  rw [Float.ofScientific]
  split
  · rename_i hsmall
    exact (exact_toFloat hsmall.1).mul (exact_powerOfTen _)
  · change Rounds _ _ (.ofModel (.pack (UnpackedFloat.ofScientific .binary64 n k)))
    have hexponents : (2 : ℤ) ^ Format.exponentBits .binary64 = 2048 := by decide
    rw [UnpackedFloat.ofScientific, hexponents]
    split
    · rename_i hzero
      rw [hzero, Nat.cast_zero, zero_mul]
      exact rounds_zero
    · rename_i hne
      rw [if_neg (by omega), if_neg (by omega), if_pos (by omega)]
      generalize_proofs hn hpower
      have hfull : 2 ^ 52 ≤ n <<< Format.mantissaBits .binary64 * 10 ^ (k : ℤ).toNat := by
        rw [Nat.shiftLeft_eq]
        refine le_trans ?_ (Nat.le_mul_of_pos_right _ hpower)
        exact (Nat.pow_le_pow_right two_pos (by decide)).trans
          (Nat.le_mul_of_pos_left _ (Nat.pos_of_ne_zero hne))
      obtain ⟨m, e, hcanonical, hv, heq⟩ := mul_contains hn hpower (.inl hfull)
      rw [heq]
      refine ⟨m, e, hcanonical, ?_, rfl⟩
      convert hv using 1
      rw [Nat.shiftLeft_eq, Int.toNat_natCast, zpow_neg, zpow_natCast, zpow_zero, mul_one]
      push_cast
      rw [mul_inv_cancel_right₀ (by positivity)]

/-- A natural number divided by a power of ten is rounded once. -/
theorem rounds_ofScientific_div {n k : ℕ} (hk : 0 < k) (hk' : k ≤ 401 + n.log2) :
    Rounds .positive (n / 10 ^ k) (Float.ofScientific n true k) := by
  rw [Float.ofScientific]
  split
  · rename_i hsmall
    exact (exact_toFloat hsmall.1).div (exact_powerOfTen _) (by positivity)
  · change Rounds _ _ (.ofModel (.pack (UnpackedFloat.ofScientific .binary64 n (Int.negOfNat k))))
    have hexponents : (2 : ℤ) ^ Format.exponentBits .binary64 = 2048 := by decide
    rw [UnpackedFloat.ofScientific, hexponents, Int.negOfNat_eq]
    split
    · rename_i hzero
      rw [hzero, Nat.cast_zero, zero_div]
      exact rounds_zero
    · rw [if_neg (by simp only [Int.ofNat_eq_natCast]; omega),
        if_neg (by simp only [Int.ofNat_eq_natCast]; omega),
        if_neg (by simp only [Int.ofNat_eq_natCast]; omega)]
      generalize_proofs hn hpower
      obtain ⟨m, e, hcanonical, hv, heq⟩ := div_contains hn hpower
      rw [heq]
      refine ⟨m, e, hcanonical, ?_, rfl⟩
      convert hv using 1
      rw [neg_neg, Int.ofNat_eq_natCast, Int.toNat_natCast, zpow_zero, mul_one, mul_one]
      push_cast
      rfl

/-- Every number that is not negative is around a float, perhaps with too great an exponent. -/
theorem exists_contains (hv : 0 ≤ v) : ∃ m e, Canonical m e ∧ (Interval.around m e).Contains v := by
  obtain rfl | hpos := hv.eq_or_lt
  · exact ⟨0, -1074, canonical_zero, contains_zero⟩
  · have hnum : 0 < v.num.toNat := by
      have := Rat.num_pos.2 hpos
      omega
    obtain ⟨m, e, hm, hcontains, -⟩ :=
      @div_contains v.num.toNat v.den 0 0 .positive .positive hnum v.den_pos
    have hvalue : ((v.num.toNat : ℕ) : ℚ) = v.num := by
      exact_mod_cast Int.toNat_of_nonneg (Rat.num_pos.2 hpos).le
    rw [zpow_zero, mul_one, mul_one, hvalue, Rat.num_div_den] at hcontains
    exact ⟨m, e, hm, hcontains⟩

/-- The numbers from two to the power of 1024 on round to infinity. -/
theorem rounds_infinity (hv : 2 ^ 1024 ≤ v) :
    Rounds .positive v (Float.ofBits 0x7ff0000000000000) := by
  obtain ⟨m, e, hm, hcontains⟩ := exists_contains ((by positivity : (0 : ℚ) ≤ 2 ^ 1024).trans hv)
  have he : 971 < e := by
    by_contra hle
    have hbits := hm.bits
    have hhigh : ((Interval.around m e).high : ℚ) < 2 ^ 55 := by
      simp only [Interval.around]
      exact_mod_cast (by omega : 4 * m + 2 < 2 ^ 55)
    have hscale : (2 : ℚ) ^ (e - 2) ≤ 2 ^ (969 : ℤ) :=
      zpow_le_zpow_right₀ one_le_two (by omega)
    have hmost : v < 2 ^ 55 * 2 ^ (969 : ℤ) :=
      hcontains.le_high.trans_lt (mul_lt_mul hhigh hscale (two_zpow_pos _) (by positivity))
    rw [← zpow_natCast, ← zpow_add₀ two_ne_zero] at hmost
    exact absurd (hmost.trans_le hv) (lt_irrefl _)
  refine ⟨m, e, hm, hcontains, congrArg Float.ofModel ?_⟩
  simp only [Float.Model.pack, pack_finiteOf_of_lt .positive hm he]
  rfl

/-- What is at most half of the least float rounds to zero. -/
theorem rounds_tiny (hv : 0 ≤ v) (hle : v ≤ 2 ^ (-1075 : ℤ)) :
    Rounds .positive v (Float.ofScientific 0 false 0) := by
  refine ⟨0, -1074, canonical_zero, ⟨?_, ?_, .inl rfl⟩, rfl⟩
  · simpa [Interval.around] using hv
  · refine hle.trans_eq ?_
    rw [show (Interval.around 0 (-1074)).exponent = -1075 - 1 from rfl, zpow_sub_one₀ two_ne_zero]
    simp only [Interval.around]
    ring

/-- The digits of a coefficient bound the number from above. -/
theorem mul_lt_ten_zpow (c : ℕ) (k : ℤ) :
    (c : ℚ) * 10 ^ k < 10 ^ ((Nat.toDigits 10 c).length + k) := by
  have hlt : c < 10 ^ (Nat.toDigits 10 c).length :=
    (Nat.length_toDigits_le_iff (by decide) Nat.length_toDigits_pos).1 le_rfl
  rw [zpow_add₀ (by norm_num), zpow_natCast]
  exact mul_lt_mul_of_pos_right (by exact_mod_cast hlt) (zpow_pos (by norm_num) k)

/-- A number is not less than the power of ten with as many digits. -/
theorem ten_pow_le_of_ne_zero {n : ℕ} (hn : n ≠ 0) : 10 ^ ((Nat.toDigits 10 n).length - 1) ≤ n := by
  by_contra hlt
  rw [not_le] at hlt
  obtain hzero | hpos := ((Nat.toDigits 10 n).length - 1).eq_zero_or_pos
  · rw [hzero] at hlt
    omega
  · have hle := (Nat.length_toDigits_le_iff (by decide) hpos).2 hlt
    omega

/-- The digits of a coefficient bound the number from below. -/
theorem ten_zpow_le_mul {c : ℕ} (hc : c ≠ 0) (k : ℤ) :
    (10 : ℚ) ^ ((Nat.toDigits 10 c).length + k - 1) ≤ c * 10 ^ k := by
  have hle := ten_pow_le_of_ne_zero hc
  have hlength := Nat.length_toDigits_pos (b := 10) (n := c)
  have hexponent : ((Nat.toDigits 10 c).length + k - 1 : ℤ) =
      ((Nat.toDigits 10 c).length - 1 : ℕ) + k := by
    omega
  rw [hexponent, zpow_add₀ (by norm_num), zpow_natCast]
  exact mul_le_mul_of_nonneg_right (by exact_mod_cast hle) (zpow_pos (by norm_num) k).le

/-- Powers of ten beyond the range of floats, below and above. -/
theorem ten_pow_outgrows : 2 ^ 1075 ≤ 10 ^ 401 ∧ 2 ^ 1024 ≤ 10 ^ 400 := by
  decide +kernel

/-- The nearest float of a decimal is the float that the decimal rounds to. -/
theorem rounds_nearest (c : ℕ) (k : ℤ) : Rounds .positive (c * 10 ^ k) (Decimal.nearest c k) := by
  have hhigh := mul_lt_ten_zpow c k
  simp only [Decimal.nearest]
  obtain ⟨d, hd⟩ : ∃ d, (Nat.toDigits 10 c).length = d := ⟨_, rfl⟩
  rw [hd] at hhigh ⊢
  split
  · rename_i hsmall
    refine rounds_tiny (by positivity) ?_
    obtain rfl | htop := hsmall
    · rw [Nat.cast_zero, zero_mul]
      positivity
    · calc (c : ℚ) * 10 ^ k ≤ 10 ^ ((d : ℤ) + k) := hhigh.le
        _ ≤ 10 ^ (-401 : ℤ) := zpow_le_zpow_right₀ (by norm_num) (by omega)
        _ ≤ 2 ^ (-1075 : ℤ) := by
          rw [zpow_neg, zpow_neg, zpow_ofNat, zpow_ofNat]
          exact inv_anti₀ (by positivity) (by exact_mod_cast ten_pow_outgrows.1)
  · rename_i hsome
    have hc : c ≠ 0 := fun hzero => hsome (.inl hzero)
    split
    · rename_i htop
      have hlow := ten_zpow_le_mul hc k
      rw [hd] at hlow
      refine rounds_infinity ?_
      calc (2 : ℚ) ^ 1024 ≤ 10 ^ (400 : ℤ) := by
            rw [zpow_ofNat]
            exact_mod_cast ten_pow_outgrows.2
        _ ≤ 10 ^ ((d : ℤ) + k - 1) := zpow_le_zpow_right₀ (by norm_num) (by omega)
        _ ≤ c * 10 ^ k := hlow
    · rename_i htop
      by_cases hk : k < 0
      · obtain ⟨j, rfl⟩ : ∃ j : ℕ, k = -j := ⟨k.natAbs, by omega⟩
        have hlog : d - 1 ≤ c.log2 := by
          rw [← hd]
          refine (Nat.le_log2 hc).2 (le_trans ?_ (ten_pow_le_of_ne_zero hc))
          exact Nat.pow_le_pow_left (by decide) _
        rw [decide_eq_true hk, Int.natAbs_neg, Int.natAbs_natCast, zpow_neg, zpow_natCast,
          ← div_eq_mul_inv]
        exact rounds_ofScientific_div (by omega) (by omega)
      · obtain ⟨j, rfl⟩ : ∃ j : ℕ, k = j := ⟨k.natAbs, by omega⟩
        rw [decide_eq_false hk, Int.natAbs_natCast, zpow_natCast]
        exact rounds_ofScientific_mul (by omega)

end EnvSettings.Number
