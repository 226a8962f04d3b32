import Mathlib
import EnvSettings.Proofs.Number.Sign

namespace EnvSettings

open Float.Model (Format UnpackedFloat totalExponent)
open Float.Model.UnpackedFloat

variable {m m' : ℕ} {e e' : ℤ} {t v v' : ℚ}

namespace Decimal.Interval

/-- A number lies in the interval. The ends count only if the interval is closed. -/
structure Contains (i : Interval) (v : ℚ) : Prop where
  low_le : i.low * 2 ^ i.exponent ≤ v
  le_high : v ≤ i.high * 2 ^ i.exponent
  inner : i.closed ∨ i.low * 2 ^ i.exponent < v ∧ v < i.high * 2 ^ i.exponent

/-- The ends belong to the interval of an even mantissa. -/
theorem closed_around (m : ℕ) (e : ℤ) : (around m e).closed ↔ m % 2 = 0 := by
  simp [around]

end Decimal.Interval

namespace Number

open Decimal (Interval)

/-- The mantissa and the exponent of a float other than an infinity and a NaN: the mantissa has all
bits, or the exponent is the least one. Zero has the least exponent. -/
structure Canonical (m : ℕ) (e : ℤ) : Prop where
  bits : m < 2 ^ 53
  least : -1074 ≤ e
  full : 2 ^ 52 ≤ m ∨ e = -1074

/-- The order of floats by their exponents and mantissas. -/
def Before (m' : ℕ) (e' : ℤ) (m : ℕ) (e : ℤ) : Prop :=
  e' < e ∨ e' = e ∧ m' < m

/-- The intervals of two floats have an end in common at most, and one of them is open then. -/
theorem Before.high_le_low {k : ℕ} (hbefore : Before m' e' m (e' + k)) (hm' : Canonical m' e')
    (hm : Canonical m (e' + k)) :
    (Interval.around m' e').high < (Interval.around m (e' + k)).low * 2 ^ k ∨
      (Interval.around m' e').high = (Interval.around m (e' + k)).low * 2 ^ k ∧
        (m' % 2 ≠ 0 ∨ m % 2 ≠ 0) := by
  have hbits := hm'.bits
  have hfull := hm.full
  have hleast := hm'.least
  simp only [Interval.around, Nat.one_shiftLeft]
  cases k with
  | zero =>
    obtain hlt | ⟨-, hlt⟩ := hbefore
    · omega
    · have hfull' := hm'.full
      rw [if_neg (by omega)]
      omega
  | succ k =>
    generalize hlow : (if m = 2 ^ 52 ∧ e' + (k + 1 : ℕ) > -1074 then 4 * m - 1 else 4 * m - 2) = low
    have hleast' : 2 ^ 54 - 1 ≤ low := by
      rw [← hlow]
      split <;> omega
    have hdouble : low * 2 ≤ low * 2 ^ (k + 1) :=
      Nat.mul_le_mul_left low (Nat.le_self_pow k.succ_ne_zero 2)
    omega

theorem two_zpow_pos (e : ℤ) : (0 : ℚ) < 2 ^ e :=
  zpow_pos two_pos e

/-- Numbers around different floats are ordered like the floats. -/
theorem Before.lt (hbefore : Before m' e' m e) (hm' : Canonical m' e') (hm : Canonical m e)
    (hv' : (Interval.around m' e').Contains v') (hv : (Interval.around m e).Contains v) :
    v' < v := by
  obtain ⟨k, rfl⟩ : ∃ k : ℕ, e = e' + k :=
    ⟨(e - e').toNat, by obtain hlt | ⟨rfl, -⟩ := hbefore <;> omega⟩
  have hpos := two_zpow_pos (e' - 2)
  have hscale : ((Interval.around m (e' + k)).low : ℚ) * 2 ^ (e' + k - 2) =
      ((Interval.around m (e' + k)).low * 2 ^ k : ℕ) * 2 ^ (e' - 2) := by
    rw [show e' + k - 2 = k + (e' - 2) by ring, zpow_add₀ two_ne_zero, zpow_natCast]
    push_cast
    ring
  have hlow := hv.low_le
  have hhigh := hv'.le_high
  change _ * (2 : ℚ) ^ (e' + k - 2) ≤ v at hlow
  change v' ≤ _ * (2 : ℚ) ^ (e' - 2) at hhigh
  rw [hscale] at hlow
  obtain hlt | ⟨heq, hodd⟩ := hbefore.high_le_low hm' hm
  · have hcast := mul_lt_mul_of_pos_right (Nat.cast_lt (α := ℚ).2 hlt) hpos
    linarith
  · obtain hodd | hodd := hodd
    · have hinner := (hv'.inner.resolve_left (by rwa [Interval.closed_around])).2
      change v' < _ * (2 : ℚ) ^ (e' - 2) at hinner
      rw [heq] at hinner
      linarith
    · have hinner := (hv.inner.resolve_left (by rwa [Interval.closed_around])).1
      change _ * (2 : ℚ) ^ (e' + k - 2) < v at hinner
      rw [hscale, ← heq] at hinner
      linarith

/-- Of two different floats one is before the other. -/
theorem before_or (m' : ℕ) (e' : ℤ) (m : ℕ) (e : ℤ) :
    Before m' e' m e ∨ m' = m ∧ e' = e ∨ Before m e m' e' := by
  simp only [Before]
  omega

/-- A number is around one float only. -/
theorem Canonical.unique (hm' : Canonical m' e') (hm : Canonical m e)
    (hv' : (Interval.around m' e').Contains v) (hv : (Interval.around m e).Contains v) :
    m' = m ∧ e' = e := by
  obtain hbefore | heq | hbefore := before_or m' e' m e
  · exact absurd (hbefore.lt hm' hm hv' hv) (lt_irrefl v)
  · exact heq
  · exact absurd (hbefore.lt hm hm' hv hv') (lt_irrefl v)

/-- The mantissa is the whole part of a number. The round bit says whether the rest is a half or
more, and the sticky bit whether it is something else than nothing and a half. -/
structure Represents (em : ExtendedMantissa) (t : ℚ) : Prop where
  le : em.mantissa ≤ t
  lt : t < em.mantissa + 1
  round : em.roundBit ↔ em.mantissa + 1 / 2 ≤ t
  sticky : em.stickyBit ↔ t ≠ em.mantissa ∧ t ≠ em.mantissa + 1 / 2

variable {em : ExtendedMantissa}

/-- A mantissa without a rest is the number itself. -/
theorem represents_exact (m : ℕ) :
    Represents (ExtendedMantissa.ofMantissaAndAccuracy m .exact) m := by
  constructor <;> simp [ExtendedMantissa.ofMantissaAndAccuracy]

theorem Represents.shiftRightOne (hem : Represents em t) :
    Represents em.shiftRightOne (t / 2) := by
  obtain ⟨hle, hlt, hround, hsticky⟩ := hem
  have hbits : (em.roundBit || em.stickyBit) = true ↔ t ≠ em.mantissa := by
    rw [Bool.or_eq_true, hround, hsticky]
    constructor
    · rintro (hhalf | ⟨hne, -⟩)
      · linarith
      · exact hne
    · intro hne
      by_cases hhalf : em.mantissa + 1 / 2 ≤ t
      · exact .inl hhalf
      · exact .inr ⟨hne, fun heq => hhalf heq.ge⟩
  have hhalf : ((em.mantissa / 2 : ℕ) : ℚ) * 2 + (em.mantissa % 2 : ℕ) = em.mantissa := by
    exact_mod_cast Nat.div_add_mod' em.mantissa 2
  obtain heven | hodd := Nat.mod_two_eq_zero_or_one em.mantissa
  · rw [heven, Nat.cast_zero, add_zero] at hhalf
    rw [← hhalf] at hle hlt hbits
    refine ⟨?_, ?_, ?_, hbits.trans ?_⟩ <;>
      simp only [ExtendedMantissa.shiftRightOne, heven, bne_self_eq_false, Bool.false_eq_true,
        false_iff, not_le]
    · linarith
    · linarith
    · linarith
    · refine ⟨fun hne => ⟨fun heq => hne (by linarith), fun heq => ?_⟩, fun hne heq => ?_⟩
      · linarith
      · exact hne.1 (by linarith)
  · rw [hodd, Nat.cast_one] at hhalf
    rw [← hhalf] at hle hlt hbits
    refine ⟨?_, ?_, ?_, hbits.trans ?_⟩ <;>
      simp only [ExtendedMantissa.shiftRightOne, hodd]
    · linarith
    · linarith
    · refine iff_of_true (by decide) (by linarith)
    · refine ⟨fun hne => ⟨fun heq => ?_, fun heq => hne (by linarith)⟩, fun hne heq => ?_⟩
      · linarith
      · exact hne.2 (by linarith)

/-- Shifts to the right divide the number by a power of two. -/
theorem Represents.shiftRight (hem : Represents em t) (k : ℕ) :
    Represents (em >>> k) (t / 2 ^ k) := by
  change Represents (Nat.repeat ExtendedMantissa.shiftRightOne k em) _
  induction k with
  | zero => rwa [pow_zero, div_one]
  | succ k ih =>
    rw [pow_succ, ← div_div]
    exact ih.shiftRightOne

/-- A whole number is nearest to a number. Of two it is the even one. -/
structure IsNearest (n : ℕ) (t : ℚ) : Prop where
  low_le : n - 1 / 2 ≤ t
  le_high : t ≤ n + 1 / 2
  inner : n % 2 = 0 ∨ n - 1 / 2 < t ∧ t < n + 1 / 2

/-- The rounded mantissa is the integer nearest to the number. -/
theorem Represents.roundedMantissa (hem : Represents em t) : IsNearest em.roundedMantissa t := by
  obtain ⟨m, roundBit, stickyBit⟩ := em
  obtain ⟨hle, hlt, hround, hsticky⟩ := hem
  dsimp only at hle hlt hround hsticky
  cases roundBit with
  | false =>
    have hless : t < m + 1 / 2 := not_le.1 fun hhalf => Bool.false_ne_true (hround.2 hhalf)
    have hsame : ExtendedMantissa.roundedMantissa ⟨m, false, stickyBit⟩ = m := by
      cases stickyBit <;> rfl
    rw [hsame]
    exact ⟨by linarith, by linarith, .inr ⟨by linarith, by linarith⟩⟩
  | true =>
    have hmore := hround.1 rfl
    cases stickyBit with
    | false =>
      have heq : t = m + 1 / 2 := by
        by_contra hne
        exact Bool.false_ne_true (hsticky.2 ⟨by rintro rfl; linarith, hne⟩)
      have hsame : ExtendedMantissa.roundedMantissa ⟨m, true, false⟩ = m + m % 2 := rfl
      rw [hsame, heq]
      refine ⟨?_, ?_, .inl (by omega)⟩ <;>
        obtain hmod | hmod := Nat.mod_two_eq_zero_or_one m <;> rw [hmod] <;> push_cast <;> linarith
    | true =>
      have hne := (hsticky.1 rfl).2
      have hless : m + 1 / 2 < t := lt_of_le_of_ne hmore hne.symm
      have hsame : ExtendedMantissa.roundedMantissa ⟨m, true, true⟩ = m + 1 := rfl
      rw [hsame]
      constructor <;> rw [Nat.cast_succ]
      · linarith
      · linarith
      · exact .inr ⟨by linarith, by linarith⟩

/-- The float with a sign, a mantissa and an exponent. -/
def finiteOf (s : Sign) (m : ℕ) (e : ℤ) : UnpackedFloat :=
  if h : m = 0 then .zero s else .finite s m e (Nat.pos_of_ne_zero h)

/-- In units of its last place, a number is no farther from the mantissa than the ends. -/
theorem contains_around (hv : v = t * 2 ^ e) (hlow : ((Interval.around m e).low : ℚ) ≤ 4 * t)
    (hhigh : 4 * t ≤ 4 * m + 2)
    (hinner : m % 2 = 0 ∨ ((Interval.around m e).low : ℚ) < 4 * t ∧ 4 * t < 4 * m + 2) :
    (Interval.around m e).Contains v := by
  have hpos := two_zpow_pos (e - 2)
  have hscaled : v = 4 * t * 2 ^ (e - 2) := by
    rw [hv, zpow_sub₀ two_ne_zero]
    ring
  have hends : ((Interval.around m e).high : ℚ) = 4 * m + 2 := by
    simp only [Interval.around]
    push_cast
    rfl
  rw [hscaled]
  refine ⟨mul_le_mul_of_nonneg_right hlow hpos.le, ?_, ?_⟩
  · rw [hends]
    exact mul_le_mul_of_nonneg_right hhigh hpos.le
  · rw [Interval.closed_around, hends]
    exact hinner.imp_right fun h =>
      ⟨mul_lt_mul_of_pos_right h.1 hpos, mul_lt_mul_of_pos_right h.2 hpos⟩

/-- The exponent that leaves 53 bits of a mantissa, if it is not below the least one. -/
theorem targetExponent_eq (m : ℕ) (e : ℤ) :
    Format.targetExponent .binary64 (totalExponent m e) = max (m.log2 + e - 52) (-1074) := by
  simp only [Format.targetExponent, totalExponent, Format.mantissaBits, Format.minExponent]
  omega

/-- The last shift changes nothing unless rounding has carried into a further bit. -/
theorem shiftToTargetExponent_of_lt (hm : m < 2 ^ 53) (he : -1074 ≤ e) :
    (shiftToTargetExponent .binary64 m e .exact).1.mantissa = m ∧
      (shiftToTargetExponent .binary64 m e .exact).2 = e := by
  have hlog : m.log2 ≤ 52 := by
    by_cases hzero : m = 0
    · simp [hzero]
    · exact Nat.lt_succ_iff.1 ((Nat.log2_lt hzero).2 hm)
  have hshift : (Format.targetExponent .binary64 (totalExponent m e) - e).toNat = 0 := by
    rw [targetExponent_eq]
    omega
  simp only [shiftToTargetExponent, shiftToExponent, hshift]
  exact ⟨rfl, add_zero e⟩

/-- A carry out of the mantissa raises the exponent. -/
theorem shiftToTargetExponent_of_carry (he : -1074 ≤ e) :
    (shiftToTargetExponent .binary64 (2 ^ 53) e .exact).1.mantissa = 2 ^ 52 ∧
      (shiftToTargetExponent .binary64 (2 ^ 53) e .exact).2 = e + 1 := by
  rw [shiftToTargetExponent_of_full (k := 1) (by decide) (by omega), mantissa_shiftRight,
    mantissa_ofMantissaAndAccuracy]
  exact ⟨by decide, rfl⟩

/-- In units of its last place, a number is around the float of its nearest mantissa. Above a power
of two the interval reaches less far down. -/
theorem IsNearest.contains {r : ℕ} (hr : IsNearest r t) (hnonneg : 0 ≤ t)
    (hpower : r = 2 ^ 52 → -1074 < e → r ≤ t) (hv : v = t * 2 ^ e) :
    (Interval.around r e).Contains v := by
  obtain ⟨hlow, hhigh, hinner⟩ := hr
  have hends : ((Interval.around r e).low : ℚ) ≤ 4 * t ∧
      (r % 2 = 0 ∨ ((Interval.around r e).low : ℚ) < 4 * t) := by
    simp only [Interval.around, Nat.one_shiftLeft]
    split
    · rename_i hedge
      have hle := hpower hedge.1 hedge.2
      rw [Nat.cast_sub (by omega)]
      push_cast
      exact ⟨by linarith, .inl (by omega)⟩
    · obtain rfl | hpos := r.eq_zero_or_pos
      · simp only [mul_zero, Nat.zero_sub, Nat.cast_zero]
        exact ⟨by linarith, .inl trivial⟩
      · rw [Nat.cast_sub (by omega)]
        push_cast
        exact ⟨by linarith, hinner.imp_right fun h => by linarith⟩
  refine contains_around hv hends.1 (by linarith) ?_
  exact hends.2.elim .inl fun hlow => hinner.imp_right fun h => ⟨hlow, by linarith⟩

/-- A number that is rounded up to a further bit is around the least float with that bit. -/
theorem contains_of_carry (he : -1074 ≤ e) (hlow : 2 ^ 53 - 1 / 2 ≤ t) (hless : t < 2 ^ 53)
    (hv : v = t * 2 ^ e) : (Interval.around (2 ^ 52) (e + 1)).Contains v := by
  have hunits : v = t / 2 * 2 ^ (e + 1) := by
    rw [hv, zpow_add_one₀ two_ne_zero]
    ring
  have hends : ((Interval.around (2 ^ 52) (e + 1)).low : ℚ) = 2 ^ 54 - 1 := by
    simp only [Interval.around, Nat.one_shiftLeft]
    rw [if_pos ⟨trivial, by omega⟩]
    norm_num
  refine contains_around hunits ?_ ?_ (.inl (by decide))
  · rw [hends]
    linarith
  · push_cast
    linarith

/-- A nearest mantissa, with the shift that it takes, is that of a float with the number around
it. -/
theorem exists_canonical_of_nearest {n r : ℕ} (he : -1074 ≤ e) (hn : n < 2 ^ 53)
    (hfull : 2 ^ 52 ≤ n ∨ e = -1074) (hle : n ≤ t) (hlt : t < n + 1)
    (hmore : n ≤ r) (hmost : r ≤ n + 1) (hr : IsNearest r t) (hv : v = t * 2 ^ e) :
    ∃ m' e', Canonical m' e' ∧ (Interval.around m' e').Contains v ∧
      (shiftToTargetExponent .binary64 r e .exact).1.mantissa = m' ∧
      (shiftToTargetExponent .binary64 r e .exact).2 = e' := by
  obtain hless | rfl : r < 2 ^ 53 ∨ r = 2 ^ 53 := by omega
  · refine ⟨r, e, ⟨hless, he, by omega⟩, ?_, shiftToTargetExponent_of_lt hless he⟩
    refine hr.contains ((Nat.cast_nonneg n).trans hle) (fun hpower hleast => ?_) hv
    exact (Nat.cast_le.2 (by omega)).trans hle
  · refine ⟨2 ^ 52, e + 1, ⟨by decide, by omega, .inl le_rfl⟩, ?_,
      shiftToTargetExponent_of_carry he⟩
    have hsum : (n : ℚ) + 1 = 2 ^ 53 := by
      exact_mod_cast (by omega : n + 1 = 2 ^ 53)
    have hlow := hr.low_le
    push_cast at hlow
    exact contains_of_carry he hlow (hlt.trans_eq hsum) hv

/-- Rounding goes to a float that has the number around it. -/
theorem roundWithAccuracy_contains {a : Accuracy} (s : Sign)
    (hem : Represents (ExtendedMantissa.ofMantissaAndAccuracy m a) (v / 2 ^ e))
    (he : e ≤ max (m.log2 + e - 52) (-1074)) :
    ∃ m' e', Canonical m' e' ∧ (Interval.around m' e').Contains v ∧
      roundWithAccuracy .binary64 s m e a = finiteOf s m' e' := by
  obtain ⟨k, hk⟩ : ∃ k : ℕ, max ((m.log2 : ℤ) + e - 52) (-1074) = e + k :=
    ⟨(max ((m.log2 : ℤ) + e - 52) (-1074) - e).toNat, by omega⟩
  have hfirst : shiftToTargetExponent .binary64 m e a =
      (ExtendedMantissa.ofMantissaAndAccuracy m a >>> k, e + k) := by
    simp only [shiftToTargetExponent, shiftToExponent, targetExponent_eq, hk, add_sub_cancel_left,
      Int.toNat_natCast]
  have hshifted := hem.shiftRight k
  rw [div_div, ← zpow_natCast (2 : ℚ) k, ← zpow_add₀ two_ne_zero] at hshifted
  have hbits : m / 2 ^ k < 2 ^ 53 ∧ (2 ^ 52 ≤ m / 2 ^ k ∨ e + k = -1074) := by
    rw [Nat.div_lt_iff_lt_mul (by positivity), Nat.le_div_iff_mul_le (by positivity), ← pow_add,
      ← pow_add]
    refine ⟨Nat.lt_log2_self.trans_le (Nat.pow_le_pow_right two_pos (by omega)), ?_⟩
    obtain hleast | hfull := eq_or_ne (e + (k : ℤ)) (-1074)
    · exact .inr hleast
    · refine .inl ?_
      have hlog : 52 + k = m.log2 := by omega
      rw [hlog]
      refine Nat.log2_self_le ?_
      rintro rfl
      simp at hlog
  have hmantissa : (ExtendedMantissa.ofMantissaAndAccuracy m a >>> k).mantissa = m / 2 ^ k := by
    rw [mantissa_shiftRight, mantissa_ofMantissaAndAccuracy]
  rw [← hmantissa] at hbits
  obtain ⟨m', e', hcanonical, hcontains, hm', he'⟩ :=
    exists_canonical_of_nearest (by omega) hbits.1 hbits.2 hshifted.le hshifted.lt
      (le_roundedMantissa _) (roundedMantissa_le _) hshifted.roundedMantissa
      (div_mul_cancel₀ v (two_zpow_pos (e + k)).ne').symm
  refine ⟨m', e', hcanonical, hcontains, ?_⟩
  rw [← hm', ← he', finiteOf]
  simp only [roundWithAccuracy, hfirst]

/-- A number is rounded to the float whose interval it is in. -/
theorem round_contains (s : Sign) (hm : 0 < m) (e : ℤ) :
    ∃ m' e', Canonical m' e' ∧ (Interval.around m' e').Contains (m * 2 ^ e) ∧
      UnpackedFloat.round .binary64 s m e = finiteOf s m' e' := by
  simp only [UnpackedFloat.round, decreaseExponent, Nat.shiftLeft_eq, targetExponent_eq]
  obtain ⟨k, hk⟩ : ∃ k : ℕ, (e - max (m.log2 + e - 52) (-1074)).toNat = k := ⟨_, rfl⟩
  rw [hk]
  refine roundWithAccuracy_contains s ?_ ?_
  · convert represents_exact (m * 2 ^ k) using 1
    rw [div_eq_iff (two_zpow_pos _).ne', zpow_sub₀ two_ne_zero, zpow_natCast]
    push_cast
    field_simp
  · rw [log2_mul_two_pow hm.ne']
    omega

variable {s s' : Sign}

/-- Factors with enough bits between them have their product rounded. -/
theorem mul_contains (hm : 0 < m) (hm' : 0 < m') (hfull : 2 ^ 52 ≤ m * m' ∨ e + e' ≤ -1074) :
    ∃ m₁ e₁, Canonical m₁ e₁ ∧ (Interval.around m₁ e₁).Contains (m * 2 ^ e * (m' * 2 ^ e')) ∧
      UnpackedFloat.mul .binary64 (.finite s m e hm) (.finite s' m' e' hm') =
        finiteOf (s * s') m₁ e₁ := by
  refine roundWithAccuracy_contains (s * s') ?_ ?_
  · convert represents_exact (m * m') using 1
    rw [div_eq_iff (two_zpow_pos _).ne', zpow_add₀ two_ne_zero]
    push_cast
    ring
  · obtain hfull | hleast := hfull
    · have hlog : 52 ≤ (m * m').log2 := (Nat.le_log2 (by positivity)).2 hfull
      omega
    · omega

/-- An integer part represents a number with the side of its rest on which a half lies. -/
theorem represents_inexact {n : ℕ} {o : Ordering} (hlt : n < t) (hless : t < n + 1)
    (ho : Ord.compare t (n + 1 / 2) = o) :
    Represents (ExtendedMantissa.ofMantissaAndAccuracy n (.inexact o)) t := by
  cases o with
  | lt =>
    have hhalf := compare_lt_iff_lt.1 ho
    exact ⟨hlt.le, hless, iff_of_false Bool.false_ne_true (not_le.2 hhalf),
      iff_of_true rfl ⟨hlt.ne', hhalf.ne⟩⟩
  | eq =>
    have hhalf := compare_eq_iff_eq.1 ho
    exact ⟨hlt.le, hless, iff_of_true rfl hhalf.ge,
      iff_of_false Bool.false_ne_true fun h => h.2 hhalf⟩
  | gt =>
    have hhalf := compare_gt_iff_gt.1 ho
    exact ⟨hlt.le, hless, iff_of_true rfl hhalf.le, iff_of_true rfl ⟨hlt.ne', hhalf.ne'⟩⟩

/-- A quotient with its remainder stands for the exact quotient. -/
theorem represents_div (n : ℕ) {d : ℕ} (hd : 0 < d) :
    Represents (ExtendedMantissa.ofMantissaAndAccuracy (n / d) (accuracyOfFraction (n % d) d))
      (n / d) := by
  have hd' : (0 : ℚ) < d := Nat.cast_pos.2 hd
  have hsum : (n : ℚ) / d = (n / d : ℕ) + (n % d : ℕ) / d := by
    rw [div_eq_iff hd'.ne', add_mul, div_mul_cancel₀ _ hd'.ne']
    exact_mod_cast (Nat.div_add_mod' n d).symm
  rw [accuracyOfFraction, hsum]
  split
  · rename_i hzero
    rw [hzero, Nat.cast_zero, zero_div, add_zero]
    exact represents_exact (n / d)
  · rename_i hrest
    have hpos : (0 : ℚ) < (n % d : ℕ) / d := div_pos (Nat.cast_pos.2 (Nat.pos_of_ne_zero hrest)) hd'
    have hless : ((n % d : ℕ) : ℚ) / d < 1 := by
      rw [div_lt_one hd']
      exact_mod_cast Nat.mod_lt n hd
    refine represents_inexact (by linarith) (by linarith) ?_
    obtain hlt | heq | hgt := lt_trichotomy (2 * (n % d)) d
    · rw [compare_lt_iff_lt.2 hlt, compare_lt_iff_lt, add_lt_add_iff_left, div_lt_iff₀ hd']
      have hcast : ((2 * (n % d) : ℕ) : ℚ) < d := Nat.cast_lt.2 hlt
      push_cast at hcast
      linarith
    · rw [compare_eq_iff_eq.2 heq, compare_eq_iff_eq, add_right_inj, div_eq_iff hd'.ne']
      have hcast : ((2 * (n % d) : ℕ) : ℚ) = d := Nat.cast_inj.2 heq
      push_cast at hcast
      linarith
    · rw [compare_gt_iff_gt.2 hgt, compare_gt_iff_gt, add_lt_add_iff_left, lt_div_iff₀ hd']
      have hcast : (d : ℚ) < (2 * (n % d) : ℕ) := Nat.cast_lt.2 hgt
      push_cast at hcast
      linarith

/-- The dividend is shifted so far that the quotient has enough bits. -/
theorem exists_divCore_eq (m : ℕ) (e : ℤ) (m' : ℕ) (e' : ℤ) :
    ∃ k : ℕ, divCore .binary64 m e m' e' =
        (m * 2 ^ k / m', e - e' - k, accuracyOfFraction (m * 2 ^ k % m') m') ∧
      (53 + m'.log2 ≤ m.log2 + k ∨ e - e' - k ≤ -1074) := by
  obtain ⟨k, hk⟩ : ∃ k : ℕ,
      min (e - e') (max (m.log2 + e - (m'.log2 + e') - 53) (-1074)) = e - e' - k :=
    ⟨(e - e' - min (e - e') (max (m.log2 + e - (m'.log2 + e') - 53) (-1074))).toNat, by omega⟩
  have htarget : min (e - e')
      (Format.targetExponent .binary64 (totalExponent m e - totalExponent m' e')) = e - e' - k := by
    rw [← hk]
    simp only [Format.targetExponent, totalExponent, Format.mantissaBits, Format.minExponent]
    omega
  refine ⟨k, ?_, by omega⟩
  simp only [divCore, htarget, sub_sub_cancel, Int.toNat_natCast, Nat.shiftLeft_eq]

/-- A quotient is rounded to the float whose interval it is in. -/
theorem div_contains (hm : 0 < m) (hm' : 0 < m') :
    ∃ m₁ e₁, Canonical m₁ e₁ ∧ (Interval.around m₁ e₁).Contains (m * 2 ^ e / (m' * 2 ^ e')) ∧
      UnpackedFloat.div .binary64 (.finite s m e hm) (.finite s' m' e' hm') =
        finiteOf (s / s') m₁ e₁ := by
  obtain ⟨k, hcore, hk⟩ := exists_divCore_eq m e m' e'
  simp only [UnpackedFloat.div, hcore]
  refine roundWithAccuracy_contains (s / s') ?_ ?_
  · convert represents_div (m * 2 ^ k) hm' using 1
    have hpos : (0 : ℚ) < m' := Nat.cast_pos.2 hm'
    have hscale : (2 : ℚ) ^ e = 2 ^ (e - e' - k) * 2 ^ k * 2 ^ e' := by
      rw [← zpow_natCast, ← zpow_add₀ two_ne_zero, ← zpow_add₀ two_ne_zero]
      congr 1
      ring
    rw [hscale]
    have hpos₁ := two_zpow_pos (e - e' - k)
    have hpos₂ := two_zpow_pos e'
    field_simp
    push_cast
    ring
  · obtain hk | hk := hk
    · suffices hlog : 52 ≤ (m * 2 ^ k / m').log2 by omega
      have hdividend : 2 ^ (53 + m'.log2) ≤ m * 2 ^ k := by
        refine (Nat.pow_le_pow_right two_pos hk).trans ?_
        rw [pow_add]
        exact Nat.mul_le_mul_right _ (Nat.log2_self_le hm.ne')
      have hdivisor : m' < 2 ^ (m'.log2 + 1) := Nat.lt_log2_self
      have hquotient : 2 ^ 52 ≤ m * 2 ^ k / m' := by
        rw [Nat.le_div_iff_mul_le hm']
        refine le_trans ?_ hdividend
        rw [show 53 + m'.log2 = 52 + (m'.log2 + 1) by ring, pow_add]
        exact Nat.mul_le_mul_left _ hdivisor.le
      exact (Nat.le_log2 (by omega)).2 hquotient
    · omega

end Number

end EnvSettings
