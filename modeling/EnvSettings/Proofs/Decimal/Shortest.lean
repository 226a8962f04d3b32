import Mathlib
import EnvSettings.Proofs.Number.Rounding

namespace EnvSettings.Decimal

open Number

variable {m d : ℕ} {e k : ℤ} {i : Interval} {v : ℚ}

/-- A power with an integer exponent as a quotient of powers. -/
theorem zpow_eq_div_toNat {b : ℚ} (hb : b ≠ 0) (k : ℤ) :
    b ^ k = b ^ k.toNat / b ^ (-k).toNat := by
  rw [← zpow_natCast, ← zpow_natCast, ← zpow_sub₀ hb]
  congr 1
  omega

/-- Up to a unit, the factors are the step of the grid and the step of the interval. -/
theorem Interval.exists_unit (i : Interval) (k : ℤ) :
    ∃ u : ℚ, 0 < u ∧ (10 : ℚ) ^ k = (i.factors k).1 * u ∧
      (2 : ℚ) ^ i.exponent = (i.factors k).2 * u := by
  refine ⟨(10 ^ (-k).toNat * 2 ^ (-i.exponent).toNat)⁻¹, by positivity, ?_, ?_⟩
  · rw [zpow_eq_div_toNat (by norm_num) k]
    simp only [factors, Nat.pow_eq, Nat.shiftLeft_eq]
    push_cast
    field_simp
  · rw [zpow_eq_div_toNat two_ne_zero i.exponent]
    simp only [factors, Nat.pow_eq, Nat.shiftLeft_eq]
    push_cast
    field_simp

/-- A point that the test finds in the interval is in it. -/
theorem Interval.contains_of_holds (hholds : i.holds k d) : i.Contains (d * 10 ^ k) := by
  obtain ⟨u, hu, hten, htwo⟩ := i.exists_unit k
  have hscale : ∀ n : ℕ, (n : ℚ) * 2 ^ i.exponent = (n * (i.factors k).2 : ℕ) * u := fun n => by
    rw [htwo]
    push_cast
    ring
  have hpoint : (d : ℚ) * 10 ^ k = (d * (i.factors k).1 : ℕ) * u := by
    rw [hten]
    push_cast
    ring
  have hends : (i.low * (i.factors k).2 ≤ d * (i.factors k).1 ∧
      d * (i.factors k).1 ≤ i.high * (i.factors k).2) ∧
      (i.closed ∨ i.low * (i.factors k).2 < d * (i.factors k).1 ∧
        d * (i.factors k).1 < i.high * (i.factors k).2) := by
    simp only [holds] at hholds
    split at hholds <;> simp only [Bool.and_eq_true, decide_eq_true_eq] at hholds
    · exact ⟨hholds, .inl ‹_›⟩
    · exact ⟨⟨hholds.1.le, hholds.2.le⟩, .inr hholds⟩
  rw [hpoint]
  constructor <;> rw [hscale]
  · exact mul_le_mul_of_nonneg_right (Nat.cast_le.2 hends.1.1) hu.le
  · rw [mul_le_mul_iff_left₀ hu]
    exact Nat.cast_le.2 hends.1.2
  · rw [hscale, mul_lt_mul_iff_left₀ hu, mul_lt_mul_iff_left₀ hu, Nat.cast_lt, Nat.cast_lt]
    exact hends.2

/-- Strictly between the ends, a point is found to be in the interval. -/
theorem Interval.holds_of_lt (hlow : i.low * (i.factors k).2 < d * (i.factors k).1)
    (hhigh : d * (i.factors k).1 < i.high * (i.factors k).2) : i.holds k d := by
  simp only [holds]
  split <;> simp only [Bool.and_eq_true, decide_eq_true_eq] <;> omega

/-- The nearest point of a grid lies in the interval. -/
theorem Interval.holds_of_nearest? (hd : i.nearest? k = some d) : i.holds k d := by
  simp only [nearest?] at hd
  split at hd
  · rename_i hbelow _
    rwa [← Option.some.inj hd]
  · rename_i _ habove
    rwa [← Option.some.inj hd]
  · cases hd
  · rename_i hbelow habove
    split_ifs at hd <;> rwa [← Option.some.inj hd]

/-- Grid points and interval are compared by positive factors. -/
theorem Interval.factors_pos (i : Interval) (k : ℤ) :
    0 < (i.factors k).1 ∧ 0 < (i.factors k).2 := by
  simp only [factors, Nat.pow_eq, Nat.shiftLeft_eq]
  constructor <;> positivity

/-- The steps of a grid and of a float, compared in whole numbers. -/
theorem step_le_iff {n : ℕ} :
    (10 : ℚ) ^ (k + n) ≤ m * 2 ^ e ↔
      ((Interval.around m e).factors k).1 * 10 ^ n ≤
        4 * (m * ((Interval.around m e).factors k).2) := by
  obtain ⟨u, hu, hten, htwo⟩ := (Interval.around m e).exists_unit k
  generalize (Interval.around m e).factors k = factors at *
  have hvalue : (m : ℚ) * 2 ^ e = (4 * (m * factors.2) : ℕ) * u := by
    have htwo' : (2 : ℚ) ^ (e - 2) = factors.2 * u := htwo
    rw [show e = e - 2 + 2 by ring, zpow_add₀ two_ne_zero, htwo']
    push_cast
    ring
  have hstep : (10 : ℚ) ^ (k + n) = (factors.1 * 10 ^ n : ℕ) * u := by
    rw [zpow_add₀ (by norm_num), hten, zpow_natCast]
    push_cast
    ring
  rw [hvalue, hstep, mul_le_mul_iff_left₀ hu, Nat.cast_le]

/-- A grid whose step is so much finer than the float has one of the points next to the value in the
interval. -/
theorem holds_of_fine (hm : Canonical m e) (hpos : 0 < m)
    (hfine : (10 : ℚ) ^ (k + 16) ≤ m * 2 ^ e) {a b : ℕ}
    (hfactors : (Interval.around m e).factors k = (a, b)) :
    (Interval.around m e).holds k (4 * (m * b) / a) ∨
      (Interval.around m e).holds k (4 * (m * b) / a + 1) := by
  have hbits := hm.bits
  obtain ⟨ha, hb⟩ := (Interval.around m e).factors_pos k
  have hstep := step_le_iff.1 hfine
  rw [hfactors] at ha hb hstep
  dsimp only at ha hb hstep
  have hmost : m * b ≤ 2 ^ 53 * b := Nat.mul_le_mul_right b hbits.le
  -- One unit of the last place are four steps of the interval.
  have hlow : (Interval.around m e).low * b < 4 * (m * b) ∧
      (Interval.around m e).low * b + a < (4 * m + 2) * b := by
    simp only [Interval.around, Nat.one_shiftLeft]
    split
    · rename_i hpower
      rw [Nat.sub_mul, add_mul, mul_assoc]
      rw [hpower.1] at hstep ⊢
      omega
    · rw [Nat.sub_mul, add_mul, mul_assoc]
      have hleast : b ≤ m * b := Nat.le_mul_of_pos_left b hpos
      omega
  have hhigh : 4 * (m * b) < (4 * m + 2) * b := by
    rw [add_mul, mul_assoc]
    omega
  by_cases hinside : (Interval.around m e).low * b < 4 * (m * b) / a * a
  · refine .inl (Interval.holds_of_lt ?_ ?_) <;> rw [hfactors]
    · exact hinside
    · exact (Nat.div_mul_le_self _ a).trans_lt hhigh
  · refine .inr (Interval.holds_of_lt ?_ ?_) <;> rw [hfactors, add_mul, one_mul]
    · exact hlow.1.trans (Nat.lt_div_mul_add ha)
    · exact (Nat.add_le_add_right (not_lt.1 hinside) a).trans_lt hlow.2

/-- A grid that is fine enough has a point in the interval. -/
theorem nearest?_isSome (hm : Canonical m e) (hpos : 0 < m)
    (hfine : (10 : ℚ) ^ (k + 16) ≤ m * 2 ^ e) : ((Interval.around m e).nearest? k).isSome := by
  obtain ⟨a, b, hfactors⟩ : ∃ a b, (Interval.around m e).factors k = (a, b) := ⟨_, _, rfl⟩
  have hnear := holds_of_fine hm hpos hfine hfactors
  have hvalue : (Interval.around m e).value * b / a = 4 * (m * b) / a := by
    rw [← mul_assoc]
    rfl
  simp only [Interval.nearest?, hfactors, hvalue]
  split
  · rfl
  · rfl
  · rename_i hbelow habove
    rw [hbelow, habove] at hnear
    simp at hnear
  · split_ifs <;> rfl

/-- Powers of two between powers of ten. -/
theorem ten_pow_near_two_pow : ∀ n < 1075, 10 ^ (n * 30103 / 100000 - 2) ≤ 2 ^ n ∧
    2 ^ n ≤ 10 ^ (n * 30103 / 100000 + 2) := by
  decide +kernel

/-- The guess that the bits of a value allow is at most two too great. -/
theorem ten_zpow_guess_le {n : ℤ} (hleast : -1074 ≤ n) (hmost : n ≤ 1074) :
    (10 : ℚ) ^ (n * 30103 / 100000 - 2) ≤ 2 ^ n := by
  obtain ⟨b, rfl | rfl⟩ := n.eq_nat_or_neg
  · have hle : ((10 ^ (b * 30103 / 100000 - 2) : ℕ) : ℚ) ≤ (2 ^ b : ℕ) :=
      Nat.cast_le.2 (ten_pow_near_two_pow b (by omega)).1
    rw [Nat.cast_pow, Nat.cast_pow, ← zpow_natCast, ← zpow_natCast] at hle
    exact (zpow_le_zpow_right₀ (by norm_num) (by omega)).trans hle
  · have hle : ((2 ^ b : ℕ) : ℚ) ≤ (10 ^ (b * 30103 / 100000 + 2) : ℕ) :=
      Nat.cast_le.2 (ten_pow_near_two_pow b (by omega)).2
    rw [Nat.cast_pow, Nat.cast_pow, ← zpow_natCast, ← zpow_natCast] at hle
    have hinv := inv_anti₀ (by positivity) hle
    rw [← zpow_neg, ← zpow_neg] at hinv
    exact (zpow_le_zpow_right₀ (by norm_num) (by omega)).trans hinv

/-- A value is less than a power of ten exactly if their multiples by the factors are so ordered. -/
theorem Interval.value_lt_iff (i : Interval) (k : ℤ) :
    i.value * (i.factors k).2 < (i.factors k).1 ↔ (i.value : ℚ) * 2 ^ i.exponent < 10 ^ k := by
  obtain ⟨u, hu, hten, htwo⟩ := i.exists_unit k
  rw [hten, htwo, ← mul_assoc, mul_lt_mul_iff_left₀ hu]
  norm_cast

/-- The number of digits is not overestimated by more than one. -/
theorem ten_zpow_magnitude_le (hm : Canonical m e) (hmost : e ≤ 971) (hpos : 0 < m) :
    (10 : ℚ) ^ ((Interval.around m e).magnitude - 1) ≤ m * 2 ^ e := by
  have hvalue : ((Interval.around m e).value : ℚ) * 2 ^ (Interval.around m e).exponent =
      m * 2 ^ e := by
    simp only [Interval.around]
    rw [zpow_sub₀ two_ne_zero]
    push_cast
    ring
  have hlog : (4 * m).log2 = m.log2 + 2 := by
    rw [mul_comm]
    exact log2_mul_two_pow hpos.ne' 2
  have hbits : (2 : ℚ) ^ ((m.log2 : ℤ) + e) ≤ m * 2 ^ e := by
    rw [zpow_add₀ two_ne_zero, zpow_natCast]
    exact mul_le_mul_of_nonneg_right (by exact_mod_cast Nat.log2_self_le hpos.ne')
      (two_zpow_pos e).le
  have hlog' : m.log2 < 53 := (Nat.log2_lt hpos.ne').2 hm.bits
  have hleast := hm.least
  have hguess := (ten_zpow_guess_le (n := m.log2 + e) (by omega) (by omega)).trans hbits
  have hsize : (((Interval.around m e).value.log2 : ℕ) : ℤ) + (Interval.around m e).exponent =
      m.log2 + e := by
    simp only [Interval.around, hlog]
    push_cast
    ring
  simp only [Interval.magnitude, Interval.value_lt_iff, hvalue, decide_eq_true_eq, hsize]
  generalize (m.log2 + e) * 30103 / 100000 = guess at *
  split_ifs with hleast' hguess' hmore
  · rwa [sub_sub]
  · exact not_lt.1 hleast'
  · rw [add_sub_cancel_right]
    exact not_lt.1 hguess'
  · rw [show guess + 2 - 1 = guess + 1 by ring]
    exact not_lt.1 hmore

/-- Zeros at the end go without changing the number. -/
theorem value_strip (c : ℕ) (k : ℤ) (n : ℕ) :
    ((Digits.strip c k n).coefficient : ℚ) * 10 ^ (Digits.strip c k n).exponent = c * 10 ^ k := by
  induction n generalizing c k with
  | zero => rfl
  | succ n ih =>
    rw [Digits.strip]
    split
    · rename_i hzero
      rw [ih, zpow_add_one₀ (by norm_num)]
      have hdiv : ((c / 10 : ℕ) : ℚ) * 10 = c := by
        exact_mod_cast Nat.div_mul_cancel (Nat.dvd_of_mod_eq_zero hzero.2)
      rw [← hdiv]
      ring
    · rfl

/-- The shortest decimal of a positive float is around the float. -/
theorem contains_shortest (hm : Canonical m e) (hmost : e ≤ 971) (hpos : 0 < m) :
    (Interval.around m e).Contains
      ((shortest m e).coefficient * 10 ^ (shortest m e).exponent) := by
  have hfine := ten_zpow_magnitude_le hm hmost hpos
  simp only [shortest]
  split
  · rename_i d k hfound
    rw [value_strip]
    obtain ⟨n, -, hn⟩ := List.exists_of_findSome?_eq_some hfound
    obtain ⟨d', hd', heq⟩ := Option.map_eq_some_iff.1 hn
    cases heq
    exact Interval.contains_of_holds (Interval.holds_of_nearest? hd')
  · rename_i hnone
    rw [List.findSome?_eq_none_iff] at hnone
    have hlast := hnone 16 (by simp)
    have hsome := nearest?_isSome (k := (Interval.around m e).magnitude - (16 + 1 : ℕ)) hm hpos
      (by convert hfine using 2; push_cast; ring)
    rw [show ((16 + 1 : ℕ) : ℤ) = (16 : ℕ) + 1 from rfl, Option.map_eq_none_iff.1 hlast] at hsome
    cases hsome

end EnvSettings.Decimal
