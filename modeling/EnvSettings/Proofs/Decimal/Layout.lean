import Mathlib
import EnvSettings.Decimal.Layout
import EnvSettings.Proofs.Decimal.Literal
import EnvSettings.Proofs.Decimal.Shortest

namespace EnvSettings.Decimal

open Number

variable {m : ℕ} {e : ℤ} {y : Float} {negative : Bool}

theorem ofDigits_zeros_append (n : ℕ) (digits : List Char) :
    ofDigits (List.replicate n '0' ++ digits) = ofDigits digits := by
  rw [ofDigits_eq_ofDigitChars, ofDigits_eq_ofDigitChars, Nat.ofDigitChars_append,
    Nat.ofDigitChars_replicate_zero, mul_zero]

theorem ofDigits_append_zeros (digits : List Char) (n : ℕ) :
    ofDigits (digits ++ List.replicate n '0') = ofDigits digits * 10 ^ n := by
  rw [ofDigits_eq_ofDigitChars, ofDigits_eq_ofDigitChars, Nat.ofDigitChars_append,
    Nat.ofDigitChars_replicate_zero, mul_comm]

section Positional

variable {digits : List Char} {point : ℤ}

theorem isDigit_of_mem_zeros {c : Char} {n : ℕ} (hc : c ∈ List.replicate n '0') : c.isDigit := by
  rw [(List.mem_replicate.1 hc).2]
  rfl

/-- With the point in front, all digits stand behind it. -/
theorem exists_literal_front (negative : Bool) (hdigits : ∀ c ∈ digits, c.isDigit)
    (hne : digits ≠ []) (hpoint : point ≤ 0) :
    ∃ d : Literal, d.negative = negative ∧ d.body = Layout.json.positional digits point ∧
      d.magnitude = ofDigits digits * 10 ^ (point - digits.length) := by
  rw [Layout.positional, if_pos hpoint]
  refine ⟨⟨negative, ['0'], List.replicate (-point).toNat '0' ++ digits, by simp, ?_, by simp,
    fun _ => rfl⟩, rfl, ?_, ?_⟩
  · exact fun c hc => (List.mem_append.1 hc).elim isDigit_of_mem_zeros (hdigits c)
  · simp [Literal.body, hne]
  · have hcoefficient : ofDigits (['0'] ++ (List.replicate (-point).toNat '0' ++ digits)) =
        ofDigits digits := by
      rw [← List.append_assoc]
      exact ofDigits_zeros_append (_ + 1) digits
    simp only [Literal.magnitude, Literal.coefficient, hcoefficient, List.length_append,
      List.length_replicate]
    congr 2
    omega

/-- With the point at the end or farther, zeros fill the places up to it, and one follows it. -/
theorem exists_literal_back (negative : Bool) (hdigits : ∀ c ∈ digits, c.isDigit)
    (hne : digits ≠ []) (hlead : digits.head? = some '0' → digits = ['0'] ∧ point ≤ 1)
    (hpoint : ¬point ≤ 0) (hlength : digits.length ≤ point.toNat) :
    ∃ d : Literal, d.negative = negative ∧ d.body = Layout.json.positional digits point ∧
      d.magnitude = ofDigits digits * 10 ^ (point - digits.length) := by
  rw [Layout.positional, if_neg hpoint]
  dsimp only
  rw [if_pos hlength]
  refine ⟨⟨negative, digits ++ List.replicate (point.toNat - digits.length) '0', ['0'], ?_,
    by simp, by simp [hne], fun hhead => ?_⟩, rfl, ?_, ?_⟩
  · exact fun c hc => (List.mem_append.1 hc).elim (hdigits c) isDigit_of_mem_zeros
  · rw [List.head?_append_of_ne_nil _ hne] at hhead
    obtain ⟨rfl, hone⟩ := hlead hhead
    rw [show point.toNat - ['0'].length = 0 by simp; omega]
    rfl
  · simp [Literal.body, Layout.json]
  · have hcoefficient : ofDigits (digits ++
        List.replicate (point.toNat - digits.length) '0' ++ ['0']) =
        ofDigits digits * 10 ^ (point.toNat - digits.length + 1) := by
      rw [← ofDigits_append_zeros, List.replicate_succ', List.append_assoc]
    simp only [Literal.magnitude, Literal.coefficient, hcoefficient, List.length_singleton]
    push_cast
    rw [mul_assoc, ← zpow_natCast, ← zpow_add₀ (by norm_num)]
    congr 2
    push_cast
    omega

/-- A point among the digits makes a decimal of the same number. -/
theorem exists_literal_between (negative : Bool) (hdigits : ∀ c ∈ digits, c.isDigit)
    (hne : digits ≠ []) (hlead : digits.head? = some '0' → digits = ['0'])
    (hpoint : ¬point ≤ 0) (hlength : ¬digits.length ≤ point.toNat) :
    ∃ d : Literal, d.negative = negative ∧ d.body = Layout.json.positional digits point ∧
      d.magnitude = ofDigits digits * 10 ^ (point - digits.length) := by
  rw [Layout.positional, if_neg hpoint]
  dsimp only
  rw [if_neg hlength]
  refine ⟨⟨negative, digits.take point.toNat, digits.drop point.toNat,
    fun c hc => hdigits c (List.mem_of_mem_take hc),
    fun c hc => hdigits c (List.mem_of_mem_drop hc), ?_, fun hhead => ?_⟩, rfl, ?_, ?_⟩
  · simp only [ne_eq, List.take_eq_nil_iff, not_or]
    exact ⟨by omega, hne⟩
  · rw [List.head?_take, if_neg (by omega)] at hhead
    rw [hlead hhead] at hlength
    simp at hlength
    omega
  · have hrest : digits.drop point.toNat ≠ [] := by
      rw [ne_eq, List.drop_eq_nil_iff]
      exact hlength
    simp [Literal.body, hrest]
  · simp only [Literal.magnitude, Literal.coefficient, List.take_append_drop, List.length_drop]
    congr 2
    omega

/-- A layout with a point is a decimal of the same number. -/
theorem exists_literal_positional (negative : Bool) (point : ℤ)
    (hdigits : ∀ c ∈ digits, c.isDigit) (hne : digits ≠ [])
    (hlead : digits.head? = some '0' → digits = ['0'] ∧ point ≤ 1) :
    ∃ d : Literal, d.negative = negative ∧ d.body = Layout.json.positional digits point ∧
      d.magnitude = ofDigits digits * 10 ^ (point - digits.length) := by
  by_cases hpoint : point ≤ 0
  · exact exists_literal_front negative hdigits hne hpoint
  by_cases hlength : digits.length ≤ point.toNat
  · exact exists_literal_back negative hdigits hne hlead hpoint hlength
  · exact exists_literal_between negative hdigits hne (fun h => (hlead h).1) hpoint hlength

end Positional

/-- The number of the shortest decimal of a float. -/
def shortestValue (m : ℕ) (e : ℤ) : ℚ :=
  (shortest m e).coefficient * 10 ^ (shortest m e).exponent

/-- The decimal exponent of the shortest decimal. -/
def shortestTop (m : ℕ) (e : ℤ) : ℤ :=
  (Nat.toDigits 10 (shortest m e).coefficient).length + (shortest m e).exponent - 1

/-- The numbers around a positive float are positive. -/
theorem Interval.Contains.pos {v : ℚ} (hv : (Interval.around m e).Contains v) (hm : 0 < m) :
    0 < v := by
  refine lt_of_lt_of_le (mul_pos ?_ (two_zpow_pos _)) hv.low_le
  simp only [Interval.around]
  split <;> exact_mod_cast (by omega)

theorem coefficient_shortest_ne_zero (hm : Canonical m e) (hmost : e ≤ 971) (hpos : 0 < m) :
    (shortest m e).coefficient ≠ 0 := fun hzero => by
  have hvalue := (contains_shortest hm hmost hpos).pos hpos
  rw [hzero, Nat.cast_zero, zero_mul] at hvalue
  exact lt_irrefl _ hvalue

/-- A decimal exponent is reached exactly if the power of ten is. -/
theorem le_shortestTop_iff (hm : Canonical m e) (hmost : e ≤ 971) (hpos : 0 < m) (k : ℤ) :
    k ≤ shortestTop m e ↔ 10 ^ k ≤ shortestValue m e := by
  have hne := coefficient_shortest_ne_zero hm hmost hpos
  have hlow := ten_zpow_le_mul hne (shortest m e).exponent
  have hhigh := mul_lt_ten_zpow (shortest m e).coefficient (shortest m e).exponent
  rw [shortestTop, shortestValue]
  constructor
  · intro hk
    exact (zpow_le_zpow_right₀ (by norm_num) hk).trans hlow
  · intro hk
    have hless := (zpow_lt_zpow_iff_right₀ (by norm_num)).1 (hk.trans_lt hhigh)
    omega

/-- The digits of a number make the number. -/
theorem ofDigits_toDigits (n : ℕ) : ofDigits (Nat.toDigits 10 n) = n := by
  rw [ofDigits_eq_ofDigitChars, Nat.ofDigitChars_ten_toDigits]

theorem isDigit_of_mem_toDigits {c : Char} {n : ℕ} (hc : c ∈ Nat.toDigits 10 n) : c.isDigit :=
  Nat.isDigit_of_mem_toDigits (by decide) (by decide) hc

/-- The digits of a number do not begin with zero. -/
theorem head?_toDigits {n : ℕ} (hn : n ≠ 0) : (Nat.toDigits 10 n).head? ≠ some '0' := by
  induction n using Nat.strong_induction_on with
  | _ n ih =>
    obtain hlt | hle := Nat.lt_or_ge n 10
    · rw [Nat.toDigits_of_lt_base hlt]
      interval_cases n <;> first | exact absurd rfl hn | decide
    · rw [Nat.toDigits_of_base_le (by decide) hle,
        List.head?_append_of_ne_nil _ Nat.toDigits_ne_nil]
      exact ih (n / 10) (by omega) (by omega)

/-- A float in the plain range is written as a decimal in its interval. -/
theorem exists_literal_magnitude (negative : Bool) (hm : Canonical m e) (hmost : e ≤ 971)
    (hrange : m = 0 ∨ -5 ≤ shortestTop m e ∧ shortestTop m e ≤ 15) :
    ∃ d : Literal, d.negative = negative ∧ d.body = Layout.json.magnitude m e ∧
      (Interval.around m e).Contains d.magnitude := by
  rw [Layout.magnitude]
  split
  · rename_i hzero
    have hleast : e = -1074 := hm.full.resolve_left (by omega)
    obtain ⟨d, hnegative, hbody, hmagnitude⟩ := exists_literal_positional negative 1
      (by simp : ∀ c ∈ ['0'], c.isDigit) (by simp) (fun _ => ⟨rfl, le_rfl⟩)
    refine ⟨d, hnegative, hbody, ?_⟩
    rw [hmagnitude, hzero, hleast]
    simpa [ofDigits, digitValue] using contains_zero
  · rename_i hne
    have hpos := Nat.pos_of_ne_zero hne
    have hcoefficient := coefficient_shortest_ne_zero hm hmost hpos
    obtain ⟨hleast, hgreatest⟩ := hrange.resolve_left hne
    have hinside : (Layout.json.least.all (· ≤ shortestTop m e) &&
        Layout.json.greatest.all (shortestTop m e ≤ ·)) = true := by
      simp [Layout.json, hleast, hgreatest]
    obtain ⟨d, hnegative, hbody, hmagnitude⟩ :=
      exists_literal_positional negative (shortestTop m e + 1)
        (fun c hc => isDigit_of_mem_toDigits hc) Nat.toDigits_ne_nil
        (fun hhead => absurd hhead (head?_toDigits hcoefficient))
    refine ⟨d, hnegative, hbody.trans (if_pos hinside).symm, ?_⟩
    rw [hmagnitude, ofDigits_toDigits, shortestTop]
    convert contains_shortest hm hmost hpos using 3
    ring

/-- Laid out with a point, a float is a decimal that is read as the float. -/
theorem exists_literal_write (hy : Parts y (signOf negative) m e)
    (hrange : m = 0 ∨ -5 ≤ shortestTop m e ∧ shortestTop m e ≤ 15) :
    ∃ d : Literal, (Layout.json.write y).toList = d.text ∧ d.toFloat = y := by
  obtain ⟨d, rfl, hbody, hcontains⟩ :=
    exists_literal_magnitude negative hy.canonical hy.greatest hrange
  refine ⟨d, ?_, d.rounds_toFloat.unique (hy.rounds hcontains)⟩
  rw [Layout.write, parts_iff_decoded.1 hy, String.toList_ofList, Literal.text, hbody]

/-- Other floats are written with an exponent. -/
theorem exists_exponent_write (hy : Parts y (signOf negative) m e) (hpos : 0 < m)
    (hrange : ¬(-5 ≤ shortestTop m e ∧ shortestTop m e ≤ 15)) :
    ∃ c rest, (Layout.json.write y).toList =
        (if negative then '-' :: c :: rest else c :: rest) ∧
      c.isDigit ∧ 'e' ∈ rest ∧ ∀ b ∈ rest, b.isDigit ∨ b ∈ ['.', 'e', '-', '+'] := by
  have houtside : (Layout.json.least.all (· ≤ shortestTop m e) &&
      Layout.json.greatest.all (shortestTop m e ≤ ·)) = false := by
    simpa [Layout.json] using hrange
  have hbody : Layout.json.magnitude m e =
      Layout.json.scientific (Nat.toDigits 10 (shortest m e).coefficient) (shortestTop m e) := by
    rw [Layout.magnitude, if_neg hpos.ne']
    exact if_neg (Bool.not_eq_true _ ▸ houtside)
  obtain ⟨c, digits, hdigits⟩ := List.exists_cons_of_ne_nil
    (Nat.toDigits_ne_nil : Nat.toDigits 10 (shortest m e).coefficient ≠ [])
  have hdigit : ∀ b ∈ c :: digits, b.isDigit := fun b hb =>
    isDigit_of_mem_toDigits (hdigits ▸ hb)
  refine ⟨c, (Layout.json.scientific (c :: digits) (shortestTop m e)).tail, ?_, ?_, ?_, ?_⟩
  · rw [Layout.write, parts_iff_decoded.1 hy, String.toList_ofList, hbody, hdigits]
    rfl
  · exact hdigit c List.mem_cons_self
  · simp [Layout.scientific]
  · intro b hb
    simp only [Layout.scientific, List.take_succ_cons, List.take_zero, List.drop_succ_cons,
      List.drop_zero, List.cons_append, List.nil_append, List.tail_cons, List.mem_append,
      List.mem_cons] at hb
    obtain (hb | rfl | hb) | hb := hb
    · split at hb
      · cases hb
      · obtain rfl | hb := List.mem_cons.1 hb
        · simp
        · exact .inl (hdigit b (List.mem_cons_of_mem c hb))
    · simp
    · split at hb
      · simp_all
      · split at hb <;> simp_all
    · exact .inl (isDigit_of_mem_toDigits hb)

end EnvSettings.Decimal
