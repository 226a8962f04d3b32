import Mathlib
import EnvSettings.Json.Printer
import EnvSettings.Json.Reader
import EnvSettings.Proofs.Decimal.Layout
import EnvSettings.Proofs.Except

namespace EnvSettings

open Decimal (Literal ofDigits)
open Number (Exact Rounds signOf)

namespace Decimal

/-- The number of joined digits, by the place of the first ones. -/
theorem ofDigits_append (digits rest : List Char) :
    ofDigits (digits ++ rest) = ofDigits digits * 10 ^ rest.length + ofDigits rest := by
  rw [ofDigits_eq_ofDigitChars, ofDigits_eq_ofDigitChars, ofDigits_eq_ofDigitChars,
    Nat.ofDigitChars_append, Nat.ofDigitChars_eq_ofDigitChars_zero, mul_comm]

end Decimal

/-- The integers that fit are those from the least to the greatest one of 64 bits. -/
theorem Word.fitsSigned_iff {n : Int} :
    fitsSigned n = true ↔ Int64.minValue.toInt ≤ n ∧ n ≤ Int64.maxValue.toInt := by
  have hmin : Int64.minValue.toInt = -(signedMax : Int) - 1 := by decide
  have hmax : Int64.maxValue.toInt = signedMax := by decide
  rw [hmin, hmax, fitsSigned, Bool.and_eq_true, decide_eq_true_iff, decide_eq_true_iff]

namespace Json

variable {n : ℕ} {digits : List Char} {d : Literal}

/-- Digits are taken as long as the number fits. -/
theorem absorb_of_lt (hlt : n * 10 ^ digits.length + ofDigits digits < UInt64.size) :
    absorb n digits = (n * 10 ^ digits.length + ofDigits digits, 0) := by
  induction digits generalizing n with
  | nil => simp [absorb, ofDigits]
  | cons c digits ih =>
    have hcons : n * 10 ^ (c :: digits).length + ofDigits (c :: digits) =
        (10 * n + Decimal.digitValue c) * 10 ^ digits.length + ofDigits digits := by
      have hfirst : ofDigits (c :: digits) =
          ofDigits [c] * 10 ^ digits.length + ofDigits digits := Decimal.ofDigits_append [c] digits
      rw [hfirst, List.length_cons, pow_succ]
      simp only [ofDigits, List.foldl_cons, List.foldl_nil]
      ring
    rw [hcons] at hlt ⊢
    have hnext : 10 * n + Decimal.digitValue c < UInt64.size :=
      lt_of_le_of_lt (le_trans (Nat.le_mul_of_pos_right _ (by positivity)) (Nat.le_add_right _ _))
        hlt
    simp only [absorb, if_pos hnext]
    exact ih hlt

theorem absorb_snd_le (n : ℕ) (digits : List Char) : (absorb n digits).2 ≤ digits.length := by
  induction digits generalizing n with
  | nil => exact le_rfl
  | cons c digits ih =>
    simp only [absorb]
    split
    · exact (ih _).trans (Nat.le_succ _)
    · exact le_rfl

theorem absorb_fst_lt (hn : n < UInt64.size) (digits : List Char) :
    (absorb n digits).1 < UInt64.size := by
  induction digits generalizing n with
  | nil => exact hn
  | cons c digits ih =>
    simp only [absorb]
    split
    · rename_i hnext
      exact ih hnext
    · exact hn

/-- The number of a decimal whose digits in front of the point fit 64 bits. -/
def literalNumber (d : Literal) : Except JsonFault JsonNumber :=
  if d.fraction = [] then .ok (wholeNumber d.negative (ofDigits d.whole))
  else
    let (significand, cut) := absorb (ofDigits d.whole) d.fraction
    floatOf d.negative significand (-(d.fraction.length - cut))

theorem unsigned_body (d : Literal) (hwhole : ofDigits d.whole < UInt64.size) :
    unsigned d.negative d.body = (literalNumber d).map (·, []) := by
  obtain ⟨c, rest, hbody, hc⟩ := d.exists_body_eq_cons
  have htake := d.takeWhile_body
  have hdrop := d.dropWhile_body
  rw [hbody] at htake hdrop
  have hleading : ¬(c = '0' ∧ rest.head?.any Char.isDigit = true) := by
    rintro ⟨rfl, hdigit⟩
    rw [List.takeWhile_cons_of_pos hc] at htake
    have hzero := d.whole_leading (by rw [← htake, List.head?_cons])
    rw [← htake, List.cons.injEq] at hzero
    cases rest with
    | nil => cases hdigit
    | cons b rest =>
      have hdigit' : b.isDigit = true := hdigit
      rw [List.takeWhile_cons_of_pos hdigit'] at hzero
      cases hzero.2
  have habsorb : absorb 0 d.whole = (ofDigits d.whole, 0) := by
    have hsum : 0 * 10 ^ d.whole.length + ofDigits d.whole < UInt64.size := by
      rwa [zero_mul, zero_add]
    rw [absorb_of_lt hsum, zero_mul, zero_add]
  rw [hbody]
  simp only [unsigned, hc, hleading, htake, hdrop, habsorb, literalNumber]
  by_cases hnone : d.fraction = []
  · simp [hnone, afterDigits]
  · simp [hnone, afterDigits, d.takeWhile_fraction, d.dropWhile_fraction]

/-- A decimal is read as its number. -/
theorem parse_text (d : Literal) (hwhole : ofDigits d.whole < UInt64.size) :
    parse (String.ofList d.text) = (literalNumber d).map .number := by
  obtain ⟨c, rest, hbody, hc⟩ := d.exists_body_eq_cons
  have hunsigned := unsigned_body d hwhole
  have hvalue : value depthLimit d.text =
      (unsigned d.negative d.body).map fun read => (.number read.1, read.2) := by
    have hblank : ∀ b, b.isDigit ∨ b = '-' → ∀ s, skipBlank (b :: s) = b :: s := fun b hb s => by
      refine List.dropWhile_cons_of_neg ?_
      simp only [isBlank, Bool.or_eq_true, beq_iff_eq]
      rintro (((rfl | rfl) | rfl) | rfl) <;> revert hb <;> decide
    have hletters : c ≠ 'n' ∧ c ≠ 't' ∧ c ≠ 'f' ∧ c ≠ '-' := by
      refine ⟨?_, ?_, ?_, ?_⟩ <;> rintro rfl <;> cases hc
    rw [Literal.text, hbody]
    cases d.negative with
    | true =>
      rw [if_pos rfl, value, hblank '-' (.inr rfl)]
      dsimp only
      rw [if_neg (by decide), if_neg (by decide), if_neg (by decide), if_pos rfl]
      cases unsigned true (c :: rest) <;> rfl
    | false =>
      rw [if_neg Bool.false_ne_true, value, hblank c (.inl hc)]
      dsimp only
      rw [if_neg hletters.1, if_neg hletters.2.1, if_neg hletters.2.2.1, if_neg hletters.2.2.2,
        if_pos hc]
      cases unsigned false (c :: rest) <;> rfl
  rw [parse, String.toList_ofList, hvalue, hunsigned]
  cases literalNumber d <;> rfl

/-- A natural number is converted to the float nearest to it. -/
theorem rounds_ofNat (n : ℕ) : Rounds .positive n (Float.ofNat n) := by
  have hrounds : Rounds .positive (n * 10 ^ 0) (Float.ofNat n) :=
    Number.rounds_ofScientific_mul (Nat.zero_le 400)
  rwa [pow_zero, mul_one] at hrounds

/-- A natural number of at most 53 bits is converted without rounding. -/
theorem exact_ofNat {n : ℕ} (hn : n < 2 ^ 53) : Exact .positive n (Float.ofNat n) := by
  have hrounds := rounds_ofNat n
  rw [← mul_one (n : ℚ), ← pow_zero 2] at hrounds
  simpa using hrounds.exact hn (by decide)

/-- The powers of ten up to the 22nd are floats. -/
theorem exact_powerOfTen {k : ℕ} (hk : k ≤ 22) : Exact .positive (10 ^ k) (powerOfTen k) := by
  have hrounds : Rounds .positive ((1 : ℕ) * 10 ^ k) (powerOfTen k) :=
    Number.rounds_ofScientific_mul (by omega)
  have hvalue : (((1 : ℕ) : ℚ) * 10 ^ k) = (5 ^ k : ℕ) * 2 ^ k := by
    push_cast
    rw [one_mul, ← mul_pow]
    norm_num
  have hbits : 5 ^ k < 2 ^ 53 := (Nat.pow_le_pow_right (by decide) hk).trans_lt (by decide)
  rw [hvalue] at hrounds
  have hexact := hrounds.exact hbits (by omega)
  rwa [← hvalue, Nat.cast_one, one_mul] at hexact

/-- Dividing by a power of ten never fails. -/
theorem exists_scale_of_neg (steps : ℕ) (x : Float) {exponent : ℤ} (hneg : exponent < 0) :
    ∃ y, scale steps x exponent = .ok y := by
  induction steps generalizing x exponent with
  | zero => exact ⟨x, rfl⟩
  | succ steps ih =>
    rw [scale]
    split_ifs with hnear hnonneg hzero
    · omega
    · exact ⟨_, rfl⟩
    · exact ⟨x, rfl⟩
    · omega
    · exact ih _ (by omega)

theorem exists_scale_zero {n : ℕ} (hn : n < 2 ^ 64) :
    ∃ y, scale 4 (Float.ofNat n) 0 = .ok y := by
  have hfinite := Number.isFinite_of_fits (Number.fits_ofNat hn)
  obtain ⟨negative, m, e, hparts⟩ := Number.exists_parts_of_isFinite hfinite
  have hrounds : Rounds (signOf negative * .positive) (m * 2 ^ e * 10 ^ 0) _ :=
    Exact.mul ⟨m, e, hparts, rfl⟩ (exact_powerOfTen (Nat.zero_le 22))
  have hproduct : (Float.ofNat n * powerOfTen 0).isFinite := by
    rw [pow_zero, mul_one] at hrounds
    exact (hrounds.parts hparts.canonical hparts.greatest (Number.contains_self m e)).isFinite
  refine ⟨Float.ofNat n * powerOfTen 0, ?_⟩
  rw [scale, if_pos (by decide), if_pos le_rfl]
  exact if_pos hproduct

/-- A number that fits 64 bits is not out of range with a fraction. -/
theorem exists_floatOf (negative : Bool) {n : ℕ} (hn : n < 2 ^ 64) {exponent : ℤ}
    (hexponent : exponent ≤ 0) : ∃ y, floatOf negative n exponent = .ok (.float y) := by
  obtain ⟨x, hx⟩ : ∃ x, scale 4 (Float.ofNat n) exponent = .ok x := by
    obtain hneg | rfl := hexponent.lt_or_eq
    · exact exists_scale_of_neg 4 _ hneg
    · exact exists_scale_zero hn
  refine ⟨if negative then -x else x, ?_⟩
  rw [floatOf, hx]
  rfl

/-- Few digits make the nearest float. -/
theorem literalNumber_of_short (hne : d.fraction ≠ []) (hshort : d.coefficient < 2 ^ 53)
    (hlength : d.fraction.length ≤ 22) : literalNumber d = .ok (.float d.toFloat) := by
  have hsum : ofDigits d.whole * 10 ^ d.fraction.length + ofDigits d.fraction = d.coefficient :=
    (Decimal.ofDigits_append d.whole d.fraction).symm
  have habsorb : absorb (ofDigits d.whole) d.fraction = (d.coefficient, 0) := by
    rw [absorb_of_lt (hsum ▸ hshort.trans (by decide)), hsum]
  have hpos := List.length_pos_of_ne_nil hne
  have hquotient : Rounds .positive (d.coefficient / 10 ^ d.fraction.length)
      (Float.ofNat d.coefficient / powerOfTen d.fraction.length) :=
    (exact_ofNat hshort).div (exact_powerOfTen hlength) (by positivity)
  have hscale : scale 4 (Float.ofNat d.coefficient) (-d.fraction.length) =
      .ok (Float.ofNat d.coefficient / powerOfTen d.fraction.length) := by
    rw [scale, Int.natAbs_neg, Int.natAbs_natCast, if_pos (by omega), if_neg (by omega)]
  have hsame : (if d.negative then -(Float.ofNat d.coefficient / powerOfTen d.fraction.length)
      else Float.ofNat d.coefficient / powerOfTen d.fraction.length) = d.toFloat := by
    refine Rounds.unique ?_ d.rounds_toFloat
    rw [Literal.magnitude, zpow_neg, zpow_natCast, ← div_eq_mul_inv]
    cases d.negative with
    | false => exact hquotient
    | true => exact hquotient.neg
  rw [← hsame, literalNumber, if_neg hne]
  simp only [habsorb, Nat.cast_zero, sub_zero, floatOf, hscale]
  rfl

/-- An integer is written by its digits, with a sign if it is negative. -/
theorem toList_toString (i : ℤ) :
    (toString i).toList =
      if i < 0 then '-' :: Nat.toDigits 10 i.natAbs else Nat.toDigits 10 i.natAbs := by
  cases i with
  | ofNat n =>
    rw [if_neg (by simp)]
    exact Nat.toList_repr
  | negSucc n =>
    rw [if_pos (Int.negSucc_lt_zero n)]
    change ("-" ++ Nat.repr (n + 1)).toList = _
    rw [String.toList_append, Nat.toList_repr]
    rfl

theorem fitsSigned_of_natAbs_lt {i : ℤ} (hi : i.natAbs < 2 ^ 63) : Word.fitsSigned i := by
  rw [Word.fitsSigned, Bool.and_eq_true, decide_eq_true_iff, decide_eq_true_iff, Word.signedMax]
  omega

/-- An integer that fits is kept as a machine word. -/
theorem toInt_ofInt {i : ℤ} (hi : Word.fitsSigned i) : (Int64.ofInt i).toInt = i := by
  obtain ⟨hleast, hmost⟩ := Word.fitsSigned_iff.1 hi
  have hmax : Int64.maxValue.toInt = 2 ^ 63 - 1 := by decide
  exact Int64.toInt_ofInt_of_le hleast (by omega)

/-- Printed again, an integer is a decimal of the same number. -/
theorem exists_literal_int {i : ℤ} (hi : Word.fitsSigned i) :
    ∃ d : Literal, writeNumber (.int (Int64.ofInt i)) = d.text ∧
      d.negative = decide (i < 0) ∧ d.magnitude = i.natAbs := by
  refine ⟨⟨decide (i < 0), Nat.toDigits 10 i.natAbs, [],
    fun c hc => Decimal.isDigit_of_mem_toDigits hc, by simp, Nat.toDigits_ne_nil, fun hhead => ?_⟩,
    ?_, rfl, ?_⟩
  · by_cases hzero : i.natAbs = 0
    · rw [hzero]
      rfl
    · exact absurd hhead (Decimal.head?_toDigits hzero)
  · rw [writeNumber, toInt_ofInt hi, toList_toString]
    simp [Literal.text, Literal.body]
  · simp [Literal.magnitude, Literal.coefficient, Decimal.ofDigits_toDigits]

/-- Decimals of the same number and sign are the same float. -/
theorem toFloat_eq {d d' : Literal} (hnegative : d.negative = d'.negative)
    (hmagnitude : d.magnitude = d'.magnitude) : d.toFloat = d'.toFloat := by
  have hrounds := d.rounds_toFloat
  rw [hnegative, hmagnitude] at hrounds
  exact hrounds.unique d'.rounds_toFloat

/-- Without a fraction, a decimal that fits 64 bits with a sign is an integer. Only the negative
zero is a float. -/
theorem literalNumber_whole (hnone : d.fraction = []) (hwhole : ofDigits d.whole < 2 ^ 63) :
    (∃ i, literalNumber d = .ok (.int i) ∧
      ∃ d' : Literal, writeNumber (.int i) = d'.text ∧ d'.toFloat = d.toFloat) ∨
    literalNumber d = .ok (.float d.toFloat) := by
  have hmagnitude : d.magnitude = ofDigits d.whole := by
    simp [Literal.magnitude, Literal.coefficient, hnone]
  have hrounds := d.rounds_toFloat
  rw [hmagnitude] at hrounds
  rw [literalNumber, if_pos hnone]
  generalize ofDigits d.whole = n at *
  cases hnegative : d.negative with
  | false =>
    have hfits : Word.fitsSigned n := fitsSigned_of_natAbs_lt (by omega)
    obtain ⟨d', hwrite, hnegative', hmagnitude'⟩ := exists_literal_int hfits
    refine .inl ⟨Int64.ofInt n, ?_, d', hwrite, toFloat_eq ?_ ?_⟩
    · rw [wholeNumber, if_neg Bool.false_ne_true, if_pos hfits]
    · rw [hnegative, hnegative']
      simp
    · rw [hmagnitude, hmagnitude', Int.natAbs_natCast]
  | true =>
    rw [wholeNumber, if_pos rfl]
    rw [hnegative] at hrounds
    have hfits : Word.fitsSigned (-n) := fitsSigned_of_natAbs_lt (by omega)
    obtain rfl | hpos := n.eq_zero_or_pos
    · refine .inr ((congrArg Except.ok (if_pos (.inl rfl))).trans ?_)
      rw [(rounds_ofNat 0).neg.unique hrounds]
    · obtain ⟨d', hwrite, hnegative', hmagnitude'⟩ := exists_literal_int hfits
      refine .inl ⟨Int64.ofInt (-n), ?_, d', hwrite, toFloat_eq ?_ ?_⟩
      · rw [if_neg]
        simp [hfits, hpos.ne']
      · rw [hnegative, hnegative']
        simpa using hpos
      · rw [hmagnitude, hmagnitude', Int.natAbs_neg, Int.natAbs_natCast]

/-- With a fraction, a decimal whose digits in front of the point fit 64 bits is a float. -/
theorem exists_literalNumber_float (hne : d.fraction ≠ [])
    (hwhole : ofDigits d.whole < UInt64.size) : ∃ y, literalNumber d = .ok (.float y) := by
  have hcut := absorb_snd_le (ofDigits d.whole) d.fraction
  obtain ⟨y, hy⟩ := exists_floatOf d.negative (absorb_fst_lt hwhole d.fraction)
    (by omega : -((d.fraction.length : ℤ) - (absorb (ofDigits d.whole) d.fraction).2) ≤ 0)
  refine ⟨y, ?_⟩
  rw [literalNumber, if_neg hne]
  exact hy

/-- A decimal whose digits in front of the point fit 64 bits with a sign is an integer, or a
float. -/
theorem literalNumber_cases (d : Literal) (hwhole : ofDigits d.whole < 2 ^ 63) :
    (∃ i, literalNumber d = .ok (.int i) ∧ d.fraction = [] ∧
      ∃ d' : Literal, writeNumber (.int i) = d'.text ∧ d'.toFloat = d.toFloat) ∨
    ∃ y, literalNumber d = .ok (.float y) ∧
      (d.coefficient < 2 ^ 53 → d.fraction.length ≤ 22 → y = d.toFloat) := by
  by_cases hnone : d.fraction = []
  · obtain ⟨i, hi, hwritten⟩ | hfloat := literalNumber_whole hnone hwhole
    · exact .inl ⟨i, hi, hnone, hwritten⟩
    · exact .inr ⟨d.toFloat, hfloat, fun _ _ => rfl⟩
  · obtain ⟨y, hnumber⟩ := exists_literalNumber_float hnone (hwhole.trans (by decide))
    refine .inr ⟨y, hnumber, fun hshort hlength => ?_⟩
    have hnearest := literalNumber_of_short hnone hshort hlength
    rw [hnumber] at hnearest
    cases hnearest
    rfl

end Json

end EnvSettings
