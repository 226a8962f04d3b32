import Mathlib
import EnvSettings.Proofs.Decimal
import EnvSettings.Proofs.Number.Nearest
import EnvSettings.Proofs.Temporal.RoundTrip

namespace EnvSettings

open Number (Rounds signOf)

namespace Decimal

/-- In front of digits, only a minus is cut off. -/
theorem cutSign_signed {c : Char} {rest : List Char} {negative : Bool} (hc : c.isDigit) :
    cutSign (if negative then '-' :: c :: rest else c :: rest) = (negative, c :: rest) := by
  cases negative with
  | true => rfl
  | false =>
    rw [if_neg Bool.false_ne_true]
    unfold cutSign
    split
    · rename_i heq
      rw [(List.cons.inj heq).1] at hc
      cases hc
    · rename_i heq
      rw [(List.cons.inj heq).1] at hc
      cases hc
    · rfl

/-- A decimal without an exponent: perhaps a minus, digits without needless zeros in front, and
perhaps digits behind a point. -/
structure Literal where
  negative : Bool
  whole : List Char
  fraction : List Char
  whole_digits : ∀ c ∈ whole, c.isDigit
  fraction_digits : ∀ c ∈ fraction, c.isDigit
  whole_ne_nil : whole ≠ []
  whole_leading : whole.head? = some '0' → whole = ['0']

namespace Literal

/-- The digits with the point if there is one. -/
def body (d : Literal) : List Char :=
  if d.fraction = [] then d.whole else d.whole ++ '.' :: d.fraction

/-- The decimal as it is written: a sign if it is negative, and its body. -/
def text (d : Literal) : List Char :=
  if d.negative then '-' :: d.body else d.body

/-- The number that all the digits denote. -/
def coefficient (d : Literal) : ℕ :=
  ofDigits (d.whole ++ d.fraction)

/-- The number without its sign. -/
def magnitude (d : Literal) : ℚ :=
  d.coefficient * 10 ^ (-(d.fraction.length : ℤ))

/-- The float that is nearest. -/
def toFloat (d : Literal) : Float :=
  if d.negative then -nearest d.coefficient (-d.fraction.length)
  else nearest d.coefficient (-d.fraction.length)

variable {d : Literal} {c : Char}

/-- A decimal is the float nearest to its number. -/
theorem rounds_toFloat (d : Literal) : Rounds (signOf d.negative) d.magnitude d.toFloat := by
  have hnearest := Number.rounds_nearest d.coefficient (-d.fraction.length)
  rw [toFloat]
  cases d.negative with
  | false => exact hnearest
  | true => exact hnearest.neg

theorem exists_body_eq_cons (d : Literal) : ∃ c rest, d.body = c :: rest ∧ c.isDigit := by
  obtain ⟨c, rest, hwhole⟩ := List.exists_cons_of_ne_nil d.whole_ne_nil
  have hc : c.isDigit := d.whole_digits c (by simp [hwhole])
  rw [body]
  split
  · exact ⟨c, rest, hwhole, hc⟩
  · exact ⟨c, rest ++ '.' :: d.fraction, by rw [hwhole, List.cons_append], hc⟩

/-- The body of a decimal has digits and a point. -/
theorem mem_body (hc : c ∈ d.body) : c.isDigit ∨ c = '.' := by
  rw [body] at hc
  split at hc
  · exact .inl (d.whole_digits c hc)
  · rw [List.mem_append, List.mem_cons] at hc
    obtain hc | rfl | hc := hc
    · exact .inl (d.whole_digits c hc)
    · exact .inr rfl
    · exact .inl (d.fraction_digits c hc)

theorem cutSign_text (d : Literal) : cutSign d.text = (d.negative, d.body) := by
  obtain ⟨c, rest, hbody, hc⟩ := d.exists_body_eq_cons
  rw [text, hbody, cutSign_signed hc]

theorem trim_text (d : Literal) : Text.trim d.text = d.text := by
  refine Temporal.trim_printed fun c hc => ?_
  rw [text] at hc
  split at hc
  · obtain rfl | hc := List.mem_cons.1 hc
    · exact .inr (by simp)
    · exact (mem_body hc).imp_right (by rintro rfl; simp)
  · exact (mem_body hc).imp_right (by rintro rfl; simp)

theorem toLower_of_isDigit (hc : c.isDigit) : c.toLower = c := by
  have hbounds := toNat_of_isDigit hc
  have hval : c.val.toNat = c.toNat := rfl
  refine dif_neg fun hupper => ?_
  have hleast := UInt32.le_iff_toNat_le.1 hupper.1
  have hmark : 'A'.val.toNat = 0x41 := rfl
  omega

/-- The first digits of a decimal are its whole part. -/
theorem takeWhile_body (d : Literal) : d.body.takeWhile Char.isDigit = d.whole := by
  rw [body]
  split
  · exact List.takeWhile_eq_self_iff.2 d.whole_digits
  · rw [List.takeWhile_append_of_pos d.whole_digits, List.takeWhile_cons_of_neg (by decide),
      List.append_nil]

/-- The whole part is followed by the fraction, if there is one. -/
theorem dropWhile_body (d : Literal) :
    d.body.dropWhile Char.isDigit = if d.fraction = [] then [] else '.' :: d.fraction := by
  rw [body]
  split
  · exact List.dropWhile_eq_nil_iff.2 d.whole_digits
  · rw [List.dropWhile_append_of_pos d.whole_digits, List.dropWhile_cons_of_neg (by decide)]

theorem takeWhile_fraction (d : Literal) : d.fraction.takeWhile Char.isDigit = d.fraction :=
  List.takeWhile_eq_self_iff.2 d.fraction_digits

theorem dropWhile_fraction (d : Literal) : d.fraction.dropWhile Char.isDigit = [] :=
  List.dropWhile_eq_nil_iff.2 d.fraction_digits

/-- The body of a decimal is read as its digits and their exponent. -/
theorem readDecimal?_body (d : Literal) :
    readDecimal? d.body = some (d.coefficient, -(d.fraction.length : ℤ)) := by
  by_cases hnone : d.fraction = []
  · simp [readDecimal?, takeWhile_body, dropWhile_body, hnone, d.whole_ne_nil, readExponent?,
      coefficient]
  · simp [readDecimal?, takeWhile_body, dropWhile_body, takeWhile_fraction, dropWhile_fraction,
      hnone, d.whole_ne_nil, readExponent?, coefficient]

/-- A decimal is read as its float. -/
theorem readFloat_text (d : Literal) : readFloat d.text = .ok d.toFloat := by
  obtain ⟨c, rest, hbody, hc⟩ := d.exists_body_eq_cons
  have hdecimal := d.readDecimal?_body
  have hne : d.text.isEmpty = false := by
    rw [text, hbody]
    split <;> rfl
  have hword : c.toLower ≠ 'i' ∧ c.toLower ≠ 'n' := by
    rw [toLower_of_isDigit hc]
    constructor <;> exact fun heq => absurd (heq ▸ hc) (by decide)
  rw [hbody] at hdecimal
  simp [readFloat, hne, cutSign_text, hbody, hdecimal, hword, toFloat]

theorem isDecimalSeconds_text (d : Literal) : Temporal.isDecimalSeconds d.text := by
  have hwhole : Temporal.isDigits d.whole := by
    rw [Temporal.isDigits, List.all_eq_true.2 d.whole_digits]
    simp [d.whole_ne_nil]
  have hpoint : '.' ∉ d.whole := fun hmem => absurd (d.whole_digits '.' hmem) (by decide)
  rw [Temporal.isDecimalSeconds, cutSign_text, body]
  split_ifs with hnone
  · cases hcut : Text.cutAt? '.' d.whole with
    | none => exact hwhole
    | some parts =>
      have hmem := (Text.cutAt?_eq_some_iff.1 hcut).1
      exact absurd (by rw [hmem]; simp) hpoint
  · have hfraction : Temporal.isDigits d.fraction := by
      rw [Temporal.isDigits, List.all_eq_true.2 d.fraction_digits]
      simp [hnone]
    simp only [Text.cutAt?_append hpoint, hwhole, hfraction, Bool.and_self]

end Literal

end Decimal

/-- A decimal gives so many seconds. -/
theorem Temporal.readDuration_text (d : Decimal.Literal) :
    readDuration d.text = ofSeconds d.toFloat := by
  have hne : d.text.isEmpty = false := by
    obtain ⟨c, rest, hbody, -⟩ := d.exists_body_eq_cons
    rw [Decimal.Literal.text, hbody]
    split <;> rfl
  simp [readDuration, d.trim_text, hne, d.isDecimalSeconds_text, d.readFloat_text]

end EnvSettings
