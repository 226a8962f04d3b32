import Mathlib
import EnvSettings.Proofs.Conversion
import EnvSettings.Proofs.Json.Number
import EnvSettings.Proofs.Temporal.Seconds

namespace EnvSettings

open Decimal (Interval Literal ofDigits)
open Number
open Temporal (Duration ofSeconds readDuration)

variable {c : Catalog} {levels depth : Nat} {info : FieldInfo} {raw path : String} {x : Duration}
variable {n : JsonNumber} {d : Literal}

theorem coerce_duration_iff :
    Coerce.value c levels info .duration raw path = .ok (.duration x) ↔
      readDuration raw.toList = .ok x ∧ info.check (.duration x) = .ok () := by
  rw [Coerce.value_eq_member (t := .duration) nofun, Coerce.member_eq_ok_iff, Coerce.scalar,
    Coerce.reading_eq_ok_iff]
  simp

/-- A number is converted by reading what is written of it. -/
theorem convert_number (hn : ∀ w, n ≠ .large w) :
    Convert.value c levels .duration (.ofJson (.number n)) =
      ((readDuration (Json.writeNumber n)).map .duration).mapError .number := by
  cases n with
  | int i =>
    have htext : (Value.int i).text.toList = Json.writeNumber (.int i) := String.toList_ofList
    rw [← htext]
    rfl
  | large w => exact absurd rfl (hn w)
  | float y =>
    have htext : (Value.float y).text.toList = Json.writeNumber (.float y) := by
      rw [Value.text, Value.toJson]
      split
      · exact String.toList_ofList
      · rename_i hinfinite
        rw [Json.writeNumber, if_neg hinfinite]
        rfl
    rw [← htext]
    rfl

theorem convert_number_iff (hn : ∀ w, n ≠ .large w) :
    Convert.value c levels .duration (.ofJson (.number n)) = .ok (.duration x) ↔
      readDuration (Json.writeNumber n) = .ok x := by
  simp [convert_number hn, mapError_eq_ok_iff, map_eq_ok_iff]

/-- The digits in front of the point of a duration fit an integer of JSON. -/
theorem ofDigits_whole_lt (hx : ofSeconds d.toFloat = .ok x) : ofDigits d.whole < 2 ^ 44 := by
  by_contra hge
  refine Temporal.ofSeconds_ne_ok d.rounds_toFloat ?_ hx
  have hscale : (0 : ℚ) < 10 ^ d.fraction.length := by positivity
  have hwhole : ofDigits d.whole * 10 ^ d.fraction.length ≤ d.coefficient := by
    rw [Literal.coefficient, Decimal.ofDigits_append]
    exact Nat.le_add_right _ _
  rw [Literal.magnitude, zpow_neg, zpow_natCast, ← div_eq_mul_inv, le_div_iff₀ hscale]
  calc (2 : ℚ) ^ 44 * 10 ^ d.fraction.length
      ≤ ofDigits d.whole * 10 ^ d.fraction.length := by
        gcongr
        exact_mod_cast not_lt.1 hge
    _ ≤ d.coefficient := by exact_mod_cast hwhole

/-- Between the float `0.00001` and the decimal `0.00001` is no decimal of few digits. -/
theorem le_magnitude_of_contains (hlength : d.fraction.length ≤ 22)
    (hcontains : (Interval.around 5902958103587057 (-69)).Contains d.magnitude) :
    10 ^ (-5 : ℤ) ≤ d.magnitude := by
  obtain ⟨k, hk⟩ := Nat.exists_eq_add_of_le hlength
  have hnumber : d.magnitude = (d.coefficient * 10 ^ k : ℕ) * 10 ^ (-22 : ℤ) := by
    have hexponent : -(d.fraction.length : ℤ) = k + -22 := by omega
    rw [Literal.magnitude, hexponent, zpow_add₀ (by norm_num), zpow_natCast]
    push_cast
    ring
  have hlow := hcontains.low_le
  have hend : (Interval.around 5902958103587057 (-69)).low = 23611832414348226 := by decide
  rw [hend, hnumber] at hlow
  rw [hnumber]
  generalize d.coefficient * 10 ^ k = count at *
  have hcount : 10 ^ 17 ≤ count := by
    by_contra hlt
    have hlt' : (count : ℚ) + 1 ≤ 10 ^ 17 := by exact_mod_cast not_le.1 hlt
    norm_num [Interval.around] at hlow
    linarith
  have hcount' : (10 : ℚ) ^ 17 ≤ count := by exact_mod_cast hcount
  norm_num
  linarith

/-- A decimal of few digits makes a float that is written without an exponent exactly if it is zero
or not less than `0.00001`. -/
theorem written_iff_of_short (hfinite : d.toFloat.isFinite) (hlength : d.fraction.length ≤ 22) :
    ((d.toFloat == 0) = true ∨ 0.00001 ≤ d.toFloat.abs) ↔
      d.coefficient = 0 ∨ 10 ^ (-5 : ℤ) ≤ d.magnitude := by
  obtain ⟨negative, m, e, hparts⟩ := exists_parts_of_isFinite hfinite
  have hcontains := contains_of_parts d.rounds_toFloat hparts
  rw [Temporal.beq_zero_iff hparts]
  obtain hzero | hpos := d.coefficient.eq_zero_or_pos
  · refine iff_of_true (.inl ?_) (.inl hzero)
    have hmagnitude : d.magnitude = 0 := by simp [Literal.magnitude, hzero]
    rw [hmagnitude] at hcontains
    exact (hparts.canonical.unique canonical_zero hcontains contains_zero).1
  · have htiny : 10 ^ (-22 : ℤ) ≤ d.magnitude := by
      calc (10 : ℚ) ^ (-22 : ℤ) ≤ 10 ^ (-(d.fraction.length : ℤ)) :=
            zpow_le_zpow_right₀ (by norm_num) (by omega)
        _ ≤ d.coefficient * 10 ^ (-(d.fraction.length : ℤ)) :=
            le_mul_of_one_le_left (by positivity) (by exact_mod_cast hpos)
    have hm : 0 < m := by
      rw [Nat.pos_iff_ne_zero]
      rintro rfl
      obtain rfl : e = -1074 := hparts.canonical.full.resolve_left (by decide)
      refine absurd (htiny.trans hcontains.le_high) (not_le.2 ?_)
      calc ((2 : ℕ) : ℚ) * 2 ^ (-1076 : ℤ) ≤ (2 : ℕ) * 2 ^ (-100 : ℤ) := by
            gcongr <;> norm_num
        _ < 10 ^ (-22 : ℤ) := by norm_num
    rw [or_iff_right hm.ne', or_iff_right hpos.ne']
    refine Temporal.least_le_abs_iff_le hparts hm hcontains ?_
    rintro rfl rfl
    exact le_magnitude_of_contains hlength hcontains

/-- A decimal of seconds that is read as a duration from its text is a number of JSON. The number is
converted to the same duration exactly if it is an integer, or a float that has those seconds and is
zero or not less than `0.00001`. A number of few digits is so exactly if it is zero or not less than
`0.00001` itself. -/
theorem convert_seconds_iff (d : Literal)
    (hx : Coerce.value c levels info .duration (String.ofList d.text) path = .ok (.duration x)) :
    ∃ n, Json.parse (String.ofList d.text) = .ok (.number n) ∧
      (Convert.value c depth .duration (.ofJson (.number n)) = .ok (.duration x) ↔
        ∀ y, n = .float y → ((y == 0) = true ∨ 0.00001 ≤ y.abs) ∧ ofSeconds y = .ok x) ∧
      (d.coefficient < 2 ^ 53 → d.fraction.length ≤ 22 →
        (Convert.value c depth .duration (.ofJson (.number n)) = .ok (.duration x) ↔
          d.coefficient = 0 ∨ 10 ^ (-5 : ℤ) ≤ d.magnitude)) := by
  have hseconds : ofSeconds d.toFloat = .ok x := by
    have hread := (coerce_duration_iff.1 hx).1
    rwa [String.toList_ofList, Temporal.readDuration_text] at hread
  have hwhole := ofDigits_whole_lt hseconds
  rw [Json.parse_text d (hwhole.trans (by decide))]
  obtain ⟨i, hnumber, hnone, d', hwrite, hsame⟩ | ⟨y, hnumber, hshort⟩ :=
    Json.literalNumber_cases d (hwhole.trans (by decide))
  · have hconvert : Convert.value c depth .duration (.ofJson (.number (.int i))) =
        .ok (.duration x) := by
      rw [convert_number_iff (by simp), hwrite, Temporal.readDuration_text, hsame, hseconds]
    refine ⟨.int i, by rw [hnumber]; rfl, iff_of_true hconvert (by simp), fun _ _ => ?_⟩
    refine iff_of_true hconvert (d.coefficient.eq_zero_or_pos.imp_right fun hpos => ?_)
    have hone : (1 : ℚ) ≤ d.coefficient := by exact_mod_cast hpos
    rw [Literal.magnitude, hnone]
    norm_num
    linarith
  · have hconvert : Convert.value c depth .duration (.ofJson (.number (.float y))) =
        .ok (.duration x) ↔ ((y == 0) = true ∨ 0.00001 ≤ y.abs) ∧ ofSeconds y = .ok x := by
      rw [convert_number_iff (by simp), Temporal.readDuration_write_iff]
    refine ⟨.float y, by rw [hnumber]; rfl, ?_, fun hfew hlength => ?_⟩
    · rw [hconvert]
      exact ⟨fun h y' hy' => JsonNumber.float.inj hy' ▸ h, fun h => h y rfl⟩
    · obtain rfl := hshort hfew hlength
      rw [hconvert, and_iff_left hseconds]
      exact written_iff_of_short (Temporal.isFinite_of_ofSeconds hseconds) hlength

/-- Ten microseconds back, as a number of seconds. -/
def tenMicrosBack : Literal :=
  ⟨true, ['0'], ['0', '0', '0', '0', '1'], by simp, by simp, by simp, by simp⟩

/-- Ten microseconds back are just enough for the number to be converted to what the text is read
as. -/
theorem convert_seconds_iff_tenMicrosBack :
    Coerce.value {} 0 {} .duration (String.ofList tenMicrosBack.text) "" =
        .ok (.duration ⟨-10000⟩) ∧
      ∃ n, Json.parse (String.ofList tenMicrosBack.text) = .ok (.number n) ∧
        (Convert.value {} 0 .duration (.ofJson (.number n)) = .ok (.duration ⟨-10000⟩) ↔
          ∀ y, n = .float y → ((y == 0) = true ∨ 0.00001 ≤ y.abs) ∧ ofSeconds y = .ok ⟨-10000⟩) ∧
        (tenMicrosBack.coefficient < 2 ^ 53 → tenMicrosBack.fraction.length ≤ 22 →
          (Convert.value {} 0 .duration (.ofJson (.number n)) = .ok (.duration ⟨-10000⟩) ↔
            tenMicrosBack.coefficient = 0 ∨ 10 ^ (-5 : ℤ) ≤ tenMicrosBack.magnitude)) := by
  have hread : readDuration (String.ofList tenMicrosBack.text).toList = .ok ⟨-10000⟩ := by
    decide +kernel
  have hcoerce : Coerce.value {} 0 {} .duration (String.ofList tenMicrosBack.text) "" =
      .ok (.duration ⟨-10000⟩) :=
    coerce_duration_iff.2 ⟨hread, rfl⟩
  exact ⟨hcoerce, convert_seconds_iff tenMicrosBack hcoerce⟩

/-- One microsecond, as a number of seconds. -/
def oneMicro : Literal :=
  ⟨false, ['0'], ['0', '0', '0', '0', '0', '1'], by simp, by simp, by simp, by simp⟩

/-- The text of one microsecond is a duration. The number is written with an exponent, which is no
form of durations. -/
theorem convert_seconds_oneMicro :
    Coerce.value {} 0 {} .duration (String.ofList oneMicro.text) "" = .ok (.duration ⟨1000⟩) ∧
      ∃ n, Json.parse (String.ofList oneMicro.text) = .ok (.number n) ∧
        Convert.value {} 0 .duration (.ofJson (.number n)) = .error (.number (.iso "1e-6")) := by
  have hread : readDuration (String.ofList oneMicro.text).toList = .ok ⟨1000⟩ := by decide +kernel
  have hnumber : Json.parse (String.ofList oneMicro.text) =
      .ok (.number (.float oneMicro.toFloat)) := by
    rw [Json.parse_text oneMicro (by decide),
      Json.literalNumber_of_short (by decide) (by decide) (by decide)]
    rfl
  have hwrite : readDuration (Json.writeNumber (.float oneMicro.toFloat)) =
      .error (.iso "1e-6") := by
    decide +kernel
  refine ⟨coerce_duration_iff.2 ⟨hread, rfl⟩, _, hnumber, ?_⟩
  rw [convert_number (by simp), hwrite]
  rfl

end EnvSettings
