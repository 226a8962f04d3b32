import Mathlib
import EnvSettings.Proofs.Except
import EnvSettings.Proofs.Number.Sign
import EnvSettings.Proofs.Text
import EnvSettings.Temporal.Duration

namespace EnvSettings.Temporal

open Number
open Float.Model (UnpackedFloat)
open Float.Model.UnpackedFloat (Sign)

variable {s : List Char} {d : Duration} {sign : Sign} {x : Float}

/-- Rounding to an integer keeps the side of zero. -/
theorem roundFloat?_onSide {n : ℤ} (hx : OnSide sign x.toModel.unpack)
    (hn : roundFloat? x = some n) : 0 ≤ sign.apply n := by
  rw [roundFloat?] at hn
  split at hn
  · rename_i negative m e hdecoded
    obtain rfl := Option.some.inj hn
    obtain rfl | rfl := hx.eq_of_ofFloat hdecoded
    · have hhalf : (1 <<< e.natAbs) >>> (e.natAbs + 1) = 0 := by
        rw [Nat.one_shiftLeft, Nat.shiftRight_eq_div_pow, pow_succ,
          Nat.div_eq_of_lt (by have := Nat.two_pow_pos e.natAbs; omega)]
      simp only [Nat.zero_shiftLeft, Nat.mul_zero, Nat.zero_add, hhalf, ite_self, Nat.cast_zero,
        neg_zero]
      cases sign <;> exact le_rfl
    · cases negative
      · exact Int.natCast_nonneg _
      · exact (Int.natCast_nonneg _).trans_eq (neg_neg _).symm
  · cases hn

/-- A duration has the sign of its seconds. -/
theorem ofSeconds_onSide (hx : OnSide sign x.toModel.unpack) (hd : ofSeconds x = .ok d) :
    0 ≤ sign.apply d.nanos := by
  have hmillion : OnSide .positive (1000000.0 : Float).toModel.unpack := .finite
  have hmicros : OnSide sign (x * 1000000.0).toModel.unpack := by
    have hmul := (hx.mul hmillion).unpack_pack
    cases sign <;> exact hmul
  dsimp only [ofSeconds] at hd
  split at hd
  · cases hd
  · rename_i micros hround
    split at hd
    · cases hd
    · obtain rfl := Except.ok.inj hd
      have hsign := roundFloat?_onSide hmicros hround
      cases sign with
      | negative =>
        change 0 ≤ -micros at hsign
        change 0 ≤ -(1000 * micros)
        omega
      | positive =>
        change 0 ≤ micros at hsign
        change 0 ≤ 1000 * micros
        omega

theorem onSide_withSign (negative : Bool) (hx : OnSide sign x.toModel.unpack) :
    OnSide (signOf negative * sign) (withSign negative x).toModel.unpack := by
  have hone : OnSide (signOf negative) (if negative then -1.0 else 1.0 : Float).toModel.unpack := by
    cases negative <;> exact .finite
  exact (hone.mul hx).unpack_pack

/-- An integer that is not negative is a float without a sign. -/
theorem onSide_ofInt_of_nonneg {n : ℤ} (hn : 0 ≤ n) :
    OnSide .positive (Float.ofInt n).toModel.unpack := by
  obtain ⟨k, rfl⟩ := Int.eq_ofNat_of_zero_le hn
  exact onSide_ofNat k

/-- Less than a negative minute stays so as a float. -/
theorem beyond_ofInt {n : ℤ} (hn : n ≤ -60) :
    Beyond .negative 60 (Float.ofInt n).toModel.unpack := by
  obtain ⟨k, rfl⟩ := Int.eq_negSucc_of_lt_zero (by omega : n < 0)
  exact (beyond_ofNat (by decide) (by omega) (by decide)).neg.unpack_pack

/-- A float that is not negative has no sign, or is zero or no number. -/
theorem onSide_of_nonneg (hx : 0.0 ≤ x) : OnSide .positive x.toModel.unpack := by
  have hle : UnpackedFloat.le (.zero .positive) x.toModel.unpack := of_decide_eq_true hx
  generalize x.toModel.unpack = y at hle
  cases y with
  | notANumber => exact .notANumber
  | zero s => exact .zero s
  | infinity s =>
    cases s with
    | negative => cases hle
    | positive => exact .infinity
  | finite s m e hm =>
    cases s with
    | negative => cases hle
    | positive => exact .finite

/-- Seconds are added to whole minutes that are not negative, or that outweigh them. -/
theorem onSide_add_seconds {whole : ℤ} {seconds : Float} (hleast : 0.0 ≤ seconds)
    (hmost : seconds < 60.0) :
    (0 ≤ whole → OnSide .positive (Float.ofInt whole + seconds).toModel.unpack) ∧
      (whole ≤ -60 → OnSide .negative (Float.ofInt whole + seconds).toModel.unpack) := by
  have hseconds := onSide_of_nonneg hleast
  have hlt : seconds.toModel.unpack.lt (full 60 (by decide)) := of_decide_eq_true hmost
  refine ⟨fun hwhole => ((onSide_ofInt_of_nonneg hwhole).add hseconds).unpack_pack,
    fun hwhole => ((beyond_ofInt hwhole).add hseconds ?_ hlt).unpack_pack⟩
  exact fun m e hm hunpack => mantissa_lt_of_unpack hunpack

/-- The hours as they are written behind the sign of the whole. -/
def clockHours? (s : List Char) : Option ℤ :=
  match Text.splitAtChar ':' (Decimal.cutSign (Text.trim s)).2 with
  | hours :: _ => (Decimal.readInt64 (Text.trim hours)).toOption.map Int64.toInt
  | [] => none

/-- The span lies on the side of zero that the first character of the text names. -/
def FollowsSign (s : List Char) (d : Duration) : Prop :=
  if (Text.trim s).head? = some '-' then d.nanos ≤ 0 else 0 ≤ d.nanos

instance (s : List Char) (d : Duration) : Decidable (FollowsSign s d) :=
  inferInstanceAs (Decidable (ite _ _ _))

theorem head?_eq_minus_iff : s.head? = some '-' ↔ (Decimal.cutSign s).1 = true := by
  unfold Decimal.cutSign
  split
  · simp
  · simp
  · rename_i hminus _
    refine iff_of_false (fun hhead => ?_) Bool.false_ne_true
    obtain ⟨rest, rfl⟩ := List.head?_eq_some_iff.1 hhead
    exact hminus rest rfl

/-- A span follows the sign of its text if it lies on the side of it. -/
theorem followsSign_iff :
    FollowsSign s d ↔ 0 ≤ (signOf (Decimal.cutSign (Text.trim s)).1).apply d.nanos := by
  unfold FollowsSign
  split
  · rename_i hminus
    rw [head?_eq_minus_iff.1 hminus]
    exact Int.neg_nonneg.symm
  · rename_i hminus
    rw [Bool.eq_false_iff.2 (mt head?_eq_minus_iff.2 hminus)]
    exact Iff.rfl

/-- Hours and minutes in seconds, if they are in range. -/
theorem eq_of_clockSeconds? {hours minutes whole : ℤ}
    (hwhole : clockSeconds? hours minutes = some whole) : whole = hours * 3600 + minutes * 60 := by
  rw [clockSeconds?] at hwhole
  split at hwhole
  · exact (Option.some.inj hwhole).symm
  · cases hwhole

/-- Minutes and seconds that are taken are within the hour and the minute. -/
theorem within_of_eq_ok {text : String} {minutes : ℤ} {seconds : Float}
    {result : Except DurationFault Duration}
    (hd : (if minutes < 0 ∨ 60 ≤ minutes then .error (.clockMinutes text)
      else if !(0.0 ≤ seconds && seconds < 60.0) then .error (.clockSeconds text)
      else result) = .ok d) :
    (0 ≤ minutes ∧ minutes < 60) ∧ (0.0 ≤ seconds ∧ seconds < 60.0) ∧ result = .ok d := by
  split at hd
  · cases hd
  · rename_i hminutes
    split at hd
    · cases hd
    · rename_i hseconds
      rw [Bool.not_eq_true, Bool.not_eq_false', Bool.and_eq_true, decide_eq_true_eq,
        decide_eq_true_eq] at hseconds
      exact ⟨by omega, hseconds, hd⟩

/-- What a reading is computed from. -/
theorem exists_of_readClock (hd : readClock s = .ok d) :
    ∃ hours rest, Text.splitAtChar ':' (Decimal.cutSign s).2 = hours :: rest ∧
      ∃ (h : Int64) (minutes : ℤ) (seconds : Float), Decimal.readInt64 (Text.trim hours) = .ok h ∧
        (0 ≤ minutes ∧ minutes < 60) ∧ (0.0 ≤ seconds ∧ seconds < 60.0) ∧
        ofSeconds (withSign (Decimal.cutSign s).1
          (Float.ofInt (h.toInt * 3600 + minutes * 60) + seconds)) = .ok d := by
  simp only [readClock] at hd
  split at hd
  · rename_i hours minutes hsplit
    obtain ⟨h, hh, hd⟩ := bind_eq_ok_iff.1 hd
    obtain ⟨m, -, hd⟩ := bind_eq_ok_iff.1 hd
    obtain ⟨hminutes, hseconds, hd⟩ := within_of_eq_ok hd
    split at hd
    · rename_i whole hwhole
      rw [eq_of_clockSeconds? hwhole] at hd
      exact ⟨hours, _, hsplit, h, m.toInt, 0.0, mapError_eq_ok_iff.1 hh, hminutes, hseconds, hd⟩
    · cases hd
  · rename_i hours minutes seconds hsplit
    obtain ⟨h, hh, hd⟩ := bind_eq_ok_iff.1 hd
    obtain ⟨m, -, hd⟩ := bind_eq_ok_iff.1 hd
    obtain ⟨x, -, hd⟩ := bind_eq_ok_iff.1 hd
    obtain ⟨hminutes, hseconds, hd⟩ := within_of_eq_ok hd
    split at hd
    · rename_i whole hwhole
      rw [eq_of_clockSeconds? hwhole] at hd
      exact ⟨hours, _, hsplit, h, m.toInt, x, mapError_eq_ok_iff.1 hh, hminutes, hseconds, hd⟩
    · cases hd
  · cases hd

theorem isDigits_of_colon (hcolon : ':' ∈ s) : isDigits s = false := by
  have hall : s.all Char.isDigit = false := List.all_eq_false.2 ⟨':', hcolon, by decide⟩
  rw [isDigits, hall, Bool.and_false]

theorem isDecimalSeconds_of_colon (hcolon : ':' ∈ s) : isDecimalSeconds s = false := by
  have hbody : ':' ∈ (Decimal.cutSign s).2 := by
    unfold Decimal.cutSign
    split
    · simpa using hcolon
    · simpa using hcolon
    · exact hcolon
  simp only [isDecimalSeconds]
  split
  · rename_i whole fraction hcut
    rw [(Text.cutAt?_eq_some_iff.1 hcut).1, List.mem_append, List.mem_cons] at hbody
    obtain hwhole | hpoint | hfraction := hbody
    · rw [isDigits_of_colon hwhole, Bool.false_and]
    · cases hpoint
    · rw [isDigits_of_colon hfraction, Bool.and_false]
  · exact isDigits_of_colon hbody

/-- A text with a colon is read as a clock reading. -/
theorem readDuration_of_colon (hcolon : ':' ∈ s) :
    readDuration s = readClock (Text.trim s) := by
  have htrim := Text.mem_trim_of_mem (by decide) hcolon
  simp [readDuration, List.ne_nil_of_mem htrim, isDecimalSeconds_of_colon htrim, htrim]

/-- The sign of a clock reading is the one in front exactly if the hours have no minus of their own,
or if nothing is left of the span in microseconds. -/
theorem readDuration_clock_iff (hcolon : ':' ∈ s) (hd : readDuration s = .ok d) :
    ∃ hours, clockHours? s = some hours ∧ (FollowsSign s d ↔ 0 ≤ hours ∨ d.nanos = 0) := by
  rw [readDuration_of_colon hcolon] at hd
  obtain ⟨part, rest, hsplit, hours, minutes, seconds, hhours, hminutes, hseconds, hd⟩ :=
    exists_of_readClock hd
  refine ⟨hours.toInt, by simp [clockHours?, hsplit, hhours, Except.toOption], ?_⟩
  obtain ⟨hpositive, hnegative⟩ := onSide_add_seconds hseconds.1 hseconds.2
  rw [followsSign_iff]
  obtain hsign | hsign := lt_or_ge hours.toInt 0
  · have hside := ofSeconds_onSide (onSide_withSign _ (hnegative (by omega))) hd
    generalize (Decimal.cutSign (Text.trim s)).1 = negative at hside ⊢
    cases negative with
    | false =>
      change 0 ≤ -d.nanos at hside
      change 0 ≤ d.nanos ↔ _
      omega
    | true =>
      change 0 ≤ d.nanos at hside
      change 0 ≤ -d.nanos ↔ _
      omega
  · have hside := ofSeconds_onSide (onSide_withSign _ (hpositive (by omega))) hd
    generalize (Decimal.cutSign (Text.trim s)).1 = negative at hside ⊢
    refine iff_of_true ?_ (.inl hsign)
    cases negative <;> exact hside

/-- A negative clock reading with a fraction of a second follows its sign. -/
theorem readDuration_clock_fraction :
    ':' ∈ "-01:30:00.25".toList ∧ readDuration "-01:30:00.25".toList = .ok ⟨-5400250000000⟩ ∧
      ∃ hours, clockHours? "-01:30:00.25".toList = some hours ∧
        (FollowsSign "-01:30:00.25".toList ⟨-5400250000000⟩ ↔
          0 ≤ hours ∨ (-5400250000000 : ℤ) = 0) := by
  have hread : readDuration "-01:30:00.25".toList = .ok ⟨-5400250000000⟩ := by decide +kernel
  exact ⟨by decide, hread, readDuration_clock_iff (by decide) hread⟩

/-- Behind a sign in front, hours with a minus of their own turn the span around. -/
theorem readDuration_clock_twice :
    ':' ∈ "--1:30".toList ∧ (Text.trim "--1:30".toList).head? = some '-' ∧
      ∃ d, readDuration "--1:30".toList = .ok d ∧ 0 < d.nanos := by
  refine ⟨by decide, by decide, ⟨1800000000000⟩, ?_, by decide⟩
  decide +kernel

end EnvSettings.Temporal
