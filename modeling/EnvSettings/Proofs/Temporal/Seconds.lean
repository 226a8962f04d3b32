import Mathlib
import EnvSettings.Json.Printer
import EnvSettings.Proofs.Decimal.Layout
import EnvSettings.Temporal.Duration

namespace EnvSettings.Temporal

open Decimal (Interval Layout Literal)
open Float.Model (UnpackedFloat)
open Float.Model.UnpackedFloat
open Number

variable {s s' : Sign} {negative : Bool} {m : ℕ} {e : ℤ} {v : ℚ} {x y : Float} {d : Duration}
variable {text : List Char}

theorem exact_million : Exact .positive 1000000 (1000000.0 : Float) := by
  have hrounds : Rounds .positive ((10000000 : ℕ) / 10 ^ 1) (1000000.0 : Float) :=
    rounds_ofScientific_div (by decide) (by decide)
  have hvalue : (((10000000 : ℕ) : ℚ) / 10 ^ 1) = (1000000 : ℕ) * 2 ^ 0 := by norm_num
  rw [hvalue] at hrounds
  have hexact := hrounds.exact (by decide) (by decide)
  simpa using hexact

/-- A float that is rounded is finite, and a large one is an integer already. -/
theorem exists_parts_of_roundFloat? {n : ℤ} (hn : roundFloat? x = some n) :
    ∃ s m e, Parts x s m e ∧ (0 ≤ e → n.natAbs = m * 2 ^ e.toNat) := by
  rw [roundFloat?] at hn
  split at hn
  · rename_i negative m e hdecoded
    refine ⟨signOf negative, m, e, parts_iff_decoded.2 hdecoded, fun he => ?_⟩
    obtain rfl := Option.some.inj hn
    rw [if_pos he, Nat.shiftLeft_eq]
    split
    · exact (Int.natAbs_neg _).trans (Int.natAbs_natCast _)
    · exact Int.natAbs_natCast _
  · cases hn

/-- The microseconds of a duration are a finite float, and not too great. -/
theorem exists_parts_of_ofSeconds (hd : ofSeconds x = .ok d) :
    ∃ s m e, Parts (x * 1000000.0) s m e ∧ (0 ≤ e → m * 2 ^ e.toNat < microsecondBound) := by
  dsimp only [ofSeconds] at hd
  split at hd
  · cases hd
  · rename_i micros hmicros
    split at hd
    · cases hd
    · rename_i hbound
      obtain ⟨s, m, e, hparts, hvalue⟩ := exists_parts_of_roundFloat? hmicros
      exact ⟨s, m, e, hparts, fun he => hvalue he ▸ not_le.1 hbound⟩

theorem unpack_million :
    ∃ m e hm, (1000000.0 : Float).toModel.unpack = .finite .positive m e hm := by
  obtain ⟨m, e, hparts, hvalue⟩ := exact_million
  have hpos : 0 < m := by
    rw [Nat.pos_iff_ne_zero]
    rintro rfl
    norm_num at hvalue
  exact ⟨m, e, hpos, hparts.unpack_eq.trans (finiteOf_of_pos _ _ hpos)⟩

/-- The seconds of a duration are finite. -/
theorem isFinite_of_ofSeconds (hd : ofSeconds x = .ok d) : x.isFinite := by
  obtain ⟨s, m, e, hparts, -⟩ := exists_parts_of_ofSeconds hd
  obtain ⟨m', e', hm', hmillion⟩ := unpack_million
  have hfinite := isFinite_finiteOf s m e
  have hproduct : (x * 1000000.0).toModel.unpack = unpack .binary64 (pack .binary64
    (UnpackedFloat.mul .binary64 x.toModel.unpack (1000000.0 : Float).toModel.unpack)) := rfl
  rw [← hparts.unpack_eq, hproduct, hmillion] at hfinite
  change x.toModel.unpack.isFinite = true
  cases hx : x.toModel.unpack with
  | zero | finite => rfl
  | infinity s' =>
    rw [hx, UnpackedFloat.mul, pack, unpack_packedInfinity] at hfinite
    cases hfinite
  | notANumber =>
    rw [hx, UnpackedFloat.mul, pack, unpack_packedNaN] at hfinite
    cases hfinite

/-- No duration has so many seconds. -/
theorem ofSeconds_ne_ok (hx : Rounds s v x) (hv : 2 ^ 44 ≤ v) : ofSeconds x ≠ .ok d := by
  intro hd
  obtain ⟨s', m, e, hparts, hbound⟩ := exists_parts_of_ofSeconds hd
  obtain ⟨m', e', hparts', hv'⟩ | hinfinity := exists_parts_or_infinity hx
  · obtain ⟨hfull, he⟩ := full_of_le (k := 44) hparts'.canonical hv' (by decide)
      (by exact_mod_cast hv)
    have hproduct : Rounds (s * .positive) (m' * 2 ^ e' * 1000000) (x * 1000000.0) :=
      Exact.mul ⟨m', e', hparts', rfl⟩ exact_million
    have hgreat : (2 : ℚ) ^ (63 : ℤ) ≤ m' * 2 ^ e' * 1000000 := by
      have hscale : (2 : ℚ) ^ (-8 : ℤ) ≤ 2 ^ e' := zpow_le_zpow_right₀ one_le_two (by omega)
      have hmantissa : (2 : ℚ) ^ 52 ≤ m' := by exact_mod_cast hfull
      have hleast := mul_le_mul hmantissa hscale (by positivity) (by positivity)
      norm_num at hleast ⊢
      linarith
    obtain ⟨hfull', he'⟩ := full_of_le hparts.canonical (contains_of_parts hproduct hparts)
      (by decide) hgreat
    refine absurd (hbound (by omega)) (not_lt.2 ?_)
    calc microsecondBound ≤ 2 ^ 52 * 2 ^ 11 := by decide
      _ ≤ m * 2 ^ e.toNat := Nat.mul_le_mul hfull' (Nat.pow_le_pow_right two_pos (by omega))
  · have hfinite := isFinite_of_ofSeconds hd
    change x.toModel.unpack.isFinite = true at hfinite
    rw [hinfinity] at hfinite
    cases hfinite

theorem parts_least : Parts (0.00001 : Float) .positive 5902958103587057 (-69) :=
  ⟨⟨by decide, by decide, .inl (by decide)⟩, by decide, rfl⟩

/-- The number is in the interval of the float nearest to it. -/
theorem contains_least :
    (Interval.around 5902958103587057 (-69)).Contains (10 ^ (-5 : ℤ)) := by
  have hrounds : Rounds .positive ((1 : ℕ) / 10 ^ 5) (0.00001 : Float) :=
    rounds_ofScientific_div (by decide) (by decide)
  have hcontains := contains_of_parts hrounds parts_least
  convert hcontains using 1
  norm_num

theorem parts_abs (hy : Parts y s m e) : Parts y.abs .positive m e := by
  have hmodel : y.abs = .ofModel (.pack y.toModel.unpack.abs) := rfl
  have habs : (finiteOf s m e).abs = finiteOf .positive m e := by
    simp only [finiteOf]
    split <;> rfl
  rw [hmodel, hy.unpack_eq, habs]
  exact parts_ofModel .positive hy.canonical hy.greatest

/-- A float is compared with `0.00001` by its parts. -/
theorem least_le_abs_iff (hy : Parts y s m e) (hpos : 0 < m) :
    0.00001 ≤ y.abs ↔ ¬Before m e 5902958103587057 (-69) := by
  refine decide_eq_true_iff.trans ?_
  change UnpackedFloat.le (0.00001 : Float).toModel.unpack y.abs.toModel.unpack = true ↔ _
  rw [parts_least.unpack_eq, (parts_abs hy).unpack_eq, finiteOf_of_pos _ _ hpos,
    finiteOf_of_pos _ _ (by decide), UnpackedFloat.le, UnpackedFloat.compare, Option.any_some,
    Ordering.isLE_iff_ne_gt, Ordering.then_eq_gt, Int.compare_eq_gt, Int.compare_eq_eq,
    Nat.compare_eq_gt, Before]
  omega

theorem beq_zero_iff (hy : Parts y s m e) : (y == 0) = true ↔ m = 0 := by
  have hzero : (0 : Float).toModel.unpack = .zero .positive := rfl
  change UnpackedFloat.beq y.toModel.unpack (0 : Float).toModel.unpack = true ↔ _
  rw [hy.unpack_eq, hzero, finiteOf]
  split
  · rename_i hm
    exact iff_of_true rfl hm
  · rename_i hm
    refine iff_of_false ?_ hm
    cases s <;> exact Bool.false_ne_true

/-- A number and the float it is rounded to are compared alike, unless that float is `0.00001`. -/
theorem least_le_abs_iff_le (hy : Parts y s m e) (hpos : 0 < m)
    (hv : (Interval.around m e).Contains v)
    (hsame : m = 5902958103587057 → e = -69 → 10 ^ (-5 : ℤ) ≤ v) :
    0.00001 ≤ y.abs ↔ 10 ^ (-5 : ℤ) ≤ v := by
  rw [least_le_abs_iff hy hpos]
  constructor
  · intro hnot
    obtain hbefore | ⟨hm, he⟩ | hbefore := before_or m e 5902958103587057 (-69)
    · exact absurd hbefore hnot
    · exact hsame hm he
    · exact (hbefore.lt parts_least.canonical hy.canonical contains_least hv).le
  · intro hle hbefore
    exact absurd (hbefore.lt hy.canonical parts_least.canonical hv contains_least) (not_lt.2 hle)

/-- The floats from the least one on are written with a point if they are not too great. -/
theorem least_le_abs_iff_top (hy : Parts y s m e) (hpos : 0 < m) :
    0.00001 ≤ y.abs ↔ -5 ≤ Decimal.shortestTop m e := by
  have hcontains := Decimal.contains_shortest hy.canonical hy.greatest hpos
  rw [Decimal.le_shortestTop_iff hy.canonical hy.greatest hpos]
  refine least_le_abs_iff_le hy hpos hcontains ?_
  rintro rfl rfl
  have hshortest : Decimal.shortest 5902958103587057 (-69) = ⟨1, -5⟩ := by decide +kernel
  rw [Decimal.shortestValue, hshortest]
  norm_num

/-- A text with another character is no row of digits. -/
theorem isDigits_of_mem {c : Char} (hc : c ∈ text) (hdigit : c.isDigit = false) :
    isDigits text = false := by
  have hall : text.all Char.isDigit = false := List.all_eq_false.2 ⟨c, hc, by simp [hdigit]⟩
  rw [isDigits, hall, Bool.and_false]

/-- A text with another character is no number of seconds. -/
theorem isDecimalSeconds_of_mem {c : Char} (hc : c ∈ (Decimal.cutSign text).2)
    (hdigit : c.isDigit = false) (hpoint : c ≠ '.') : isDecimalSeconds text = false := by
  simp only [isDecimalSeconds]
  split
  · rename_i whole fraction hcut
    rw [(Text.cutAt?_eq_some_iff.1 hcut).1, List.mem_append, List.mem_cons] at hc
    obtain hwhole | heq | hfraction := hc
    · rw [isDigits_of_mem hwhole hdigit, Bool.false_and]
    · exact absurd heq hpoint
    · rw [isDigits_of_mem hfraction hdigit, Bool.and_false]
  · exact isDigits_of_mem hc hdigit

/-- A number with the mark of an exponent is no duration. -/
theorem readDuration_of_mark {c : Char} {rest : List Char} (hc : c.isDigit) (hmark : 'e' ∈ rest)
    (hrest : ∀ b ∈ rest, b.isDigit ∨ b ∈ ['.', 'e', '-', '+'])
    (htext : text = if negative then '-' :: c :: rest else c :: rest) :
    readDuration text = .error (.iso (String.ofList text)) := by
  have hsign : Decimal.cutSign text = (negative, c :: rest) := by
    rw [htext, Decimal.cutSign_signed hc]
  have hchars : ∀ b ∈ text, b.isDigit ∨ b ∈ ['.', 'e', '-', '+'] := fun b hb => by
    have hmem : b = '-' ∨ b = c ∨ b ∈ rest := by
      rw [htext] at hb
      split at hb <;> simp_all
    obtain rfl | rfl | hmem := hmem
    · simp
    · exact .inl hc
    · exact hrest b hmem
  have hmarks : ∀ b ∈ ['.', 'e', '-', '+'], Text.isSpace b = false := by
    simp [Text.isSpace]
  have hvisible : ∀ b ∈ text, Text.isSpace b = false := fun b hb =>
    (hchars b hb).elim isSpace_of_isDigit (hmarks b)
  have htrim : Text.trim text = text :=
    Text.trim_eq_self (fun b hb => hvisible b (List.mem_of_mem_head? hb))
      fun b hb => hvisible b (List.mem_of_mem_getLast? hb)
  have hcolon : ':' ∉ text := fun hmem => (hchars ':' hmem).elim (by decide) (by decide)
  have hne : text ≠ [] := by
    rw [htext]
    split <;> simp
  have hdecimal : isDecimalSeconds text = false :=
    isDecimalSeconds_of_mem (c := 'e') (by simp [hsign, hmark]) (by decide) (by decide)
  have hperiod : Text.dropLead? ['P'] (c :: rest) = none := by
    rw [Text.dropLead?, if_neg]
    rintro rfl
    cases hc
  have hiso : readIso text = .error (.iso (String.ofList text)) := by
    simp [readIso, hsign, hperiod]
  simp [readDuration, htrim, hne, hdecimal, hcolon, hiso]

/-- A float that is written with an exponent is no duration. -/
theorem readDuration_write_exponent (hy : Parts y (signOf negative) m e) (hpos : 0 < m)
    (hrange : ¬(-5 ≤ Decimal.shortestTop m e ∧ Decimal.shortestTop m e ≤ 15)) :
    readDuration (Layout.json.write y).toList = .error (.iso (Layout.json.write y)) := by
  obtain ⟨c, rest, hwrite, hc, hmark, hrest⟩ := Decimal.exists_exponent_write hy hpos hrange
  rw [readDuration_of_mark hc hmark hrest hwrite, String.ofList_toList]

/-- A float that is written as JSON is read as a duration of so many seconds. -/
theorem readDuration_write_iff (y : Float) :
    readDuration (Json.writeNumber (.float y)) = .ok d ↔
      ((y == 0) = true ∨ 0.00001 ≤ y.abs) ∧ ofSeconds y = .ok d := by
  rw [Json.writeNumber]
  split
  · rename_i hfinite
    obtain ⟨negative, m, e, hy⟩ := exists_parts_of_isFinite hfinite
    rw [beq_zero_iff hy]
    by_cases hrange : m = 0 ∨ -5 ≤ Decimal.shortestTop m e ∧ Decimal.shortestTop m e ≤ 15
    · obtain ⟨l, hwrite, hfloat⟩ := Decimal.exists_literal_write hy hrange
      rw [hwrite, readDuration_text, hfloat]
      refine (and_iff_right ?_).symm
      obtain hzero | ⟨hleast, -⟩ := hrange
      · exact .inl hzero
      · obtain hzero | hpos := m.eq_zero_or_pos
        · exact .inl hzero
        · exact .inr ((least_le_abs_iff_top hy hpos).2 hleast)
    · rw [not_or] at hrange
      have hpos := Nat.pos_of_ne_zero hrange.1
      rw [readDuration_write_exponent hy hpos hrange.2, least_le_abs_iff_top hy hpos]
      refine iff_of_false nofun ?_
      rintro ⟨hleast, hd⟩
      have hgreat : 16 ≤ Decimal.shortestTop m e := by
        have := hleast.resolve_left hrange.1
        omega
      rw [Decimal.le_shortestTop_iff hy.canonical hy.greatest hpos] at hgreat
      refine ofSeconds_ne_ok
        (hy.rounds (Decimal.contains_shortest hy.canonical hy.greatest hpos)) ?_ hd
      exact le_trans (by norm_num) hgreat
  · rename_i hinfinite
    refine iff_of_false ?_ fun h => hinfinite (isFinite_of_ofSeconds h.2)
    have hnull : readDuration "null".toList = .error (.iso "null") := by decide +kernel
    rw [hnull]
    exact nofun

end EnvSettings.Temporal
