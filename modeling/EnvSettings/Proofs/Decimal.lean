import Mathlib
import EnvSettings.Decimal.Reader

namespace EnvSettings.Decimal

variable {digits : List Char}

theorem toNat_of_isDigit {c : Char} (hc : c.isDigit) : 0x30 ≤ c.toNat ∧ c.toNat ≤ 0x39 := by
  have hval : c.toNat = c.val.toNat := rfl
  simp only [Char.isDigit, Bool.and_eq_true, decide_eq_true_eq, ge_iff_le,
    UInt32.le_iff_toNat_le] at hc
  rw [hval]
  exact hc

theorem digitValue_lt {c : Char} (hc : c.isDigit) : digitValue c < 10 := by
  have hbounds := toNat_of_isDigit hc
  have hzero : '0'.toNat = 0x30 := rfl
  rw [digitValue, hzero]
  omega

/-- The number of digits in the words of the core library. -/
theorem ofDigits_eq_ofDigitChars (digits : List Char) :
    ofDigits digits = Nat.ofDigitChars 10 digits 0 := by
  rw [Nat.ofDigitChars_eq_foldl]
  rfl

theorem ofDigits_concat (digits : List Char) (c : Char) :
    ofDigits (digits ++ [c]) = 10 * ofDigits digits + digitValue c := by
  rw [ofDigits, List.foldl_append]
  rfl

/-- Digits make a number below the power of ten of their count. -/
theorem ofDigits_lt (hdigits : ∀ c ∈ digits, c.isDigit) : ofDigits digits < 10 ^ digits.length := by
  induction digits using List.reverseRecOn with
  | nil => exact Nat.one_pos
  | append_singleton digits c ih =>
    have hlt := ih fun b hmem => hdigits b (List.mem_append_left [c] hmem)
    have hc := digitValue_lt (hdigits c (by simp))
    rw [ofDigits_concat, List.length_append, List.length_singleton, pow_succ]
    omega

/-- Digits with at most one point among them. -/
structure IsUnsigned (s : List Char) : Prop where
  chars : ∀ c ∈ s, c.isDigit ∨ c = '.'
  point : s.count '.' ≤ 1
  digit : ∃ c ∈ s, c.isDigit

theorem isUnsigned_of_digits (hdigits : ∀ c ∈ digits, c.isDigit) :
    IsUnsigned digits ↔ digits ≠ [] := by
  have hpoint : '.' ∉ digits := fun hmem => absurd (hdigits '.' hmem) (by decide)
  refine ⟨fun h => ?_, fun hne => ⟨fun c hc => .inl (hdigits c hc), ?_, ?_⟩⟩
  · obtain ⟨c, hc, -⟩ := h.digit
    exact List.ne_nil_of_mem hc
  · rw [List.count_eq_zero_of_not_mem hpoint]
    exact Nat.zero_le 1
  · obtain ⟨c, hc⟩ := List.exists_mem_of_ne_nil digits hne
    exact ⟨c, hc, hdigits c hc⟩

/-- Digits on either side of a point are a number if there are any. -/
theorem isUnsigned_append_point {whole fraction : List Char} (hwhole : ∀ c ∈ whole, c.isDigit)
    (hfraction : ∀ c ∈ fraction, c.isDigit ∨ c = '.') :
    IsUnsigned (whole ++ '.' :: fraction) ↔ '.' ∉ fraction ∧ (whole ≠ [] ∨ fraction ≠ []) := by
  have hcount : (whole ++ '.' :: fraction).count '.' = fraction.count '.' + 1 := by
    have hpoint : '.' ∉ whole := fun hmem => absurd (hwhole '.' hmem) (by decide)
    rw [List.count_append, List.count_eq_zero_of_not_mem hpoint, List.count_cons_self, Nat.zero_add]
  constructor
  · intro h
    have hnone : fraction.count '.' = 0 := by
      have := hcount ▸ h.point
      omega
    refine ⟨List.count_eq_zero.1 hnone, ?_⟩
    obtain ⟨c, hc, hdigit⟩ := h.digit
    rw [List.mem_append, List.mem_cons] at hc
    obtain hc | rfl | hc := hc
    · exact .inl (List.ne_nil_of_mem hc)
    · cases hdigit
    · exact .inr (List.ne_nil_of_mem hc)
  · rintro ⟨hpoint, hne⟩
    refine ⟨fun c hc => ?_, ?_, ?_⟩
    · rw [List.mem_append, List.mem_cons] at hc
      exact hc.elim (fun hc => .inl (hwhole c hc)) fun hc => hc.elim .inr (hfraction c)
    · rw [hcount, List.count_eq_zero_of_not_mem hpoint]
    · obtain hne | hne := hne
      · obtain ⟨c, hc⟩ := List.exists_mem_of_ne_nil whole hne
        exact ⟨c, by simp [hc], hwhole c hc⟩
      · obtain ⟨c, hc⟩ := List.exists_mem_of_ne_nil fraction hne
        have hne : c ≠ '.' := fun heq => hpoint (heq ▸ hc)
        exact ⟨c, by simp [hc], (hfraction c hc).resolve_right hne⟩

/-- The digits in front of a text of digits and points are all of it, unless it has a point. -/
theorem readExponent?_isSome_iff {s : List Char} (hs : ∀ c ∈ s, c.isDigit ∨ c = '.') :
    (readExponent? (s.dropWhile Char.isDigit)).isSome ↔ '.' ∉ s := by
  by_cases hpoint : '.' ∈ s
  · obtain ⟨front, back, rfl, hfront⟩ := List.eq_append_cons_of_mem hpoint
    have hdigits : ∀ c ∈ front, c.isDigit := fun c hc =>
      (hs c (List.mem_append_left _ hc)).resolve_right fun heq => hfront (heq ▸ hc)
    rw [List.dropWhile_append_of_pos hdigits, List.dropWhile_cons_of_neg (by decide)]
    simp [readExponent?]
  · have hdigits : ∀ c ∈ s, c.isDigit := fun c hc =>
      (hs c hc).resolve_right fun heq => hpoint (heq ▸ hc)
    rw [List.dropWhile_eq_nil_iff.2 hdigits]
    simp [readExponent?, hpoint]

/-- Digits and points are read if they are a number. -/
theorem readDecimal?_isSome_iff {s : List Char} (hs : ∀ c ∈ s, c.isDigit ∨ c = '.') :
    (readDecimal? s).isSome ↔ IsUnsigned s := by
  by_cases hpoint : '.' ∈ s
  · obtain ⟨whole, fraction, rfl, hnot⟩ := List.eq_append_cons_of_mem hpoint
    have hwhole : ∀ c ∈ whole, c.isDigit := fun c hc =>
      (hs c (List.mem_append_left _ hc)).resolve_right fun heq => hnot (heq ▸ hc)
    have hfraction : ∀ c ∈ fraction, c.isDigit ∨ c = '.' := fun c hc => hs c (by simp [hc])
    have htake : (whole ++ '.' :: fraction).takeWhile Char.isDigit = whole := by
      rw [List.takeWhile_append_of_pos hwhole, List.takeWhile_cons_of_neg (by decide),
        List.append_nil]
    have hdrop : (whole ++ '.' :: fraction).dropWhile Char.isDigit = '.' :: fraction := by
      rw [List.dropWhile_append_of_pos hwhole, List.dropWhile_cons_of_neg (by decide)]
    have hexponent := readExponent?_isSome_iff hfraction
    have hdigit : '.' ∉ fraction → (fraction.takeWhile Char.isDigit = [] ↔ fraction = []) :=
      fun hnot => by
        rw [List.takeWhile_eq_self_iff.2 fun c hc =>
          (hfraction c hc).resolve_right fun heq => hnot (heq ▸ hc)]
    rw [isUnsigned_append_point hwhole hfraction, ← hexponent]
    simp only [readDecimal?, htake, hdrop]
    split
    · rename_i hempty
      rw [Bool.and_eq_true, List.isEmpty_iff, List.isEmpty_iff] at hempty
      refine iff_of_false (by simp) ?_
      rintro ⟨hend, hne⟩
      rw [hdigit (hexponent.1 hend)] at hempty
      tauto
    · rename_i hempty
      rw [Bool.and_eq_true, List.isEmpty_iff, List.isEmpty_iff] at hempty
      rw [Option.isSome_map]
      refine (and_iff_left_of_imp fun hend => ?_).symm
      rw [hdigit (hexponent.1 hend)] at hempty
      tauto
  · have hdigits : ∀ c ∈ s, c.isDigit := fun c hc =>
      (hs c hc).resolve_right fun heq => hpoint (heq ▸ hc)
    have htake : s.takeWhile Char.isDigit = s := List.takeWhile_eq_self_iff.2 hdigits
    have hdrop : s.dropWhile Char.isDigit = [] := List.dropWhile_eq_nil_iff.2 hdigits
    rw [isUnsigned_of_digits hdigits, readDecimal?]
    by_cases hnil : s = [] <;> simp [htake, hdrop, hnil, readExponent?]

/-- A text of digits and points is neither signed nor an infinity or a NaN, so it is read as a
decimal. -/
theorem readFloat_isOk_iff {s : List Char} (hs : ∀ c ∈ s, c.isDigit ∨ c = '.') :
    (readFloat s).isOk ↔ IsUnsigned s := by
  rw [← readDecimal?_isSome_iff hs]
  cases s with
  | nil => exact iff_of_false (by decide) (by decide)
  | cons c s =>
    have hc := hs c List.mem_cons_self
    have hsign : cutSign (c :: s) = (false, c :: s) := by
      unfold cutSign
      split
      · simp_all
      · simp_all
      · rfl
    have hlower : c.toLower ≠ 'i' ∧ c.toLower ≠ 'n' := by
      have hsame : c.toLower = c := by
        obtain hc | rfl := hc
        · have hbounds := toNat_of_isDigit hc
          have hval : c.val.toNat = c.toNat := rfl
          refine dif_neg fun hupper => ?_
          have hleast := UInt32.le_iff_toNat_le.1 hupper.1
          have hmark : 'A'.val.toNat = 0x41 := rfl
          omega
        · rfl
      rw [hsame]
      obtain hc | rfl := hc
      · constructor <;> exact fun heq => absurd (heq ▸ hc) (by decide)
      · decide
    rw [readFloat, hsign]
    cases hdecimal : readDecimal? (c :: s) <;>
      simp [hlower, hdecimal, Except.isOk, Except.toBool]

end EnvSettings.Decimal
