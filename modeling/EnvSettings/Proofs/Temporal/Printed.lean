import Mathlib
import EnvSettings.Proofs.Decimal
import EnvSettings.Proofs.Text
import EnvSettings.Temporal.Pattern
import EnvSettings.Temporal.Printer

namespace EnvSettings.Temporal

open Decimal (ofDigits digitValue)
open Text (isSpace trimLeft)

variable {digits rest : List Char} {width n : Nat}

theorem isSpace_of_isDigit {c : Char} (hc : c.isDigit) : isSpace c = false := by
  have hbounds := Decimal.toNat_of_isDigit hc
  exact Text.isSpace_eq_false (by omega) (by omega)

theorem isDigit_of_mem_padded {c : Char} (hc : c ∈ padded width n) : c.isDigit := by
  obtain hc | hc := List.mem_append.1 hc
  · rw [(List.mem_replicate.1 hc).2]
    rfl
  · exact Nat.isDigit_of_mem_toDigits (by decide) (by decide) hc

/-- A number that fits the width is padded to it. -/
theorem length_padded (hwidth : 0 < width) (hn : n < 10 ^ width) :
    (padded width n).length = width := by
  have hlength := (Nat.length_toDigits_le_iff (by decide) hwidth).2 hn
  rw [padded, List.length_append, List.length_replicate]
  omega

theorem ofDigits_padded (width n : Nat) : ofDigits (padded width n) = n := by
  rw [Decimal.ofDigits_eq_ofDigitChars, padded, Nat.ofDigitChars_append,
    Nat.ofDigitChars_replicate_zero, Nat.mul_zero, Nat.ofDigitChars_ten_toDigits]

theorem padded_ne_nil (width n : Nat) : padded width n ≠ [] :=
  List.append_ne_nil_of_right_ne_nil _ Nat.toDigits_ne_nil

/-- A padded number begins with a digit. -/
theorem exists_padded_eq_cons (width n : Nat) :
    ∃ c digits, padded width n = c :: digits ∧ c.isDigit := by
  obtain ⟨c, digits, hpadded⟩ := List.exists_cons_of_ne_nil (padded_ne_nil width n)
  exact ⟨c, digits, hpadded, isDigit_of_mem_padded (hpadded ▸ List.mem_cons_self)⟩

theorem trimLeft_padded (width n : Nat) (rest : List Char) :
    trimLeft (padded width n ++ rest) = padded width n ++ rest := by
  obtain ⟨c, digits, hpadded, hc⟩ := exists_padded_eq_cons width n
  rw [hpadded, List.cons_append, Text.trimLeft_cons (isSpace_of_isDigit hc)]

/-- Digits that stand at the beginning of a text are read as their number, if they have the full
width or no digit follows them. -/
theorem readNumber_append (hne : digits ≠ []) (hdigits : ∀ c ∈ digits, c.isDigit)
    (hlength : digits.length ≤ width)
    (hend : digits.length = width ∨ ∀ c ∈ rest.head?, c.isDigit = false) :
    readNumber width (digits ++ rest) = .ok (ofDigits digits, rest) := by
  have htake : ((digits ++ rest).take width).takeWhile Char.isDigit = digits := by
    rw [List.take_append, List.take_of_length_le hlength,
      List.takeWhile_append_of_pos hdigits]
    obtain hfull | hstop := hend
    · rw [hfull, Nat.sub_self, List.take_zero, List.takeWhile_nil, List.append_nil]
    · cases rest with
      | nil => simp
      | cons c rest => cases width - digits.length <;> simp [hstop c rfl]
  rw [readNumber, htake]
  simp [hne]

theorem readNumber_padded (hn : n < 10 ^ width) (hwidth : 0 < width) (rest : List Char) :
    readNumber width (padded width n ++ rest) = .ok (n, rest) := by
  have hlength := length_padded hwidth hn
  rw [readNumber_append (padded_ne_nil width n) (fun _ => isDigit_of_mem_padded) hlength.le
    (.inl hlength), ofDigits_padded]

/-- A number of two digits within its bounds is read back. -/
theorem readTwoDigits_padded {least greatest : Nat} (hleast : least ≤ n) (hgreatest : n ≤ greatest)
    (hn : n < 100) (rest : List Char) :
    readTwoDigits least greatest (padded 2 n ++ rest) = .ok (n, rest) := by
  rw [readTwoDigits, trimLeft_padded, readNumber_padded hn Nat.two_pos]
  exact if_neg (by omega)

/-- A text that begins with neither a digit nor white space has no number to read. -/
theorem readTwoDigits_cons {c : Char} (hdigit : c.isDigit = false) (hspace : isSpace c = false)
    (least greatest : Nat) : readTwoDigits least greatest (c :: rest) = .error .invalid := by
  rw [readTwoDigits, Text.trimLeft_cons hspace]
  simp [readNumber, hdigit, bind, Except.bind]

/-- A printed year is read back, with its sign if it has one. -/
theorem readYear_print {year : Int} (hfirst : firstYear ≤ year) (hlast : year ≤ lastYear)
    (hrest : ∀ c ∈ rest.head?, c.isDigit = false) :
    readYear (printYear year ++ rest) = .ok (year, rest) := by
  have hfits : ¬ (year < Int32.minValue.toInt ∨ Int32.maxValue.toInt < year) := by
    have hmin : Int32.minValue.toInt = -2147483648 := by decide
    have hmax : Int32.maxValue.toInt = 2147483647 := by decide
    rw [firstYear] at hfirst
    rw [lastYear] at hlast
    omega
  -- Behind a sign, the number goes on up to the first character that is no digit.
  have hsigned : readNumber (padded 4 year.natAbs ++ rest).length (padded 4 year.natAbs ++ rest) =
      .ok (year.natAbs, rest) := by
    rw [readNumber_append (padded_ne_nil 4 _) (fun _ => isDigit_of_mem_padded)
      (by rw [List.length_append]; omega) (.inr hrest), ofDigits_padded]
  rw [printYear]
  split
  · rename_i hsmall
    obtain ⟨c, digits, hpadded, hc⟩ := exists_padded_eq_cons 4 year.toNat
    have hread := readNumber_padded (by omega : year.toNat < 10 ^ 4) (by omega) rest
    have hnat : ((year.toNat : Nat) : Int) = year := Int.toNat_of_nonneg hsmall.1
    rw [readYear, trimLeft_padded]
    rw [hpadded] at hread ⊢
    rw [List.cons_append] at hread ⊢
    split
    · rename_i heq
      obtain rfl := (List.cons.inj heq).1
      cases hc
    · rename_i heq
      obtain rfl := (List.cons.inj heq).1
      cases hc
    · rw [hread]
      simp only [bind, Except.bind, hnat, hfits, if_false]
  · rename_i hlarge
    by_cases hneg : year < 0
    · have habs : -((year.natAbs : Nat) : Int) = year := by omega
      rw [if_pos hneg, List.cons_append, readYear, Text.trimLeft_cons (by decide)]
      simp only [hsigned, bind, Except.bind, habs, hfits, if_false]
    · have habs : ((year.natAbs : Nat) : Int) = year := by omega
      rw [if_neg hneg, List.cons_append, readYear, Text.trimLeft_cons (by decide)]
      simp only [hsigned, bind, Except.bind, habs, hfits, if_false]

/-- A fraction is read in billionths, whatever its width. -/
theorem readFraction_padded (hwidth : 0 < width) (hnine : width ≤ 9) (hn : n < 10 ^ width)
    (hrest : ∀ c ∈ rest.head?, c.isDigit = false) :
    readFraction ('.' :: padded width n ++ rest) = .ok (n * 10 ^ (9 - width), rest) := by
  have hlength := length_padded hwidth hn
  have hdrop : rest.dropWhile Char.isDigit = rest := by
    cases rest with
    | nil => rfl
    | cons c rest => simp [hrest c rfl]
  have hcount : (padded width n ++ rest).length - rest.length = width := by
    rw [List.length_append, hlength, Nat.add_sub_cancel]
  rw [List.cons_append, readFraction, readNumber_append (padded_ne_nil width n)
    (fun _ => isDigit_of_mem_padded) (by omega) (.inr hrest), ofDigits_padded]
  simp only [bind, Except.bind, hcount, hdrop]
  rfl

theorem readFraction_print {nano : Nat} (hnano : nano < nanosPerSecond)
    (hrest : ∀ c ∈ rest.head?, c.isDigit = false ∧ c ≠ '.') :
    readFraction (printFraction nano ++ rest) = .ok (nano, rest) := by
  have hdigit : ∀ c ∈ rest.head?, c.isDigit = false := fun c hc => (hrest c hc).1
  rw [nanosPerSecond] at hnano
  rw [printFraction]
  split
  · rename_i hzero
    subst hzero
    rw [List.nil_append]
    unfold readFraction
    split
    · exact absurd rfl (hrest '.' rfl).2
    · rfl
  · split
    · rw [readFraction_padded (by decide) (by decide) (by omega) hdigit]
      congr 2
      omega
    · split
      · rw [readFraction_padded (by decide) (by decide) (by omega) hdigit]
        congr 2
        omega
      · rw [readFraction_padded (by decide) (by decide) (by omega) hdigit, Nat.sub_self, pow_zero,
          Nat.mul_one]

theorem readPair_padded {tens : Nat} (hn : n < 100) (htens : n / 10 ≤ tens) (rest : List Char) :
    readPair tens (padded 2 n ++ rest) = .ok (n, rest) := by
  obtain ⟨a, b, hpadded⟩ := List.length_eq_two.1 (length_padded Nat.two_pos hn)
  have hdigits : ∀ c ∈ [a, b], c.isDigit := fun c hc => isDigit_of_mem_padded (hpadded ▸ hc)
  have ha : a.isDigit := hdigits a (by simp)
  have hb : b.isDigit := hdigits b (by simp)
  have hvalue : 10 * digitValue a + digitValue b = n := by
    rw [← ofDigits_padded 2 n, hpadded]
    simp [ofDigits]
  have hbound := Decimal.digitValue_lt hb
  have htens' : ¬ tens < digitValue a := by omega
  rw [hpadded, List.cons_append, List.cons_append, List.nil_append, readPair, ha, hb, hvalue,
    Bool.and_self, if_pos rfl, if_neg htens']

theorem readOffset_print {offset : Int} (hoffset : offset.natAbs < 24 * 60) (rest : List Char) :
    readOffset (printOffset offset ++ rest) = .ok (offset, rest) := by
  have hhours : readPair 9 (padded 2 (offset.natAbs / 60) ++
      ':' :: (padded 2 (offset.natAbs % 60) ++ rest)) =
      .ok (offset.natAbs / 60, ':' :: (padded 2 (offset.natAbs % 60) ++ rest)) :=
    readPair_padded (by omega) (by omega) _
  have hcolon : (':' :: (padded 2 (offset.natAbs % 60) ++ rest)).dropWhile
      (fun c => c == ':' || isSpace c) = padded 2 (offset.natAbs % 60) ++ rest := by
    obtain ⟨c, digits, hpadded, hc⟩ := exists_padded_eq_cons 2 (offset.natAbs % 60)
    have hne : c ≠ ':' := by
      rintro rfl
      cases hc
    simp [hpadded, hne, isSpace_of_isDigit hc]
  have hminutes : readPair 5 (padded 2 (offset.natAbs % 60) ++ rest) =
      .ok (offset.natAbs % 60, rest) :=
    readPair_padded (by omega) (by omega) _
  rw [printOffset, List.append_assoc, List.cons_append, List.cons_append, readOffset]
  by_cases hneg : offset < 0
  · have htotal : -(60 * ((offset.natAbs / 60 : Nat) : Int) + (offset.natAbs % 60 : Nat)) =
        offset := by
      omega
    rw [if_pos hneg, Text.trimLeft_cons (by decide)]
    simp only [bind, Except.bind, Char.reduceEq, if_false, true_or, if_true, hhours, hcolon,
      hminutes, htotal]
  · have htotal : 60 * ((offset.natAbs / 60 : Nat) : Int) + (offset.natAbs % 60 : Nat) =
        offset := by
      omega
    rw [if_neg hneg, Text.trimLeft_cons (by decide)]
    simp only [bind, Except.bind, if_true, hhours, hcolon, hminutes, htotal, Bool.false_eq_true,
      if_false]

end EnvSettings.Temporal
