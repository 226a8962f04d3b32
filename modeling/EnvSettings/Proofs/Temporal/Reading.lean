import Mathlib
import EnvSettings.Proofs.Decimal
import EnvSettings.Proofs.Except
import EnvSettings.Temporal.Reader

namespace EnvSettings.Temporal

open Decimal (ofDigits)

variable {s rest : List Char} {n : Nat} {f g : Fields}

/-- The ranges of a time of day; the second may be a leap second. -/
theorem Time.valid_iff (t : Time) :
    t.valid ↔ t.hour < 24 ∧ t.minute < 60 ∧ t.second ≤ 60 ∧ t.nano < nanosPerSecond := by
  simp only [Time.valid, Bool.and_eq_true, decide_eq_true_eq, and_assoc]

/-- A timestamp whose date and time of day exist. -/
structure Timestamp.Valid (t : Timestamp) : Prop where
  date : t.date.valid
  time : t.time.valid

/-- A zoned timestamp that exists, less than a day from universal time and within its years. -/
structure ZonedTimestamp.Valid (z : ZonedTimestamp) : Prop where
  clock : z.clock.Valid
  offset : z.offset.natAbs < 24 * 60
  range : z.inRange

/-- A number that is read is the one that some digits in front denote. -/
theorem exists_of_readNumber {width : Nat} (hread : readNumber width s = .ok (n, rest)) :
    ∃ digits, s = digits ++ rest ∧ digits.length ≤ width ∧ (∀ c ∈ digits, c.isDigit) ∧
      n = ofDigits digits := by
  rw [readNumber] at hread
  split at hread
  · cases hread
  · obtain ⟨rfl, rfl⟩ := Prod.mk.inj (Except.ok.inj hread)
    have hlead : (s.take width).takeWhile Char.isDigit <+: s :=
      (List.takeWhile_prefix _).trans (List.take_prefix width s)
    refine ⟨_, ?_, ?_, fun _ => List.mem_takeWhile_imp, rfl⟩
    · exact (List.prefix_append_drop hlead)
    · exact (List.takeWhile_prefix _).length_le.trans (List.length_take_le width s)

theorem le_of_readTwoDigits {least greatest : Nat}
    (hread : readTwoDigits least greatest s = .ok (n, rest)) : n ≤ greatest := by
  obtain ⟨⟨n', rest'⟩, -, hbounds⟩ := bind_eq_ok_iff.1 hread
  dsimp only at hbounds
  split at hbounds
  · cases hbounds
  · obtain ⟨rfl, rfl⟩ := Prod.mk.inj (Except.ok.inj hbounds)
    omega

/-- A fraction that is read is less than a second. -/
theorem lt_of_readFraction (hread : readFraction s = .ok (n, rest)) : n < nanosPerSecond := by
  unfold readFraction at hread
  split at hread
  · obtain ⟨⟨n', rest'⟩, hnumber, heq⟩ := bind_eq_ok_iff.1 hread
    obtain ⟨digits, rfl, hlength, hdigits, rfl⟩ := exists_of_readNumber hnumber
    obtain ⟨rfl, -⟩ := Prod.mk.inj (Except.ok.inj heq)
    have hlt := Decimal.ofDigits_lt hdigits
    have hsum : digits.length + (9 - digits.length) = 9 := by omega
    rw [List.length_append, Nat.add_sub_cancel]
    calc ofDigits digits * 10 ^ (9 - digits.length)
        < 10 ^ digits.length * 10 ^ (9 - digits.length) :=
          Nat.mul_lt_mul_of_pos_right hlt (Nat.pow_pos (by decide))
      _ = nanosPerSecond := by rw [← pow_add, hsum]; rfl
  · obtain ⟨rfl, -⟩ := Prod.mk.inj (Except.ok.inj hread)
    decide

/-- Reading one element of a pattern keeps the time of day within a day. -/
theorem Item.valid_of_read {item : Item} (hf : f.time.valid)
    (hread : item.read f s = .ok (g, rest)) : g.time.valid := by
  rw [Time.valid_iff] at hf ⊢
  obtain ⟨hhour, hminute, hsecond, hnano⟩ := hf
  cases item with
  | hour =>
    obtain ⟨⟨n, s'⟩, hn, heq⟩ := map_eq_ok_iff.1 hread
    obtain ⟨rfl, -⟩ := Prod.mk.inj heq
    exact ⟨Nat.lt_succ_of_le (le_of_readTwoDigits hn), hminute, hsecond, hnano⟩
  | minute =>
    obtain ⟨⟨n, s'⟩, hn, heq⟩ := map_eq_ok_iff.1 hread
    obtain ⟨rfl, -⟩ := Prod.mk.inj heq
    exact ⟨hhour, Nat.lt_succ_of_le (le_of_readTwoDigits hn), hsecond, hnano⟩
  | second =>
    obtain ⟨⟨n, s'⟩, hn, heq⟩ := map_eq_ok_iff.1 hread
    obtain ⟨rfl, -⟩ := Prod.mk.inj heq
    exact ⟨hhour, hminute, le_of_readTwoDigits hn, hnano⟩
  | fraction =>
    obtain ⟨⟨n, s'⟩, hn, heq⟩ := map_eq_ok_iff.1 hread
    obtain ⟨rfl, -⟩ := Prod.mk.inj heq
    exact ⟨hhour, hminute, hsecond, lt_of_readFraction hn⟩
  | year | month | day | offset =>
    obtain ⟨⟨n, s'⟩, -, heq⟩ := map_eq_ok_iff.1 hread
    obtain ⟨rfl, -⟩ := Prod.mk.inj heq
    exact ⟨hhour, hminute, hsecond, hnano⟩
  | letter c =>
    cases s with
    | nil => cases hread
    | cons d s =>
      rw [Item.read] at hread
      split at hread
      · obtain ⟨rfl, -⟩ := Prod.mk.inj (Except.ok.inj hread)
        exact ⟨hhour, hminute, hsecond, hnano⟩
      · cases hread
  | space =>
    obtain ⟨rfl, -⟩ := Prod.mk.inj (Except.ok.inj hread)
    exact ⟨hhour, hminute, hsecond, hnano⟩

/-- Reading the items of a pattern keeps the time valid. -/
theorem valid_of_readItems {items : List Item} (hf : f.time.valid)
    (hread : readItems items f s = .ok (g, rest)) : g.time.valid := by
  induction items generalizing f s with
  | nil =>
    obtain ⟨rfl, -⟩ := Prod.mk.inj (Except.ok.inj hread)
    exact hf
  | cons item items ih =>
    obtain ⟨⟨f', s'⟩, hitem, hitems⟩ := bind_eq_ok_iff.1 hread
    exact ih (Item.valid_of_read hf hitem) hitems

theorem valid_of_readPattern {items : List Item} (hread : readPattern items s = .ok f) :
    f.time.valid := by
  obtain ⟨⟨f', rest⟩, hitems, hend⟩ := bind_eq_ok_iff.1 hread
  dsimp only at hend
  split at hend
  · obtain rfl := Except.ok.inj hend
    exact valid_of_readItems (by decide) hitems
  · cases hend

theorem Fields.valid_of_date {d : Date} (hdate : f.date = .ok d) : d.valid := by
  rw [Fields.date] at hdate
  split at hdate
  · obtain rfl := Except.ok.inj hdate
    assumption
  · cases hdate

/-- Fields that make a timestamp make a valid one. -/
theorem Fields.valid_of_timestamp {t : Timestamp} (hf : f.time.valid)
    (htimestamp : f.timestamp = .ok t) : t.Valid := by
  obtain ⟨d, hdate, rfl⟩ := map_eq_ok_iff.1 htimestamp
  exact ⟨Fields.valid_of_date hdate, hf⟩

/-- Fields that make a timestamp with a zone make a valid one. -/
theorem Fields.valid_of_zoned {z : ZonedTimestamp} (hf : f.time.valid)
    (hzoned : f.zoned = .ok z) : z.Valid := by
  obtain ⟨t, htimestamp, hrange⟩ := bind_eq_ok_iff.1 hzoned
  dsimp only at hrange
  split at hrange
  · rename_i hoffset
    rw [Bool.and_eq_true, decide_eq_true_eq] at hoffset
    obtain rfl := Except.ok.inj hrange
    exact ⟨Fields.valid_of_timestamp hf htimestamp, hoffset.1, hoffset.2⟩
  · cases hrange

theorem valid_of_readDate {d : Date} (hread : readDate s = .ok d) : d.valid := by
  obtain ⟨f, -, hdate⟩ := bind_eq_ok_iff.1 hread
  exact Fields.valid_of_date hdate

theorem valid_of_readTime {t : Time} (hread : readTime s = .ok t) : t.valid := by
  unfold readTime at hread
  extract_lets spelled naive at hread
  split at hread
  · cases hread
  · split at hread
    · rename_i hpattern
      obtain rfl := Except.ok.inj hread
      exact valid_of_readPattern hpattern
    · split at hread
      · rename_i hpattern
        obtain rfl := Except.ok.inj hread
        exact valid_of_readPattern hpattern
      · cases hread

theorem valid_of_readTimestamp_plain {t : Timestamp} (hread : readTimestamp s = .ok (.plain t)) :
    t.Valid := by
  unfold readTimestamp at hread
  dsimp only at hread
  split at hread
  · cases hread
  · rename_i t' _ hplain
    obtain rfl := AnyTimestamp.plain.inj (Except.ok.inj hread)
    obtain ⟨items, -, hpattern⟩ := List.exists_of_findSome?_eq_some hplain
    obtain ⟨f, hfields, htimestamp⟩ := bind_eq_ok_iff.1 (toOption_eq_some_iff.1 hpattern)
    exact Fields.valid_of_timestamp (valid_of_readPattern hfields) htimestamp
  · split at hread
    · rename_i d hdate
      obtain rfl := AnyTimestamp.plain.inj (Except.ok.inj hread)
      obtain ⟨f, -, hdate⟩ := bind_eq_ok_iff.1 hdate
      exact ⟨Fields.valid_of_date hdate, rfl⟩
    · cases hread

/-- A timestamp that is read with a zone is valid. -/
theorem valid_of_readTimestamp_zoned {z : ZonedTimestamp}
    (hread : readTimestamp s = .ok (.zoned z)) : z.Valid := by
  unfold readTimestamp at hread
  dsimp only at hread
  split at hread
  · rename_i z' hzoned
    obtain rfl := AnyTimestamp.zoned.inj (Except.ok.inj hread)
    obtain ⟨items, -, hpattern⟩ := List.exists_of_findSome?_eq_some hzoned
    obtain ⟨f, hfields, hz⟩ := bind_eq_ok_iff.1 (toOption_eq_some_iff.1 hpattern)
    exact Fields.valid_of_zoned (valid_of_readPattern hfields) hz
  · cases hread
  · split at hread <;> cases hread

end EnvSettings.Temporal
