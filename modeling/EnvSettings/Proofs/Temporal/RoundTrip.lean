import Mathlib
import EnvSettings.Proofs.Conversion
import EnvSettings.Proofs.Temporal.Printed
import EnvSettings.Proofs.Temporal.Reading
import EnvSettings.Proofs.TypeExpr

namespace EnvSettings.Temporal

open Item

variable {s rest : List Char} {item : Item} {items : List Item} {f g : Fields}

/-- The items of a pattern are read one after the other. -/
theorem readItems_cons (hread : item.read f s = .ok (g, rest)) (items : List Item) :
    readItems (item :: items) f s = readItems items g rest := by
  rw [readItems, hread]
  rfl

theorem readItems_letter (c : Char) (items : List Item) (f : Fields) (s : List Char) :
    readItems (letter c :: items) f (c :: s) = readItems items f s :=
  readItems_cons (by rw [Item.read, if_pos rfl]) items

/-- A printed date is read by the pattern of dates. -/
theorem readItems_date {d : Date} (hd : d.valid) (items : List Item) (f : Fields)
    (rest : List Char) :
    readItems (datePattern ++ items) f (d.print ++ rest) =
      readItems items { f with year := d.year, month := d.month, day := d.day } rest := by
  simp only [Date.valid, Bool.and_eq_true, decide_eq_true_eq] at hd
  obtain ⟨⟨⟨⟨⟨hfirst, hlast⟩, hmonth⟩, hmonth'⟩, hday⟩, hday'⟩ := hd
  have hdays : daysInMonth d.year d.month ≤ 31 := by
    unfold daysInMonth
    split_ifs <;> omega
  rw [datePattern, Date.print]
  simp only [List.cons_append, List.nil_append, List.append_assoc]
  rw [readItems_cons (by rw [Item.read, readYear_print hfirst hlast (by simp)]; rfl),
    readItems_letter,
    readItems_cons (by rw [Item.read, readTwoDigits_padded hmonth hmonth' (by omega)]; rfl),
    readItems_letter,
    readItems_cons (by rw [Item.read, readTwoDigits_padded hday (by omega) (by omega)]; rfl)]

/-- Hours and minutes are read from a printed time, and the rest is left. -/
theorem readItems_minutes {t : Time} (ht : t.valid) (items : List Item) (f : Fields)
    (rest : List Char) :
    readItems (minutePattern ++ items) f (t.print ++ rest) =
      readItems items { f with hour := t.hour, minute := t.minute }
        (':' :: padded 2 t.second ++ printFraction t.nano ++ rest) := by
  obtain ⟨hhour, hminute, -, -⟩ := t.valid_iff.1 ht
  rw [minutePattern, Time.print]
  simp only [List.cons_append, List.nil_append, List.append_assoc]
  rw [readItems_cons (by
      rw [Item.read, readTwoDigits_padded (Nat.zero_le _) (by omega) (by omega)]; rfl),
    readItems_letter,
    readItems_cons (by
      rw [Item.read, readTwoDigits_padded (Nat.zero_le _) (by omega) (by omega)]; rfl)]

/-- A printed time is read by the pattern with seconds, down to its fraction. -/
theorem readItems_time {t : Time} (ht : t.valid) (items : List Item) (f : Fields) (rest : List Char)
    (hrest : ∀ c ∈ rest.head?, c.isDigit = false ∧ c ≠ '.') :
    readItems (secondPattern ++ items) f (t.print ++ rest) =
      readItems items
        { f with hour := t.hour, minute := t.minute, second := t.second, nano := t.nano } rest := by
  obtain ⟨-, -, hsecond, hnano⟩ := t.valid_iff.1 ht
  rw [secondPattern, List.append_assoc, readItems_minutes ht]
  simp only [List.cons_append, List.nil_append, List.append_assoc]
  rw [readItems_letter,
    readItems_cons (by
      rw [Item.read, readTwoDigits_padded (Nat.zero_le _) hsecond (by omega)]; rfl),
    readItems_cons (by rw [Item.read, readFraction_print hnano hrest]; rfl)]

theorem isDigit_or_of_mem_print_date {d : Date} {c : Char} (hc : c ∈ d.print) :
    c.isDigit ∨ c ∈ ['+', '-'] := by
  have hpadded : ∀ width n, c ∈ padded width n → c.isDigit := fun _ _ => isDigit_of_mem_padded
  unfold Date.print printYear at hc
  simp only [List.mem_append, List.mem_cons] at hc ⊢
  split_ifs at hc <;> grind

theorem isDigit_or_of_mem_print_time {t : Time} {c : Char} (hc : c ∈ t.print) :
    c.isDigit ∨ c ∈ [':', '.'] := by
  have hpadded : ∀ width n, c ∈ padded width n → c.isDigit := fun _ _ => isDigit_of_mem_padded
  unfold Time.print printFraction at hc
  simp only [List.mem_append, List.mem_cons] at hc ⊢
  split_ifs at hc <;> grind

theorem isDigit_or_of_mem_printOffset {offset : Int} {c : Char} (hc : c ∈ printOffset offset) :
    c.isDigit ∨ c ∈ ['+', '-', ':'] := by
  have hpadded : ∀ width n, c ∈ padded width n → c.isDigit := fun _ _ => isDigit_of_mem_padded
  unfold printOffset at hc
  simp only [List.mem_append, List.mem_cons] at hc ⊢
  split_ifs at hc <;> grind

theorem isDigit_or_of_mem_print {t : Timestamp} {c : Char} (hc : c ∈ t.print) :
    c.isDigit ∨ c ∈ ['+', '-', ':', '.', 'T'] := by
  rw [Timestamp.print, List.mem_append, List.mem_cons] at hc
  obtain hc | rfl | hc := hc
  · have := isDigit_or_of_mem_print_date hc
    grind
  · simp
  · have := isDigit_or_of_mem_print_time hc
    grind

/-- The characters of a printed timestamp with a zone. -/
theorem isDigit_or_of_mem_print_zoned {z : ZonedTimestamp} {c : Char} (hc : c ∈ z.print) :
    c.isDigit ∨ c ∈ ['+', '-', ':', '.', 'T'] := by
  obtain hc | hc := List.mem_append.1 hc
  · exact isDigit_or_of_mem_print hc
  · have := isDigit_or_of_mem_printOffset hc
    grind

theorem trim_printed (hs : ∀ c ∈ s, c.isDigit ∨ c ∈ ['+', '-', ':', '.', 'T']) :
    Text.trim s = s := by
  have hmarks : ∀ c ∈ ['+', '-', ':', '.', 'T'], Text.isSpace c = false := by
    simp [Text.isSpace]
  have hvisible : ∀ c ∈ s, Text.isSpace c = false := fun c hc =>
    (hs c hc).elim isSpace_of_isDigit (hmarks c)
  exact Text.trim_eq_self (fun c hc => hvisible c (List.mem_of_mem_head? hc))
    (fun c hc => hvisible c (List.mem_of_getLast? hc))

/-- A text without a character does not end with it. -/
theorem dropTail?_of_not_mem {c : Char} {tail : List Char} (hc : c ∈ tail) (hs : c ∉ s) :
    Text.dropTail? tail s = none := by
  rw [Text.dropTail?, Option.map_eq_none_iff, Option.eq_none_iff_forall_ne_some]
  intro rest hdrop
  rw [Text.dropLead?_eq_some_iff] at hdrop
  have hmem : c ∈ s.reverse := hdrop ▸ List.mem_append_left rest (List.mem_reverse.2 hc)
  exact hs (List.mem_reverse.1 hmem)

theorem spellUtc_printed (hs : ∀ c ∈ s, c.isDigit ∨ c ∈ ['+', '-', ':', '.', 'T']) :
    spellUtc s = s := by
  have hmark : 'Z' ∉ s := fun hmem => by
    have := hs 'Z' hmem
    revert this
    decide
  simp only [spellUtc, trim_printed hs, dropTail?_of_not_mem List.mem_cons_self hmark]

/-- A printed date is read back. -/
theorem readDate_print {d : Date} (hd : d.valid) : readDate d.print = .ok d := by
  have htrim : Text.trim d.print = d.print := trim_printed fun c hc => by
    have := isDigit_or_of_mem_print_date hc
    grind
  have hitems := readItems_date hd [] {} []
  rw [List.append_nil, List.append_nil] at hitems
  rw [readDate, htrim, readPattern, hitems]
  simp [readItems, Fields.date, hd, bind, Except.bind]

/-- A printed time is read back. -/
theorem readTime_print {t : Time} (ht : t.valid) : readTime t.print = .ok t := by
  have hspell : spellUtc t.print = t.print := spellUtc_printed fun c hc => by
    have := isDigit_or_of_mem_print_time hc
    grind
  have hsign : '+' ∉ t.print ∧ '-' ∉ t.print := by
    constructor <;> exact fun hmem => absurd (isDigit_or_of_mem_print_time hmem) (by decide)
  have hitems := readItems_time ht [] {} [] (by simp)
  rw [List.append_nil, List.append_nil] at hitems
  have hpattern : readPattern secondPattern t.print =
      .ok { hour := t.hour, minute := t.minute, second := t.second, nano := t.nano } := by
    rw [readPattern, hitems]
    rfl
  have hutc : Text.dropTail? "+00:00".toList t.print = none :=
    dropTail?_of_not_mem (by decide) hsign.1
  have hutc' : Text.dropTail? "-00:00".toList t.print = none :=
    dropTail?_of_not_mem (by decide) hsign.2
  simp only [readTime, hspell, hutc, hutc', Option.getD_none, List.contains_eq_mem,
    decide_eq_false hsign.1, decide_eq_false hsign.2, Bool.or_self, Bool.false_eq_true, if_false,
    hpattern, Fields.time]

/-- A timestamp with an offset is read by the first pattern. -/
theorem readTimestamp_print_zoned {z : ZonedTimestamp} (hz : z.Valid) :
    readTimestamp z.print = .ok (.zoned z) := by
  have hsign : ∀ c ∈ (printOffset z.offset).head?, c.isDigit = false ∧ c ≠ '.' := by
    rw [printOffset]
    split_ifs <;> simp
  have hoffset := readOffset_print hz.offset []
  rw [List.append_nil] at hoffset
  have hitems : readItems (datePattern ++ letter 'T' :: secondPattern ++ [offset]) {} z.print =
      .ok (⟨z.clock.date.year, z.clock.date.month, z.clock.date.day, z.clock.time.hour,
        z.clock.time.minute, z.clock.time.second, z.clock.time.nano, z.offset⟩, []) := by
    rw [ZonedTimestamp.print, Timestamp.print, List.append_assoc, List.append_assoc,
      readItems_date hz.clock.date, List.cons_append, List.cons_append, readItems_letter,
      readItems_time hz.clock.time _ _ _ hsign,
      readItems_cons (by rw [Item.read, hoffset]; rfl)]
    rfl
  have hzoned : readPattern (datePattern ++ letter 'T' :: secondPattern ++ [offset]) z.print >>=
      Fields.zoned = .ok z := by
    rw [readPattern, hitems]
    simp [Fields.zoned, Fields.timestamp, Fields.date, Fields.time, hz.clock.date, hz.offset,
      hz.range, bind, Except.bind, Except.map]
  have hfirst : zonedPatterns.findSome?
      (fun p => (readPattern p z.print >>= Fields.zoned).toOption) = some z := by
    rw [zonedPatterns, List.findSome?_cons, hzoned]
    rfl
  simp only [readTimestamp, spellUtc_printed fun _ => isDigit_or_of_mem_print_zoned, hfirst]

/-- No pattern with an offset reads a timestamp that has none: behind the minutes or the seconds no
sign follows, and white space is no letter. -/
theorem readPattern_zoned_print {t : Timestamp} (ht : t.Valid) {p : List Item}
    (hp : p ∈ zonedPatterns) : ∃ fault, readPattern p t.print = .error fault := by
  have hletter : ∀ items f, readItems (space :: minutePattern ++ items) f ('T' :: t.time.print) =
      .error .invalid := fun items f => by
    rw [List.cons_append, readItems_cons (by rw [Item.read, Text.trimLeft_cons (by decide)]),
      minutePattern, List.cons_append, readItems, Item.read,
      readTwoDigits_cons (by decide) (by decide)]
    rfl
  have htime := fun f => readItems_time ht.time [offset] f [] (by simp)
  have hminutes := fun f => readItems_minutes ht.time [offset] f []
  simp only [List.append_nil] at htime hminutes
  simp only [zonedPatterns, List.mem_cons, List.not_mem_nil, or_false] at hp
  obtain rfl | rfl | rfl | rfl := hp
  · refine ⟨.tooShort, ?_⟩
    rw [readPattern, Timestamp.print, List.append_assoc, readItems_date ht.date, List.cons_append,
      readItems_letter, htime]
    rfl
  · refine ⟨.invalid, ?_⟩
    rw [readPattern, Timestamp.print, List.append_assoc, readItems_date ht.date, secondPattern,
      List.cons_append, List.append_assoc, ← List.cons_append, hletter]
    rfl
  · refine ⟨.invalid, ?_⟩
    rw [readPattern, Timestamp.print, List.append_assoc, readItems_date ht.date, List.cons_append,
      readItems_letter, hminutes]
    rfl
  · refine ⟨.invalid, ?_⟩
    rw [readPattern, Timestamp.print, List.append_assoc, readItems_date ht.date, hletter]
    rfl

/-- A timestamp without an offset is read by the first pattern that asks for none. -/
theorem readTimestamp_print {t : Timestamp} (ht : t.Valid) :
    readTimestamp t.print = .ok (.plain t) := by
  have hitems : readItems (datePattern ++ letter 'T' :: secondPattern) {} t.print =
      .ok (⟨t.date.year, t.date.month, t.date.day, t.time.hour, t.time.minute, t.time.second,
        t.time.nano, 0⟩, []) := by
    have htime := readItems_time ht.time []
      { year := t.date.year, month := t.date.month, day := t.date.day } [] (by simp)
    rw [List.append_nil, List.append_nil] at htime
    rw [Timestamp.print, readItems_date ht.date, readItems_letter, htime]
    rfl
  have hplain : readPattern (datePattern ++ letter 'T' :: secondPattern) t.print >>=
      Fields.timestamp = .ok t := by
    rw [readPattern, hitems]
    simp [Fields.timestamp, Fields.date, Fields.time, ht.date, bind, Except.bind, Except.map]
  have hfirst : timestampPatterns.findSome?
      (fun p => (readPattern p t.print >>= Fields.timestamp).toOption) = some t := by
    rw [timestampPatterns, List.findSome?_cons, hplain]
    rfl
  have hnone : zonedPatterns.findSome?
      (fun p => (readPattern p t.print >>= Fields.zoned).toOption) = none := by
    rw [List.findSome?_eq_none_iff]
    intro p hp
    obtain ⟨fault, hfault⟩ := readPattern_zoned_print ht hp
    rw [hfault]
    rfl
  simp only [readTimestamp, spellUtc_printed fun _ => isDigit_or_of_mem_print, hnone, hfirst]

end EnvSettings.Temporal

namespace EnvSettings.Coerce

open Temporal

variable {c : Catalog} {levels : Nat} {info : FieldInfo}

/-- A date, time of day or timestamp that a text was coerced to has a text in JSON, and that text is
coerced to the same value again. -/
theorem value_of_toJson_temporal {t : FieldType} {raw path : String} {v : Value}
    (ht : t = .date ∨ t = .time ∨ t = .datetime)
    (hv : value c levels info t raw path = .ok v) :
    ∃ text, v.toJson = .string text ∧
      ∀ path', value c levels info t text path' = .ok v := by
  have hunion : ∀ members, t ≠ .union members := by
    rintro members rfl
    simp at ht
  rw [value_eq_member hunion, member_eq_ok_iff] at hv
  obtain ⟨hscalar, hcheck⟩ := hv
  suffices hback : ∃ text, v.toJson = .string text ∧ scalar c levels t text = .ok v by
    obtain ⟨text, hjson, htext⟩ := hback
    refine ⟨text, hjson, fun path' => ?_⟩
    rw [value_eq_member hunion, member_eq_ok_iff]
    exact ⟨htext, hcheck⟩
  obtain rfl | rfl | rfl := ht
  · obtain ⟨d, hd, rfl⟩ := reading_eq_ok_iff.1 hscalar
    refine ⟨String.ofList d.print, by rw [Value.toJson], ?_⟩
    rw [scalar, String.toList_ofList, readDate_print (valid_of_readDate hd)]
    rfl
  · obtain ⟨t, ht, rfl⟩ := reading_eq_ok_iff.1 hscalar
    refine ⟨String.ofList t.print, by rw [Value.toJson], ?_⟩
    rw [scalar, String.toList_ofList, readTime_print (valid_of_readTime ht)]
    rfl
  · obtain ⟨w, hw, rfl⟩ := reading_eq_ok_iff.1 hscalar
    obtain ⟨timestamp, htimestamp, rfl⟩ := map_eq_ok_iff.1 hw
    cases timestamp with
    | zoned z =>
      refine ⟨String.ofList z.print, by rw [id, Value.toJson], ?_⟩
      rw [scalar, String.toList_ofList, readTimestampValue,
        readTimestamp_print_zoned (valid_of_readTimestamp_zoned htimestamp)]
      rfl
    | plain t =>
      refine ⟨String.ofList t.print, by rw [id, Value.toJson], ?_⟩
      rw [scalar, String.toList_ofList, readTimestampValue,
        readTimestamp_print (valid_of_readTimestamp_plain htimestamp)]
      rfl

deriving instance DecidableEq for AnyTimestamp

/-- A leap second with an offset, in a year before the first. -/
theorem value_of_toJson_leapSecond :
    ∃ text, Value.toJson (.zoned ⟨⟨⟨-5, 6, 30⟩, ⟨23, 59, 60, 120000000⟩⟩, -330⟩) = .string text ∧
      value {} 1 {} .datetime text "at" =
        .ok (.zoned ⟨⟨⟨-5, 6, 30⟩, ⟨23, 59, 60, 120000000⟩⟩, -330⟩) := by
  have hread : readTimestamp " -0005-06-30 23:59:60.12 -0530 ".toList =
      .ok (.zoned ⟨⟨⟨-5, 6, 30⟩, ⟨23, 59, 60, 120000000⟩⟩, -330⟩) := by decide +kernel
  have hvalue : value {} 1 {} .datetime " -0005-06-30 23:59:60.12 -0530 " "at" =
      .ok (.zoned ⟨⟨⟨-5, 6, 30⟩, ⟨23, 59, 60, 120000000⟩⟩, -330⟩) := by
    rw [value_eq_member (by simp), member_eq_ok_iff, scalar, readTimestampValue, hread]
    exact ⟨rfl, rfl⟩
  obtain ⟨text, hjson, hback⟩ := value_of_toJson_temporal (.inr (.inr rfl)) hvalue
  exact ⟨text, hjson, hback "at"⟩

end EnvSettings.Coerce
