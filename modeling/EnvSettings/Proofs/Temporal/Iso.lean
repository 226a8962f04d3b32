import Mathlib
import EnvSettings.Proofs.Decimal
import EnvSettings.Proofs.Text.Split
import EnvSettings.Temporal.Duration

namespace EnvSettings.Temporal

open Decimal (IsUnsigned cutSign readFloat)

variable {s amount number : List Char} {c : Char} {letters : List Char} {units : List IsoUnit}

/-- Numbers with the letters of units behind them, in the order of the letters and each at most
once. -/
inductive Components : List Char → List Char → Prop
  | nil (letters : List Char) : Components letters []
  | skip {letter : Char} {letters s : List Char} (hs : Components letters s) :
    Components (letter :: letters) s
  | take {letter : Char} {letters amount s : List Char} (hamount : IsUnsigned amount)
    (hs : Components letters s) : Components (letter :: letters) (amount ++ letter :: s)

def dateLetters : List Char := ['W', 'D']

def timeLetters : List Char := ['H', 'M', 'S']

/-- What follows the `P` of a duration: components of the date, a `T` with components of the time of
day, or both. -/
inductive IsoBody : List Char → Prop
  | date {date : List Char} (hdate : Components dateLetters date) (hne : date ≠ []) : IsoBody date
  | time {date time : List Char} (hdate : Components dateLetters date)
    (htime : Components timeLetters time) (hne : time ≠ []) : IsoBody (date ++ 'T' :: time)

/-- The texts of ISO 8601 durations, with or without a sign. -/
inductive IsIso : List Char → Prop
  | plain {body : List Char} (hbody : IsoBody body) : IsIso ('P' :: body)
  | signed {sign : Char} {body : List Char} (hsign : sign ∈ ['+', '-']) (hbody : IsoBody body) :
    IsIso (sign :: 'P' :: body)

/-- The characters of numbers. -/
def OfNumber (c : Char) : Prop := c.isDigit ∨ c = '.'

theorem Components.mem (hs : Components letters s) (hc : c ∈ s) : OfNumber c ∨ c ∈ letters := by
  induction hs with
  | nil => cases hc
  | skip hs ih => exact (ih hc).imp_right (List.mem_cons_of_mem _)
  | take hamount hs ih =>
    rw [List.mem_append, List.mem_cons] at hc
    obtain hc | rfl | hc := hc
    · exact .inl (hamount.chars c hc)
    · exact .inr List.mem_cons_self
    · exact (ih hc).imp_right (List.mem_cons_of_mem _)

/-- Digits and points without a letter behind them are no component. -/
theorem Components.eq_nil_of_number (hs : Components letters s) (hnumber : ∀ c ∈ s, OfNumber c)
    (hletters : ∀ c ∈ letters, ¬ OfNumber c) : s = [] := by
  induction hs with
  | nil => rfl
  | skip hs ih => exact ih hnumber fun c hc => hletters c (List.mem_cons_of_mem _ hc)
  | take hamount hs =>
    exact absurd (hnumber _ (by simp)) (hletters _ List.mem_cons_self)

/-- Letters in front may be passed over. -/
theorem Components.append (hs : Components letters s) (passed : List Char) :
    Components (passed ++ letters) s := by
  induction passed with
  | nil => exact hs
  | cons letter passed ih => exact .skip ih

/-- The units that may follow a letter are those behind it. -/
theorem exists_of_findUnit {seconds : Float} {rest : List IsoUnit}
    (hfind : findUnit c units = some (seconds, rest)) :
    ∃ passed, units = passed ++ (c, seconds) :: rest := by
  induction units with
  | nil => cases hfind
  | cons unit units ih =>
    obtain ⟨letter, seconds'⟩ := unit
    rw [findUnit] at hfind
    split at hfind
    · rename_i heq
      obtain ⟨rfl, rfl⟩ := Prod.mk.inj (Option.some.inj hfind)
      exact ⟨[], by rw [heq, List.nil_append]⟩
    · obtain ⟨passed, rfl⟩ := ih hfind
      exact ⟨(letter, seconds') :: passed, rfl⟩

/-- A text has one first character that no number has. -/
theorem eq_of_append_cons {letter : Char} {s' : List Char} (hnumber : ∀ c ∈ number, OfNumber c)
    (hamount : ∀ c ∈ amount, OfNumber c) (hc : ¬ OfNumber c) (hletter : ¬ OfNumber letter)
    (heq : number ++ c :: s = amount ++ letter :: s') : number = amount ∧ c = letter ∧ s = s' := by
  induction number generalizing amount with
  | nil =>
    cases amount with
    | nil => exact ⟨rfl, List.cons.inj heq⟩
    | cons a amount =>
      obtain rfl := (List.cons.inj heq).1
      exact absurd (hamount c List.mem_cons_self) hc
  | cons n number ih =>
    cases amount with
    | nil =>
      obtain rfl := (List.cons.inj heq).1
      exact absurd (hnumber n List.mem_cons_self) hletter
    | cons a amount =>
      obtain ⟨rfl, hrest⟩ := List.cons.inj heq
      obtain ⟨rfl, hend⟩ := ih (fun c hc => hnumber c (List.mem_cons_of_mem _ hc))
        (fun c hc => hamount c (List.mem_cons_of_mem _ hc)) hrest
      exact ⟨rfl, hend⟩

/-- The first letter ends the first number, so it fixes the component. -/
theorem components_append_cons_iff (hnumber : ∀ c ∈ number, OfNumber c) (hc : ¬ OfNumber c)
    (hletters : ∀ letter ∈ units.map Prod.fst, ¬ OfNumber letter) :
    Components (units.map Prod.fst) (number ++ c :: s) ↔
      IsUnsigned number ∧
        ∃ seconds rest, findUnit c units = some (seconds, rest) ∧
          Components (rest.map Prod.fst) s := by
  induction units with
  | nil =>
    refine iff_of_false (fun hs => ?_) (by simp [findUnit])
    generalize hwhole : number ++ c :: s = whole at hs
    cases hs
    simp at hwhole
  | cons unit units ih =>
    obtain ⟨letter, seconds⟩ := unit
    rw [List.map_cons, List.forall_mem_cons] at hletters
    specialize ih hletters.2
    rw [List.map_cons, findUnit]
    constructor
    · intro hs
      generalize hwhole : number ++ c :: s = whole at hs
      cases hs with
      | nil => simp at hwhole
      | skip hs =>
        obtain ⟨hamount, seconds', rest, hfind, hrest⟩ := ih.1 (hwhole ▸ hs)
        refine ⟨hamount, ?_⟩
        split
        · obtain ⟨passed, rfl⟩ := exists_of_findUnit hfind
          refine ⟨seconds, _, rfl, ?_⟩
          rw [List.map_append, List.map_cons, List.append_cons]
          exact hrest.append _
        · exact ⟨seconds', rest, hfind, hrest⟩
      | take hamount hs =>
        obtain ⟨rfl, rfl, rfl⟩ :=
          eq_of_append_cons hnumber hamount.chars hc hletters.1 hwhole
        exact ⟨hamount, seconds, units, if_pos rfl, hs⟩
    · rintro ⟨hamount, seconds', rest, hfind, hrest⟩
      split at hfind
      · rename_i heq
        obtain ⟨rfl, rfl⟩ := Prod.mk.inj (Option.some.inj hfind)
        exact heq ▸ .take hamount hrest
      · exact .skip (ih.2 ⟨hamount, seconds', rest, hfind, hrest⟩)

/-- Summing accepts the components that the pending number and the rest of the text make up. -/
theorem sumUnits_isSome_iff (total : Float) (hnumber : ∀ c ∈ number, OfNumber c)
    (hletters : ∀ letter ∈ units.map Prod.fst, ¬ OfNumber letter) :
    (sumUnits total number units s).isSome ↔
      Components (units.map Prod.fst) (number.reverse ++ s) := by
  have hreverse : ∀ c ∈ number.reverse, OfNumber c := fun c hc =>
    hnumber c (List.mem_reverse.1 hc)
  induction s generalizing total number units with
  | nil =>
    rw [sumUnits, List.append_nil]
    constructor
    · intro hsome
      cases number with
      | nil => exact .nil _
      | cons c number => cases hsome
    · intro hs
      rw [List.reverse_eq_nil_iff.1 (hs.eq_nil_of_number hreverse hletters)]
      rfl
  | cons c s ih =>
    rw [sumUnits]
    split
    · rename_i hc
      rw [Bool.or_eq_true, beq_iff_eq] at hc
      have hnumber' : ∀ b ∈ c :: number, OfNumber b := List.forall_mem_cons.2 ⟨hc, hnumber⟩
      have hpending := ih total hnumber' hletters fun b hb => hnumber' b (List.mem_reverse.1 hb)
      rwa [List.reverse_cons, List.append_assoc, List.singleton_append] at hpending
    · rename_i hc
      rw [Bool.or_eq_true, beq_iff_eq] at hc
      rw [components_append_cons_iff hreverse hc hletters, ← Decimal.readFloat_isOk_iff hreverse]
      split
      · rename_i hfind
        simp [hfind]
      · rename_i seconds rest hfind
        obtain ⟨passed, rfl⟩ := exists_of_findUnit hfind
        have hrest : ∀ letter ∈ rest.map Prod.fst, ¬ OfNumber letter := fun letter hmem =>
          hletters letter (by simp [List.mem_map.1 hmem])
        split
        · rename_i amount hamount
          refine (ih (total + amount * seconds) (List.forall_mem_nil _) hrest
            (List.forall_mem_nil _)).trans ?_
          simp [hfind, hamount, Except.isOk, Except.toBool]
        · rename_i hamount
          simp [hamount, Except.isOk, Except.toBool]

theorem not_mem_of_date (hdate : Components dateLetters s) : 'T' ∉ s := fun hmem => by
  have hmark := hdate.mem hmem
  simp [OfNumber, dateLetters] at hmark

/-- Without a `T` there are components of the date only. -/
theorem isoBody_iff_of_not_mem (hfree : 'T' ∉ s) :
    IsoBody s ↔ Components dateLetters s ∧ s ≠ [] := by
  refine ⟨fun hbody => ?_, fun ⟨hdate, hne⟩ => .date hdate hne⟩
  cases hbody with
  | date hdate hne => exact ⟨hdate, hne⟩
  | time => simp at hfree

/-- The only `T` stands between date and time. -/
theorem isoBody_append_iff {date time : List Char} (hfree : 'T' ∉ date) :
    IsoBody (date ++ 'T' :: time) ↔
      Components dateLetters date ∧ Components timeLetters time ∧ time ≠ [] := by
  refine ⟨fun hbody => ?_, fun ⟨hdate, htime, hne⟩ => .time hdate htime hne⟩
  generalize hwhole : date ++ 'T' :: time = whole at hbody
  cases hbody with
  | date hdate =>
    subst hwhole
    exact absurd (by simp) (not_mem_of_date hdate)
  | time hdate htime hne =>
    have hcut := Text.cutAt?_append hfree time
    rw [hwhole, Text.cutAt?_append (not_mem_of_date hdate)] at hcut
    obtain ⟨rfl, rfl⟩ := Prod.mk.inj (Option.some.inj hcut)
    exact ⟨hdate, htime, hne⟩

theorem isoSeconds?_isSome_iff : (isoSeconds? s).isSome ↔ IsoBody s := by
  have hdate : ∀ date, (sumUnits 0.0 [] dateUnits date).isSome ↔ Components dateLetters date :=
    fun date => sumUnits_isSome_iff 0.0 (List.forall_mem_nil _) (by simp [dateUnits, OfNumber])
  have htime : ∀ time, (sumUnits 0.0 [] timeUnits time).isSome ↔ Components timeLetters time :=
    fun time => sumUnits_isSome_iff 0.0 (List.forall_mem_nil _) (by simp [timeUnits, OfNumber])
  by_cases hmark : 'T' ∈ s
  · obtain ⟨date, time, rfl, hfree⟩ := List.eq_append_cons_of_mem hmark
    rw [isoBody_append_iff hfree, ← hdate, ← htime, isoSeconds?, Text.cutAt?_append hfree]
    cases hdays : sumUnits 0.0 [] dateUnits date with
    | none => simp [hdays]
    | some days =>
      cases hclock : sumUnits 0.0 [] timeUnits time <;> cases time <;> simp [hdays, hclock]
  · have hcut : Text.cutAt? 'T' s = none := by
      rw [Option.eq_none_iff_forall_ne_some]
      rintro ⟨date, time⟩ hsome
      obtain ⟨rfl, -⟩ := Text.cutAt?_eq_some_iff.1 hsome
      simp at hmark
    rw [isoBody_iff_of_not_mem hmark, ← hdate, isoSeconds?, hcut]
    cases s <;> simp

/-- A duration begins with a `P`, perhaps behind a sign. -/
theorem isIso_iff : IsIso s ↔ ∃ body, (cutSign s).2 = 'P' :: body ∧ IsoBody body := by
  constructor
  · rintro (hbody | ⟨hsign, hbody⟩)
    · exact ⟨_, rfl, hbody⟩
    · simp only [List.mem_cons, List.not_mem_nil, or_false] at hsign
      obtain rfl | rfl := hsign <;> exact ⟨_, rfl, hbody⟩
  · rintro ⟨body, hcut, hbody⟩
    unfold cutSign at hcut
    split at hcut <;> obtain rfl := hcut
    · exact .signed (by simp) hbody
    · exact .signed (by simp) hbody
    · exact .plain hbody

theorem ofSeconds_eq_ok_or (x : Float) :
    (∃ d, ofSeconds x = .ok d) ∨ ∃ text, ofSeconds x = .error (.secondsOutOfRange text) := by
  unfold ofSeconds
  extract_lets beyond
  split
  · exact .inr ⟨_, rfl⟩
  · split
    · exact .inr ⟨_, rfl⟩
    · exact .inl ⟨_, rfl⟩

theorem readIso_cases (s : List Char) :
    (IsIso s → (∃ d, readIso s = .ok d) ∨ ∃ text, readIso s = .error (.secondsOutOfRange text)) ∧
      (¬ IsIso s → readIso s = .error (.iso (String.ofList s))) := by
  have hiso : ((Text.dropLead? ['P'] (cutSign s).2).bind isoSeconds?).isSome ↔ IsIso s := by
    rw [isIso_iff]
    constructor
    · intro hsome
      obtain ⟨seconds, hseconds⟩ := Option.isSome_iff_exists.1 hsome
      obtain ⟨body, hlead, hbody⟩ := Option.bind_eq_some_iff.1 hseconds
      exact ⟨body, Text.dropLead?_eq_some_iff.1 hlead,
        isoSeconds?_isSome_iff.1 (Option.isSome_of_eq_some hbody)⟩
    · rintro ⟨body, hlead, hbody⟩
      rw [Text.dropLead?_eq_some_iff.2 hlead]
      exact isoSeconds?_isSome_iff.2 hbody
  rw [← hiso]
  cases hseconds : (Text.dropLead? ['P'] (cutSign s).2).bind isoSeconds? with
  | none => simp [readIso, hseconds]
  | some seconds => simp [readIso, hseconds, ofSeconds_eq_ok_or]

/-- A text with neither a colon nor a plain number of seconds is a duration, perhaps one that is out
of range, exactly if the grammar of ISO 8601 durations has it; every other is refused. -/
theorem readDuration_iso (htrim : Text.trim s = s) (hcolon : ':' ∉ s)
    (hseconds : isDecimalSeconds s = false) :
    ((∃ d, readDuration s = .ok d) ∨ (∃ text, readDuration s = .error (.secondsOutOfRange text)) ↔
      IsIso s) ∧
    (¬ IsIso s →
      readDuration s = .error (if s.isEmpty then .empty else .iso (String.ofList s))) := by
  have hread : readDuration s = if s.isEmpty then .error .empty else readIso s := by
    simp [readDuration, htrim, hcolon, hseconds]
  rw [hread]
  cases s with
  | nil => exact ⟨iff_of_false (by simp) nofun, fun _ => rfl⟩
  | cons c s =>
    obtain ⟨haccept, hrefuse⟩ := readIso_cases (c :: s)
    refine ⟨⟨fun hresult => ?_, haccept⟩, hrefuse⟩
    by_contra hnot
    simp [hrefuse hnot] at hresult

/-- Units may be skipped and a fraction may begin with its point, but something has to follow the
`T`. -/
theorem readDuration_iso_weeks :
    ((∃ d, readDuration "-P2WT1H.5S".toList = .ok d) ∨
        ∃ text, readDuration "-P2WT1H.5S".toList = .error (.secondsOutOfRange text)) ∧
      readDuration "P2WT".toList = .error (.iso "P2WT") := by
  have hdate : Components dateLetters (['2'] ++ 'W' :: []) :=
    .take ⟨by simp, by decide, by simp⟩ (.nil _)
  have htime : Components timeLetters (['1'] ++ 'H' :: (['.', '5'] ++ 'S' :: [])) :=
    .take ⟨by simp, by decide, by simp⟩ (.skip
      (.take ⟨by simp, by decide, by simp⟩ (.nil _)))
  have hiso : IsIso "-P2WT1H.5S".toList := .signed (by decide) (.time hdate htime (by decide))
  have hnone : ¬ IsIso "P2WT".toList := by
    rw [isIso_iff]
    rintro ⟨body, hcut, hbody⟩
    obtain rfl : "2WT".toList = body := (List.cons.inj hcut).2
    exact ((isoBody_append_iff (by decide : 'T' ∉ ['2', 'W'])).1 hbody).2.2 rfl
  exact ⟨(readDuration_iso (by decide) (by decide) (by decide)).1.2 hiso,
    (readDuration_iso (by decide) (by decide) (by decide)).2 hnone⟩

end EnvSettings.Temporal
