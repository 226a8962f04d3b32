import Mathlib
import EnvSettings.Text.Case

namespace EnvSettings.Text

/-- The upper case of an ASCII character is the one of ASCII. -/
theorem upperChar_of_ascii {c : Char} (hc : c.toNat < 0x80) : upperChar c = [c.toUpper] :=
  if_pos hc

/-- The lower case of an ASCII character is the one of ASCII. -/
theorem lowerChar_of_ascii {c : Char} (hc : c.toNat < 0x80) : lowerChar c = [c.toLower] :=
  if_pos hc

theorem toNat_toUpper_lt {c : Char} (hc : c.toNat < 0x80) : c.toUpper.toNat < 0x80 := by
  by_cases hlower : c.isLower
  · rw [Char.toUpper_eq_of_isLower hlower, Char.toNat_ofNat]
    split <;> omega
  · rwa [Char.toUpper_eq_of_not_isLower hlower]

/-- Below the lower-case letters nothing has an upper case. -/
theorem toUpper_of_le {c : Char} (hc : c.toNat ≤ 0x60) : c.toUpper = c := by
  refine Char.toUpper_eq_of_not_isLower ?_
  have hval : c.toNat = c.val.toNat := rfl
  simp only [Char.isLower, Bool.and_eq_true, decide_eq_true_eq, UInt32.le_iff_toNat_le]
  simp
  omega

namespace CaseRun

/-- The codes that a run leads to, as a run of their own. -/
def landing (run : CaseRun) : CaseRun where
  first := Int.toNat (run.first + run.offset)
  last := Int.toNat (run.last + run.offset)
  step := run.step
  offset := 0

/-- All codes of the run are odd, or all of them even. -/
def oneParity (run : CaseRun) : Bool :=
  run.step % 2 == 0 || run.first == run.last

/-- The ranges or the parities of two runs show that they share no code. -/
def apart (run other : CaseRun) : Bool :=
  Nat.blt run.last other.first || Nat.blt other.last run.first ||
    run.oneParity && other.oneParity && (run.first + other.first) % 2 == 1

variable {run other : CaseRun} {n : Nat}

/-- A run holds every step from its first to its last character. -/
theorem holds_iff :
    run.holds n = true ↔ run.first ≤ n ∧ n ≤ run.last ∧ run.step ∣ n - run.first := by
  simp [holds, and_assoc, Nat.dvd_iff_mod_eq_zero]

/-- A run that keeps the parity of its first character holds no other. -/
theorem parity_of_holds (hparity : run.oneParity) (hholds : run.holds n) :
    n % 2 = run.first % 2 := by
  obtain ⟨hfirst, hlast, hstep⟩ := holds_iff.1 hholds
  simp only [oneParity, Bool.or_eq_true, beq_iff_eq] at hparity
  obtain heven | hsingle := hparity
  · have htwo : 2 ∣ n - run.first := (Nat.dvd_of_mod_eq_zero heven).trans hstep
    omega
  · omega

/-- Runs that lie apart hold no character in common. -/
theorem not_holds_of_apart (hapart : run.apart other) (hholds : run.holds n) :
    other.holds n = false := by
  rw [← Bool.not_eq_true]
  intro hother
  obtain ⟨hfirst, hlast, -⟩ := holds_iff.1 hholds
  obtain ⟨hfirst', hlast', -⟩ := holds_iff.1 hother
  simp only [apart, Bool.or_eq_true, Bool.and_eq_true, Nat.blt_eq, beq_iff_eq] at hapart
  obtain (habove | hbelow) | ⟨⟨hparity, hparity'⟩, hodd⟩ := hapart
  · omega
  · omega
  · have := parity_of_holds hparity hholds
    have := parity_of_holds hparity' hother
    omega

/-- The characters of a run move to those where it lands. -/
theorem landing_holds (hfirst : 0 ≤ run.first + run.offset) (hholds : run.holds n) :
    run.landing.holds (Int.toNat (n + run.offset)) := by
  obtain ⟨hn, hlast, hstep⟩ := holds_iff.1 hholds
  have hmoved : Int.toNat (n + run.offset) - run.landing.first = n - run.first := by
    simp only [landing]
    omega
  refine holds_iff.2 ⟨?_, ?_, hmoved ▸ hstep⟩
  · simp only [landing]
    omega
  · simp only [landing]
    omega

/-- The ranges of a run show that no code of it has an upper case. -/
def settled (run : CaseRun) : Bool :=
  (0x80 ≤ run.first || run.last ≤ 0x60) && upperRuns.all run.apart &&
    upperExpansions.all fun e => run.apart ⟨e.1, e.1, 1, 0⟩

end CaseRun

/-- A character that no run moves is its own upper case. -/
theorem upperChar_of_settled {run : CaseRun} {n : Nat} (hsettled : run.settled)
    (hholds : run.holds n) : upperChar (Char.ofNat n) = [Char.ofNat n] := by
  have hcode : (Char.ofNat n).toNat = n ∨ (Char.ofNat n).toNat = 0 := by
    rw [Char.toNat_ofNat]
    split
    · exact .inl rfl
    · exact .inr rfl
  by_cases hlow : (Char.ofNat n).toNat ≤ 0x60
  · rw [upperChar_of_ascii (by omega), toUpper_of_le hlow]
  · simp only [CaseRun.settled, Bool.and_eq_true, Bool.or_eq_true, decide_eq_true_eq,
      List.all_eq_true] at hsettled
    obtain ⟨⟨hrange, hruns⟩, hexpansions⟩ := hsettled
    obtain ⟨hfirst, hlast, -⟩ := CaseRun.holds_iff.1 hholds
    have hn : (Char.ofNat n).toNat = n := by omega
    have hlookup : upperExpansions.lookup n = none := by
      refine List.lookup_eq_none_iff.2 fun e hmem => ?_
      have hother := CaseRun.not_holds_of_apart (hexpansions e hmem) hholds
      simp only [CaseRun.holds, Bool.and_eq_false_iff, decide_eq_false_iff_not,
        Nat.mod_one] at hother
      simp at hother ⊢
      omega
    have hfind : upperRuns.find? (·.holds n) = none := by
      refine List.find?_eq_none.2 fun other hmem => ?_
      simp [CaseRun.not_holds_of_apart (hruns other hmem) hholds]
    rw [upperChar, if_neg (by omega), hn, hlookup]
    simp only [mapByRuns, hn, hfind]

/-- Where the runs of the table land, no run moves a character. -/
theorem upperRuns_settled :
    ∀ run ∈ upperRuns, 0 ≤ run.first + run.offset ∧ run.landing.settled := by
  decide +kernel

/-- No run moves a character that others expand to. -/
theorem upperExpansions_settled :
    ∀ n ∈ (upperExpansions.flatMap Prod.snd).dedup, CaseRun.settled ⟨n, n, 1, 0⟩ := by
  decide +kernel

/-- What an upper case is made of has no other upper case. -/
theorem upperChar_of_mem_upperChar {c d : Char} (hmem : d ∈ upperChar c) : upperChar d = [d] := by
  unfold upperChar at hmem
  split at hmem
  · rename_i hc
    rw [List.mem_singleton] at hmem
    rw [hmem, upperChar_of_ascii (toNat_toUpper_lt hc), Char.toUpper_toUpper_eq_toUpper]
  · rename_i hc
    cases hlookup : upperExpansions.lookup c.toNat with
    | some codes =>
      simp only [hlookup] at hmem
      obtain ⟨n, hn, rfl⟩ := List.mem_map.1 hmem
      obtain ⟨before, after, htable, -⟩ := List.lookup_eq_some_iff.1 hlookup
      have hcodes : n ∈ (upperExpansions.flatMap Prod.snd).dedup := by
        rw [List.mem_dedup, htable]
        simp [hn]
      exact upperChar_of_settled (upperExpansions_settled n hcodes)
        (CaseRun.holds_iff.2 ⟨Nat.le_refl n, Nat.le_refl n, Nat.one_dvd _⟩)
    | none =>
      simp only [hlookup, List.mem_singleton] at hmem
      subst hmem
      cases hfind : upperRuns.find? (·.holds c.toNat) with
      | some run =>
        obtain ⟨hfirst, hsettled⟩ := upperRuns_settled run (List.mem_of_find?_eq_some hfind)
        have hheld : run.holds c.toNat :=
          List.find?_some (p := fun other : CaseRun => other.holds c.toNat) hfind
        have hholds := CaseRun.landing_holds hfirst hheld
        simp only [mapByRuns, hfind]
        exact upperChar_of_settled hsettled hholds
      | none =>
        have hself : mapByRuns upperRuns c = c := by simp only [mapByRuns, hfind]
        rw [hself, upperChar, if_neg hc, hlookup]
        simp only [hself]

/-- Upper case is settled. -/
theorem upper_upper (s : String) : upper (upper s) = upper s := by
  have hsettled : ∀ s : List Char, upperCase (upperCase s) = upperCase s := by
    intro s
    rw [upperCase, upperCase, List.flatMap_assoc]
    refine List.flatMap_congr fun c _ => ?_
    rw [List.flatMap_congr fun d hmem => upperChar_of_mem_upperChar hmem]
    exact List.flatMap_singleton' _
  simp [upper, hsettled]

/-- The upper case of joined texts is joined. -/
theorem upperCase_append (s t : List Char) : upperCase (s ++ t) = upperCase s ++ upperCase t := by
  simp [upperCase]

/-- The upper case of joined strings is joined. -/
theorem upper_append (s t : String) : upper (s ++ t) = upper s ++ upper t := by
  simp [upper, upperCase_append, String.ofList_append]

/-- All characters of the text are ASCII. -/
def Ascii (s : String) : Prop :=
  ∀ c ∈ s.toList, c.toNat < 0x80

instance (s : String) : Decidable (Ascii s) :=
  decidable_of_iff (s.toList.all fun c => c.toNat < 0x80) (by simp [Ascii])

/-- ASCII text has its upper case character by character. -/
theorem upperCase_of_ascii {s : List Char} (hs : ∀ c ∈ s, c.toNat < 0x80) :
    upperCase s = s.map Char.toUpper := by
  rw [upperCase, List.flatMap_congr fun c hmem => upperChar_of_ascii (hs c hmem),
    List.map_eq_flatMap]

/-- ASCII text has its lower case character by character. -/
theorem lowerCaseFrom_of_ascii {s : List Char} (hs : ∀ c ∈ s, c.toNat < 0x80)
    (before : List Char) : lowerCaseFrom before s = s.map Char.toLower := by
  induction s generalizing before with
  | nil => rfl
  | cons c s ih =>
    obtain ⟨hc, hs⟩ := List.forall_mem_cons.1 hs
    have hsigma : (c.toNat == 0x3a3) = false := beq_eq_false_iff_ne.2 (by omega)
    rw [lowerCaseFrom, hsigma, lowerChar_of_ascii hc, ih hs]
    rfl

/-- Upper case keeps the lower case of an ASCII text. -/
theorem lower_upper {s : String} (hs : Ascii s) : lower (upper s) = lower s := by
  have hupper : ∀ c ∈ s.toList.map Char.toUpper, c.toNat < 0x80 := by
    intro d hmem
    obtain ⟨c, hc, rfl⟩ := List.mem_map.1 hmem
    exact toNat_toUpper_lt (hs c hc)
  rw [lower, upper, String.toList_ofList, upperCase_of_ascii hs, lowerCase,
    lowerCaseFrom_of_ascii hupper, lower, lowerCase, lowerCaseFrom_of_ascii hs, List.map_map]
  congr 2
  exact funext Char.toLower_toUpper_eq_toLower

theorem upper_eq_empty_iff {s : String} (hs : Ascii s) : upper s = "" ↔ s = "" := by
  rw [upper, upperCase_of_ascii hs]
  simp

end EnvSettings.Text
