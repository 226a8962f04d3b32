import EnvSettings.Dotenv.Declaration
import EnvSettings.Proofs.Dotenv.Pieces
import EnvSettings.Proofs.Text
import EnvSettings.Proofs.Text.Trim

namespace EnvSettings.Dotenv

/-- The ways to write a name. One that is spelled like the keyword needs the keyword, or no blanks
behind it. -/
inductive Names (name : List Char) : List Char → Prop
  | plain {lead pad : List Char} (hlead : Text.Blank lead) (hpad : Text.Blank pad)
      (hplain : name ≠ "export".toList ∨ pad = []) : Names name (lead ++ (name ++ pad))
  | exported {lead gap pad : List Char} (hlead : Text.Blank lead) (hgap : Text.Blank gap)
      (hpad : Text.Blank pad) : Names name (lead ++ ("export ".toList ++ (gap ++ (name ++ pad))))

theorem Names.self (name : List Char) : Names name name := by
  have hplain : Names name ([] ++ (name ++ [])) := .plain Text.blank_nil Text.blank_nil (.inr rfl)
  rwa [List.nil_append, List.append_nil] at hplain

/-- A character of names is a visible one of ASCII. -/
theorem isNameChar_visible {c : Char} (hchar : isNameChar c = true) :
    0x21 ≤ c.toNat ∧ c.toNat ≤ 0x7e := by
  rw [isNameChar, Bool.or_eq_true] at hchar
  rcases hchar with halnum | hline
  · have := Text.toNat_of_isAlphanum halnum
    omega
  · rw [beq_iff_eq] at hline
    rw [hline]
    decide

theorem isSpace_of_isNameChar {c : Char} (hchar : isNameChar c = true) :
    Text.isSpace c = false := by
  obtain ⟨hlow, hhigh⟩ := isNameChar_visible hchar
  exact Text.isSpace_eq_false hlow hhigh

theorem isSpace_of_mem_isName {name : List Char} {c : Char} (hname : isName name = true)
    (hmem : c ∈ name) : Text.isSpace c = false :=
  isSpace_of_isNameChar (isNameChar_of_mem_isName hname hmem)

/-- A name keeps what stands behind it from losing white space. -/
theorem trimLeft_isName_append {name : List Char} (hname : isName name = true) (s : List Char) :
    Text.trimLeft (name ++ s) = name ++ s := by
  cases name with
  | nil => cases hname
  | cons c name =>
    have hc : Text.isSpace c = false := isSpace_of_mem_isName hname List.mem_cons_self
    exact Text.trimLeft_eq_self (by simp [hc])

/-- Blanks behind a name go. -/
theorem trim_isName_append {name pad : List Char} (hname : isName name = true)
    (hpad : Text.Blank pad) : Text.trim (name ++ pad) = name := by
  rw [Text.trim, trimLeft_isName_append hname, Text.trimRight_append_blank name hpad]
  exact Text.trimRight_eq_self fun _ hlast =>
    isSpace_of_mem_isName hname (List.mem_of_mem_getLast? hlast)

/-- A line that begins with a name begins with the keyword only if it is the name, and a space
stands behind it. -/
theorem dropLead?_export {name s : List Char} (hname : isName name = true)
    (hend : ∀ c ∈ s.head?, isNameChar c = false)
    (hplain : name ≠ "export".toList ∨ s.head? ≠ some ' ') :
    Text.dropLead? "export ".toList (name ++ s) = none := by
  have htake : ∀ {word t : List Char}, (∀ c ∈ word, isNameChar c = true) →
      (∀ c ∈ t.head?, isNameChar c = false) → (word ++ t).takeWhile isNameChar = word := by
    intro word t hword ht
    rw [List.takeWhile_append_of_pos hword]
    cases t <;> simp_all
  cases hlead : Text.dropLead? "export ".toList (name ++ s) with
  | none => rfl
  | some rest =>
    exfalso
    -- Both are the longest run of name characters that the line begins with.
    have hline : name ++ s = "export".toList ++ ' ' :: rest := by
      rw [Text.dropLead?_eq_some_iff.1 hlead]
      rfl
    have hexport : "export".toList.all isNameChar = true := by decide
    have hkeyword : name = "export".toList := by
      rw [← htake (fun c => isNameChar_of_mem_isName hname) hend, hline]
      exact htake (List.all_eq_true.1 hexport) fun c hc => by
        cases hc
        decide
    subst hkeyword
    have hs : s = ' ' :: rest := List.append_cancel_left hline
    exact hplain.elim (fun hne => hne rfl) fun hne => hne (by rw [hs]; rfl)

/-- What a line assigns is what stands behind the keyword, if the line begins with it. -/
theorem ofTrimmed_of_entry {line name pad value : List Char} (hname : isName name = true)
    (hpad : Text.Blank pad) (hstart : line ≠ [] ∧ line.head? ≠ some '#')
    (hentry : (Text.dropLead? "export ".toList line).elim line Text.trimLeft =
      name ++ (pad ++ '=' :: value)) :
    Statement.ofTrimmed line = .assign name (Text.trimLeft value) := by
  have hequals : '=' ∉ name ++ pad := by
    rw [List.mem_append]
    rintro (hmem | hmem)
    · exact not_mem_isName hname (by decide) hmem
    · exact absurd (hpad _ hmem) (by decide)
  have hnonempty : name.isEmpty = false := by
    cases name with
    | nil => cases hname
    | cons c name => rfl
  have hcut : Text.cutAt? '=' (name ++ (pad ++ '=' :: value)) = some (name ++ pad, value) := by
    rw [← List.append_assoc, Text.cutAt?_append hequals]
  unfold Statement.ofTrimmed
  cases hlead : Text.dropLead? "export ".toList line <;>
    simp_all [trim_isName_append hname hpad]

/-- A line that begins with a name, but not with the keyword. -/
theorem ofTrimmed_plain {name pad : List Char} (hname : isName name = true)
    (hpad : Text.Blank pad) (hplain : name ≠ "export".toList ∨ pad = []) (value : List Char) :
    Statement.ofTrimmed (name ++ (pad ++ '=' :: value)) = .assign name (Text.trimLeft value) := by
  have hend : ∀ c ∈ (pad ++ '=' :: value).head?, isNameChar c = false := by
    intro c hc
    rw [Bool.eq_false_iff]
    intro hchar
    cases pad with
    | nil =>
      cases hc
      exact absurd hchar (by decide)
    | cons b pad =>
      have hspace : Text.isSpace c = true := hpad c (by simp_all)
      simp [isSpace_of_isNameChar hchar] at hspace
  have hkeyword : name ≠ "export".toList ∨ (pad ++ '=' :: value).head? ≠ some ' ' :=
    hplain.imp_right fun hnil => by simp [hnil]
  apply ofTrimmed_of_entry hname hpad
  · cases name with
    | nil => cases hname
    | cons c name =>
      have hsign : '#' ∉ c :: name := not_mem_isName hname (by decide)
      rw [List.mem_cons, not_or] at hsign
      simpa using Ne.symm hsign.1
  · rw [dropLead?_export hname hend hkeyword]
    rfl

/-- A line that begins with the keyword. -/
theorem ofTrimmed_exported {name gap pad : List Char} (hname : isName name = true)
    (hgap : Text.Blank gap) (hpad : Text.Blank pad) (value : List Char) :
    Statement.ofTrimmed ("export ".toList ++ (gap ++ (name ++ (pad ++ '=' :: value)))) =
      .assign name (Text.trimLeft value) := by
  have hlead : Text.dropLead? "export ".toList
      ("export ".toList ++ (gap ++ (name ++ (pad ++ '=' :: value)))) =
        some (gap ++ (name ++ (pad ++ '=' :: value))) :=
    Text.dropLead?_eq_some_iff.2 rfl
  apply ofTrimmed_of_entry hname hpad
  · exact ⟨by simp, by simp⟩
  · rw [hlead, Option.elim_some, Text.trimLeft_blank_append hgap, trimLeft_isName_append hname]

/-- However the name is written, the line assigns what stands behind the equals sign. -/
theorem Names.ofTrimmed {name names : List Char} (hname : isName name = true)
    (hnames : Names name names) (s : List Char) :
    Statement.ofTrimmed (Text.trim (names ++ '=' :: s)) =
      .assign name (Text.trimLeft (Text.trimRight s)) := by
  have htrim : ∀ {lead body : List Char}, Text.Blank lead →
      Text.trimLeft (body ++ '=' :: s) = body ++ '=' :: s →
      Text.trim (lead ++ body ++ '=' :: s) = body ++ '=' :: Text.trimRight s := by
    intro lead body hlead hbody
    rw [Text.trim, List.append_assoc, Text.trimLeft_blank_append hlead, hbody,
      Text.trimRight_append_cons (by decide)]
  cases hnames with
  | plain hlead hpad hplain =>
    rw [htrim hlead (by rw [List.append_assoc, trimLeft_isName_append hname]), List.append_assoc,
      ofTrimmed_plain hname hpad hplain]
  | exported hlead hgap hpad =>
    rw [htrim hlead (Text.trimLeft_cons (c := 'e') (by decide) _)]
    simpa using ofTrimmed_exported hname hgap hpad (Text.trimRight s)

end EnvSettings.Dotenv
