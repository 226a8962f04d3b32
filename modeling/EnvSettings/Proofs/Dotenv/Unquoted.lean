import EnvSettings.Proofs.Dotenv.Declarations
import EnvSettings.Proofs.Dotenv.Opening

namespace EnvSettings.Dotenv

/-- A value that needs no quotes: it begins and ends with visible characters, the first of which is
neither a quote nor a comment sign, and no comment sign follows white space. -/
structure Bare (value : List Char) : Prop where
  first : ∀ c ∈ value.head?, Text.isSpace c = false ∧ Quote.ofChar? c = none ∧ c ≠ '#'
  last : ∀ c ∈ value.getLast?, Text.isSpace c = false
  unmarked : value.IsChain fun c d => d = '#' → Text.isSpace c = false

/-- What may follow a value on its line: blanks, or a comment, which blanks keep apart from the
value. -/
inductive Trails (value : List Char) : List Char → Prop
  | blank {pad : List Char} (hpad : Text.Blank pad) : Trails value pad
  | comment {pad : List Char} (text : List Char) (hpad : Text.Blank pad)
      (hapart : value ≠ [] → pad ≠ []) : Trails value (pad ++ '#' :: text)

/-- The comment search passes a text without a comment sign. -/
theorem cutComment_eq_none {s : List Char} (hsign : '#' ∉ s) (previous : Option Char) :
    cutComment previous s = none := by
  induction s generalizing previous with
  | nil => rfl
  | cons c s ih =>
    rw [List.mem_cons, not_or] at hsign
    simp [cutComment, Ne.symm hsign.1, ih hsign.2]

/-- The search goes on behind a text without a comment, and looks back at its last character. -/
theorem cutComment_append {previous : Option Char} {s : List Char}
    (hs : cutComment previous s = none) (t : List Char) :
    cutComment previous (s ++ t) = (cutComment (s.getLast?.or previous) t).map (s ++ ·) := by
  induction s generalizing previous with
  | nil => simp
  | cons c s ih =>
    rw [cutComment] at hs
    split at hs
    · cases hs
    · rename_i hsign
      rw [Option.map_eq_none_iff] at hs
      rw [List.cons_append, cutComment, if_neg hsign, ih hs, List.getLast?_cons]
      cases hlast : s.getLast? <;> simp [Function.comp_def]

/-- A number sign behind white space begins a comment. -/
theorem cutComment_comment {previous : Option Char} (hspace : previous.all Text.isSpace = true)
    (text : List Char) : cutComment previous ('#' :: text) = some [] := by
  simp [cutComment, hspace]

/-- Behind a character, a text is without a comment if no comment sign follows white space. -/
theorem cutComment_some_eq_none {c : Char} {s : List Char}
    (hchain : (c :: s).IsChain fun c d => d = '#' → Text.isSpace c = false) :
    cutComment (some c) s = none := by
  induction s generalizing c with
  | nil => rfl
  | cons d s ih =>
    obtain ⟨hsign, hrest⟩ := List.isChain_cons_cons.1 hchain
    have hkept : ¬ (d = '#' && (some c).all Text.isSpace) = true := by simpa using hsign
    rw [cutComment, if_neg hkept, ih hrest, Option.map_none]

namespace Bare

variable {value : List Char}

theorem cutComment_eq_none (hbare : Bare value) : cutComment none value = none := by
  cases value with
  | nil => rfl
  | cons c value =>
    have hkept : ¬ (c = '#' && (none : Option Char).all Text.isSpace) = true := by
      simpa using (hbare.first c rfl).2.2
    rw [cutComment, if_neg hkept, cutComment_some_eq_none hbare.unmarked, Option.map_none]

/-- A bare value is taken as it is. -/
theorem plainValue_eq_self (hbare : Bare value) : plainValue value = value := by
  rw [plainValue, hbare.cutComment_eq_none]
  exact Text.trim_eq_self (fun c hfirst => (hbare.first c hfirst).1) hbare.last

/-- A comment behind blanks is cut off, and so are the blanks. -/
theorem plainValue_comment (hbare : Bare value) {pad : List Char} (hpad : Text.Blank pad)
    (hne : pad ≠ []) (text : List Char) :
    plainValue (value ++ (pad ++ '#' :: text)) = value := by
  have hsign : '#' ∉ pad := fun hmem => absurd (hpad _ hmem) (by decide)
  have hspace : (pad.getLast?.or (value.getLast?.or none)).all Text.isSpace = true := by
    obtain ⟨c, hlast⟩ := Option.isSome_iff_exists.1 (List.getLast?_isSome.2 hne)
    simpa [hlast] using hpad c (List.mem_of_getLast? hlast)
  have hcut : cutComment none (value ++ (pad ++ '#' :: text)) = some (value ++ (pad ++ [])) := by
    rw [cutComment_append hbare.cutComment_eq_none,
      cutComment_append (Dotenv.cutComment_eq_none hsign _), cutComment_comment hspace]
    rfl
  rw [plainValue, hcut]
  dsimp only
  rw [List.append_nil, Text.trimRight_append_blank value hpad]
  exact Text.trimRight_eq_self hbare.last

theorem head?_bind (hbare : Bare value) : value.head?.bind Quote.ofChar? = none := by
  cases value with
  | nil => rfl
  | cons c value => exact (hbare.first c rfl).2.1

theorem trimLeft_append (hbare : Bare value) (hne : value ≠ []) (s : List Char) :
    Text.trimLeft (value ++ s) = value ++ s := by
  cases value with
  | nil => exact absurd rfl hne
  | cons c value => exact Text.trimLeft_cons (hbare.first c rfl).1 (value ++ s)

/-- Nothing but the value is left between blanks. -/
theorem trim_blank {gap pad : List Char} (hbare : Bare value) (hgap : Text.Blank gap)
    (hpad : Text.Blank pad) :
    Text.trimLeft (Text.trimRight (gap ++ (value ++ pad))) = value := by
  rw [← List.append_assoc, Text.trimRight_append_blank _ hpad]
  by_cases hvalue : value = []
  · rw [hvalue, List.append_nil, Text.trimRight_blank hgap]
    rfl
  · have hlast : ∀ c ∈ (gap ++ value).getLast?, Text.isSpace c = false := by
      rw [List.getLast?_append_of_ne_nil gap hvalue]
      exact hbare.last
    rw [Text.trimRight_eq_self hlast, Text.trimLeft_blank_append hgap]
    exact Text.trimLeft_eq_self fun c hfirst => (hbare.first c hfirst).1

/-- What a line leaves of the text behind the equals sign begins with no quote, and its value is the
one that was written there. -/
theorem written {gap trailer : List Char} (hbare : Bare value) (hgap : Text.Blank gap)
    (htrailer : Trails value trailer) :
    let written := Text.trimLeft (Text.trimRight (gap ++ (value ++ trailer)))
    written.head?.bind Quote.ofChar? = none ∧ plainValue written = value := by
  cases htrailer with
  | blank hpad =>
    rw [hbare.trim_blank hgap hpad]
    exact ⟨hbare.head?_bind, hbare.plainValue_eq_self⟩
  | @comment pad text hpad hapart =>
    have hright : Text.trimRight (gap ++ (value ++ (pad ++ '#' :: text))) =
        gap ++ (value ++ (pad ++ '#' :: Text.trimRight text)) := by
      have hsign := Text.trimRight_append_cons (c := '#') (by decide) (gap ++ (value ++ pad)) text
      simpa using hsign
    rw [hright, Text.trimLeft_blank_append hgap]
    -- Without a value, the comment sign itself begins what is left.
    by_cases hvalue : value = []
    · rw [hvalue, List.nil_append, Text.trimLeft_blank_append hpad, Text.trimLeft_cons (by decide)]
      refine ⟨rfl, ?_⟩
      rw [plainValue, cutComment_comment rfl]
      rfl
    · rw [hbare.trimLeft_append hvalue]
      refine ⟨?_, hbare.plainValue_comment hpad (hapart hvalue) _⟩
      rw [List.head?_append_of_ne_nil value hvalue]
      exact hbare.head?_bind

end Bare

variable {key value names gap trailer : List Char}

/-- An unquoted value is assigned as it stands, whatever blanks surround it. -/
theorem Scan.line_unquoted {origin : String} {mode : Mode} {scan : Scan} {n : Nat}
    (hpending : scan.pending = none) (hfresh : mode = .strict → scan.declares key = false)
    (hname : isName key = true) (hnames : Names key names) (hgap : Text.Blank gap)
    (hbare : Bare value) (htrailer : Trails value trailer) :
    scan.line origin mode n (names ++ '=' :: (gap ++ (value ++ trailer))) =
      .ok (scan.declare key value n) := by
  obtain ⟨hquote, hplain⟩ := hbare.written hgap htrailer
  have hline := hnames.ofTrimmed hname (gap ++ (value ++ trailer))
  rw [line_of_step (.plain hpending hline hfresh hquote), hplain]

/-- An unquoted assignment declares its name with its value, and nothing else is declared. -/
theorem declarations_unquoted (origin : String) (mode : Mode) (hname : isName key = true)
    (hnames : Names key names) (hgap : Text.Blank gap) (hbare : Bare value)
    (htrailer : Trails value trailer) (hline : '\n' ∉ names ++ '=' :: (gap ++ (value ++ trailer))) :
    declarations origin mode (Text.lines (names ++ '=' :: (gap ++ (value ++ trailer)))) =
      .ok { declarations := [⟨String.ofList key, String.ofList value, 1⟩] } := by
  have hlines : Text.lines (names ++ '=' :: (gap ++ (value ++ trailer))) =
      [names ++ '=' :: (gap ++ (value ++ trailer))] :=
    Text.lines_of_not_mem hline (by simp)
  refine declarations_eq_ok_iff.2 ⟨Scan.declare {} key value 1, ?_, rfl⟩
  rw [hlines, Scan.lines_cons,
    Scan.line_unquoted rfl (fun _ => rfl) hname hnames hgap hbare htrailer]
  rfl

/-- White space of all kinds may stand around the parts, and the value may have quotes, equals signs
and comment signs of its own. -/
theorem declarations_unquoted_padded :
    let value := "a=\"b\"#c \u3000'd'".toList
    isName "HOST".toList = true ∧ Names "HOST".toList "\u00a0export \u2003HOST\t".toList ∧
      Text.Blank " \u2028".toList ∧ Bare value ∧ Trails value "\t# it's = \"e\" ".toList ∧
      declarations ".env" .strict (Text.lines
          "\u00a0export \u2003HOST\t= \u2028a=\"b\"#c \u3000'd'\t# it's = \"e\" ".toList) =
        .ok { declarations := [⟨"HOST", "a=\"b\"#c \u3000'd'", 1⟩] } := by
  intro value
  have hname : isName "HOST".toList = true := by decide
  have hpad : Text.Blank "\t".toList := by decide
  have hlead : Text.Blank "\u00a0".toList := by decide
  have hbetween : Text.Blank "\u2003".toList := by decide
  have hnames : Names "HOST".toList "\u00a0export \u2003HOST\t".toList :=
    .exported hlead hbetween hpad
  have hgap : Text.Blank " \u2028".toList := by decide
  have hbare : Bare value := by
    refine ⟨fun c hc => ?_, fun c hc => ?_, by decide⟩
    · obtain rfl : 'a' = c := Option.some.inj hc
      decide
    · obtain rfl : '\'' = c := Option.some.inj hc
      decide
  have htrailer : Trails value "\t# it's = \"e\" ".toList :=
    .comment " it's = \"e\" ".toList hpad (by decide)
  exact ⟨hname, hnames, hgap, hbare, htrailer,
    declarations_unquoted ".env" .strict hname hnames hgap hbare htrailer (by decide)⟩

end EnvSettings.Dotenv
